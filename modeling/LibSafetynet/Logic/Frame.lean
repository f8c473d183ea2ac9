import LibSafetynet.Logic.Prog

/-!
# What a program leaves alone

Properties of a whole program that are read off its text, rule by rule.

- `Keeps P m`: from a state in `P` every run of `m` ends in `P`, also one that stops.
  `Preserves P m` asks it of the runs that return.
- `WriteOnly put m`: `m` never reads the register that `put` writes. Its runs from
  states that differ in the register only are alike, and either leave the register
  alone or all put the same value into it (`WriteOnly.sets_iff`).
-/

namespace LibSafetynet.Logic

namespace Prog

variable {ρ ε σ τ α β κ : Type}

/-! ## Properties that are kept -/

/-- Every run of `m` that starts in `P` ends in `P`. -/
def Keeps (P : σ → Prop) (m : Prog ρ ε σ α) : Prop := ∀ r s, P s → P (m r s).state

namespace Keeps

variable {P : σ → Prop} {m : Prog ρ ε σ α}

theorem pure (a : α) : Keeps P (Pure.pure a : Prog ρ ε σ α) := fun _ _ h => h

theorem ask : Keeps P (Prog.ask : Prog ρ ε σ ρ) := fun _ _ h => h

theorem get : Keeps P (Prog.get : Prog ρ ε σ σ) := fun _ _ h => h

theorem stop (e : ε) : Keeps P (Prog.stop e : Prog ρ ε σ α) := fun _ _ h => h

theorem modify {f : σ → σ} (hf : ∀ s, P s → P (f s)) :
    Keeps P (Prog.modify f : Prog ρ ε σ Unit) := fun _ s h => hf s h

theorem bind {f : α → Prog ρ ε σ β} (hm : Keeps P m) (hf : ∀ a, Keeps P (f a)) :
    Keeps P (m >>= f) := by
  intro r s hs
  have hmid := hm r s hs
  rw [run_bind]
  cases hrun : m r s with
  | done a s' =>
    rw [hrun] at hmid
    exact hf a r s' hmid
  | stop e s' =>
    rw [hrun] at hmid
    exact hmid

theorem ite {n : Prog ρ ε σ α} {c : Prop} [Decidable c] (hm : Keeps P m) (hn : Keeps P n) :
    Keeps P (if c then m else n) := by
  by_cases hc : c
  · rw [if_pos hc]
    exact hm
  · rw [if_neg hc]
    exact hn

theorem when {n : Prog ρ ε σ Unit} {c : Prop} [Decidable c] (hn : Keeps P n) :
    Keeps P (Prog.when c n) := ite hn (pure ())

/-- A program on a component, when `P` is about that component. -/
theorem zoom {proj : σ → τ} {embed : τ → σ → σ} {n : Prog ρ ε τ α} {P' : τ → Prop}
    (hn : Keeps P' n) (hproj : ∀ s, P s → P' (proj s))
    (hembed : ∀ s t, P s → P' t → P (embed t s)) : Keeps P (Prog.zoom proj embed n) := by
  intro r s hs
  have hmid := hn r (proj s) (hproj s hs)
  rw [Prog.zoom]
  cases hrun : n r (proj s) with
  | done a t =>
    rw [hrun] at hmid
    exact hembed s t hs hmid
  | stop e t =>
    rw [hrun] at hmid
    exact hembed s t hs hmid

/-- A program on a component that `P` does not look at. -/
theorem zoom_other {proj : σ → τ} {embed : τ → σ → σ} {n : Prog ρ ε τ α}
    (hembed : ∀ s t, P s → P (embed t s)) : Keeps P (Prog.zoom proj embed n) := by
  have hn : Keeps (fun _ : τ => True) n := fun _ _ _ => trivial
  exact zoom hn (fun _ _ => trivial) fun s t hs _ => hembed s t hs

/-- For the programs whose values matter: the property through each run's `wp`. -/
theorem iff_wp : Keeps P m ↔ ∀ r s, P s → wp m r (fun _ => P) (fun _ => P) s := by
  refine forall_congr' fun r => forall_congr' fun s => imp_congr_right fun _ => ?_
  unfold wp
  cases m r s with
  | done a s' => exact Iff.rfl
  | stop e s' => exact Iff.rfl

end Keeps

/-! ## Properties that completed runs keep -/

/-- Every run of `m` that starts in `P` and returns ends in `P`. -/
def Preserves (P : σ → Prop) (m : Prog ρ ε σ α) : Prop := ∀ r s, P s → wlp m r (fun _ => P) s

namespace Preserves

variable {P : σ → Prop} {m : Prog ρ ε σ α}

theorem of_keeps (h : Keeps P m) : Preserves P m := fun r s hs =>
  (Keeps.iff_wp.mp h r s hs).mono (fun _ _ h' => h') fun _ _ _ => trivial

theorem bind {f : α → Prog ρ ε σ β} (hm : Preserves P m) (hf : ∀ a, Preserves P (f a)) :
    Preserves P (m >>= f) := by
  intro r s hs
  rw [wlp, wp_bind]
  exact (hm r s hs).imp fun a s' hs' => hf a r s' hs'

theorem ite {n : Prog ρ ε σ α} {c : Prop} [Decidable c] (hm : Preserves P m)
    (hn : Preserves P n) : Preserves P (if c then m else n) := by
  intro r s hs
  rw [wlp, wp_ite]
  exact ⟨fun _ => hm r s hs, fun _ => hn r s hs⟩

/-- A program on a component, when `P` is about that component. -/
theorem zoom {proj : σ → τ} {embed : τ → σ → σ} {n : Prog ρ ε τ α} {P' : τ → Prop}
    (hn : Preserves P' n) (hproj : ∀ s, P s → P' (proj s))
    (hembed : ∀ s t, P s → P' t → P (embed t s)) : Preserves P (Prog.zoom proj embed n) := by
  intro r s hs
  rw [wlp, wp_zoom]
  exact (hn r (proj s) (hproj s hs)).imp fun _ t ht => hembed s t hs ht

end Preserves

/-! ## Registers that are never read -/

/-- `m` does not read the register that `put` writes. -/
def WriteOnly (put : κ → σ → σ) (m : Prog ρ ε σ α) : Prop :=
  ∀ r s, (∀ k, m r (put k s) = (m r s).map id (put k)) ∨ ∃ o, ∀ k, m r (put k s) = o

namespace WriteOnly

variable {put : κ → σ → σ} {m : Prog ρ ε σ α}

/-- A program that has nothing to do with the register. -/
theorem of_blind (h : ∀ r s k, m r (put k s) = (m r s).map id (put k)) : WriteOnly put m :=
  fun r s => Or.inl fun k => h r s k

theorem pure (a : α) : WriteOnly put (Pure.pure a : Prog ρ ε σ α) := of_blind fun _ _ _ => rfl

theorem ask : WriteOnly put (Prog.ask : Prog ρ ε σ ρ) := of_blind fun _ _ _ => rfl

/-- Writing the register. -/
theorem write {f : σ → σ} (hf : ∀ s k, f (put k s) = f s) :
    WriteOnly put (Prog.modify f : Prog ρ ε σ Unit) := by
  intro r s
  refine Or.inr ⟨.done () (f s), fun k => ?_⟩
  exact congrArg (Outcome.done ()) (hf s k)

theorem bind {f : α → Prog ρ ε σ β} (hm : WriteOnly put m) (hf : ∀ a, WriteOnly put (f a)) :
    WriteOnly put (m >>= f) := by
  intro r s
  rcases hm r s with hblind | ⟨o, ho⟩
  · cases hrun : m r s with
    | done a s' =>
      have hstep : ∀ k, (m >>= f) r (put k s) = f a r (put k s') := by
        intro k
        rw [run_bind, hblind k, hrun]
        rfl
      rw [run_bind_done hrun]
      rcases hf a r s' with hblind' | ⟨o, ho⟩
      · exact Or.inl fun k => (hstep k).trans (hblind' k)
      · exact Or.inr ⟨o, fun k => (hstep k).trans (ho k)⟩
    | stop e s' =>
      refine Or.inl fun k => ?_
      rw [run_bind, hblind k, hrun, run_bind_stop hrun]
      rfl
  · -- from the write on, the runs are the same run
    cases o with
    | done a s' => exact Or.inr ⟨f a r s', fun k => run_bind_done (ho k)⟩
    | stop e s' => exact Or.inr ⟨.stop e s', fun k => run_bind_stop (ho k)⟩

theorem ite {n : Prog ρ ε σ α} {c : Prop} [Decidable c] (hm : WriteOnly put m)
    (hn : WriteOnly put n) : WriteOnly put (if c then m else n) := by
  by_cases hc : c
  · rw [if_pos hc]
    exact hm
  · rw [if_neg hc]
    exact hn

/-- A program on another component. -/
theorem zoom {proj : σ → τ} {embed : τ → σ → σ} {n : Prog ρ ε τ α}
    (hproj : ∀ s k, proj (put k s) = proj s)
    (hembed : ∀ s k t, embed t (put k s) = put k (embed t s)) :
    WriteOnly put (Prog.zoom proj embed n) :=
  of_blind fun _ s k => zoom_map (f := id) (Outcome.map_id_id _).symm (hproj s k) (hembed s k)

end WriteOnly

/-- Whatever the register held before, the run ends with the same content. -/
def Sets (put : κ → σ → σ) (read : σ → κ) (m : Prog ρ ε σ α) (r : ρ) (s : σ) : Prop :=
  ∃ k', ∀ k, read (m r (put k s)).state = k'

/-- The run of a program that does not read the register leaves the register alone,
or it is the same run whatever the register holds. -/
theorem WriteOnly.blind_or_sets {put : κ → σ → σ} {read : σ → κ} {m : Prog ρ ε σ α}
    (hm : WriteOnly put m) (hput : ∀ s, put (read s) s = s) (hread : ∀ s k, read (put k s) = k)
    (hne : ∀ k : κ, ∃ k', k' ≠ k) (r : ρ) (s : σ) :
    ¬ Sets put read m r s ∧ (∀ k, m r (put k s) = (m r s).map id (put k)) ∨
      Sets put read m r s ∧ ∀ k, m r (put k s) = m r s := by
  rcases hm r s with hblind | ⟨o, ho⟩
  · refine Or.inl ⟨?_, hblind⟩
    rintro ⟨k₀, hsets⟩
    obtain ⟨k, hk⟩ := hne k₀
    refine hk (Eq.trans ?_ (hsets k))
    rw [hblind k]
    cases m r s with
    | done a s' => exact (hread s' k).symm
    | stop e s' => exact (hread s' k).symm
  · have hsame : ∀ k, m r (put k s) = m r s := by
      intro k
      have hs := ho (read s)
      rw [hput] at hs
      rw [ho k, hs]
    exact Or.inr ⟨⟨read (m r s).state, fun k => by rw [hsame k]⟩, hsame⟩

end Prog

end LibSafetynet.Logic
