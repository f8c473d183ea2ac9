import Mathlib.Logic.Basic

/-!
# Runs of a labelled system

A system is a partial step function: `step l s` is the state after the action
labelled `l` completes from `s`, and `none` if it does not complete. A run is a
list of labels; `Along` asks a side condition of each step, stated about the
label and the state *before* the step. `run_invariant` is the one induction every
"in each reachable state" result uses; `run_tally` is its counting form, for
quantities that drift by one at each step of a kind. `Reaches` is for the runs that
one step of a larger system is made of.
-/

namespace LibSafetynet.Logic

variable {ι σ : Type} (step : ι → σ → Option σ)

/-- The state after performing the labels in order. -/
def run : List ι → σ → Option σ
  | [], s => some s
  | l :: ls, s => (step l s).bind (run ls)

/-- Every step of the run is taken from a state where `ok` holds of its label. -/
def Along (ok : ι → σ → Prop) : List ι → σ → Prop
  | [], _ => True
  | l :: ls, s => ok l s ∧ ∀ s', step l s = some s' → Along ok ls s'

/-- Whether a given run meets a condition can be computed. -/
instance Along.decidable (ok : ι → σ → Prop) [∀ l s, Decidable (ok l s)] :
    ∀ (ls : List ι) (s : σ), Decidable (Along step ok ls s)
  | [], _ => isTrue trivial
  | l :: ls, s =>
    have : ∀ s', Decidable (Along step ok ls s') := Along.decidable ok ls
    inferInstanceAs (Decidable (ok l s ∧ ∀ s' ∈ step l s, Along step ok ls s'))

@[simp] theorem run_nil (s : σ) : run step [] s = some s := rfl

theorem run_cons (l : ι) (ls : List ι) (s : σ) :
    run step (l :: ls) s = (step l s).bind (run step ls) := rfl

theorem run_cons_eq_some {l : ι} {ls : List ι} {s s'' : σ} :
    run step (l :: ls) s = some s'' ↔ ∃ s', step l s = some s' ∧ run step ls s' = some s'' := by
  rw [run_cons, Option.bind_eq_some_iff]

theorem run_append (ls ls' : List ι) (s : σ) :
    run step (ls ++ ls') s = (run step ls s).bind (run step ls') := by
  induction ls generalizing s with
  | nil => rfl
  | cons l ls ih =>
    rw [List.cons_append, run_cons, run_cons]
    cases step l s with
    | none => rfl
    | some s' => exact ih s'

variable {step}

theorem Along.mono {ok ok' : ι → σ → Prop} (himp : ∀ l s, ok l s → ok' l s) {ls : List ι} {s : σ}
    (h : Along step ok ls s) : Along step ok' ls s := by
  induction ls generalizing s with
  | nil => trivial
  | cons l ls ih => exact ⟨himp l s h.1, fun s' hs => ih (h.2 s' hs)⟩

theorem Along.and {ok ok' : ι → σ → Prop} {ls : List ι} {s : σ} (h : Along step ok ls s)
    (h' : Along step ok' ls s) : Along step (fun l s => ok l s ∧ ok' l s) ls s := by
  induction ls generalizing s with
  | nil => trivial
  | cons l ls ih => exact ⟨⟨h.1, h'.1⟩, fun s' hs => ih (h.2 s' hs) (h'.2 s' hs)⟩

/-- Side conditions that always hold cost nothing. -/
theorem Along.of_forall {ok : ι → σ → Prop} {ls : List ι} (h : ∀ l ∈ ls, ∀ s, ok l s) (s : σ) :
    Along step ok ls s := by
  induction ls generalizing s with
  | nil => trivial
  | cons l ls ih =>
    exact ⟨h l List.mem_cons_self s,
      fun s' _ => ih (fun l' hl' => h l' (List.mem_cons_of_mem l hl')) s'⟩

/-- A run in two parts. -/
theorem Along.append {ok : ι → σ → Prop} {ls ls' : List ι} {s : σ} (h : Along step ok ls s)
    (h' : ∀ s', run step ls s = some s' → Along step ok ls' s') : Along step ok (ls ++ ls') s := by
  induction ls generalizing s with
  | nil => exact h' s rfl
  | cons l ls ih =>
    refine ⟨h.1, fun s₁ h₁ => ih (h.2 s₁ h₁) fun s' hs' => h' s' ?_⟩
    exact (run_cons_eq_some step).mpr ⟨s₁, h₁, hs'⟩

/-- **Run induction**: what every allowed step preserves, every allowed run preserves. -/
theorem run_invariant {P : ι → σ → Prop} {I : σ → Prop}
    (hstep : ∀ l s s', I s → P l s → step l s = some s' → I s') {ls : List ι} {s s' : σ}
    (h0 : I s) (hok : Along step P ls s) (hrun : run step ls s = some s') : I s' := by
  induction ls generalizing s with
  | nil =>
    obtain rfl : s = s' := by simpa using hrun
    exact h0
  | cons l ls ih =>
    obtain ⟨s₁, h₁, hrest⟩ := (run_cons_eq_some step).mp hrun
    exact ih (hstep l s s₁ h0 hok.1 h₁) (hok.2 s₁ h₁) hrest

/-- A run from `s` to `s'`, whose steps are all allowed by `ok`. -/
def Reaches (step : ι → σ → Option σ) (ok : ι → σ → Prop) (s s' : σ) : Prop :=
  ∃ ls, Along step ok ls s ∧ run step ls s = some s'

namespace Reaches

variable {ok : ι → σ → Prop} {s s' s'' : σ}

theorem refl (s : σ) : Reaches step ok s s := ⟨[], trivial, rfl⟩

theorem one {l : ι} (hok : ok l s) (h : step l s = some s') : Reaches step ok s s' := by
  refine ⟨[l], ⟨hok, fun _ _ => trivial⟩, ?_⟩
  rw [run_cons, h]
  rfl

theorem trans (h : Reaches step ok s s') (h' : Reaches step ok s' s'') :
    Reaches step ok s s'' := by
  obtain ⟨ls, hok, hrun⟩ := h
  obtain ⟨ls', hok', hrun'⟩ := h'
  refine ⟨ls ++ ls', hok.append fun s₁ h₁ => ?_, ?_⟩
  · obtain rfl : s' = s₁ := Option.some.inj (hrun.symm.trans h₁)
    exact hok'
  · rw [run_append, hrun]
    exact hrun'

theorem invariant {I : σ → Prop} (hstep : ∀ l s s', I s → ok l s → step l s = some s' → I s')
    (h0 : I s) (h : Reaches step ok s s') : I s' := by
  obtain ⟨ls, hok, hrun⟩ := h
  exact run_invariant hstep h0 hok hrun

end Reaches

/-- **First bad step**: when `J` gives `P` and is kept by every step that is not bad, and
a bad step ends outside `P`, then every state of a run has `P` exactly if no step is bad. -/
theorem prefixes_iff_along {J P : σ → Prop} {bad : ι → σ → Prop} (hP : ∀ s, J s → P s)
    (hkeep : ∀ l s s', J s → ¬ bad l s → step l s = some s' → J s')
    (hbad : ∀ l s s', J s → bad l s → step l s = some s' → ¬ P s') {ls : List ι} {s s' : σ}
    (h0 : J s) (hrun : run step ls s = some s') :
    (∀ ls' s₁, ls' <+: ls → run step ls' s = some s₁ → P s₁) ↔
      Along step (fun l s => ¬ bad l s) ls s := by
  induction ls generalizing s with
  | nil =>
    refine iff_of_true (fun ls' s₁ hpre hrun' => ?_) trivial
    rw [List.prefix_nil.mp hpre] at hrun'
    obtain rfl : s = s₁ := Option.some.inj hrun'
    exact hP s h0
  | cons l ls ih =>
    obtain ⟨s₁, h₁, hrest⟩ := (run_cons_eq_some step).mp hrun
    constructor
    · intro hall
      have hgood : ¬ bad l s := by
        intro hb
        refine hbad l s s₁ h0 hb h₁ (hall [l] s₁ ?_ ?_)
        · exact (List.prefix_cons_inj l).mpr List.nil_prefix
        · rw [run_cons, h₁]
          rfl
      refine ⟨hgood, fun s₂ h₂ => ?_⟩
      obtain rfl : s₁ = s₂ := Option.some.inj (h₁.symm.trans h₂)
      refine (ih (hkeep l s s₁ h0 hgood h₁) hrest).mp fun ls' s' hpre hrun' =>
        hall (l :: ls') s' ?_ ?_
      · exact (List.prefix_cons_inj l).mpr hpre
      · rw [run_cons, h₁]
        exact hrun'
    · rintro ⟨hgood, hgoods⟩ ls' s₂ hpre hrun'
      cases ls' with
      | nil =>
        obtain rfl : s = s₂ := Option.some.inj hrun'
        exact hP s h0
      | cons l' ls' =>
        obtain ⟨rfl, hpre'⟩ := List.cons_prefix_cons.mp hpre
        rw [run_cons, h₁] at hrun'
        exact (ih (hkeep _ s s₁ h0 hgood h₁) hrest).mpr (hgoods s₁ h₁) ls' s₂ hpre' hrun'

/-! ## Counting steps -/

/-- How many steps of the run are taken from a state where `c` holds of the label. -/
def tally (step : ι → σ → Option σ) (c : ι → σ → Prop) [∀ l s, Decidable (c l s)] :
    List ι → σ → Nat
  | [], _ => 0
  | l :: ls, s =>
    (if c l s then 1 else 0) + match step l s with
      | none => 0
      | some s' => tally step c ls s'

section Tally

variable {c : ι → σ → Prop} [∀ l s, Decidable (c l s)]

theorem tally_cons {l : ι} {ls : List ι} {s s' : σ} (h : step l s = some s') :
    tally step c (l :: ls) s = (if c l s then 1 else 0) + tally step c ls s' := by
  rw [tally, h]

/-- Nothing is counted exactly when every step avoids `c`. -/
theorem tally_eq_zero {ls : List ι} {s : σ} :
    tally step c ls s = 0 ↔ Along step (fun l s => ¬ c l s) ls s := by
  induction ls generalizing s with
  | nil => exact ⟨fun _ => trivial, fun _ => rfl⟩
  | cons l ls ih =>
    rw [tally, Along, Nat.add_eq_zero_iff]
    refine and_congr (by by_cases hc : c l s <;> simp [hc]) ?_
    cases hs : step l s with
    | none => simp
    | some s' => simpa [hs] using ih

/-- **Drift rule**: when each step moves `f` against `g` by one exactly if `c`
holds, a run moves it by the number of such steps. -/
theorem run_tally {ok : ι → σ → Prop} {I : σ → Prop} {f g : σ → Nat}
    (hstep : ∀ l s s', I s → ok l s → step l s = some s' →
      I s' ∧ f s' + g s = f s + g s' + if c l s then 1 else 0)
    {ls : List ι} {s s' : σ} (h0 : I s) (hok : Along step ok ls s)
    (hrun : run step ls s = some s') : f s' + g s = f s + g s' + tally step c ls s := by
  induction ls generalizing s with
  | nil =>
    obtain rfl : s = s' := by simpa using hrun
    rfl
  | cons l ls ih =>
    obtain ⟨s₁, h₁, hrest⟩ := (run_cons_eq_some step).mp hrun
    obtain ⟨hI, hone⟩ := hstep l s s₁ h0 hok.1 h₁
    have htail := ih hI (hok.2 s₁ h₁) hrest
    rw [tally_cons h₁]
    omega

end Tally

end LibSafetynet.Logic
