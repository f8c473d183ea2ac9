import Mathlib.Logic.Basic

/-!
# Programs with an environment, a state and early stops

The imperative fragment every model of this development is written in. A
`Prog ρ ε σ α` reads the answers of its environment (`ρ`), transforms a state
(`σ`) and either returns a value or *stops* for a reason (`ε`) that no caller
can catch: a process exit, undefined behaviour, a lock that never comes free.
The state at the stop is kept, so that what an exit handler sees can be stated.

- `Prog.wp`: the weakest precondition of a run, with one postcondition for a
  normal return and one for a stop. Runs are deterministic once the environment
  is fixed, so `wp` is a plain case split on the outcome and every rule below is
  an equivalence. `Prog.wlp` is its liberal form.
- `Outcome.map` and `Prog.bind_map`: two runs that end alike up to a map of the
  values and one of the states, composed step by step.
- `Prog.zoom`: runs a program over a component of a larger state. The frame (the
  rest of the state) is preserved by definition. `Prog.onArg` runs one on a value
  instead, for data that is handed along rather than shared.
-/

namespace LibSafetynet.Logic

/-- How one run ends: a returned value, or a stop; the state is kept either way. -/
inductive Outcome (ε σ α : Type) where
  | done (a : α) (s : σ)
  | stop (e : ε) (s : σ)
  deriving DecidableEq

namespace Outcome

variable {ε σ α : Type}

/-- The state at the end of the run. -/
def state : Outcome ε σ α → σ
  | .done _ s => s
  | .stop _ s => s

/-- The returned value, if the run returned. -/
def value? : Outcome ε σ α → Option α
  | .done a _ => some a
  | .stop _ _ => none

/-- The state after a normal return. -/
def done? : Outcome ε σ α → Option σ
  | .done _ s => some s
  | .stop _ _ => none

/-- The outcome seen through a map of the values and one of the states. -/
def map {τ β : Type} (f : α → β) (g : σ → τ) : Outcome ε σ α → Outcome ε τ β
  | .done a s => .done (f a) (g s)
  | .stop e s => .stop e (g s)

@[simp] theorem map_id_id (o : Outcome ε σ α) : o.map id id = o := by
  cases o <;> rfl

theorem done?_eq_some {o : Outcome ε σ α} {s : σ} :
    o.done? = some s ↔ ∃ a, o = .done a s := by
  cases o <;> simp [done?]

end Outcome

/-- A program over state `σ` in environment `ρ`. -/
def Prog (ρ ε σ α : Type) : Type := ρ → σ → Outcome ε σ α

namespace Prog

variable {ρ ε σ τ α β : Type}

instance : Monad (Prog ρ ε σ) where
  pure a := fun _ s => .done a s
  bind m f := fun r s =>
    match m r s with
    | .done a s' => f a r s'
    | .stop e s' => .stop e s'

/-- The current state. -/
def get : Prog ρ ε σ σ := fun _ s => .done s s

/-- Update the state. -/
def modify (f : σ → σ) : Prog ρ ε σ Unit := fun _ s => .done () (f s)

/-- The environment's answers. -/
def ask : Prog ρ ε σ ρ := fun r s => .done r s

/-- Stop the run for reason `e`. -/
def stop (e : ε) : Prog ρ ε σ α := fun _ s => .stop e s

/-- Run `m` only if `c` holds. -/
def when (c : Prop) [Decidable c] (m : Prog ρ ε σ Unit) : Prog ρ ε σ Unit :=
  if c then m else pure ()

/-- Run a program on a component of the state: `proj` selects the component and
`embed` puts its new value back. -/
def zoom (proj : σ → τ) (embed : τ → σ → σ) (m : Prog ρ ε τ α) : Prog ρ ε σ α := fun r s =>
  match m r (proj s) with
  | .done a t => .done a (embed t s)
  | .stop e t => .stop e (embed t s)

/-- Run a program on a value that is passed along, not on the state. -/
def onArg (m : Prog ρ ε τ α) (t : τ) : Prog ρ ε σ (α × τ) := fun r s =>
  match m r t with
  | .done a t' => .done (a, t') s
  | .stop e _ => .stop e s

/-! ## Running the primitives -/

theorem run_bind (m : Prog ρ ε σ α) (f : α → Prog ρ ε σ β) (r : ρ) (s : σ) :
    (m >>= f) r s =
      match m r s with
      | .done a s' => f a r s'
      | .stop e s' => .stop e s' := rfl

theorem run_bind_done {m : Prog ρ ε σ α} {f : α → Prog ρ ε σ β} {r : ρ} {s s' : σ} {a : α}
    (h : m r s = .done a s') : (m >>= f) r s = f a r s' := by
  rw [run_bind, h]

theorem run_bind_stop {m : Prog ρ ε σ α} {f : α → Prog ρ ε σ β} {r : ρ} {s s' : σ} {e : ε}
    (h : m r s = .stop e s') : (m >>= f) r s = .stop e s' := by
  rw [run_bind, h]

/-! ## Monad laws -/

theorem pure_bind (a : α) (f : α → Prog ρ ε σ β) : (pure a >>= f) = f a := rfl

theorem bind_assoc {γ : Type} (m : Prog ρ ε σ α) (f : α → Prog ρ ε σ β) (g : β → Prog ρ ε σ γ) :
    (m >>= f) >>= g = m >>= fun a => f a >>= g := by
  funext r s
  rw [run_bind, run_bind, run_bind]
  cases m r s with
  | done a s' => rfl
  | stop e s' => rfl

theorem bind_pure_unit (m : Prog ρ ε σ Unit) : (m >>= fun _ => pure ()) = m := by
  funext r s
  rw [run_bind]
  cases m r s with
  | done a s' => rfl
  | stop e s' => rfl

/-! ## Weakest preconditions -/

/-- The run of `m` from `s` returns into `Q` or stops into `E`. -/
def wp (m : Prog ρ ε σ α) (r : ρ) (Q : α → σ → Prop) (E : ε → σ → Prop) (s : σ) : Prop :=
  match m r s with
  | .done a s' => Q a s'
  | .stop e s' => E e s'

/-- The liberal form: nothing is asked of a run that stops. -/
abbrev wlp (m : Prog ρ ε σ α) (r : ρ) (Q : α → σ → Prop) (s : σ) : Prop :=
  wp m r Q (fun _ _ => True) s

section Rules

variable {r : ρ} {s : σ} {E : ε → σ → Prop}

theorem wp_of_done {m : Prog ρ ε σ α} {Q : α → σ → Prop} {a : α} {s' : σ}
    (h : m r s = .done a s') : wp m r Q E s ↔ Q a s' := by
  rw [wp, h]

theorem wp_of_stop {m : Prog ρ ε σ α} {Q : α → σ → Prop} {e : ε} {s' : σ}
    (h : m r s = .stop e s') : wp m r Q E s ↔ E e s' := by
  rw [wp, h]

/-- What a `wp` says about a run that returned. -/
theorem wp.done {m : Prog ρ ε σ α} {Q : α → σ → Prop} {a : α} {s' : σ}
    (hwp : wp m r Q E s) (h : m r s = .done a s') : Q a s' :=
  (wp_of_done h).mp hwp

/-- What a `wp` says about a run that stopped. -/
theorem wp.stop {m : Prog ρ ε σ α} {Q : α → σ → Prop} {e : ε} {s' : σ}
    (hwp : wp m r Q E s) (h : m r s = .stop e s') : E e s' :=
  (wp_of_stop h).mp hwp

/-- Consequence: weaken both postconditions. -/
theorem wp.mono {m : Prog ρ ε σ α} {Q Q' : α → σ → Prop} {E' : ε → σ → Prop}
    (hwp : wp m r Q E s) (hQ : ∀ a s', Q a s' → Q' a s') (hE : ∀ e s', E e s' → E' e s') :
    wp m r Q' E' s := by
  unfold wp at *
  cases h : m r s with
  | done a s' => rw [h] at hwp; exact hQ a s' hwp
  | stop e s' => rw [h] at hwp; exact hE e s' hwp

/-- Weaken the postcondition of a normal return. -/
theorem wp.imp {m : Prog ρ ε σ α} {Q Q' : α → σ → Prop}
    (hwp : wp m r Q E s) (hQ : ∀ a s', Q a s' → Q' a s') : wp m r Q' E s :=
  hwp.mono hQ fun _ _ h => h

/-- What holds of every return holds of this one. -/
theorem wlp_of_forall {m : Prog ρ ε σ α} {Q : α → σ → Prop}
    (hQ : ∀ a s', m r s = .done a s' → Q a s') : wlp m r Q s := by
  unfold wlp wp
  cases h : m r s with
  | done a s' => exact hQ a s' h
  | stop e s' => trivial

/-- A program that cannot stop returns. -/
theorem wp.exists_done {m : Prog ρ ε σ α} {Q : α → σ → Prop}
    (hwp : wp m r Q (fun _ _ => False) s) : ∃ a s', m r s = .done a s' ∧ Q a s' := by
  cases h : m r s with
  | done a s' => exact ⟨a, s', rfl, hwp.done h⟩
  | stop e s' => exact (hwp.stop h).elim

/-- A program returns with `P` exactly if `C` holds, when that is so of each way it can end. -/
theorem wp.returns_iff {m : Prog ρ ε σ α} {P : α → σ → Prop} {C : Prop}
    (hwp : wp m r (fun a s' => P a s' ↔ C) (fun _ _ => ¬ C) s) :
    (∃ a s', m r s = .done a s' ∧ P a s') ↔ C := by
  cases h : m r s with
  | done a s' =>
    rw [← hwp.done h]
    constructor
    · rintro ⟨a', s'', hrun, hP⟩
      cases hrun
      exact hP
    · exact fun hP => ⟨a, s', rfl, hP⟩
  | stop e s' =>
    have hnot : ¬ C := hwp.stop h
    exact iff_of_false (fun ⟨_, _, hrun, _⟩ => nomatch hrun) hnot

/-- Two facts about the same run hold together. -/
theorem wp.and {m : Prog ρ ε σ α} {Q Q' : α → σ → Prop} {E' : ε → σ → Prop}
    (h : wp m r Q E s) (h' : wp m r Q' E' s) :
    wp m r (fun a s' => Q a s' ∧ Q' a s') (fun e s' => E e s' ∧ E' e s') s := by
  unfold wp at *
  cases hm : m r s with
  | done a s' => rw [hm] at h h'; exact ⟨h, h'⟩
  | stop e s' => rw [hm] at h h'; exact ⟨h, h'⟩

@[simp] theorem wp_pure (a : α) (Q : α → σ → Prop) :
    wp (pure a : Prog ρ ε σ α) r Q E s ↔ Q a s := Iff.rfl

@[simp] theorem wp_bind (m : Prog ρ ε σ α) (f : α → Prog ρ ε σ β) (Q : β → σ → Prop) :
    wp (m >>= f) r Q E s ↔ wp m r (fun a s' => wp (f a) r Q E s') E s := by
  unfold wp
  rw [run_bind]
  cases m r s <;> rfl

@[simp] theorem wp_get (Q : σ → σ → Prop) : wp (get : Prog ρ ε σ σ) r Q E s ↔ Q s s := Iff.rfl

@[simp] theorem wp_modify (f : σ → σ) (Q : Unit → σ → Prop) :
    wp (modify f : Prog ρ ε σ Unit) r Q E s ↔ Q () (f s) := Iff.rfl

@[simp] theorem wp_ask (Q : ρ → σ → Prop) : wp (ask : Prog ρ ε σ ρ) r Q E s ↔ Q r s := Iff.rfl

@[simp] theorem wp_stop (e : ε) (Q : α → σ → Prop) :
    wp (stop e : Prog ρ ε σ α) r Q E s ↔ E e s := Iff.rfl

@[simp] theorem wp_ite (c : Prop) [Decidable c] (m n : Prog ρ ε σ α) (Q : α → σ → Prop) :
    wp (if c then m else n) r Q E s ↔ (c → wp m r Q E s) ∧ (¬ c → wp n r Q E s) := by
  by_cases h : c <;> simp [h]

@[simp] theorem wp_when (c : Prop) [Decidable c] (m : Prog ρ ε σ Unit) (Q : Unit → σ → Prop) :
    wp (when c m) r Q E s ↔ (c → wp m r Q E s) ∧ (¬ c → Q () s) := by
  rw [when, wp_ite, wp_pure]

@[simp] theorem wp_zoom (proj : σ → τ) (embed : τ → σ → σ) (m : Prog ρ ε τ α)
    (Q : α → σ → Prop) :
    wp (zoom proj embed m) r Q E s ↔
      wp m r (fun a t => Q a (embed t s)) (fun e t => E e (embed t s)) (proj s) := by
  unfold wp zoom
  cases m r (proj s) <;> rfl

@[simp] theorem wp_onArg (m : Prog ρ ε τ α) (t : τ) (Q : α × τ → σ → Prop) :
    wp (onArg m t) r Q E s ↔ wp m r (fun a t' => Q (a, t') s) (fun e _ => E e s) t := by
  unfold wp onArg
  cases m r t <;> rfl

end Rules

/-! ## Runs that end alike -/

section Alike

variable {γ δ : Type} {r : ρ} {s : σ} {f : α → β} {f' : γ → δ} {g : σ → τ}

/-- **Sequencing**: after alike first parts, alike continuations. -/
theorem bind_map {m : Prog ρ ε σ α} {n : Prog ρ ε τ β} {k : α → Prog ρ ε σ γ}
    {k' : β → Prog ρ ε τ δ} (h : n r (g s) = (m r s).map f g)
    (hk : ∀ a s', m r s = .done a s' → k' (f a) r (g s') = (k a r s').map f' g) :
    (n >>= k') r (g s) = ((m >>= k) r s).map f' g := by
  rw [run_bind, run_bind, h]
  cases hm : m r s with
  | done a s' => exact hk a s' hm
  | stop e s' => rfl

/-- A component that the map of states leaves alone. -/
theorem zoom_map {proj : σ → τ} {embed : τ → σ → σ} {g : σ → σ} {m : Prog ρ ε τ α}
    {n : Prog ρ ε τ β} (h : n r (proj s) = (m r (proj s)).map f id) (hproj : proj (g s) = proj s)
    (hembed : ∀ t, embed t (g s) = g (embed t s)) :
    zoom proj embed n r (g s) = (zoom proj embed m r s).map f g := by
  rw [zoom, zoom, hproj, h]
  cases m r (proj s) with
  | done a t => exact congrArg (Outcome.done (f a)) (hembed t)
  | stop e t => exact congrArg (Outcome.stop e) (hembed t)

end Alike

end Prog

end LibSafetynet.Logic
