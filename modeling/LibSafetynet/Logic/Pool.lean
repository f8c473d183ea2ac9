import Mathlib.Algebra.BigOperators.Group.Finset.Basic
import Mathlib.Tactic.Abel
import LibSafetynet.Logic.Prog
import LibSafetynet.Logic.Run

/-!
# Threads over a shared state

Each thread stands at a point of its own, and what it does next from there is one atomic
program (`Schedule.next`). A program that only waits makes no step; any other stop ends
all the threads. A run is a list of environments, each for the thread it names.

- `Schedule.calls`: the programs of one thread one after the other, without the others.
- `pool_invariant`: what every atomic program keeps, whoever runs it, holds in every
  interleaving. This is the only induction over interleavings.
- `sum_phase_update`: sums over the threads, when one of them moves.
-/

namespace LibSafetynet.Logic

variable {ι ρ ε σ φ : Type}

/-- What the threads run. -/
structure Schedule (ι ρ ε σ φ : Type) where
  /-- The next program at a point; none when the thread is through. -/
  next : ι → φ → Option (Prog ρ ε σ φ)
  /-- Whose step it is. -/
  who : ρ → ι
  /-- The stops that are only waiting. -/
  waits : ε → Bool

/-- The shared state, and where each thread stands. -/
structure Pool (ι ε σ φ : Type) where
  shared : σ
  phase : ι → φ
  stopped : Option ε

namespace Schedule

variable [DecidableEq ι] (S : Schedule ι ρ ε σ φ)

/-- Up to `n` programs of one thread from the point `ph` on. -/
def calls (i : ι) : Nat → φ → Prog ρ ε σ φ
  | 0, ph => pure ph
  | n + 1, ph => match S.next i ph with
    | none => pure ph
    | some m => m >>= fun ph' => calls i n ph'

/-- One atomic step. -/
def step (r : ρ) (c : Pool ι ε σ φ) : Option (Pool ι ε σ φ) :=
  if c.stopped.isSome then none
  else (S.next (S.who r) (c.phase (S.who r))).bind fun m =>
    match m r c.shared with
    | .done ph s => some { c with shared := s, phase := Function.update c.phase (S.who r) ph }
    | .stop e s => if S.waits e then none else some { c with shared := s, stopped := some e }

variable {S} {c c' : Pool ι ε σ φ} {r : ρ} {rs : List ρ}

/-- **Everything one step does.** -/
theorem step_cases (h : S.step r c = some c') :
    c.stopped = none ∧ ∃ m, S.next (S.who r) (c.phase (S.who r)) = some m ∧
      ((∃ ph s, m r c.shared = .done ph s ∧
        c' = { c with shared := s, phase := Function.update c.phase (S.who r) ph }) ∨
      ∃ e s, m r c.shared = .stop e s ∧ S.waits e = false ∧
        c' = { c with shared := s, stopped := some e }) := by
  rw [step] at h
  split_ifs at h with hstop
  obtain ⟨m, hm, h⟩ := Option.bind_eq_some_iff.mp h
  refine ⟨Option.not_isSome_iff_eq_none.mp hstop, m, hm, ?_⟩
  cases hrun : m r c.shared with
  | done ph s =>
    rw [hrun] at h
    exact Or.inl ⟨ph, s, rfl, (Option.some.inj h).symm⟩
  | stop e s =>
    rw [hrun] at h
    dsimp only at h
    split_ifs at h with hwait
    exact Or.inr ⟨e, s, rfl, Bool.eq_false_of_not_eq_true hwait, (Option.some.inj h).symm⟩

/-- **Invariant rule for interleavings**, where `A` holds of every step taken. `I` is kept by
every atomic program that a thread may run next, and `E` holds of every way such a program
ends the threads. -/
theorem pool_invariant {A : ρ → (ι → φ) → Prop} {I : (ι → φ) → σ → Prop} {E : (ι → φ) → ε → Prop}
    (hstep : ∀ r ph s m, A r ph → I ph s → S.next (S.who r) (ph (S.who r)) = some m →
      Prog.wp m r (fun p s' => I (Function.update ph (S.who r) p) s')
        (fun e _ => S.waits e = false → E ph e) s)
    (hok : Along S.step (fun r c => A r c.phase) rs c) (hgo : c.stopped = none)
    (h0 : I c.phase c.shared) (hrun : run S.step rs c = some c') :
    (c'.stopped = none → I c'.phase c'.shared) ∧ ∀ e ∈ c'.stopped, E c'.phase e := by
  induction rs generalizing c with
  | nil =>
    obtain rfl := Option.some.inj hrun
    exact ⟨fun _ => h0, fun e he => by simp [hgo] at he⟩
  | cons r rs ih =>
    obtain ⟨c₁, h₁, hrest⟩ := (run_cons_eq_some _).mp hrun
    obtain ⟨-, m, hm, hcase⟩ := step_cases h₁
    have hspec := hstep r c.phase c.shared m hok.1 h0 hm
    rcases hcase with ⟨ph, s, hdone, rfl⟩ | ⟨e, s, hend, hwait, rfl⟩
    · exact ih (c := ⟨s, Function.update c.phase (S.who r) ph, c.stopped⟩)
        (hok.2 _ h₁) hgo (hspec.done hdone) hrest
    · -- nobody moves any more
      have hE : E c.phase e := hspec.stop hend hwait
      cases rs with
      | nil =>
        obtain rfl := Option.some.inj hrest
        refine ⟨fun hnone => (Option.some_ne_none e hnone).elim, fun e' he' => ?_⟩
        obtain rfl := Option.some.inj he'
        exact hE
      | cons r' rs =>
        obtain ⟨c₂, h₂, -⟩ := (run_cons_eq_some _).mp hrest
        exact absurd (step_cases h₂).1 (Option.some_ne_none e)

end Schedule

/-- One thread moves: its part of a sum over the threads is exchanged. -/
theorem sum_phase_update [DecidableEq ι] {M : Type} [AddCommMonoid M] {T : Finset ι} {i : ι}
    (hi : i ∈ T) (f : ι → φ → M) (ph : ι → φ) (p : φ) :
    ∑ j ∈ T, f j (Function.update ph i p j) + f i (ph i) = ∑ j ∈ T, f j (ph j) + f i p := by
  have hrest : ∑ j ∈ T.erase i, f j (Function.update ph i p j) = ∑ j ∈ T.erase i, f j (ph j) :=
    Finset.sum_congr rfl fun j hj => by rw [Function.update_of_ne (Finset.ne_of_mem_erase hj)]
  rw [← Finset.add_sum_erase T _ hi, ← Finset.add_sum_erase T (fun j => f j (ph j)) hi, hrest,
    Function.update_self]
  abel

end LibSafetynet.Logic
