import Mathlib.Data.List.Forall2
import LibSafetynet.Logic.Run

/-!
# Machines that reply, and specifications that explain them

A machine answers every label with a reply. A specification answers too, but leaves some
choices open, and asks something of whoever sends the labels. `Spec.Explains` says that
there are choices under which the specification gives just these replies to these labels,
none of which it forbids.

- `explains_of_simulation`: a relation that every step keeps, with equal replies, makes
  the specification explain every run.
- `Spec.Explains.rule`: what every step of the specification keeps, and what it lets every
  reply say, holds of every run that it explains.
-/

namespace LibSafetynet.Logic

variable {ι ω ο σ τ : Type}

/-! ## Runs with replies -/

/-- The replies to the labels in order, and the state after them. -/
def history (step : ι → σ → Option (ο × σ)) : List ι → σ → Option (List ο × σ)
  | [], s => some ([], s)
  | l :: ls, s => (step l s).bind fun p => (history step ls p.2).map fun q => (p.1 :: q.1, q.2)

/-- The machine without its replies. -/
def silent (step : ι → σ → Option (ο × σ)) (l : ι) (s : σ) : Option σ := (step l s).map Prod.snd

section History

variable {step : ι → σ → Option (ο × σ)} {ls : List ι} {l : ι} {s s' : σ} {os : List ο}

theorem history_cons_eq_some : history step (l :: ls) s = some (os, s') ↔
    ∃ o s₁ os', step l s = some (o, s₁) ∧ history step ls s₁ = some (os', s') ∧ os = o :: os' := by
  simp only [history, Option.bind_eq_some_iff, Option.map_eq_some_iff, Prod.exists, Prod.mk.injEq]
  constructor
  · rintro ⟨o, s₁, hstep, os', s₂, hrest, rfl, rfl⟩
    exact ⟨o, s₁, os', hstep, hrest, rfl⟩
  · rintro ⟨o, s₁, os', hstep, hrest, rfl⟩
    exact ⟨o, s₁, hstep, os', s', hrest, rfl, rfl⟩

end History

/-! ## Specifications -/

/-- What a machine may reply: `step` with a choice of `ω`, for the labels that `allows` lets
through. -/
structure Spec (ι ω ο τ : Type) where
  allows : ι → τ → Prop
  step : ι → ω → τ → ο × τ

namespace Spec

variable (S : Spec ι ω ο τ)

/-- With some choices the specification gives the replies `os` to the labels, and allows each. -/
inductive Explains : List ι → τ → List ο → τ → Prop
  | nil (t : τ) : Explains [] t [] t
  | cons {l : ι} {ls : List ι} {w : ω} {t t' t'' : τ} {o : ο} {os : List ο} :
      S.allows l t → S.step l w t = (o, t') → Explains ls t' os t'' →
      Explains (l :: ls) t (o :: os) t''

variable {S}

/-- **Rule for what is explained**: an invariant of the specification, and what its replies
say under the invariant. -/
theorem Explains.rule {I : τ → Prop} {P : ι → ο → Prop} {ls : List ι} {os : List ο} {t t' : τ}
    (h : S.Explains ls t os t')
    (hstep : ∀ l ∈ ls, ∀ w t, S.allows l t → I t → P l (S.step l w t).1 ∧ I (S.step l w t).2)
    (h0 : I t) : List.Forall₂ P ls os ∧ I t' := by
  induction h with
  | nil t => exact ⟨.nil, h0⟩
  | @cons l ls w t t₁ t' o os hallows heq hrest ih =>
    obtain ⟨hP, hI⟩ := hstep l List.mem_cons_self w t hallows h0
    rw [heq] at hP hI
    obtain ⟨hPs, hI'⟩ := ih (fun l' hl' => hstep l' (List.mem_cons_of_mem l hl')) hI
    exact ⟨.cons hP hPs, hI'⟩

end Spec

/-- **Simulation rule**: the specification follows every allowed step of the machine, with
the same reply. -/
theorem explains_of_simulation {S : Spec ι ω ο τ} {step : ι → σ → Option (ο × σ)}
    {ok : ι → σ → Prop} {R : σ → τ → Prop}
    (hstep : ∀ l s t o s', R s t → ok l s → step l s = some (o, s') →
      S.allows l t ∧ ∃ w t', S.step l w t = (o, t') ∧ R s' t')
    {ls : List ι} {os : List ο} {s s' : σ} {t : τ} (h0 : R s t)
    (hok : Along (silent step) ok ls s) (hrun : history step ls s = some (os, s')) :
    ∃ t', S.Explains ls t os t' ∧ R s' t' := by
  induction ls generalizing s t os with
  | nil =>
    obtain ⟨rfl, rfl⟩ := Prod.mk.inj (Option.some.inj hrun)
    exact ⟨t, .nil t, h0⟩
  | cons l ls ih =>
    obtain ⟨o, s₁, os', hone, hrest, rfl⟩ := history_cons_eq_some.mp hrun
    obtain ⟨hallows, w, t₁, heq, h₁⟩ := hstep l s t o s₁ h0 hok.1 hone
    have hsilent : silent step l s = some s₁ := by
      rw [silent, hone]
      rfl
    obtain ⟨t', hexplains, h'⟩ := ih h₁ (hok.2 s₁ hsilent) hrest
    exact ⟨t', .cons hallows heq hexplains, h'⟩

end LibSafetynet.Logic
