import Mathlib

/-!
# Intervals that do not overlap

Half-open intervals of naturals, given by a start and a length for each index. As
long as they lie below a bound and off each other, their lengths add up to less
than the bound: each takes its own cells, and cell 0 is taken by none.
-/

namespace LibSafetynet.Logic

variable {ι : Type} {start len : ι → Nat}

/-- The intervals of `i` and `j` have no cell in common. -/
def Apart (start len : ι → Nat) (i j : ι) : Prop :=
  start i + len i ≤ start j ∨ start j + len j ≤ start i

/-- The cells that the intervals take. -/
def covered (start len : ι → Nat) : List ι → Finset Nat
  | [] => ∅
  | i :: L => Finset.Ico (start i) (start i + len i) ∪ covered start len L

theorem mem_covered {L : List ι} {n : Nat} :
    n ∈ covered start len L ↔ ∃ i ∈ L, start i ≤ n ∧ n < start i + len i := by
  induction L with
  | nil => simp [covered]
  | cons i L ih => rw [covered, Finset.mem_union, ih, Finset.mem_Ico, List.exists_mem_cons_iff]

/-- Intervals off each other take as many cells as their lengths say. -/
theorem card_covered {L : List ι} (h : L.Pairwise (Apart start len)) :
    (covered start len L).card = (L.map len).sum := by
  induction L with
  | nil => rfl
  | cons i L ih =>
    obtain ⟨hi, hL⟩ := List.pairwise_cons.mp h
    have hdisj : Disjoint (Finset.Ico (start i) (start i + len i)) (covered start len L) := by
      rw [Finset.disjoint_left]
      intro n hn hcov
      obtain ⟨hlow, hhigh⟩ := Finset.mem_Ico.mp hn
      obtain ⟨j, hj, hjlow, hjhigh⟩ := mem_covered.mp hcov
      rcases hi j hj with hle | hle
      · omega
      · omega
    rw [covered, Finset.card_union_of_disjoint hdisj, ih hL, Nat.card_Ico, Nat.add_sub_cancel_left,
      List.map_cons, List.sum_cons]

/-- **Room**: intervals off each other inside `[1, bound)` have lengths that add up
to less than the bound. -/
theorem sum_len_lt {L : List ι} {bound : Nat} (hbound : 0 < bound)
    (hapart : L.Pairwise (Apart start len)) (hlow : ∀ i ∈ L, 0 < start i)
    (hhigh : ∀ i ∈ L, start i + len i ≤ bound) : (L.map len).sum < bound := by
  have hsub : covered start len L ⊆ Finset.Ico 1 bound := by
    intro n hn
    obtain ⟨i, hi, hle, hlt⟩ := mem_covered.mp hn
    have hpos := hlow i hi
    have hend := hhigh i hi
    exact Finset.mem_Ico.mpr ⟨by omega, by omega⟩
  have hcard := Finset.card_le_card hsub
  rw [card_covered hapart, Nat.card_Ico] at hcard
  omega

end LibSafetynet.Logic
