import Mathlib.Data.List.Nodup

/-!
# Doubly linked sequences behind a dummy head

A heap of nodes is seen here through two partial maps: `nx a` and `pv a` are the
next and the previous pointer stored at address `a` (`none` where nothing is
allocated). `DList nx pv null head L` says that the pointers thread exactly the
sequence `L` behind the dummy node `head`: following `nx` from `head` visits `L`
and ends in `null`, and `pv` is its inverse.

The two directions are separate recursions (`NextLinks`, `PrevLinks`) with one
append lemma each, so that pointer surgery at any position is "split, replace
one link, join": `DList.push` appends at the end and `DList.unlink` removes a
node anywhere.
-/

namespace LibSafetynet.Logic

variable {α : Type}

/-- Each element's next pointer is the following element; the last one's is `t`. -/
def NextLinks (nx : α → Option α) : α → List α → Prop
  | _, [] => True
  | t, a :: l => nx a = some (l.headD t) ∧ NextLinks nx t l

/-- Each element's previous pointer is the preceding element; the first one's is `p`. -/
def PrevLinks (pv : α → Option α) : α → List α → Prop
  | _, [] => True
  | p, a :: l => pv a = some p ∧ PrevLinks pv a l

@[simp] theorem nextLinks_nil (nx : α → Option α) (t : α) : NextLinks nx t [] := trivial

@[simp] theorem prevLinks_nil (pv : α → Option α) (p : α) : PrevLinks pv p [] := trivial

theorem nextLinks_cons {nx : α → Option α} {t a : α} {l : List α} :
    NextLinks nx t (a :: l) ↔ nx a = some (l.headD t) ∧ NextLinks nx t l := Iff.rfl

theorem prevLinks_cons {pv : α → Option α} {p a : α} {l : List α} :
    PrevLinks pv p (a :: l) ↔ pv a = some p ∧ PrevLinks pv a l := Iff.rfl

theorem nextLinks_append {nx : α → Option α} {t : α} {A B : List α} :
    NextLinks nx t (A ++ B) ↔ NextLinks nx (B.headD t) A ∧ NextLinks nx t B := by
  induction A with
  | nil => simp
  | cons a A ih =>
    have hhead : (A ++ B).headD t = A.headD (B.headD t) := by cases A <;> rfl
    rw [List.cons_append, nextLinks_cons, nextLinks_cons, ih, hhead, and_assoc]

theorem prevLinks_append {pv : α → Option α} {p : α} {A B : List α} :
    PrevLinks pv p (A ++ B) ↔ PrevLinks pv p A ∧ PrevLinks pv (A.getLastD p) B := by
  induction A generalizing p with
  | nil => simp
  | cons a A ih =>
    rw [List.cons_append, prevLinks_cons, prevLinks_cons, ih, and_assoc, List.getLastD_cons]

/-- Only the pointers of the sequence itself matter. -/
theorem NextLinks.congr {nx nx' : α → Option α} {t : α} {l : List α}
    (h : NextLinks nx t l) (heq : ∀ a ∈ l, nx' a = nx a) : NextLinks nx' t l := by
  induction l with
  | nil => trivial
  | cons a l ih =>
    refine ⟨?_, ih h.2 fun b hb => heq b (List.mem_cons_of_mem a hb)⟩
    rw [heq a List.mem_cons_self]
    exact h.1

theorem PrevLinks.congr {pv pv' : α → Option α} {p : α} {l : List α}
    (h : PrevLinks pv p l) (heq : ∀ a ∈ l, pv' a = pv a) : PrevLinks pv' p l := by
  induction l generalizing p with
  | nil => trivial
  | cons a l ih =>
    refine ⟨?_, ih h.2 fun b hb => heq b (List.mem_cons_of_mem a hb)⟩
    rw [heq a List.mem_cons_self]
    exact h.1

/-- A nonempty sequence ends in its last element. -/
theorem cons_eq_dropLast_append (x : α) (A : List α) :
    x :: A = (x :: A).dropLast ++ [A.getLastD x] := by
  rw [← List.getLast_eq_getLastD]
  exact (List.dropLast_append_getLast (List.cons_ne_nil x A)).symm

theorem getLastD_mem_cons (x : α) (A : List α) : A.getLastD x ∈ x :: A := by
  rw [← List.getLast_eq_getLastD]
  exact List.getLast_mem (List.cons_ne_nil x A)

/-- Redirecting the last element's next pointer redirects the end of the sequence. -/
theorem NextLinks.retarget {nx nx' : α → Option α} {t t' x : α} {A : List α}
    (h : NextLinks nx t (x :: A)) (hnd : (x :: A).Nodup)
    (hnew : nx' (A.getLastD x) = some t')
    (heq : ∀ a ∈ x :: A, a ≠ A.getLastD x → nx' a = nx a) : NextLinks nx' t' (x :: A) := by
  have hsplit := cons_eq_dropLast_append x A
  have hnot : A.getLastD x ∉ (x :: A).dropLast := by
    rw [hsplit, List.nodup_append] at hnd
    exact fun hm => hnd.2.2 _ hm _ List.mem_cons_self rfl
  have hmem : ∀ a ∈ (x :: A).dropLast, a ∈ x :: A :=
    fun a ha => (List.dropLast_sublist _).subset ha
  rw [hsplit] at h ⊢
  obtain ⟨hA, -⟩ := nextLinks_append.mp h
  refine nextLinks_append.mpr ⟨hA.congr fun a ha => heq a (hmem a ha) ?_, hnew, trivial⟩
  rintro rfl
  exact hnot ha

/-- Redirecting the first element's previous pointer. -/
theorem PrevLinks.rebase {pv pv' : α → Option α} {p p' : α} {B : List α}
    (h : PrevLinks pv p B) (hB : B.Nodup) (hnew : ∀ b ∈ B.head?, pv' b = some p')
    (heq : ∀ a ∈ B, a ∉ B.head? → pv' a = pv a) : PrevLinks pv' p' B := by
  cases B with
  | nil => trivial
  | cons b B =>
    refine ⟨hnew b rfl, h.2.congr fun a ha => heq a (List.mem_cons_of_mem b ha) ?_⟩
    intro hba
    obtain rfl : b = a := by simpa using hba
    exact (List.nodup_cons.mp hB).1 ha

/-- The nodes at `nx`, `pv` are exactly linked as `head` followed by `L`. -/
structure DList (nx pv : α → Option α) (null head : α) (L : List α) : Prop where
  next : NextLinks nx null (head :: L)
  prev : PrevLinks pv null (head :: L)
  nodup : (head :: L).Nodup
  notNull : null ∉ head :: L

namespace DList

variable {nx pv nx' pv' : α → Option α} {null head : α} {L : List α}

theorem head_notMem (h : DList nx pv null head L) : head ∉ L := (List.nodup_cons.mp h.nodup).1

theorem tail_nodup (h : DList nx pv null head L) : L.Nodup := (List.nodup_cons.mp h.nodup).2

theorem ne_null (h : DList nx pv null head L) {a : α} (ha : a ∈ L) : a ≠ null := by
  rintro rfl
  exact h.notNull (List.mem_cons_of_mem head ha)

theorem ne_head (h : DList nx pv null head L) {a : α} (ha : a ∈ L) : a ≠ head := by
  rintro rfl
  exact h.head_notMem ha

theorem congr (h : DList nx pv null head L) (hnx : ∀ a ∈ head :: L, nx' a = nx a)
    (hpv : ∀ a ∈ head :: L, pv' a = pv a) : DList nx' pv' null head L :=
  ⟨h.next.congr hnx, h.prev.congr hpv, h.nodup, h.notNull⟩

/-- The next pointer of an element is the element after it. -/
theorem next_of_mem {A B : List α} {a : α} (h : DList nx pv null head (A ++ a :: B)) :
    nx a = some (B.headD null) := by
  have h' := (nextLinks_append (A := head :: A)).mp h.next
  exact h'.2.1

/-- The previous pointer of an element is the element before it, or the head. -/
theorem prev_of_mem {A B : List α} {a : α} (h : DList nx pv null head (A ++ a :: B)) :
    pv a = some (A.getLastD head) := by
  have h' := (prevLinks_append (A := head :: A)).mp h.prev
  rw [List.getLastD_cons] at h'
  exact h'.2.1

theorem next_head (h : DList nx pv null head L) : nx head = some (L.headD null) := h.next.1

/-- Link a new node behind the last one. -/
theorem push (h : DList nx pv null head L) {a : α} (ha : a ∉ head :: L) (hnull : a ≠ null)
    (hlast : nx' (L.getLastD head) = some a) (hnew : nx' a = some null)
    (hback : pv' a = some (L.getLastD head))
    (hnx : ∀ b ∈ head :: L, b ≠ L.getLastD head → nx' b = nx b)
    (hpv : ∀ b ∈ head :: L, pv' b = pv b) : DList nx' pv' null head (L ++ [a]) := by
  refine ⟨?_, ?_, ?_, ?_⟩
  · rw [← List.cons_append]
    exact nextLinks_append.mpr ⟨h.next.retarget h.nodup hlast hnx, hnew, trivial⟩
  · rw [← List.cons_append]
    refine prevLinks_append.mpr ⟨h.prev.congr hpv, ?_, trivial⟩
    rw [List.getLastD_cons]
    exact hback
  · rw [← List.cons_append, List.nodup_append]
    refine ⟨h.nodup, by simp, ?_⟩
    rintro b hb c hc rfl
    exact ha (by simpa [List.mem_singleton.mp hc] using hb)
  · rw [← List.cons_append, List.mem_append]
    rintro (hn | hn)
    · exact h.notNull hn
    · exact hnull (List.mem_singleton.mp hn).symm

/-- Unlink a node: its neighbours are linked to each other. -/
theorem unlink {A B : List α} {a : α} (h : DList nx pv null head (A ++ a :: B))
    (hprev : nx' (A.getLastD head) = some (B.headD null))
    (hnext : ∀ b ∈ B.head?, pv' b = some (A.getLastD head))
    (hnx : ∀ b ∈ head :: (A ++ B), b ≠ A.getLastD head → nx' b = nx b)
    (hpv : ∀ b ∈ head :: (A ++ B), b ∉ B.head? → pv' b = pv b) :
    DList nx' pv' null head (A ++ B) := by
  have hnodup : (head :: (A ++ B)).Nodup := by
    have hsub : (head :: (A ++ B)).Sublist (head :: (A ++ a :: B)) :=
      ((List.sublist_cons_self a B).append_left A).cons_cons head
    exact hsub.nodup h.nodup
  have hnd : ((head :: A) ++ B).Nodup := hnodup
  obtain ⟨hndA, hndB, hdisj⟩ := List.nodup_append.mp hnd
  obtain ⟨hnA, hnB⟩ := (nextLinks_append (A := head :: A)).mp h.next
  obtain ⟨hpA, hpB⟩ := (prevLinks_append (A := head :: A)).mp h.prev
  rw [List.getLastD_cons] at hpB
  refine ⟨?_, ?_, hnodup, ?_⟩
  · rw [← List.cons_append]
    refine nextLinks_append.mpr ⟨?_, hnB.2.congr fun b hb => hnx b (by simp [hb]) ?_⟩
    · refine hnA.retarget hndA hprev fun b hb => hnx b ?_
      simpa using Or.imp_right Or.inl (List.mem_cons.mp hb)
    · rintro rfl
      exact hdisj _ (getLastD_mem_cons head A) _ hb rfl
  · rw [← List.cons_append]
    refine prevLinks_append.mpr ⟨hpA.congr fun b hb => hpv b ?_ ?_, ?_⟩
    · simpa using Or.imp_right Or.inl (List.mem_cons.mp hb)
    · intro hbB
      exact hdisj b hb b (List.mem_of_mem_head? hbB) rfl
    · rw [List.getLastD_cons]
      exact hpB.2.rebase hndB hnext fun b hb hne => hpv b (by simp [hb]) hne
  · intro hn
    refine h.notNull ?_
    simp only [List.mem_cons, List.mem_append] at hn ⊢
    tauto

end DList

/-! ## Following the next pointers -/

variable [DecidableEq α]

/-- Follow the next pointers from `cur` until `null`, for at most `fuel` nodes. -/
def chase (nx : α → Option α) (null : α) : Nat → α → List α
  | 0, _ => []
  | fuel + 1, cur =>
    if cur = null then []
    else
      match nx cur with
      | none => []
      | some next => cur :: chase nx null fuel next

/-- Following the links of a sequence recovers the sequence. -/
theorem NextLinks.chase_eq {nx : α → Option α} {null : α} {L : List α}
    (h : NextLinks nx null L) (hnull : null ∉ L) {fuel : Nat} (hfuel : L.length < fuel) :
    chase nx null fuel (L.headD null) = L := by
  induction L generalizing fuel with
  | nil => cases fuel <;> simp [chase]
  | cons a L ih =>
    cases fuel with
    | zero => simp at hfuel
    | succ fuel =>
      have ha : a ≠ null := fun h => hnull (h ▸ List.mem_cons_self)
      have hrest := ih h.2 (fun hm => hnull (List.mem_cons_of_mem a hm))
        (by simpa using hfuel)
      rw [List.headD_cons, chase, if_neg ha, h.1]
      show a :: chase nx null fuel (L.headD null) = a :: L
      rw [hrest]

end LibSafetynet.Logic
