import LibSafetynet.SlotAccounting

/-!
# The places that a pass gives

A pass as a function of the state it starts from. `FirstOpen` reads the first slot for an
entry off the slots and weights before the pass. In list order, each light entry takes the
front most slot that is the first one for itself or for a light entry before it (`Takes`),
because the entry stored last stays light. A slot holds in the end what the last entry to
take it brought (`After`, `after_iff`).

A node that is gone counts as light, so the search that reads one ends there. The slots
before that one are heavy and stay as they are, so only the first light entry of a pass
can come to it (`passReadsStale_iff`).
-/

namespace LibSafetynet

open Logic Prog PlatMutex ListState AllocManager

/-- The slot is not for `a`: it holds another entry, and that one is heavy. -/
def Closed (p : NodeHeap × AllocManager) (a : Addr) (i : Slot) : Prop :=
  (p.2.cacheList i).value ≠ NULL ∧ (p.2.cacheList i).value ≠ a ∧
    10 ≤ (nodeAt p.1 (p.2.cacheList i).value).weight

/-- `i` is the first slot for `a`. -/
def FirstOpen (p : NodeHeap × AllocManager) (a : Addr) (i : Slot) : Prop :=
  ¬ Closed p a i ∧ ∀ j < i, Closed p a j

/-- The entries that the pass stores. -/
def lights (p : NodeHeap × AllocManager) (L : List Addr) : List Addr :=
  L.filter fun a => Light p.1 a

/-- The slot that the last of the light entries `A` takes: the front most of their first slots. -/
def Takes (p : NodeHeap × AllocManager) (A : List Addr) (i : Slot) : Prop :=
  (∃ a ∈ A, FirstOpen p a i) ∧ ∀ a ∈ A, ∀ j, FirstOpen p a j → i ≤ j

/-- One of the light entries `A` takes slot `k`. -/
def Taken (p : NodeHeap × AllocManager) (A : List Addr) (k : Slot) : Prop :=
  ∃ B ∈ A.inits, Takes p B k

/-- `a` is the last of the light entries `A` to take slot `k`. -/
def LeftIn (p : NodeHeap × AllocManager) (A : List Addr) (a : Addr) (k : Slot) : Prop :=
  ∃ B ∈ A.inits, B.getLast? = some a ∧ Takes p B k ∧
    ∀ C ∈ A.inits, Takes p C k → C.length ≤ B.length

/-- Slot `k` holds `a` after the visits of the light entries `A`. -/
def HeldIn (p : NodeHeap × AllocManager) (A : List Addr) (a : Addr) (k : Slot) : Prop :=
  LeftIn p A a k ∨ ¬ Taken p A k ∧ (p.2.cacheList k).value = a

/-- What slot `k` holds after a pass over `L`. -/
inductive After (p : NodeHeap × AllocManager) (L : List Addr) (k : Slot) : CachePair → Prop
  | left {a : Addr} : LeftIn p (lights p L) a k → After p L k ⟨(nodeAt p.1 a).data, a⟩
  | kept : ¬ Taken p (lights p L) k → After p L k (p.2.cacheList k)

/-- After a pass over `L` the first slot under the key `q` holds `v`. -/
def FirstAfter (p : NodeHeap × AllocManager) (L : List Addr) (q v : Addr) : Prop :=
  ∃ k, After p L k ⟨q, v⟩ ∧ ∀ j < k, ∀ w, ¬ After p L j ⟨q, w⟩

/-- The first slot for the first light entry is not one whose node is gone. -/
def PassSafe (p : NodeHeap × AllocManager) (L : List Addr) : Prop :=
  ∀ a ∈ (lights p L).head?, ∀ i, FirstOpen p a i → ¬ p.2.Stale p.1 i

instance (p : NodeHeap × AllocManager) (a : Addr) (i : Slot) : Decidable (Closed p a i) :=
  inferInstanceAs (Decidable (_ ∧ _))

instance (p : NodeHeap × AllocManager) (a : Addr) (i : Slot) : Decidable (FirstOpen p a i) :=
  inferInstanceAs (Decidable (_ ∧ _))

instance (p : NodeHeap × AllocManager) (A : List Addr) (i : Slot) : Decidable (Takes p A i) :=
  inferInstanceAs (Decidable (_ ∧ _))

instance (p : NodeHeap × AllocManager) (A : List Addr) (k : Slot) : Decidable (Taken p A k) :=
  inferInstanceAs (Decidable (∃ B ∈ A.inits, _))

instance (p : NodeHeap × AllocManager) (A : List Addr) (a : Addr) (k : Slot) :
    Decidable (LeftIn p A a k) :=
  inferInstanceAs (Decidable (∃ B ∈ A.inits, _))

instance (p : NodeHeap × AllocManager) (A : List Addr) (a : Addr) (k : Slot) :
    Decidable (HeldIn p A a k) :=
  inferInstanceAs (Decidable (_ ∨ _))

instance (p : NodeHeap × AllocManager) (L : List Addr) : Decidable (PassSafe p L) :=
  inferInstanceAs (Decidable (∀ a ∈ (lights p L).head?, _))

section Visit

variable {p : NodeHeap × AllocManager} {a b : Addr} {i j k : Slot} {L : List Addr}

/-! ## One visit -/

/-- A visit writes weights and marks, of the visited entry only. -/
theorem nodeAt_workEntry (p : NodeHeap × AllocManager) (a b : Addr) :
    nodeAt (workEntry p a).1 b = if b = a ∧ Light p.1 a
      then { nodeAt p.1 b with weight := 0, cached := true } else nodeAt p.1 b := by
  unfold workEntry
  by_cases hl : Light p.1 a
  · have hw : (nodeAt p.1 a).weight ≤ 10 := hl
    rw [if_pos hw]
    have hreset : nodeAt (updNode p.1 a fun e => { e with weight := 0, cached := true }) b
        = if b = a ∧ Light p.1 a then { nodeAt p.1 b with weight := 0, cached := true }
          else nodeAt p.1 b := by
      by_cases hb : b = a
      · rw [if_pos ⟨hb, hl⟩, hb, nodeAt_updNode_self]
      · rw [if_neg fun h => hb h.1, nodeAt_updNode_of_ne _ _ hb]
    dsimp only
    cases p.2.pickSlot (updNode p.1 a fun e => { e with weight := 0, cached := true }) with
    | none => exact hreset
    | some i =>
      dsimp only
      by_cases hb : b = a
      · rw [if_pos ⟨hb, hl⟩, hb, nodeAt_updNode_self, nodeAt_updNode_self]
      · rw [nodeAt_updNode_of_ne _ _ hb]
        exact hreset
  · have hw : ¬ (nodeAt p.1 a).weight ≤ 10 := hl
    rw [if_neg hw, if_neg fun h => hl h.2]

/-- What the search for a slot asks after the reset, by the weights before it. -/
theorem open_iff (k : Slot) : ((p.2.cacheList k).value = NULL ∨
    (nodeAt (resetNode p.1 a) (p.2.cacheList k).value).weight < 10) ↔ ¬ Closed p a k := by
  unfold Closed
  rw [weight_resetNode]
  by_cases hnull : (p.2.cacheList k).value = NULL
  · exact iff_of_true (Or.inl hnull) fun h => h.1 hnull
  by_cases hself : (p.2.cacheList k).value = a
  · refine iff_of_true (Or.inr ?_) fun h => h.2.1 hself
    rw [if_pos hself]
    decide
  · rw [if_neg hself, or_iff_right hnull, and_iff_right hnull, and_iff_right hself, UInt8.not_le]

theorem slotFor_eq_some : slotFor p a = some i ↔ FirstOpen p a i := by
  rw [slotFor, pickSlot, find?_slots, FirstOpen, decide_eq_true_eq, open_iff]
  refine and_congr_right fun _ => forall_congr' fun j => imp_congr_right fun _ => ?_
  rw [decide_eq_false_iff_not, open_iff, not_not]

theorem FirstOpen.unique (hi : FirstOpen p a i) (hj : FirstOpen p a j) : i = j :=
  Option.some.inj ((slotFor_eq_some.mpr hi).symm.trans (slotFor_eq_some.mpr hj))

theorem firstOpen_exists (hj : ¬ Closed p a j) : ∃ i, FirstOpen p a i := by
  cases hslot : slotFor p a with
  | some i => exact ⟨i, slotFor_eq_some.mp hslot⟩
  | none =>
    have hnone := List.find?_eq_none.mp hslot j (mem_slots j)
    exact absurd (decide_eq_true ((open_iff j).mpr hj)) hnone

theorem FirstOpen.le (hi : FirstOpen p a i) (hj : ¬ Closed p a j) : i ≤ j :=
  not_lt.mp fun hlt => hj (hi.2 j hlt)

/-- The slots after the visit of a light entry. -/
theorem slot_workEntry (hl : Light p.1 a) (hi : FirstOpen p a i) (j : Slot) :
    (workEntry p a).2.cacheList j =
      if j = i then ⟨(nodeAt p.1 a).data, a⟩ else p.2.cacheList j := by
  have hstored : (workEntry p a).2 = p.2.setSlot i ⟨(nodeAt p.1 a).data, a⟩ :=
    congrArg Prod.snd (workEntry_stored hl (slotFor_eq_some.mpr hi))
  rw [hstored]
  split_ifs with hji
  · rw [hji, setSlot_self]
  · exact setSlot_of_ne hji

theorem value_workEntry (hl : Light p.1 a) (hi : FirstOpen p a i) (j : Slot) :
    ((workEntry p a).2.cacheList j).value = if j = i then a else (p.2.cacheList j).value := by
  rw [slot_workEntry hl hi, apply_ite CachePair.value]

/-- The visit of an entry that no slot is open to. -/
theorem slots_workEntry_full (hl : Light p.1 a) (hno : ∀ i, ¬ FirstOpen p a i) :
    (workEntry p a).2 = p.2 := by
  have hnone : slotFor p a = none :=
    Option.eq_none_iff_forall_not_mem.mpr fun i hi => hno i (slotFor_eq_some.mp hi)
  have hfull : workEntry p a = (resetNode p.1 a, p.2) := workEntry_full hl hnone
  rw [hfull]

theorem lights_cons_light (hl : Light p.1 a) : lights p (a :: L) = a :: lights p L :=
  List.filter_cons_of_pos (decide_eq_true hl)

theorem lights_cons_heavy (hl : ¬ Light p.1 a) : lights p (a :: L) = lights p L :=
  List.filter_cons_of_neg (by simpa using hl)

theorem lights_concat : lights p (L ++ [a]) = lights p L ++ if Light p.1 a then [a] else [] := by
  rw [lights, List.filter_append, List.filter_singleton]
  simp [lights]

theorem lights_split {pre post : List Addr} (hl : Light p.1 a) :
    lights p (pre ++ a :: post) = lights p pre ++ [a] ++ lights p post := by
  have hcons := lights_cons_light (L := post) hl
  unfold lights at hcons ⊢
  rw [List.filter_append, hcons, List.append_cons]

theorem mem_lights : a ∈ lights p L ↔ a ∈ L ∧ Light p.1 a := by simp [lights]

end Visit

section Pass

variable {p q : NodeHeap × AllocManager} {a b c : Addr} {i j k : Slot} {A B L : List Addr}

/-! ## Who takes which slot -/

theorem Takes.unique (hi : Takes p A i) (hj : Takes p A j) : i = j := by
  obtain ⟨⟨a, ha, hai⟩, hle⟩ := hi
  obtain ⟨⟨b, hb, hbj⟩, hle'⟩ := hj
  exact le_antisymm (hle b hb j hbj) (hle' a ha i hai)

theorem takes_of_closed (ha : a ∈ A) (hi : ¬ Closed p a i)
    (hbefore : ∀ b ∈ A, ∀ j < i, Closed p b j) : Takes p A i := by
  refine ⟨⟨a, ha, hi, hbefore a ha⟩, fun b hb j hj => not_lt.mp fun hlt => ?_⟩
  exact hj.1 (hbefore b hb j hlt)

/-- As soon as one slot is open to one of them, the last one takes a slot. -/
theorem takes_exists (ha : a ∈ A) (hk : ¬ Closed p a k) : ∃ i ≤ k, Takes p A i := by
  -- another entry may have an open slot further to the front, and so on
  induction k using WellFoundedLT.induction generalizing a with
  | ind k ih =>
    by_cases hbefore : ∀ b ∈ A, ∀ j < k, Closed p b j
    · exact ⟨k, le_refl k, takes_of_closed ha hk hbefore⟩
    · push Not at hbefore
      obtain ⟨b, hb, j, hj, hopen⟩ := hbefore
      obtain ⟨i, hi, htakes⟩ := ih j hj hb hopen
      exact ⟨i, hi.trans hj.le, htakes⟩

theorem Takes.ne_nil (h : Takes p A k) : A ≠ [] := by
  rintro rfl
  obtain ⟨⟨a, ha, -⟩, -⟩ := h
  exact absurd ha List.not_mem_nil

theorem mem_inits_concat : B ∈ (A ++ [a]).inits ↔ B = A ++ [a] ∨ B ∈ A.inits := by
  rw [List.mem_inits, List.mem_inits, List.prefix_concat_iff]

theorem taken_concat : Taken p (A ++ [a]) k ↔ Takes p (A ++ [a]) k ∨ Taken p A k := by
  constructor
  · rintro ⟨B, hB, htakes⟩
    rcases mem_inits_concat.mp hB with rfl | hB
    · exact Or.inl htakes
    · exact Or.inr ⟨B, hB, htakes⟩
  · rintro (htakes | ⟨B, hB, htakes⟩)
    · exact ⟨A ++ [a], mem_inits_concat.mpr (Or.inl rfl), htakes⟩
    · exact ⟨B, mem_inits_concat.mpr (Or.inr hB), htakes⟩

/-- The last entry has the slot that it takes; every other one is left as it was. -/
theorem leftIn_concat_self (htakes : Takes p (A ++ [a]) k) : LeftIn p (A ++ [a]) b k ↔ b = a := by
  constructor
  · rintro ⟨B, hB, hlast, -, hmax⟩
    -- the last to take the slot is the last of all
    have hall := hmax (A ++ [a]) (mem_inits_concat.mpr (Or.inl rfl)) htakes
    obtain rfl : B = A ++ [a] := ((List.mem_inits _ _).mp hB).eq_of_length_le hall
    rw [List.getLast?_concat] at hlast
    exact (Option.some.inj hlast).symm
  · rintro rfl
    refine ⟨A ++ [b], mem_inits_concat.mpr (Or.inl rfl), List.getLast?_concat, htakes, ?_⟩
    exact fun C hC _ => ((List.mem_inits _ _).mp hC).length_le

theorem leftIn_concat_other (hno : ¬ Takes p (A ++ [a]) k) :
    LeftIn p (A ++ [a]) b k ↔ LeftIn p A b k := by
  have hinits : ∀ {C}, C ∈ (A ++ [a]).inits → Takes p C k → C ∈ A.inits := by
    intro C hC htakes
    refine (mem_inits_concat.mp hC).resolve_left fun heq => ?_
    exact hno (heq ▸ htakes)
  constructor
  · rintro ⟨B, hB, hlast, htakes, hmax⟩
    refine ⟨B, hinits hB htakes, hlast, htakes, fun C hC => ?_⟩
    exact hmax C (mem_inits_concat.mpr (Or.inr hC))
  · rintro ⟨B, hB, hlast, htakes, hmax⟩
    refine ⟨B, mem_inits_concat.mpr (Or.inr hB), hlast, htakes, fun C hC hk => ?_⟩
    exact hmax C (hinits hC hk) hk

theorem not_taken_nil : ¬ Taken p [] k := by
  rintro ⟨B, hB, htakes⟩
  exact htakes.ne_nil (List.prefix_nil.mp ((List.mem_inits _ _).mp hB))

theorem LeftIn.mem (h : LeftIn p A a k) : a ∈ A := by
  obtain ⟨B, hB, hlast, -⟩ := h
  exact ((List.mem_inits _ _).mp hB).subset (List.mem_of_getLast? hlast)

theorem LeftIn.taken (h : LeftIn p A a k) : Taken p A k := by
  obtain ⟨B, hB, -, htakes, -⟩ := h
  exact ⟨B, hB, htakes⟩

theorem Taken.leftIn (h : Taken p A k) : ∃ a, LeftIn p A a k := by
  induction A using List.reverseRecOn with
  | nil => exact absurd h not_taken_nil
  | append_singleton A a ih =>
    by_cases htakes : Takes p (A ++ [a]) k
    · exact ⟨a, (leftIn_concat_self htakes).mpr rfl⟩
    · obtain ⟨b, hb⟩ := ih ((taken_concat.mp h).resolve_left htakes)
      exact ⟨b, (leftIn_concat_other htakes).mpr hb⟩

/-- A slot that was taken was open to one of them before the pass. -/
theorem Taken.open (h : Taken p A k) : ∃ a ∈ A, ¬ Closed p a k := by
  obtain ⟨B, hB, ⟨a, ha, hopen, -⟩, -⟩ := h
  exact ⟨a, ((List.mem_inits _ _).mp hB).subset ha, hopen⟩

/-! ## The whole pass -/

/-- The state `q` is what the pass over the light entries `A` made of `p`. -/
structure Placed (p : NodeHeap × AllocManager) (A : List Addr) (q : NodeHeap × AllocManager) :
    Prop where
  node : ∀ b, nodeAt q.1 b =
    if b ∈ A then { nodeAt p.1 b with weight := 0, cached := true } else nodeAt p.1 b
  left : ∀ a k, LeftIn p A a k → q.2.cacheList k = ⟨(nodeAt p.1 a).data, a⟩
  kept : ∀ k, ¬ Taken p A k → q.2.cacheList k = p.2.cacheList k

/-- The slot taken last is light: it is open to every entry. -/
theorem Placed.open (hq : Placed p A q) (hi : Takes p A i) (a : Addr) : ¬ Closed q a i := by
  obtain ⟨B, b, rfl⟩ := List.eq_nil_or_concat' A |>.resolve_left hi.ne_nil
  rintro ⟨-, -, hheavy⟩
  -- the last of `A` lies there, with its weight reset
  rw [hq.left b i ((leftIn_concat_self hi).mpr rfl), hq.node, if_pos (by simp)] at hheavy
  have hlight : ¬ (10 : UInt8) ≤ 0 := by decide
  exact hlight hheavy

/-- A slot that was closed to all of them holds what it held, of the same weight. -/
theorem Placed.closed_iff (hq : Placed p A q) (hk : ∀ b ∈ A, Closed p b k) :
    Closed q a k ↔ Closed p a k := by
  have hslot : q.2.cacheList k = p.2.cacheList k := by
    refine hq.kept k fun htaken => ?_
    obtain ⟨b, hb, hopen⟩ := htaken.open
    exact hopen (hk b hb)
  have hvalue : (p.2.cacheList k).value ∉ A := fun hmem => (hk _ hmem).2.1 rfl
  unfold Closed
  rw [hslot, hq.node, if_neg hvalue]

/-- After some light entries, the first slot for the next one is the slot that it takes. -/
theorem Placed.firstOpen_iff (hq : Placed p A q) : FirstOpen q a i ↔ Takes p (A ++ [a]) i := by
  have hforward : ∀ {i}, FirstOpen q a i → Takes p (A ++ [a]) i := by
    intro i hi
    -- no slot before `i` is open to one of `A`: the first such one would be open still
    have hbefore : ∀ b ∈ A, ∀ j < i, Closed p b j := by
      intro b hb j hj
      by_contra hopen
      obtain ⟨m, hm, htakes⟩ := takes_exists hb hopen
      exact hq.open htakes a (hi.2 m (hm.trans_lt hj))
    have hself : ∀ j < i, Closed p a j := fun j hj =>
      (hq.closed_iff fun b hb => hbefore b hb j hj).mp (hi.2 j hj)
    have hall : ∀ b ∈ A ++ [a], ∀ j < i, Closed p b j := by
      intro b hb
      rcases List.mem_append.mp hb with hb | hb
      · exact hbefore b hb
      · exact List.mem_singleton.mp hb ▸ hself
    by_cases hclosed : ∀ b ∈ A, Closed p b i
    · exact takes_of_closed (List.mem_append_right A (List.mem_singleton_self a))
        (fun h => hi.1 ((hq.closed_iff hclosed).mpr h)) hall
    · push Not at hclosed
      obtain ⟨b, hb, hopen⟩ := hclosed
      exact takes_of_closed (List.mem_append_left [a] hb) hopen hall
  refine ⟨hforward, fun hi => ?_⟩
  -- some slot is open to `a`, and the first of them can only be `i`
  have hexists : ∃ j, ¬ Closed q a j := by
    by_cases hopen : ∃ b ∈ A, ¬ Closed p b i
    · obtain ⟨b, hb, hopen⟩ := hopen
      obtain ⟨m, -, htakes⟩ := takes_exists hb hopen
      exact ⟨m, hq.open htakes a⟩
    · push Not at hopen
      obtain ⟨⟨b, hb, hfirst⟩, -⟩ := hi
      refine ⟨i, fun h => ?_⟩
      rcases List.mem_append.mp hb with hb | hb
      · exact hfirst.1 (hopen b hb)
      · rw [List.mem_singleton.mp hb] at hfirst
        exact hfirst.1 ((hq.closed_iff hopen).mp h)
  obtain ⟨j, hj⟩ := hexists
  obtain ⟨k, hk⟩ := firstOpen_exists hj
  obtain rfl := hi.unique (hforward hk)
  exact hk

/-- Which entry a slot holds. -/
theorem Placed.value_iff (hq : Placed p A q) : (q.2.cacheList k).value = a ↔ HeldIn p A a k := by
  by_cases htaken : Taken p A k
  · obtain ⟨b, hb⟩ := htaken.leftIn
    rw [hq.left b k hb, HeldIn, or_iff_left fun h => h.1 htaken]
    refine ⟨fun hba => hba ▸ hb, fun ha => ?_⟩
    exact congrArg CachePair.value ((hq.left b k hb).symm.trans (hq.left a k ha))
  · rw [hq.kept k htaken, HeldIn, or_iff_right (mt LeftIn.taken htaken), and_iff_right htaken]

/-- One visit more. -/
theorem Placed.visit (hq : Placed p A q) (hl : Light q.1 a) :
    Placed p (A ++ [a]) (workEntry q a) := by
  have hdata : (nodeAt q.1 a).data = (nodeAt p.1 a).data := by
    rw [hq.node]
    split <;> rfl
  -- the slot that the visit takes, if it takes one
  have hslot : ∀ k, (workEntry q a).2.cacheList k =
      if Takes p (A ++ [a]) k then ⟨(nodeAt p.1 a).data, a⟩ else q.2.cacheList k := by
    intro k
    by_cases hfound : ∃ i, FirstOpen q a i
    · obtain ⟨i, hi⟩ := hfound
      have htakes := hq.firstOpen_iff.mp hi
      rw [slot_workEntry hl hi, hdata]
      refine if_congr ⟨fun h => h ▸ htakes, fun h => h.unique htakes⟩ rfl rfl
    · rw [slots_workEntry_full hl fun i hi => hfound ⟨i, hi⟩,
        if_neg fun h => hfound ⟨k, hq.firstOpen_iff.mpr h⟩]
  constructor
  · intro b
    rw [nodeAt_workEntry, hq.node]
    by_cases hba : b = a
    · subst hba
      by_cases hbA : b ∈ A <;> simp [hl, hbA]
    · simp [hba]
  · intro b k hleft
    rw [hslot]
    by_cases htakes : Takes p (A ++ [a]) k
    · rw [if_pos htakes, (leftIn_concat_self htakes).mp hleft]
    · rw [if_neg htakes]
      exact hq.left b k ((leftIn_concat_other htakes).mp hleft)
  · intro k hno
    obtain ⟨htakes, hno⟩ := not_or.mp (mt taken_concat.mpr hno)
    rw [hslot, if_neg htakes]
    exact hq.kept k hno

/-- Which entries are light stays. -/
theorem Placed.light_iff (hq : Placed p (lights p L) q) : Light q.1 a ↔ Light p.1 a := by
  by_cases ha : a ∈ lights p L
  · refine iff_of_true ?_ (mem_lights.mp ha).2
    have hzero : (0 : UInt8) ≤ 10 := by decide
    unfold Light
    rw [hq.node, if_pos ha]
    exact hzero
  · unfold Light
    rw [hq.node, if_neg ha]

/-- **The whole pass**, as a function of the state before it. -/
theorem placed_workPass (p : NodeHeap × AllocManager) (L : List Addr) :
    Placed p (lights p L) (workPass p L) := by
  induction L using List.reverseRecOn with
  | nil =>
    refine ⟨fun b => ?_, fun a k h => ?_, fun k _ => rfl⟩
    · exact (if_neg List.not_mem_nil).symm
    · exact absurd h.mem List.not_mem_nil
  | append_singleton L a ih =>
    rw [workPass_concat, lights_concat]
    by_cases hl : Light p.1 a
    · rw [if_pos hl]
      exact ih.visit (ih.light_iff.mpr hl)
    · -- a heavy entry was heavy before the pass, and is passed over
      rw [if_neg hl, List.append_nil]
      have hheavy : ¬ Light (workPass p L).1 a := fun h => hl (ih.light_iff.mp h)
      have hsame : workEntry (workPass p L) a = workPass p L := if_neg hheavy
      rw [hsame]
      exact ih

/-- The slots after a pass. -/
theorem after_iff {pair : CachePair} :
    After p L k pair ↔ (workPass p L).2.cacheList k = pair := by
  have hq := placed_workPass p L
  constructor
  · rintro (h | h)
    · exact hq.left _ k h
    · exact hq.kept k h
  · rintro rfl
    by_cases htaken : Taken p (lights p L) k
    · obtain ⟨a, ha⟩ := htaken.leftIn
      rw [hq.left a k ha]
      exact .left ha
    · rw [hq.kept k htaken]
      exact .kept htaken

/-- The lookup after a pass. -/
theorem firstAfter_iff {key v : Addr} (hkey : key ≠ NULL) :
    FirstAfter p L key v ↔ ∃ i, (workPass p L).2.keySlot key = some i ∧
      ((workPass p L).2.cacheList i).value = v := by
  have hslot : ∀ k, (∃ w, After p L k ⟨key, w⟩) ↔ ((workPass p L).2.cacheList k).key = key := by
    intro k
    constructor
    · rintro ⟨w, hw⟩
      rw [after_iff.mp hw]
    · exact fun hk => ⟨_, after_iff.mpr (by rw [← hk])⟩
  have hfirst : ∀ i, (workPass p L).2.keySlot key = some i ↔
      ((workPass p L).2.cacheList i).key = key ∧ ∀ j < i, ∀ w, ¬ After p L j ⟨key, w⟩ := by
    intro i
    rw [keySlot, find?_slots, decide_eq_true_eq]
    refine and_congr ⟨fun h => h.2, fun h => ⟨h ▸ hkey, h⟩⟩ ?_
    refine forall_congr' fun j => imp_congr_right fun _ => ?_
    rw [decide_eq_false_iff_not, ← not_exists, hslot]
    exact not_congr ⟨fun h => h.2, fun h => ⟨h ▸ hkey, h⟩⟩
  constructor
  · rintro ⟨i, hi, hbefore⟩
    have hpair := after_iff.mp hi
    exact ⟨i, (hfirst i).mpr ⟨by rw [hpair], hbefore⟩, by rw [hpair]⟩
  · rintro ⟨i, hi, rfl⟩
    obtain ⟨hik, hbefore⟩ := (hfirst i).mp hi
    exact ⟨i, after_iff.mpr (by rw [← hik]), hbefore⟩

/-! ## Nodes that are gone -/

theorem not_stale_of_closed (h : Closed p a k) : ¬ p.2.Stale p.1 k := by
  rintro ⟨-, hnone⟩
  have hheavy := h.2.2
  rw [nodeAt, Option.isNone_iff_eq_none.mp hnone] at hheavy
  exact absurd hheavy (by decide)

theorem workPass_heavy (hheavy : ∀ b ∈ L, ¬ Light p.1 b) : workPass p L = p := by
  induction L with
  | nil => rfl
  | cons b L ih =>
    have hsame : workEntry p b = p := if_neg (hheavy b List.mem_cons_self)
    show workPass (workEntry p b) L = p
    rw [hsame]
    exact ih fun c hc => hheavy c (List.mem_cons_of_mem b hc)

/-- A slot whose node is gone after some visits was such a slot before them. -/
theorem stale_before {l : ListState} {m : AllocManager} (hlive : ∀ a ∈ L, (l.nodes.lookup a).isSome)
    (hsub : ∀ b ∈ A, b ∈ L)
    (hstale : (workPass (l.nodes, m) A).2.Stale (workPass (l.nodes, m) A).1 i) :
    m.Stale l.nodes i := by
  have hsame := (workPass_spec (m := m) hlive hsub).1
  have hq := placed_workPass (l.nodes, m) A
  obtain ⟨hne, hnone⟩ := hstale
  by_cases htaken : Taken (l.nodes, m) (lights (l.nodes, m) A) i
  · -- what was stored is an entry, and alive
    obtain ⟨b, hb⟩ := htaken.leftIn
    have hsome := hlive b (hsub b (mem_lights.mp hb.mem).1)
    rw [hq.left b i hb] at hnone
    rw [← hsame.live b, Option.isNone_iff_eq_none.mp hnone] at hsome
    cases hsome
  · rw [hq.kept i htaken] at hne hnone
    refine ⟨hne, ?_⟩
    have hgone := hsame.live (m.cacheList i).value
    rw [Option.isNone_iff_eq_none.mp hnone] at hgone
    rw [← Option.not_isSome, ← hgone]
    rfl

/-- A pass reads a node that is gone only in the visit of its first light entry. -/
theorem passReadsStale_iff {l : ListState} {m : AllocManager}
    (hlive : ∀ a ∈ L, (l.nodes.lookup a).isSome) :
    PassReadsStale (l.nodes, m) L ↔ ¬ PassSafe (l.nodes, m) L := by
  constructor
  · rintro ⟨pre, a, post, rfl, hl, i, hi, hstale⟩ hsafe
    have hbefore := stale_before hlive (fun b hb => List.mem_append_left _ hb) hstale
    have hq := placed_workPass (l.nodes, m) pre
    have hla : Light l.nodes a := hq.light_iff.mp hl
    have htakes := hq.firstOpen_iff.mp (slotFor_eq_some.mp hi)
    -- the first light entry would have come to it, or it is closed to that one
    obtain ⟨b, t, hbt⟩ : ∃ b t, lights (l.nodes, m) pre ++ [a] = b :: t :=
      List.exists_cons_of_ne_nil (by simp)
    have hhead : b ∈ (lights (l.nodes, m) (pre ++ a :: post)).head? := by
      rw [lights_split hla, hbt]
      rfl
    by_cases hclosed : Closed (l.nodes, m) b i
    · exact not_stale_of_closed hclosed hbefore
    · have hmem : b ∈ lights (l.nodes, m) pre ++ [a] := hbt ▸ List.mem_cons_self
      obtain ⟨j, hj⟩ := firstOpen_exists hclosed
      obtain rfl : i = j := le_antisymm (htakes.2 b hmem j hj) (hj.le hclosed)
      exact hsafe b hhead i hj hbefore
  · intro hunsafe
    unfold PassSafe at hunsafe
    push Not at hunsafe
    obtain ⟨a, ha, i, hi, hstale⟩ := hunsafe
    obtain ⟨t, ht⟩ := List.head?_eq_some_iff.mp ha
    obtain ⟨pre, post, rfl, hheavy, hl, -⟩ := List.filter_eq_cons_iff.mp ht
    -- up to the first light entry the pass does nothing
    have hpre : workPass (l.nodes, m) pre = (l.nodes, m) :=
      workPass_heavy fun b hb hlb => hheavy b hb (decide_eq_true hlb)
    refine ⟨pre, a, post, rfl, ?_⟩
    rw [hpre]
    exact ⟨of_decide_eq_true hl, i, slotFor_eq_some.mpr hi, hstale⟩

end Pass

section Work

variable {env : Env} {s : Lib} {E : Stop → Lib → Prop} {L : List Addr}

/-- The pass of a call, with everything that can keep it from returning. -/
theorem wp_memmanWork_exact {Q : Unit → Lib → Prop} (h : s.list.Rep L)
    (hblock : Blocks env.tid s.allocMutex ∨ ScanBlocks env.tid s.list → ∀ s', E .blocked s')
    (hdead : ¬ PassSafe (s.list.nodes, s.manager) L → ∀ s', E .undefined s')
    (hQ : ¬ Blocks env.tid s.allocMutex → ¬ ScanBlocks env.tid s.list →
      PassSafe (s.list.nodes, s.manager) L → Q () (s.worked env L)) :
    wp memmanWork env Q E s := by
  have hstale := passReadsStale_iff (m := s.manager) fun _ ha => h.live_of_mem ha
  exact wp_memmanWork_visits h hblock (fun hr => hdead (hstale.mp hr)) fun hfree hnb hno =>
    hQ hfree hnb (not_not.mp (mt hstale.mpr hno))

end Work

end LibSafetynet
