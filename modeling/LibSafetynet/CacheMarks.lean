import LibSafetynet.CachePass

/-!
# The `cached` field of an entry

The field is to say whether a slot holds the entry. It is set wherever an entry is stored
or only considered for storing, and cleared by `memman_cacheInvalidate` alone: an entry
that is pushed out of its slot keeps the mark. `KeepsTrue` lists what a call must not do
for the marks to stay true; `CacheEffect.truthful` is the step.
-/

namespace LibSafetynet

open Logic Prog AllocManager

/-- Some slot holds the entry. -/
def CacheView.Holds (v : CacheView) (a : Addr) : Prop := ∃ i, (v.slots i).value = a

/-- The marked entries are those that a slot holds. -/
def Truthful (v : CacheView) (L : List Addr) : Prop := ∀ a ∈ L, v.marks a = true ↔ v.Holds a

/-- Storing `a` into slot `i` pushes another entry out of the cache. -/
def Evicts (v : CacheView) (L : List Addr) (i : Slot) (a : Addr) : Prop :=
  ∃ b ∈ L, b ≠ a ∧ (v.slots i).value = b ∧ ∀ j, (v.slots j).value = b → j = i

/-- Every light entry comes out of a pass with a slot: one that no other light entry takes
after it, or one that held it before and that none takes. -/
def PassSeats (p : NodeHeap × AllocManager) (L : List Addr) : Prop :=
  ∀ a ∈ lights p L, ∃ k, HeldIn p (lights p L) a k

instance (p : NodeHeap × AllocManager) (L : List Addr) : Decidable (PassSeats p L) :=
  inferInstanceAs (Decidable (∀ a ∈ lights p L, _))

/-- The request for `p` takes the last slot of no other entry. -/
def RequestsSpare (s : Lib) (p : Addr) : Prop :=
  p ≠ NULL → findPtr s.list s.list.entries p ≠ NULL → s.manager.AcceptsPut →
    ∀ i ∈ s.manager.freeSlot,
      ¬ Evicts s.cacheView s.list.entries i (findPtr s.list s.list.entries p)

/-- Emptying the slots for `p` takes no mark from an entry that keeps another slot. -/
def FreesWhole (s : Lib) (p : Addr) : Prop :=
  ∀ b ∈ s.list.entries, b ≠ findPtr s.list s.list.entries p → ∀ i j,
    (s.manager.cacheList i).key = p → (s.manager.cacheList i).value = b →
      (s.manager.cacheList j).value = b → (s.manager.cacheList j).key = p

/-- Every entry that `memman_cacheClear` takes a slot from has one that it skips. -/
def ClearsSpare (s : Lib) : Prop :=
  ∀ i, (s.manager.cacheList i).key ≠ NULL → (s.manager.cacheList i).value ∈ s.list.entries →
    ∃ j, (s.manager.cacheList j).key = NULL ∧
      (s.manager.cacheList j).value = (s.manager.cacheList i).value

/-- What a call must not do to keep the marks true. -/
structure KeepsTrue (l : Env × Op) (s : Lib) : Prop where
  pass : PassSeats (s.list.nodes, s.manager) (l.2.visits s.list.entries)
  put : ∀ p, l.2 = .requestToFastCache p → RequestsSpare s p
  clear : l.2 = .fastCacheClear → ClearsSpare s
  free : ∀ p, Frees l s p → FreesWhole s p
  /-- The platform puts the next node where a slot still has an entry that is gone. -/
  node : l.1.node ≠ NULL → ∀ i, (s.manager.cacheList i).value = l.1.node →
    l.1.node ∈ s.list.entries

/-- The block that the operation requests a slot for. -/
def Op.requested : Op → Option Addr
  | .requestToFastCache p => some p
  | _ => none

/-- The operation empties the cache. -/
def Op.clears : Op → Bool
  | .fastCacheClear => true
  | _ => false

theorem Op.requested_eq_some {op : Op} {p : Addr} :
    op.requested = some p ↔ op = .requestToFastCache p := by
  cases op <;> simp [Op.requested]

theorem Op.clears_eq_true {op : Op} : op.clears = true ↔ op = .fastCacheClear := by
  cases op <;> simp [Op.clears]

instance (op : Op) (P : Addr → Prop) [DecidablePred P] :
    Decidable (∀ p, op = .requestToFastCache p → P p) :=
  decidable_of_iff (∀ p ∈ op.requested, P p)
    (forall_congr' fun _ => imp_congr_left Op.requested_eq_some)

instance (op : Op) : Decidable (op = .fastCacheClear) :=
  decidable_of_iff _ Op.clears_eq_true

instance (v : CacheView) (a : Addr) : Decidable (v.Holds a) :=
  inferInstanceAs (Decidable (∃ i, _))

instance (v : CacheView) (L : List Addr) (i : Slot) (a : Addr) : Decidable (Evicts v L i a) :=
  inferInstanceAs (Decidable (∃ b ∈ L, _))

instance (s : Lib) : DecidablePred (RequestsSpare s) :=
  fun _ => inferInstanceAs (Decidable (_ → _))

instance (s : Lib) : DecidablePred (FreesWhole s) :=
  fun _ => inferInstanceAs (Decidable (∀ b ∈ s.list.entries, _))

instance (s : Lib) : Decidable (ClearsSpare s) := inferInstanceAs (Decidable (∀ i, _))

instance (l : Env × Op) (s : Lib) : Decidable (KeepsTrue l s) :=
  decidable_of_iff (_ ∧ (∀ p, l.2 = .requestToFastCache p → RequestsSpare s p) ∧ _ ∧
      (∀ p, Frees l s p → FreesWhole s p) ∧ _)
    ⟨fun h => ⟨h.1, h.2.1, h.2.2.1, h.2.2.2.1, h.2.2.2.2⟩,
      fun h => ⟨h.pass, h.put, h.clear, h.free, h.node⟩⟩

section Kept

variable {cfg : Config} {l : Env × Op} {s s' : Lib} {L L' : List Addr} {v : CacheView} {i : Slot}
  {a k : Addr}

theorem holds_put {b : Addr} :
    (v.put i ⟨k, a⟩).Holds b ↔ a = b ∨ ∃ j, j ≠ i ∧ (v.slots j).value = b := by
  have hvalue : ∀ j, ((v.put i ⟨k, a⟩).slots j).value = if j = i then a else (v.slots j).value := by
    intro j
    rw [slot_put, apply_ite CachePair.value]
  constructor
  · rintro ⟨j, hj⟩
    rw [hvalue] at hj
    by_cases hji : j = i
    · rw [if_pos hji] at hj
      exact Or.inl hj
    · rw [if_neg hji] at hj
      exact Or.inr ⟨j, hji, hj⟩
  · rintro (rfl | ⟨j, hji, hj⟩)
    · refine ⟨i, ?_⟩
      rw [hvalue, if_pos rfl]
    · refine ⟨j, ?_⟩
      rw [hvalue, if_neg hji]
      exact hj

/-- Storing an entry keeps the marks true if no other one loses its last slot. -/
theorem Truthful.put (ht : Truthful v L) (hsafe : ¬ Evicts v L i a) :
    Truthful (v.put i ⟨k, a⟩) L := by
  intro b hb
  rw [marks_put, holds_put]
  by_cases hba : b = a
  · rw [if_pos hba]
    exact iff_of_true rfl (Or.inl hba.symm)
  · rw [if_neg hba, ht b hb, or_iff_right (fun h => hba h.symm)]
    constructor
    · rintro ⟨j, hj⟩
      by_cases hji : j = i
      · -- the slot that is taken is not the last one
        by_contra hlast
        refine hsafe ⟨b, hb, hba, hji ▸ hj, fun j' hj' => ?_⟩
        by_contra hj'i
        exact hlast ⟨j', hj'i, hj'⟩
      · exact ⟨j, hji, hj⟩
    · rintro ⟨j, -, hj⟩
      exact ⟨j, hj⟩

/-- An entry that the pass does not store has the slots that it had. -/
theorem heldIn_heavy {p : NodeHeap × AllocManager} {A : List Addr} {b : Addr} (hb : b ∉ A)
    (hkeep : A = [] ∨ ¬ Light p.1 b ∧ b ≠ NULL) :
    (∃ k, HeldIn p A b k) ↔ (cacheViewOf p).Holds b := by
  constructor
  · rintro ⟨k, hleft | ⟨-, hk⟩⟩
    · exact absurd hleft.mem hb
    · exact ⟨k, hk⟩
  · rintro ⟨k, hk⟩
    refine ⟨k, Or.inr ⟨fun htaken => ?_, hk⟩⟩
    obtain ⟨c, hc, hopen⟩ := htaken.open
    rcases hkeep with rfl | ⟨hl, hnull⟩
    · exact absurd hc List.not_mem_nil
    -- its slot is closed to every other entry
    have hvalue : (p.2.cacheList k).value = b := hk
    refine hopen ⟨?_, ?_, ?_⟩
    · rwa [hvalue]
    · rw [hvalue]
      exact fun h => hb (h ▸ hc)
    · rw [hvalue]
      exact UInt8.le_of_lt (UInt8.not_le.mp hl)

/-- The passes of a call. -/
theorem Truthful.workPass {p : NodeHeap × AllocManager} {as : List Addr} (has : ∀ a ∈ as, a ∈ L)
    (hall : as = [] ∨ ∀ a ∈ L, a ∈ as) (hnull : ∀ a ∈ L, a ≠ NULL) (hok : PassSeats p as)
    (ht : Truthful (cacheViewOf p) L) :
    Truthful (cacheViewOf (workPass p as)) L ∧ ∀ b, b ∉ L → ¬ (cacheViewOf p).Holds b →
      (cacheViewOf (workPass p as)).marks b = (cacheViewOf p).marks b ∧
        ¬ (cacheViewOf (workPass p as)).Holds b := by
  have hq := placed_workPass p as
  have hholds : ∀ b, (cacheViewOf (LibSafetynet.workPass p as)).Holds b ↔
      ∃ k, HeldIn p (lights p as) b k := fun b => exists_congr fun k => hq.value_iff
  have hmark : ∀ b, b ∉ lights p as →
      (cacheViewOf (LibSafetynet.workPass p as)).marks b = (cacheViewOf p).marks b := by
    intro b hb
    show (nodeAt _ b).cached = (nodeAt p.1 b).cached
    rw [hq.node, if_neg hb]
  constructor
  · intro b hbL
    rw [hholds]
    -- a light entry is marked, and has a slot by the condition; a heavy one is left alone
    by_cases hb : b ∈ lights p as
    · refine iff_of_true ?_ (hok b hb)
      show (nodeAt _ b).cached = true
      rw [hq.node, if_pos hb]
    · rw [hmark b hb, heldIn_heavy hb, ht b hbL]
      rcases hall with rfl | hall
      · exact Or.inl rfl
      · exact Or.inr ⟨fun hl => hb (mem_lights.mpr ⟨hall b hbL, hl⟩), hnull b hbL⟩
  · intro b hbL hno
    have hb : b ∉ lights p as := fun h => hbL (has b (mem_lights.mp h).1)
    refine ⟨hmark b hb, fun hafter => ?_⟩
    obtain ⟨k, hleft | ⟨-, hk⟩⟩ := (hholds b).mp hafter
    · exact hb hleft.mem
    · exact hno ⟨k, hk⟩

/-- Emptying the slots of a pointer, or all of them: the marks of the entries that stay. -/
theorem holds_drop {wanted : Addr → Bool} {cached : Bool} {b : Addr} (hb : b ≠ NULL) :
    (v.drop wanted cached slots).Holds b ↔
      ∃ i, ¬ DropsSlot wanted (v.slots i) = true ∧ (v.slots i).value = b := by
  refine exists_congr fun i => ?_
  show ((if i ∈ slots ∧ DropsSlot wanted (v.slots i) then CachePair.empty else v.slots i).value = b)
    ↔ _
  by_cases hd : DropsSlot wanted (v.slots i) = true
  · rw [if_pos ⟨mem_slots i, hd⟩]
    exact iff_of_false (fun h => hb h.symm) fun h => h.1 hd
  · rw [if_neg fun h => hd h.2]
    exact (and_iff_right hd).symm

theorem holds_of_not_dropped {wanted : Addr → Bool} {b : Addr}
    (hd : ¬ ∃ i, DropsSlot wanted (v.slots i) = true ∧ (v.slots i).value = b) :
    v.Holds b ↔ ∃ i, ¬ DropsSlot wanted (v.slots i) = true ∧ (v.slots i).value = b := by
  constructor
  · rintro ⟨i, hi⟩
    exact ⟨i, fun hdi => hd ⟨i, hdi, hi⟩, hi⟩
  · rintro ⟨i, -, hi⟩
    exact ⟨i, hi⟩

theorem not_holds_drop {wanted : Addr → Bool} {cached : Bool} {b : Addr} (hb : b ≠ NULL)
    (hno : ¬ v.Holds b) : (v.drop wanted cached slots).marks b = v.marks b ∧
      ¬ (v.drop wanted cached slots).Holds b := by
  rw [marks_drop, holds_drop hb]
  have hgone : ∀ {q : Slot → Prop}, ¬ ∃ i, q i ∧ (v.slots i).value = b := by
    rintro q ⟨i, -, hi⟩
    exact hno ⟨i, hi⟩
  exact ⟨if_neg hgone, hgone⟩

/-- One operation that keeps the marks true. -/
theorem CacheEffect.truthful (h : CacheEffect l s L s') (hb : Base s L) (hb' : Base s' L')
    (hnew : ∀ b ∈ L', b ∈ L ∨ b = l.1.node ∧ (s.list.nodes.lookup b).isNone) (hok : KeepsTrue l s)
    (ht : Truthful s.cacheView L) : Truthful s'.cacheView L' := by
  have hentries := hb.rep.entries_eq
  -- it is enough to look at the old entries, and at what no slot held
  have hgrow : (∀ b ∈ L', b ∈ L → (s'.cacheView.marks b = true ↔ s'.cacheView.Holds b)) →
      (∀ b ∈ L', b ∉ L → ¬ s.cacheView.Holds b →
        s'.cacheView.marks b = s.cacheView.marks b ∧ ¬ s'.cacheView.Holds b) →
      Truthful s'.cacheView L' := by
    intro hold hother b hbL'
    rcases hnew b hbL' with hbL | ⟨hnode, hnone⟩
    · exact hold b hbL' hbL
    · by_cases hbL : b ∈ L
      · exact hold b hbL' hbL
      -- a new node starts unmarked, and no slot has kept its address
      have hno : ¬ s.cacheView.Holds b := by
        rintro ⟨i, hi⟩
        have hmem := hok.node (hnode ▸ hb'.rep.ne_null hbL') i (hi.trans hnode)
        rw [hentries, ← hnode] at hmem
        exact hbL hmem
      obtain ⟨hmark, hhold⟩ := hother b hbL' hbL hno
      refine iff_of_false ?_ hhold
      rw [hmark]
      show ¬ (nodeAt s.list.nodes b).cached = true
      rw [nodeAt, Option.isNone_iff_eq_none.mp hnone]
      exact Bool.false_ne_true
  -- where marks and slots are as before
  have hsame : s'.cacheView.slots = s.cacheView.slots → s'.cacheView.marks = s.cacheView.marks →
      Truthful s'.cacheView L' := by
    intro hslots hmarks
    unfold CacheView.Holds at hgrow
    rw [hslots, hmarks] at hgrow
    exact hgrow (fun b _ hb => ht b hb) fun b _ _ hno => ⟨rfl, hno⟩
  cases h with
  | passed hv =>
    -- the light entries are seated and marked, the others have what they had
    have hseats := hok.pass
    rw [hentries] at hseats
    obtain ⟨hpass, hother⟩ := ht.workPass (fun a ha => mem_of_mem_visits ha) (visits_all l.2 L)
      (fun a ha => hb.rep.ne_null ha) hseats
    refine hgrow (fun b _ hbL => ?_) fun b _ hbL hno => ?_
    · rw [hv]
      exact hpass b hbL
    · rw [hv]
      exact hother b hbL hno
  | locked _ hv => exact hsame (by rw [hv]) (by rw [hv])
  | unlocked _ hv => exact hsame (by rw [hv]) (by rw [hv])
  | caching _ hv => exact hsame (by rw [hv]) (by rw [hv])
  | cleared hop hv =>
    -- clearing marks what it drops: another slot, which it passes over, must hold that still
    refine hgrow (fun b hbL' hbL => ?_) fun b hbL' _ hno => ?_
    · have hne := hb'.rep.ne_null hbL'
      rw [hv, marks_drop, holds_drop hne]
      by_cases hd : ∃ i, DropsSlot (fun _ => true) (s.cacheView.slots i) = true ∧
          (s.cacheView.slots i).value = b
      · rw [if_pos hd]
        obtain ⟨i, hdi, hi⟩ := hd
        have hmem : (s.manager.cacheList i).value ∈ s.list.entries := by
          rw [hentries]
          exact hi ▸ hbL
        obtain ⟨j, hkey, hval⟩ := hok.clear hop i (of_decide_eq_true hdi).1 hmem
        refine iff_of_true rfl ⟨j, fun hdj => (of_decide_eq_true hdj).1 hkey, hval.trans hi⟩
      · rw [if_neg hd, ht b hbL]
        exact holds_of_not_dropped hd
    · rw [hv]
      exact not_holds_drop (hb'.rep.ne_null hbL') hno
  | @put i p hop hp hfound hacc hslot hv =>
    -- the requested entry is marked; the slot it gets is not the only one of another
    have hsafe := hok.put p hop hp (by rwa [hentries]) hacc i hslot
    rw [hentries] at hsafe
    refine hgrow (fun b _ hbL => ?_) fun b _ hbL hno => ?_
    · rw [hv]
      exact ht.put hsafe b hbL
    · have hba : b ≠ findPtr s.list L p := fun heq => hbL (heq ▸ (findPtr_mem hfound).1)
      rw [hv, marks_put, holds_put, if_neg hba]
      refine ⟨rfl, ?_⟩
      rintro (heq | ⟨j, -, hj⟩)
      · exact hba heq.symm
      · exact hno ⟨j, hj⟩
  | @freed p hfrees hfv hgone =>
    -- what a slot under `p` held is unmarked: it may have no slot under another key
    have hmarks : ∀ b ∈ L', s'.cacheView.marks b
        = (s.cacheView.drop (· = p) false slots).marks b :=
      fun b hbL' => hfv.marks b (hb'.rep.live_of_mem hbL')
    have hholds : ∀ b, s'.cacheView.Holds b ↔
        (s.cacheView.drop (· = p) false slots).Holds b := by
      intro b
      unfold CacheView.Holds
      rw [hfv.slot]
    refine hgrow (fun b hbL' hbL => ?_) fun b hbL' _ hno => ?_
    · have hne := hb'.rep.ne_null hbL'
      rw [hmarks b hbL', hholds, marks_drop, holds_drop hne]
      by_cases hd : ∃ i, DropsSlot (· = p) (s.cacheView.slots i) = true ∧
          (s.cacheView.slots i).value = b
      · rw [if_pos hd]
        obtain ⟨i, hdi, hi⟩ := hd
        refine iff_of_false Bool.false_ne_true ?_
        rintro ⟨j, hdj, hj⟩
        refine hdj (decide_eq_true ?_)
        have hbgone : b ≠ findPtr s.list L p := by
          rintro rfl
          have := hgone hne
          rw [hb'.rep.entries_eq] at this
          exact this hbL'
        have hki : (s.manager.cacheList i).key = p := of_decide_eq_true (of_decide_eq_true hdi).2
        have hkj : (s.manager.cacheList j).key = p :=
          hok.free p hfrees b (by rwa [hentries]) (by rwa [hentries]) i j hki hi hj
        exact ⟨fun h0 => hfv.ptr_ne (hkj.symm.trans h0), decide_eq_true hkj⟩
      · rw [if_neg hd, ht b hbL]
        exact holds_of_not_dropped hd
    · rw [hmarks b hbL', hholds]
      exact not_holds_drop (hb'.rep.ne_null hbL') hno

end Kept

/-- **True marks.** In every state of a run whose calls avoid the ways to spoil a mark, an
entry is marked as cached exactly if a slot holds it. -/
theorem marks_true_of_kept {cfg : Config} {s₀ s : Lib} {ls : List (Env × Op)} (h₀ : Started s₀)
    (hok : Along (libStep cfg) KeepsTrue ls s₀) (hrun : run (libStep cfg) ls s₀ = some s) :
    ∀ a ∈ s.list.entries,
      (nodeAt s.list.nodes a).cached = true ↔ ∃ i, (s.manager.cacheList i).value = a := by
  have hl := loaded_of_started h₀
  have hstep : ∀ l s s', (∃ L, Base s L ∧ Truthful s.cacheView L) → KeepsTrue l s →
      libStep cfg l s = some s' → ∃ L', Base s' L' ∧ Truthful s'.cacheView L' := by
    rintro l s s' ⟨L, hb, ht⟩ hok hstep
    obtain ⟨L', hb', hnew, heffect⟩ := libStep_cache hb hstep
    exact ⟨L', hb', heffect.truthful hb hb' hnew hok ht⟩
  obtain ⟨L, hb, ht⟩ := run_invariant hstep
    ⟨[], hl.base, fun a ha => absurd ha List.not_mem_nil⟩ hok hrun
  rw [hb.rep.entries_eq]
  exact ht

/-- The first block has two slots. The pass puts the second block into one of them, which
is emptied again when the block is freed. -/
theorem marks_true_of_kept_at :
    ∃ ls s₀ s, ls = [(Env.plain 1 128 4096, .malloc 8), (Env.plain 1 0 0, .requestToFastCache 4096),
        (Env.plain 1 0 0, .requestToFastCache 4096), (Env.plain 1 192 8192, .malloc 8),
        (Env.plain 1 0 0, .querySize 4096), (Env.plain 1 0 0, .free 8192)] ∧
      Started s₀ ∧ run (libStep ⟨false⟩) ls s₀ = some s ∧ ∀ a ∈ s.list.entries,
        (nodeAt s.list.nodes a).cached = true ↔ ∃ i, (s.manager.cacheList i).value = a := by
  generalize hls : [(Env.plain 1 128 4096, Op.malloc 8),
    (Env.plain 1 0 0, .requestToFastCache 4096), (Env.plain 1 0 0, .requestToFastCache 4096),
    (Env.plain 1 192 8192, .malloc 8), (Env.plain 1 0 0, .querySize 4096),
    (Env.plain 1 0 0, .free 8192)] = ls
  have hsome : ((doinit (Env.plain 1 64 0) .blank).done?.bind fun s₀ =>
      (run (libStep ⟨false⟩) ls s₀).map fun _ =>
        decide (Along (libStep ⟨false⟩) KeepsTrue ls s₀)) = some true := by
    rw [← hls]
    decide +kernel
  obtain ⟨s₀, h₀, hsome⟩ := Option.bind_eq_some_iff.mp hsome
  obtain ⟨s, hs, hok⟩ := Option.map_eq_some_iff.mp hsome
  exact ⟨ls, s₀, s, rfl, started_of_done h₀, hs,
    marks_true_of_kept (started_of_done h₀) (of_decide_eq_true hok) hs⟩

/-- Two blocks and one query: the pass stores the first entry and replaces it by the
second, and both are marked. -/
theorem evicted_entry_marked :
    ((doinit (Env.plain 1 64 0) .blank).done?.bind (run (libStep ⟨false⟩)
      [(Env.plain 1 128 4096, .malloc 8), (Env.plain 1 192 8192, .malloc 8),
        (Env.plain 1 0 0, .querySize 4096)])).map (fun s =>
          (s.list.entries, (nodeAt s.list.nodes 128).cached, slots.map fun i =>
            (s.manager.cacheList i).value))
      = some ([128, 192], true, [192, NULL, NULL, NULL, NULL]) := by
  decide +kernel

end LibSafetynet
