import LibSafetynet.LinkedList

/-!
# Specifications of the tracking list

`Rep s L` says that the node heap of `s` threads exactly the addresses `L`
behind the dummy head. Every function of `LinkedList.lean` gets one weakest
precondition lemma under `Rep`; later modules use these and never unfold the
list code.

Mutexes are kept apart from the data: each lemma gives the data after the call
and names the mutex after it (`scanMutex` for everything built on
`linked_list_forEach`, whose early returns leave the mutex locked).
-/

namespace LibSafetynet

open Logic Prog PlatMutex

/-- What a node stores about its block, links and lock aside. -/
structure Payload where
  data : Addr
  size : UInt64
  tid : UInt64
  cached : Bool
  blockId : UInt16
  weight : UInt8
  deriving DecidableEq

def LinkedListEntry.payload (e : LinkedListEntry) : Payload :=
  ⟨e.data, e.size, e.tid, e.cached, e.blockId, e.weight⟩

namespace ListState

/-- The node heap of `s` is the list `L` behind the dummy head. -/
structure Rep (s : ListState) (L : List Addr) : Prop where
  links : DList (nextAt s.nodes) (prevAt s.nodes) NULL s.list.head L
  live : ∀ a, (s.nodes.lookup a).isSome ↔ a ∈ s.list.head :: L
  fits : ∀ a ∈ L, a + sizeofLinkedListEntry ≤ addressSpace
  isHead : ∀ a ∈ s.list.head :: L, (nodeAt s.nodes a).isHead = decide (a = s.list.head)
  mutexRef : ∀ a ∈ s.list.head :: L,
    (nodeAt s.nodes a).mutex = if a = s.list.head then .null else .list
  first : s.list.firstEntry = L.headD s.list.head
  last : s.list.lastEntry = L.getLastD s.list.head
  len : L.length ≤ s.list.len

end ListState

open ListState

/-! ## Primitives -/

section Primitives

variable {env : Env} {s : ListState} {E : Stop → ListState → Prop}

theorem lookup_eq_some_node {a : Addr} (h : (s.nodes.lookup a).isSome) :
    s.nodes.lookup a = some (nodeAt s.nodes a) := by
  obtain ⟨e, he⟩ := Option.isSome_iff_exists.mp h
  rw [nodeAt, he]
  rfl

theorem nextAt_eq {a : Addr} (ha : (s.nodes.lookup a).isSome) :
    nextAt s.nodes a = some (nodeAt s.nodes a).next := by
  rw [nextAt, lookup_eq_some_node ha]
  rfl

theorem prevAt_eq {a : Addr} (ha : (s.nodes.lookup a).isSome) :
    prevAt s.nodes a = some (nodeAt s.nodes a).previous := by
  rw [prevAt, lookup_eq_some_node ha]
  rfl

@[simp] theorem nodeAt_insert_self (h : NodeHeap) (a : Addr) (e : LinkedListEntry) :
    nodeAt (h.insert a e) a = e := by
  simp [nodeAt, Finmap.lookup_insert]

theorem nodeAt_insert_of_ne (h : NodeHeap) {a b : Addr} (e : LinkedListEntry) (hb : b ≠ a) :
    nodeAt (h.insert a e) b = nodeAt h b := by
  simp [nodeAt, Finmap.lookup_insert_of_ne h hb]

theorem nodeAt_erase_of_ne (h : NodeHeap) {a b : Addr} (hb : b ≠ a) :
    nodeAt (h.erase a) b = nodeAt h b := by
  simp [nodeAt, Finmap.lookup_erase_ne hb]

theorem isSome_lookup_insert (h : NodeHeap) (a b : Addr) (e : LinkedListEntry) :
    ((h.insert a e).lookup b).isSome ↔ b = a ∨ (h.lookup b).isSome := by
  rw [Finmap.lookup_isSome, Finmap.mem_insert, Finmap.lookup_isSome]

theorem isSome_lookup_erase (h : NodeHeap) (a b : Addr) :
    ((h.erase a).lookup b).isSome ↔ b ≠ a ∧ (h.lookup b).isSome := by
  rw [Finmap.lookup_isSome, Finmap.mem_erase, Finmap.lookup_isSome]

@[simp] theorem nodeAt_updNode_self (h : NodeHeap) (a : Addr)
    (f : LinkedListEntry → LinkedListEntry) : nodeAt (updNode h a f) a = f (nodeAt h a) :=
  nodeAt_insert_self _ _ _

theorem nodeAt_updNode_of_ne (h : NodeHeap) {a b : Addr} (f : LinkedListEntry → LinkedListEntry)
    (hb : b ≠ a) : nodeAt (updNode h a f) b = nodeAt h b :=
  nodeAt_insert_of_ne _ _ hb

theorem isSome_lookup_updNode {h : NodeHeap} {a : Addr} (f : LinkedListEntry → LinkedListEntry)
    (ha : (h.lookup a).isSome) (b : Addr) :
    ((updNode h a f).lookup b).isSome ↔ (h.lookup b).isSome := by
  rw [updNode, isSome_lookup_insert, or_iff_right_iff_imp]
  rintro rfl
  exact ha

theorem wp_deref {a : Addr} {Q : LinkedListEntry → ListState → Prop}
    (hQ : (s.nodes.lookup a).isSome → Q (nodeAt s.nodes a) s)
    (hE : (s.nodes.lookup a).isNone → E .undefined s) : wp (deref a) env Q E s := by
  rw [deref, wp_bind, wp_get]
  cases h : s.nodes.lookup a with
  | none => exact hE (by simp [h])
  | some e => simpa [nodeAt, h] using hQ

/-- Reading a live node. -/
theorem wp_deref_live {a : Addr} {Q : LinkedListEntry → ListState → Prop}
    (hlive : (s.nodes.lookup a).isSome) (hQ : Q (nodeAt s.nodes a) s) :
    wp (deref a) env Q E s := by
  refine wp_deref (fun _ => hQ) fun hnone => ?_
  simp [Option.isNone_iff_eq_none.mp hnone] at hlive

/-- Writing a live node. -/
theorem wp_store_live {a : Addr} {f : LinkedListEntry → LinkedListEntry}
    {Q : Unit → ListState → Prop} (hlive : (s.nodes.lookup a).isSome)
    (hQ : Q () { s with nodes := updNode s.nodes a f }) : wp (store a f) env Q E s := by
  rw [store, wp_bind]
  exact wp_deref_live hlive hQ

/-- `linked_list_entry_pri_isHead` of a live node. -/
theorem wp_isHead_live {a : Addr} {Q : Bool → ListState → Prop}
    (hlive : (s.nodes.lookup a).isSome) (hQ : Q (nodeAt s.nodes a).isHead s) :
    wp (linkedListEntryPriIsHead a) env Q E s := by
  rw [linkedListEntryPriIsHead, wp_bind]
  exact wp_deref_live hlive hQ

@[simp] theorem wp_getList {Q : LinkedList → ListState → Prop} :
    wp getList env Q E s ↔ Q s.list s := Iff.rfl

@[simp] theorem wp_setList {f : LinkedList → LinkedList} {Q : Unit → ListState → Prop} :
    wp (setList f) env Q E s ↔ Q () { s with list := f s.list } := Iff.rfl

@[simp] theorem wp_lockList {Q : Unit → ListState → Prop} :
    wp lockList env Q E s ↔
      (¬ Blocks env.tid s.mutex → Q () { s with mutex := acquire env.tid s.mutex }) ∧
        (Blocks env.tid s.mutex → E .blocked s) := by
  rw [lockList, wp_zoom, wp_platMutexLock]

@[simp] theorem wp_unlockList {Q : Unit → ListState → Prop} :
    wp unlockList env Q E s ↔ Q () { s with mutex := release s.mutex } := by
  rw [unlockList, wp_zoom, wp_platMutexUnlock]

@[simp] theorem wp_platGetTid {σ : Type} {s : σ} {E : Stop → σ → Prop} {Q : UInt64 → σ → Prop} :
    wp (platGetTid : CProg σ UInt64) env Q E s ↔ Q env.tid s := Iff.rfl

end Primitives

/-! ## Reading a represented list -/

namespace ListState.Rep

variable {s : ListState} {L : List Addr}

theorem live_of_mem (h : s.Rep L) {a : Addr} (ha : a ∈ L) : (s.nodes.lookup a).isSome :=
  (h.live a).mpr (List.mem_cons_of_mem _ ha)

theorem live_head (h : s.Rep L) : (s.nodes.lookup s.list.head).isSome :=
  (h.live _).mpr List.mem_cons_self

theorem live_last (h : s.Rep L) : (s.nodes.lookup s.list.lastEntry).isSome := by
  rw [h.live, h.last]
  exact getLastD_mem_cons _ _

theorem live_first (h : s.Rep L) : (s.nodes.lookup s.list.firstEntry).isSome := by
  rw [h.live, h.first]
  cases L <;> simp

theorem ne_null (h : s.Rep L) {a : Addr} (ha : a ∈ L) : a ≠ NULL := h.links.ne_null ha

theorem ne_brake (h : s.Rep L) {a : Addr} (ha : a ∈ L) : a ≠ listForEachLoopBrake := by
  have hfits := h.fits a ha
  rintro rfl
  revert hfits
  decide

theorem length_lt_card (h : s.Rep L) : L.length < s.nodes.keys.card := by
  have hsub : (s.list.head :: L).toFinset ⊆ s.nodes.keys := by
    intro a ha
    rw [Finmap.mem_keys, ← Finmap.lookup_isSome, h.live]
    simpa using ha
  have hcard := Finset.card_le_card hsub
  rw [List.toFinset_card_of_nodup h.links.nodup, List.length_cons] at hcard
  exact hcard

/-- The entries reached by following `next` are exactly the represented list. -/
theorem entries_eq (h : s.Rep L) : s.entries = L := by
  rw [entries, h.links.next_head, Option.getD_some]
  refine h.links.next.2.chase_eq (fun hm => h.ne_null hm rfl) ?_
  have := h.length_lt_card
  omega

/-- A state represents at most one list. -/
theorem unique {L' : List Addr} (h : s.Rep L) (h' : s.Rep L') : L = L' := by
  rw [← h.entries_eq, h'.entries_eq]

theorem isHead_first (h : s.Rep L) :
    (nodeAt s.nodes s.list.firstEntry).isHead = decide (L = []) := by
  rw [h.isHead _ ((h.live _).mp h.live_first), h.first]
  cases L with
  | nil => simp
  | cons a L =>
    have hne : a ≠ s.list.head := h.links.ne_head List.mem_cons_self
    simp [hne]

theorem isHead_last (h : s.Rep L) : (nodeAt s.nodes s.list.lastEntry).isHead = decide (L = []) := by
  rw [h.isHead _ ((h.live _).mp h.live_last), h.last]
  cases L with
  | nil => simp
  | cons a L =>
    have hmem : (a :: L).getLastD s.list.head ∈ a :: L := by
      rw [List.getLastD_cons]
      exact getLastD_mem_cons a L
    rw [decide_eq_false (h.links.ne_head hmem), decide_eq_false (List.cons_ne_nil a L)]

end ListState.Rep

/-! ## Changes that keep the list -/

/-- `s'` has the nodes of `s`, linked and locked in the same way. -/
structure SameLinks (s s' : ListState) : Prop where
  live : ∀ a, (s'.nodes.lookup a).isSome = (s.nodes.lookup a).isSome
  next : ∀ a, (nodeAt s'.nodes a).next = (nodeAt s.nodes a).next
  previous : ∀ a, (nodeAt s'.nodes a).previous = (nodeAt s.nodes a).previous
  isHead : ∀ a, (nodeAt s'.nodes a).isHead = (nodeAt s.nodes a).isHead
  mutexRef : ∀ a, (nodeAt s'.nodes a).mutex = (nodeAt s.nodes a).mutex
  list : ∃ a, s'.list = { s.list with lastAccess := a }

namespace SameLinks

variable {s s' : ListState}

theorem head (h : SameLinks s s') : s'.list.head = s.list.head := by
  obtain ⟨x, hl⟩ := h.list
  rw [hl]

theorem nx (h : SameLinks s s') (a : Addr) : nextAt s'.nodes a = nextAt s.nodes a := by
  by_cases hs : (s.nodes.lookup a).isSome
  · rw [nextAt_eq hs, nextAt_eq (by rwa [h.live]), h.next]
  · have hs' : ¬ (s'.nodes.lookup a).isSome := by rwa [h.live]
    rw [nextAt, nextAt, Option.not_isSome_iff_eq_none.mp hs,
      Option.not_isSome_iff_eq_none.mp hs']

theorem pv (h : SameLinks s s') (a : Addr) : prevAt s'.nodes a = prevAt s.nodes a := by
  by_cases hs : (s.nodes.lookup a).isSome
  · rw [prevAt_eq hs, prevAt_eq (by rwa [h.live]), h.previous]
  · have hs' : ¬ (s'.nodes.lookup a).isSome := by rwa [h.live]
    rw [prevAt, prevAt, Option.not_isSome_iff_eq_none.mp hs,
      Option.not_isSome_iff_eq_none.mp hs']

/-- The represented list does not change. -/
theorem rep (h : SameLinks s s') {L : List Addr} (hrep : s.Rep L) : s'.Rep L := by
  obtain ⟨x, hl⟩ := h.list
  have hhead := h.head
  refine ⟨?_, fun a => ?_, hrep.fits, fun a ha => ?_, fun a ha => ?_, ?_, ?_, ?_⟩
  · rw [hhead]
    exact hrep.links.congr (fun a _ => h.nx a) (fun a _ => h.pv a)
  · rw [h.live, hhead]
    exact hrep.live a
  · rw [h.isHead, hhead]
    exact hrep.isHead a (by rwa [hhead] at ha)
  · rw [h.mutexRef, hhead]
    exact hrep.mutexRef a (by rwa [hhead] at ha)
  · rw [hl]
    exact hrep.first
  · rw [hl]
    exact hrep.last
  · rw [hl]
    exact hrep.len

/-- Rewriting fields of one live node other than its links, head mark and lock. -/
theorem updNode {a : Addr} (hlive : (s.nodes.lookup a).isSome)
    (f : LinkedListEntry → LinkedListEntry)
    (hf : ∀ e, (f e).next = e.next ∧ (f e).previous = e.previous ∧ (f e).isHead = e.isHead ∧
      (f e).mutex = e.mutex) :
    SameLinks s { s with nodes := LibSafetynet.updNode s.nodes a f } := by
  have hnode : ∀ b, nodeAt (LibSafetynet.updNode s.nodes a f) b
      = if b = a then f (nodeAt s.nodes b) else nodeAt s.nodes b := by
    intro b
    split_ifs with hb
    · rw [hb, nodeAt_updNode_self]
    · exact nodeAt_updNode_of_ne _ _ hb
  refine ⟨fun b => ?_, fun b => ?_, fun b => ?_, fun b => ?_, fun b => ?_, ⟨s.list.lastAccess, rfl⟩⟩
  · rw [Bool.eq_iff_iff]
    exact isSome_lookup_updNode f hlive b
  · rw [hnode]
    split_ifs
    · exact (hf _).1
    · rfl
  · rw [hnode]
    split_ifs
    · exact (hf _).2.1
    · rfl
  · rw [hnode]
    split_ifs
    · exact (hf _).2.2.1
    · rfl
  · rw [hnode]
    split_ifs
    · exact (hf _).2.2.2
    · rfl

end SameLinks

/-- `s'` differs from `s` at most in weights and cached flags of nodes, in
`lastAccess` and in the mutex. -/
structure SameList (s s' : ListState) : Prop where
  live : ∀ a, (s'.nodes.lookup a).isSome = (s.nodes.lookup a).isSome
  node : ∀ a, ∃ w c, nodeAt s'.nodes a = { nodeAt s.nodes a with weight := w, cached := c }
  list : ∃ a, s'.list = { s.list with lastAccess := a }
  freed : s'.freed = s.freed

namespace SameList

variable {s s' s'' : ListState}

theorem refl (s : ListState) : SameList s s :=
  ⟨fun _ => rfl, fun a => ⟨(nodeAt s.nodes a).weight, (nodeAt s.nodes a).cached, rfl⟩,
    ⟨s.list.lastAccess, rfl⟩, rfl⟩

theorem trans (h : SameList s s') (h' : SameList s' s'') : SameList s s'' := by
  refine ⟨fun a => (h'.live a).trans (h.live a), fun a => ?_, ?_, h'.freed.trans h.freed⟩
  · obtain ⟨w, c, hn⟩ := h.node a
    obtain ⟨w', c', hn'⟩ := h'.node a
    exact ⟨w', c', by rw [hn', hn]⟩
  · obtain ⟨x, hl⟩ := h.list
    obtain ⟨x', hl'⟩ := h'.list
    exact ⟨x', by rw [hl', hl]⟩

theorem mutex (s : ListState) (m : Option PlatMutex) : SameList s { s with mutex := m } :=
  ⟨fun _ => rfl, fun a => ⟨(nodeAt s.nodes a).weight, (nodeAt s.nodes a).cached, rfl⟩,
    ⟨s.list.lastAccess, rfl⟩, rfl⟩

theorem lastAccess (s : ListState) (x : Addr) :
    SameList s { s with list := { s.list with lastAccess := x } } :=
  ⟨fun _ => rfl, fun a => ⟨(nodeAt s.nodes a).weight, (nodeAt s.nodes a).cached, rfl⟩, ⟨x, rfl⟩,
    rfl⟩

/-- Rewriting the weight and the cached flag of one live node. -/
theorem updNode {a : Addr} (hlive : (s.nodes.lookup a).isSome)
    (f : LinkedListEntry → LinkedListEntry)
    (hf : ∀ e, ∃ w c, f e = { e with weight := w, cached := c }) :
    SameList s { s with nodes := LibSafetynet.updNode s.nodes a f } := by
  refine ⟨fun b => ?_, fun b => ?_, ⟨s.list.lastAccess, rfl⟩, rfl⟩
  · rw [Bool.eq_iff_iff]
    exact isSome_lookup_updNode f hlive b
  · by_cases hb : b = a
    · rw [hb, nodeAt_updNode_self]
      exact hf _
    · rw [nodeAt_updNode_of_ne _ _ hb]
      exact ⟨(nodeAt s.nodes b).weight, (nodeAt s.nodes b).cached, rfl⟩

theorem sameLinks (h : SameList s s') : SameLinks s s' := by
  refine ⟨h.live, fun a => ?_, fun a => ?_, fun a => ?_, fun a => ?_, h.list⟩
  all_goals
    obtain ⟨w, c, hn⟩ := h.node a
    rw [hn]

theorem head (h : SameList s s') : s'.list.head = s.list.head := h.sameLinks.head

theorem len (h : SameList s s') : s'.list.len = s.list.len := by
  obtain ⟨x, hl⟩ := h.list
  rw [hl]

theorem data (h : SameList s s') (a : Addr) :
    (nodeAt s'.nodes a).data = (nodeAt s.nodes a).data := by
  obtain ⟨w, c, hn⟩ := h.node a
  rw [hn]

theorem size (h : SameList s s') (a : Addr) :
    (nodeAt s'.nodes a).size = (nodeAt s.nodes a).size := by
  obtain ⟨w, c, hn⟩ := h.node a
  rw [hn]

theorem tid (h : SameList s s') (a : Addr) :
    (nodeAt s'.nodes a).tid = (nodeAt s.nodes a).tid := by
  obtain ⟨w, c, hn⟩ := h.node a
  rw [hn]

theorem blockId (h : SameList s s') (a : Addr) :
    (nodeAt s'.nodes a).blockId = (nodeAt s.nodes a).blockId := by
  obtain ⟨w, c, hn⟩ := h.node a
  rw [hn]

/-- The represented list does not change. -/
theorem rep (h : SameList s s') {L : List Addr} (hrep : s.Rep L) : s'.Rep L := h.sameLinks.rep hrep

end SameList

/-! ## Setters of an entry -/

/-- `s'` is `s` after the node `a` got new fields, but no new links or lock. -/
structure Rewritten (s s' : ListState) (a : Addr) (f : LinkedListEntry → LinkedListEntry) :
    Prop where
  links : SameLinks s s'
  node : nodeAt s'.nodes a = f (nodeAt s.nodes a)
  other : ∀ b, b ≠ a → nodeAt s'.nodes b = nodeAt s.nodes b
  freed : s'.freed = s.freed

theorem SameLinks.trans {s s' s'' : ListState} (h : SameLinks s s') (h' : SameLinks s' s'') :
    SameLinks s s'' := by
  refine ⟨fun a => (h'.live a).trans (h.live a), fun a => (h'.next a).trans (h.next a),
    fun a => (h'.previous a).trans (h.previous a), fun a => (h'.isHead a).trans (h.isHead a),
    fun a => (h'.mutexRef a).trans (h.mutexRef a), ?_⟩
  obtain ⟨x, hl⟩ := h.list
  obtain ⟨x', hl'⟩ := h'.list
  exact ⟨x', by rw [hl', hl]⟩

theorem Rewritten.trans {s s' s'' : ListState} {a : Addr} {f g : LinkedListEntry → LinkedListEntry}
    (h : Rewritten s s' a f) (h' : Rewritten s' s'' a g) : Rewritten s s'' a (g ∘ f) := by
  refine ⟨h.links.trans h'.links, ?_, fun b hb => ?_, h'.freed.trans h.freed⟩
  · rw [h'.node, h.node]
    rfl
  · rw [h'.other b hb, h.other b hb]

/-- The locked setters: the entry is rewritten and the list's mutex released. -/
theorem wp_linkedListEntrySet {env : Env} {E : Stop → ListState → Prop} {s : ListState}
    {L : List Addr} {a : Addr} {f : LinkedListEntry → LinkedListEntry}
    {Q : Unit → ListState → Prop} (h : s.Rep L) (ha : a ∈ L)
    (hf : ∀ e, (f e).next = e.next ∧ (f e).previous = e.previous ∧ (f e).isHead = e.isHead ∧
      (f e).mutex = e.mutex)
    (hblock : Blocks env.tid s.mutex → E .blocked s)
    (hQ : ¬ Blocks env.tid s.mutex → ∀ s', Rewritten s s' a f → s'.mutex = release s.mutex →
      Q () s') : wp (linkedListEntrySet a f) env Q E s := by
  have hlive := h.live_of_mem ha
  have hmutex : (nodeAt s.nodes a).mutex = .list := by
    rw [h.mutexRef a (List.mem_cons_of_mem _ ha), if_neg (h.links.ne_head ha)]
  rw [linkedListEntrySet, wp_ite]
  refine ⟨fun h0 => absurd h0 (h.ne_null ha), fun _ => ?_⟩
  rw [wp_bind, lockEntry, wp_bind]
  refine wp_deref_live hlive ?_
  rw [hmutex]
  dsimp only
  rw [wp_lockList]
  refine ⟨fun hfree => ?_, hblock⟩
  rw [wp_bind]
  refine wp_store_live hlive ?_
  rw [unlockEntry, wp_bind]
  refine wp_deref_live ((isSome_lookup_updNode f hlive a).mpr hlive) ?_
  rw [nodeAt_updNode_self, (hf _).2.2.2, hmutex]
  dsimp only
  rw [wp_unlockList]
  refine hQ hfree _ ⟨?_, nodeAt_updNode_self _ _ _, fun b hb => nodeAt_updNode_of_ne _ _ hb, rfl⟩
    (release_acquire _ _)
  exact (SameLinks.updNode hlive f hf).trans (SameList.mutex _ _).sameLinks

/-! ## `linked_list_forEach` -/

/-- Whether a scan of the list would wait for the mutex. -/
def ScanBlocks (tid : UInt64) (s : ListState) : Prop :=
  s.list.len ≠ 0 ∧ Blocks tid s.mutex

/-- The mutex after a scan: untouched when `len` is 0, left locked when the list
is empty although `len` is not 0, released otherwise. -/
def scanMutex (tid : UInt64) (s : ListState) (L : List Addr) : Option PlatMutex :=
  if s.list.len = 0 then s.mutex else if L = [] then acquire tid s.mutex else release s.mutex

section ForEach

variable {β : Type} {env : Env} {E : Stop → ListState → Prop} {Q : Addr × β → ListState → Prop}
  {worker : LinkedListForEachWorker β}

/-- **Loop rule of `linked_list_forEach`.** `I rest i arg s` is what holds before
the nodes `rest` are visited, from index `i`. The worker may change the nodes
behind it, but must keep the links of those still to come (`hlink`) and must not
give the list mutex away to another thread. -/
theorem wp_linkedListForEachLoop {I : List Addr → Nat → β → ListState → Prop}
    (hlink : ∀ a rest i arg s, I (a :: rest) i arg s →
      (s.nodes.lookup a).isSome ∧ a ≠ NULL ∧ (nodeAt s.nodes a).next = rest.headD NULL)
    (hstep : ∀ a rest i arg s, I (a :: rest) i arg s →
      wp (worker a i arg) env
        (fun ret s' => Mine env.tid s'.mutex ∧
          (ret.1 = NULL → I rest (i + 1) ret.2 s') ∧
          (ret.1 ≠ NULL → Q (if ret.1 = listForEachLoopBrake then NULL else ret.1, ret.2)
            { s' with mutex := release s'.mutex })) E s)
    (hend : ∀ i arg s, I [] i arg s → Q (NULL, arg) { s with mutex := release s.mutex })
    {L : List Addr} {fuel i : Nat} {arg : β} {s : ListState} (hfuel : L.length < fuel)
    (hI : I L i arg s) : wp (linkedListForEachLoop worker fuel (L.headD NULL) i arg) env Q E s := by
  induction L generalizing fuel i arg s with
  | nil =>
    obtain ⟨fuel, rfl⟩ : ∃ n, fuel = n + 1 := Nat.exists_eq_add_one.mpr hfuel
    have hQ := hend i arg s hI
    simpa [linkedListForEachLoop] using hQ
  | cons a L ih =>
    obtain ⟨fuel, rfl⟩ : ∃ n, fuel = n + 1 := ⟨fuel - 1, by omega⟩
    obtain ⟨hlive, hnull, hnx⟩ := hlink a L i arg s hI
    have hlen : L.length < fuel := by simpa using hfuel
    rw [List.headD_cons, linkedListForEachLoop, if_neg hnull, wp_bind]
    refine wp_deref_live hlive ?_
    rw [wp_bind]
    refine (hstep a L i arg s hI).imp ?_
    rintro ret s' ⟨hmine, hcont, hret⟩
    have hsame : { s' with mutex := acquire env.tid s'.mutex } = s' := by rw [hmine.1]
    rw [wp_bind, wp_lockList, hsame]
    refine ⟨fun _ => ?_, fun hb => absurd hb hmine.2⟩
    rw [wp_ite]
    refine ⟨fun hne => ?_, fun hnil => ?_⟩
    · simpa using hret hne
    · rw [hnx]
      exact ih hlen (hcont (not_not.mp hnil))

/-- **Rule of `linked_list_forEach`**: the loop rule behind its three early exits. -/
theorem wp_linkedListForEach {I : List Addr → Nat → β → ListState → Prop} {s : ListState}
    {L : List Addr} {arg : β} (h : s.Rep L)
    (hblock : ScanBlocks env.tid s → E .blocked s)
    (hnil : L = [] → ¬ ScanBlocks env.tid s →
      Q (NULL, arg) { s with mutex := scanMutex env.tid s L })
    (hstart : L ≠ [] → ¬ Blocks env.tid s.mutex →
      I L 0 arg { s with mutex := acquire env.tid s.mutex })
    (hlink : ∀ a rest i arg s, I (a :: rest) i arg s →
      (s.nodes.lookup a).isSome ∧ a ≠ NULL ∧ (nodeAt s.nodes a).next = rest.headD NULL)
    (hstep : ∀ a rest i arg s, I (a :: rest) i arg s →
      wp (worker a i arg) env
        (fun ret s' => Mine env.tid s'.mutex ∧
          (ret.1 = NULL → I rest (i + 1) ret.2 s') ∧
          (ret.1 ≠ NULL → Q (if ret.1 = listForEachLoopBrake then NULL else ret.1, ret.2)
            { s' with mutex := release s'.mutex })) E s)
    (hend : ∀ i arg s, I [] i arg s → Q (NULL, arg) { s with mutex := release s.mutex }) :
    wp (linkedListForEach worker arg) env Q E s := by
  rw [linkedListForEach, wp_bind, wp_getList, wp_ite]
  refine ⟨fun hlen => ?_, fun hlen => ?_⟩
  · -- `len` is 0 only for an empty list
    have hL : L = [] := List.length_eq_zero_iff.mp (Nat.le_zero.mp (hlen ▸ h.len))
    have hQ := hnil hL fun hb => hb.1 hlen
    rw [scanMutex, if_pos hlen] at hQ
    exact hQ
  · rw [wp_bind, wp_getList, wp_bind, wp_lockList]
    refine ⟨fun hfree => ?_, fun hb => hblock ⟨hlen, hb⟩⟩
    rw [wp_bind]
    refine wp_isHead_live h.live_first ?_
    have hhead := h.isHead_first
    rw [wp_ite]
    refine ⟨fun hemp => ?_, fun hne => ?_⟩
    · have hL : L = [] := of_decide_eq_true (hhead.symm.trans hemp)
      have hQ := hnil hL fun hb => hfree hb.2
      rw [scanMutex, if_neg hlen, if_pos hL] at hQ
      exact hQ
    · have hL : L ≠ [] := fun hL => hne (hhead.trans (decide_eq_true hL))
      have hfirst : s.list.firstEntry = L.headD NULL := by
        rw [h.first]
        cases L with
        | nil => exact absurd rfl hL
        | cons a L => rfl
      rw [wp_bind, wp_get, hfirst]
      exact wp_linkedListForEachLoop hlink hstep hend
        (Nat.lt_succ_of_lt h.length_lt_card) (hstart hL hfree)

/-- **Visiting rule**: a worker that never breaks off and keeps the list visits
every entry in order. `J pre arg s` holds once the entries `pre` are visited, and
must not depend on the mutex. -/
theorem wp_linkedListForEach_visit {J : List Addr → β → ListState → Prop} {s : ListState}
    {L : List Addr} {arg : β} (h : s.Rep L) (hblock : ScanBlocks env.tid s → E .blocked s)
    (hmutex : ∀ pre arg s m, J pre arg s → J pre arg { s with mutex := m })
    (h0 : J [] arg s)
    (hstep : ∀ pre a rest i arg s', L = pre ++ a :: rest → SameList s s' → J pre arg s' →
      wp (worker a i arg) env (fun ret s'' => ret.1 = NULL ∧ s''.mutex = s'.mutex ∧
        SameList s' s'' ∧ J (pre ++ [a]) ret.2 s'') E s')
    (hQ : ¬ ScanBlocks env.tid s → ∀ arg' s', SameList s s' → J L arg' s' →
      s'.mutex = scanMutex env.tid s L → Q (NULL, arg') s') :
    wp (linkedListForEach worker arg) env Q E s := by
  let I : List Addr → Nat → β → ListState → Prop := fun rest _ arg' s' =>
    ∃ pre, L = pre ++ rest ∧ SameList s s' ∧ Mine env.tid s'.mutex ∧
      release s'.mutex = release s.mutex ∧ (L ≠ [] ∧ ¬ Blocks env.tid s.mutex) ∧ J pre arg' s'
  have hlen : L ≠ [] → s.list.len ≠ 0 := by
    intro hL h0
    exact hL (List.length_eq_zero_iff.mp (Nat.le_zero.mp (h0 ▸ h.len)))
  refine wp_linkedListForEach (I := I) h hblock (fun hnil hnb => ?_) (fun hL hfree => ?_) ?_ ?_ ?_
  · rw [hnil] at hQ ⊢
    exact hQ hnb arg _ (SameList.mutex s _) (hmutex _ _ _ _ h0) rfl
  · exact ⟨[], rfl, SameList.mutex s _, mine_acquire hfree, release_acquire _ _,
      ⟨hL, hfree⟩, hmutex _ _ _ _ h0⟩
  · rintro a rest i arg' s' ⟨pre, hL, hsame, -, -, -, -⟩
    have hrep := hsame.rep h
    have hmem : a ∈ L := by simp [hL]
    refine ⟨hrep.live_of_mem hmem, hrep.ne_null hmem, ?_⟩
    have hlinks := hrep.links
    rw [hL] at hlinks
    have hnext := hlinks.next_of_mem
    rw [nextAt_eq (hrep.live_of_mem hmem)] at hnext
    exact Option.some.inj hnext
  · rintro a rest i arg' s' ⟨pre, hL, hsame, hmine, hrel, hstart, hJ⟩
    refine (hstep pre a rest i arg' s' hL hsame hJ).imp ?_
    rintro ret s'' ⟨hnull, hm, hsame', hJ'⟩
    rw [hm]
    refine ⟨hmine, fun _ => ⟨pre ++ [a], by simp [hL], hsame.trans hsame', ?_, ?_, hstart, hJ'⟩,
      fun hne => absurd hnull hne⟩
    · rw [hm]
      exact hmine
    · rw [hm]
      exact hrel
  · rintro i arg' s' ⟨pre, hL, hsame, -, hrel, hstart, hJ⟩
    rw [List.append_nil] at hL
    subst hL
    refine hQ (fun hb => hstart.2 hb.2) arg' _ (hsame.trans (SameList.mutex s' _))
      (hmutex _ _ _ _ hJ) ?_
    rw [scanMutex, if_neg (hlen hstart.1), if_neg hstart.1]
    exact hrel

/-- What `linked_list_forEach` returns when the worker only reads the node it
visits: the first non-null answer, and the argument as the answers left it. -/
def readLoop (f : Addr → LinkedListEntry → Nat → β → Addr × β) (h : NodeHeap) :
    Nat → β → List Addr → Addr × β
  | _, arg, [] => (NULL, arg)
  | i, arg, a :: l =>
    let ret := f a (nodeAt h a) i arg
    if ret.1 = NULL then readLoop f h (i + 1) ret.2 l
    else (if ret.1 = listForEachLoopBrake then NULL else ret.1, ret.2)

/-- **Reading rule**: under a worker that only reads, nothing but the mutex changes. -/
theorem wp_linkedListForEach_read {f : Addr → LinkedListEntry → Nat → β → Addr × β}
    {s : ListState} {L : List Addr} {arg : β} (h : s.Rep L)
    (hworker : ∀ a i arg, worker a i arg = do
      let e ← deref a
      return f a e i arg)
    (hblock : ScanBlocks env.tid s → E .blocked s)
    (hQ : ¬ ScanBlocks env.tid s →
      Q (readLoop f s.nodes 0 arg L) { s with mutex := scanMutex env.tid s L }) :
    wp (linkedListForEach worker arg) env Q E s := by
  -- before each visit nothing has changed but the mutex, and the result is still to the right
  let I : List Addr → Nat → β → ListState → Prop := fun rest i arg' s' =>
    s' = { s with mutex := acquire env.tid s.mutex } ∧ (∃ pre, L = pre ++ rest) ∧
      (L ≠ [] ∧ ¬ Blocks env.tid s.mutex) ∧
      readLoop f s.nodes 0 arg L = readLoop f s.nodes i arg' rest
  have hres : L ≠ [] → ¬ Blocks env.tid s.mutex →
      Q (readLoop f s.nodes 0 arg L) { s with mutex := release s.mutex } := by
    intro hL hfree
    have hlen : s.list.len ≠ 0 := by
      intro h0
      exact hL (List.length_eq_zero_iff.mp (Nat.le_zero.mp (h0 ▸ h.len)))
    have := hQ fun hb => hfree hb.2
    rwa [scanMutex, if_neg hlen, if_neg hL] at this
  refine wp_linkedListForEach (I := I) h hblock (fun hnil hnb => ?_) (fun hL hfree => ?_) ?_ ?_ ?_
  · have := hQ hnb
    rw [hnil] at this ⊢
    exact this
  · exact ⟨rfl, ⟨[], rfl⟩, ⟨hL, hfree⟩, rfl⟩
  · rintro a rest i arg' s' ⟨rfl, ⟨pre, hpre⟩, -, -⟩
    have hmem : a ∈ L := by simp [hpre]
    refine ⟨h.live_of_mem hmem, h.ne_null hmem, ?_⟩
    have hlinks := h.links
    rw [hpre] at hlinks
    have hnext := hlinks.next_of_mem
    rw [nextAt_eq (h.live_of_mem hmem)] at hnext
    exact Option.some.inj hnext
  · rintro a rest i arg' s' ⟨rfl, ⟨pre, hpre⟩, ⟨hL, hfree⟩, hloop⟩
    have hmem : a ∈ L := by simp [hpre]
    rw [readLoop] at hloop
    rw [hworker, wp_bind]
    refine wp_deref_live (h.live_of_mem hmem) ?_
    rw [wp_pure]
    refine ⟨mine_acquire hfree, fun hnull => ?_, fun hne => ?_⟩
    · rw [if_pos hnull] at hloop
      exact ⟨rfl, ⟨pre ++ [a], by simp [hpre]⟩, ⟨hL, hfree⟩, hloop⟩
    · rw [if_neg hne] at hloop
      have hdone := hres hL hfree
      rw [hloop] at hdone
      simpa using hdone
  · rintro i arg' s' ⟨rfl, -, ⟨hL, hfree⟩, hloop⟩
    have hdone := hres hL hfree
    rw [hloop] at hdone
    simpa [readLoop] using hdone

end ForEach

/-! ## Searches -/

/-- What a search worker makes `linked_list_forEach` return: the first accepted
node of the list, `NULL` if there is none. -/
def searchFrom {β : Type} (found : β → Nat → LinkedListEntry → Bool) (s : ListState) (arg : β) :
    Nat → List Addr → Addr
  | _, [] => NULL
  | i, a :: l => if found arg i (nodeAt s.nodes a) then a else searchFrom found s arg (i + 1) l

/-- The first entry whose data is `key`. -/
def findPtr (s : ListState) (L : List Addr) (key : Addr) : Addr :=
  (L.find? fun a => (nodeAt s.nodes a).data = key).getD NULL

/-- The first entry whose block id is `id`. -/
def findId (s : ListState) (L : List Addr) (id : UInt16) : Addr :=
  (L.find? fun a => (nodeAt s.nodes a).blockId = id).getD NULL

theorem searchFrom_pure {β : Type} {p : β → LinkedListEntry → Bool} {s : ListState} {arg : β}
    {i : Nat} {L : List Addr} :
    searchFrom (fun arg _ e => p arg e) s arg i L
      = (L.find? fun a => p arg (nodeAt s.nodes a)).getD NULL := by
  induction L generalizing i with
  | nil => rfl
  | cons a L ih =>
    rw [searchFrom, List.find?_cons]
    by_cases hp : p arg (nodeAt s.nodes a)
    · simp [hp]
    · simpa [hp] using ih

theorem searchFrom_index {s : ListState} {n i : Nat} {L : List Addr} (hi : i ≤ n) :
    searchFrom (fun wanted index _ => index = wanted) s n i L = (L[n - i]?).getD NULL := by
  induction L generalizing i with
  | nil => rfl
  | cons a L ih =>
    by_cases hin : i = n
    · simp [searchFrom, hin]
    · obtain ⟨k, hk⟩ : ∃ k, n - i = k + 1 := ⟨n - i - 1, by omega⟩
      have hrest := ih (i := i + 1) (by omega)
      rw [searchFrom, if_neg (by simpa using hin), hrest, hk, List.getElem?_cons_succ]
      congr 2
      omega

theorem findPtr_eq_null {s : ListState} {L : List Addr} {key : Addr} (hL : NULL ∉ L) :
    findPtr s L key = NULL ↔ ∀ a ∈ L, (nodeAt s.nodes a).data ≠ key := by
  unfold findPtr
  cases hf : L.find? fun a => (nodeAt s.nodes a).data = key with
  | none => simpa using hf
  | some a =>
    have hmem := List.mem_of_find?_eq_some hf
    have hdata : (nodeAt s.nodes a).data = key := by simpa using List.find?_some hf
    refine ⟨fun hnull => absurd (hnull ▸ hmem) hL, fun hall => absurd hdata (hall a hmem)⟩

theorem findPtr_mem {s : ListState} {L : List Addr} {key : Addr} (h : findPtr s L key ≠ NULL) :
    findPtr s L key ∈ L ∧ (nodeAt s.nodes (findPtr s L key)).data = key := by
  unfold findPtr at *
  cases hf : L.find? fun a => (nodeAt s.nodes a).data = key with
  | none => simp [hf] at h
  | some a => exact ⟨List.mem_of_find?_eq_some hf, by simpa using List.find?_some hf⟩

theorem findId_mem {s : ListState} {L : List Addr} {id : UInt16} (h : findId s L id ≠ NULL) :
    findId s L id ∈ L ∧ (nodeAt s.nodes (findId s L id)).blockId = id := by
  unfold findId at *
  cases hf : L.find? fun a => (nodeAt s.nodes a).blockId = id with
  | none => simp [hf] at h
  | some a => exact ⟨List.mem_of_find?_eq_some hf, by simpa using List.find?_some hf⟩

section Search

variable {env : Env} {E : Stop → ListState → Prop} {s : ListState} {L : List Addr}

/-- A search returns the first accepted node. -/
theorem readLoop_search {β : Type} {found : β → Nat → LinkedListEntry → Bool} {arg : β} {i : Nat}
    (hL : ∀ a ∈ L, a ≠ NULL ∧ a ≠ listForEachLoopBrake) :
    readLoop (fun a e i arg => if found arg i e then (a, arg) else (NULL, arg)) s.nodes i arg L
      = (searchFrom found s arg i L, arg) := by
  induction L generalizing i with
  | nil => rfl
  | cons a L ih =>
    obtain ⟨hnull, hbrake⟩ := hL a List.mem_cons_self
    rw [readLoop, searchFrom]
    by_cases hfound : found arg i (nodeAt s.nodes a)
    · simp [hfound, hnull, hbrake]
    · simpa [hfound] using ih fun b hb => hL b (List.mem_cons_of_mem a hb)

/-- A search reads the list and leaves only the mutex changed. -/
theorem wp_search {β : Type} {found : β → Nat → LinkedListEntry → Bool} {arg : β}
    {Q : Addr × β → ListState → Prop} (h : s.Rep L)
    (hblock : ScanBlocks env.tid s → E .blocked s)
    (hQ : ¬ ScanBlocks env.tid s →
      Q (searchFrom found s arg 0 L, arg) { s with mutex := scanMutex env.tid s L }) :
    wp (linkedListForEach (searchWorker found) arg) env Q E s := by
  refine wp_linkedListForEach_read
    (f := fun a e i arg => if found arg i e then (a, arg) else (NULL, arg)) h (fun a i arg => ?_)
    hblock fun hnb => ?_
  · unfold searchWorker
    congr 1
    funext e
    split_ifs <;> rfl
  · rw [readLoop_search fun a ha => ⟨h.ne_null ha, h.ne_brake ha⟩]
    exact hQ hnb

/-- The state after `linked_list_getBy*` found `a` (or nothing, for `NULL`). -/
def ListState.access (s : ListState) (a : Addr) : ListState :=
  if a = NULL then s
  else { s with
    list := { s.list with lastAccess := a }
    nodes := updNode s.nodes a fun e => { e with weight := e.weight + 1 } }

theorem sameList_access {a : Addr} (hlive : a ≠ NULL → (s.nodes.lookup a).isSome) :
    SameList s (s.access a) := by
  unfold ListState.access
  by_cases ha : a = NULL
  · rw [if_pos ha]
    exact SameList.refl s
  · rw [if_neg ha]
    have hupd := SameList.updNode (hlive ha) (fun e => { e with weight := e.weight + 1 })
      fun e => ⟨e.weight + 1, e.cached, rfl⟩
    exact hupd.trans (SameList.lastAccess _ a)

/-- What follows a successful lookup, under a mutex that is not in the way. -/
theorem wp_linkedListAccess {Q : Unit → ListState → Prop} {a : Addr}
    (hnull : a ≠ NULL) (hlive : (s.nodes.lookup a).isSome) (hfree : ¬ Blocks env.tid s.mutex)
    (hQ : Q () { s.access a with mutex := release s.mutex }) :
    wp (linkedListAccess a) env Q E s := by
  rw [linkedListAccess, wp_bind, wp_setList, wp_bind, wp_lockList]
  refine ⟨fun _ => ?_, fun hb => absurd hb hfree⟩
  rw [wp_bind]
  refine wp_store_live hlive ?_
  rw [wp_unlockList]
  simpa [ListState.access, hnull] using hQ

/-- A search followed by `linkedListAccess`, the common tail of the `linked_list_getBy*`. -/
theorem wp_searchAccess {β : Type} {found : β → Nat → LinkedListEntry → Bool} {arg : β}
    {Q : Addr → ListState → Prop} (h : s.Rep L)
    (hmem : searchFrom found s arg 0 L ≠ NULL → searchFrom found s arg 0 L ∈ L)
    (hblock : ScanBlocks env.tid s → E .blocked s)
    (hQ : ¬ ScanBlocks env.tid s → Q (searchFrom found s arg 0 L)
      { s.access (searchFrom found s arg 0 L) with mutex := scanMutex env.tid s L }) :
    wp (do
        let temp := (← linkedListForEach (searchWorker found) arg).1
        when (temp ≠ NULL) (linkedListAccess temp)
        return temp) env Q E s := by
  rw [wp_bind]
  refine wp_search h hblock fun hnb => ?_
  have hres := hQ hnb
  dsimp only
  rw [wp_bind, wp_when]
  refine ⟨fun hne => ?_, fun hnull => ?_⟩
  · have hin := hmem hne
    have hL : L ≠ [] := List.ne_nil_of_mem hin
    have hlen : s.list.len ≠ 0 := by
      intro h0
      exact hL (List.length_eq_zero_iff.mp (Nat.le_zero.mp (h0 ▸ h.len)))
    have hmutex : scanMutex env.tid s L = release s.mutex := by
      rw [scanMutex, if_neg hlen, if_neg hL]
    rw [hmutex] at hres ⊢
    refine wp_linkedListAccess hne (h.live_of_mem hin)
      ((isFree_release _).not_blocks env.tid) ?_
    rw [wp_pure]
    simpa [ListState.access, hne, (isFree_release _).release_eq] using hres
  · rw [not_not] at hnull
    rw [hnull] at hres ⊢
    simpa [ListState.access] using hres

theorem wp_linkedListGetByPtr {Q : Addr → ListState → Prop} {key : Addr} (h : s.Rep L)
    (hnull : key = NULL → Q NULL s)
    (hblock : key ≠ NULL → ScanBlocks env.tid s → E .blocked s)
    (hQ : key ≠ NULL → ¬ ScanBlocks env.tid s →
      Q (findPtr s L key)
        { s.access (findPtr s L key) with mutex := scanMutex env.tid s L }) :
    wp (linkedListGetByPtr key) env Q E s := by
  rw [linkedListGetByPtr, wp_ite]
  refine ⟨hnull, fun hkey => ?_⟩
  have hfind : searchFrom (fun key _ ctx => ctx.data = key) s key 0 L = findPtr s L key :=
    searchFrom_pure
  refine wp_searchAccess h (fun hne => ?_) (hblock hkey) fun hnb => ?_
  · rw [hfind] at hne ⊢
    exact (findPtr_mem hne).1
  · rw [hfind]
    exact hQ hkey hnb

theorem wp_linkedListGetByIndex {Q : Addr → ListState → Prop} {index : Nat} (h : s.Rep L)
    (hlen : s.list.len < index → Q NULL s)
    (hblock : index ≤ s.list.len → ScanBlocks env.tid s → E .blocked s)
    (hQ : index ≤ s.list.len → ¬ ScanBlocks env.tid s →
      Q ((L[index]?).getD NULL)
        { s.access ((L[index]?).getD NULL) with mutex := scanMutex env.tid s L }) :
    wp (linkedListGetByIndex index) env Q E s := by
  rw [linkedListGetByIndex, linkedListGetSize, wp_bind, wp_bind, wp_getList, wp_pure, wp_ite]
  refine ⟨hlen, fun hle => ?_⟩
  have hfind : searchFrom (fun wanted i _ => decide (i = wanted)) s index 0 L
      = (L[index]?).getD NULL := searchFrom_index (Nat.zero_le index)
  refine wp_searchAccess h (fun hne => ?_) (hblock (not_lt.mp hle)) fun hnb => ?_
  · rw [hfind] at hne ⊢
    cases hget : L[index]? with
    | none => simp [hget] at hne
    | some a => exact List.mem_of_getElem? hget
  · rw [hfind]
    exact hQ (not_lt.mp hle) hnb

/-- The mutex after `linked_list_getById`: the lock taken before the search stays
when the list is empty. -/
def byIdMutex (tid : UInt64) (s : ListState) (L : List Addr) : Option PlatMutex :=
  if L = [] then acquire tid s.mutex else release s.mutex

theorem wp_linkedListGetById {Q : Addr → ListState → Prop} {id : UInt16} (h : s.Rep L)
    (hblock : Blocks env.tid s.mutex → E .blocked s)
    (hQ : ¬ Blocks env.tid s.mutex →
      Q (findId s L id)
        { s.access (findId s L id) with mutex := byIdMutex env.tid s L }) :
    wp (linkedListGetById id) env Q E s := by
  rw [linkedListGetById, wp_bind, wp_lockList]
  refine ⟨fun hfree => ?_, hblock⟩
  have hmine := mine_acquire hfree
  have hrep : ({ s with mutex := acquire env.tid s.mutex } : ListState).Rep L :=
    (SameList.mutex s _).rep h
  have hfind : searchFrom (fun id _ ctx => decide (ctx.blockId = id))
      { s with mutex := acquire env.tid s.mutex } id 0 L = findId s L id := searchFrom_pure
  have hmutex : scanMutex env.tid { s with mutex := acquire env.tid s.mutex } L
      = byIdMutex env.tid s L := by
    unfold scanMutex byIdMutex
    by_cases hL : L = []
    · simp [hL, hmine.1]
    · have hlen : s.list.len ≠ 0 := by
        intro h0
        exact hL (List.length_eq_zero_iff.mp (Nat.le_zero.mp (h0 ▸ h.len)))
      simp [hL, hlen]
  refine wp_searchAccess hrep (fun hne => ?_) (fun hsb => absurd hsb.2 hmine.2) fun hnb => ?_
  · rw [hfind] at hne ⊢
    exact (findId_mem hne).1
  · rw [hfind, hmutex]
    have hres := hQ hfree
    by_cases h0 : findId s L id = NULL
    · simpa [ListState.access, h0] using hres
    · simpa [ListState.access, h0] using hres

theorem wp_linkedListHasPtr {Q : Bool → ListState → Prop} {key : Addr} (h : s.Rep L)
    (hnull : key = NULL → Q false s)
    (hblock : key ≠ NULL → Blocks env.tid s.mutex → E .blocked s)
    (hQ : key ≠ NULL → ¬ Blocks env.tid s.mutex →
      Q (decide (findPtr s L key ≠ NULL))
        { s with
          mutex := release s.mutex
          list := { s.list with
            lastAccess :=
              if findPtr s L key = NULL then s.list.lastAccess else findPtr s L key } }) :
    wp (linkedListHasPtr key) env Q E s := by
  rw [linkedListHasPtr, wp_ite]
  refine ⟨hnull, fun hkey => ?_⟩
  rw [wp_bind, wp_lockList]
  refine ⟨fun hfree => ?_, hblock hkey⟩
  have hmine := mine_acquire hfree
  have hrep : ({ s with mutex := acquire env.tid s.mutex } : ListState).Rep L :=
    (SameList.mutex s _).rep h
  have hfind : searchFrom (fun key _ ctx => decide (ctx.data = key))
      { s with mutex := acquire env.tid s.mutex } key 0 L = findPtr s L key := searchFrom_pure
  have hmutex : release (scanMutex env.tid { s with mutex := acquire env.tid s.mutex } L)
      = release s.mutex := by
    unfold scanMutex
    split_ifs <;> simp
  rw [wp_bind]
  refine wp_search hrep (fun hsb => absurd hsb.2 hmine.2) fun hnb => ?_
  have hres := hQ hkey hfree
  rw [hfind, wp_ite]
  refine ⟨fun hne => ?_, fun hnull => ?_⟩
  · simp only [wp_bind, wp_setList, wp_unlockList, wp_pure, hmutex]
    rwa [decide_eq_true hne, if_neg hne] at hres
  · simp only [wp_bind, wp_unlockList, wp_pure, hmutex]
    rwa [decide_eq_false hnull, if_pos (not_not.mp hnull)] at hres

end Search

end LibSafetynet
