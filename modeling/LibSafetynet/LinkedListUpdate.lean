import LibSafetynet.LinkedListSpec

/-!
# Specifications of the list updates

Push, pop and the two removals under `Rep`. What an update does is a relation
between the states before and after it (`Pushed`, `Removed`): the sequence
afterwards, the payload of every other node, and the list's own fields. Since a
represented heap is determined by its sequence and its payloads
(`Rep.nodes_ext`), these relations fix the memory completely.
-/

namespace LibSafetynet

open Logic Prog PlatMutex ListState

/-! ## Heaps with the same sequence -/

namespace ListState.Rep

variable {s s' : ListState} {L : List Addr}

theorem next_of_mem {A B : List Addr} {a : Addr} (h : s.Rep (A ++ a :: B)) :
    (nodeAt s.nodes a).next = B.headD NULL := by
  have hnext := h.links.next_of_mem
  rw [nextAt_eq (h.live_of_mem (by simp))] at hnext
  exact Option.some.inj hnext

theorem prev_of_mem {A B : List Addr} {a : Addr} (h : s.Rep (A ++ a :: B)) :
    (nodeAt s.nodes a).previous = A.getLastD s.list.head := by
  have hprev := h.links.prev_of_mem
  rw [prevAt_eq (h.live_of_mem (by simp))] at hprev
  exact Option.some.inj hprev

theorem next_head (h : s.Rep L) : (nodeAt s.nodes s.list.head).next = L.headD NULL := by
  have hnext := h.links.next_head
  rw [nextAt_eq h.live_head] at hnext
  exact Option.some.inj hnext

theorem prev_head (h : s.Rep L) : (nodeAt s.nodes s.list.head).previous = NULL := by
  have hprev := h.links.prev.1
  rw [prevAt_eq h.live_head] at hprev
  exact Option.some.inj hprev

/-- The sequence and the payloads determine the node heap. -/
theorem nodes_ext (h : s.Rep L) (h' : s'.Rep L) (hhead : s'.list.head = s.list.head)
    (hpay : ∀ a ∈ s.list.head :: L, (nodeAt s'.nodes a).payload = (nodeAt s.nodes a).payload) :
    s'.nodes = s.nodes := by
  apply Finmap.ext_lookup
  intro a
  by_cases ha : a ∈ s.list.head :: L
  · have hp := hpay a ha
    have hh := h.isHead a ha
    have hm := h.mutexRef a ha
    have hh' := h'.isHead a (hhead ▸ ha)
    have hm' := h'.mutexRef a (hhead ▸ ha)
    rw [hhead] at hh' hm'
    have hlinks : (nodeAt s'.nodes a).next = (nodeAt s.nodes a).next ∧
        (nodeAt s'.nodes a).previous = (nodeAt s.nodes a).previous := by
      rcases List.mem_cons.mp ha with rfl | hL
      · have h1 := h'.next_head
        have h2 := h'.prev_head
        rw [hhead] at h1 h2
        exact ⟨h1.trans h.next_head.symm, h2.trans h.prev_head.symm⟩
      · obtain ⟨A, B, rfl⟩ := List.append_of_mem hL
        refine ⟨h'.next_of_mem.trans h.next_of_mem.symm, ?_⟩
        rw [h'.prev_of_mem, h.prev_of_mem, hhead]
    rw [lookup_eq_some_node ((h.live a).mpr ha),
      lookup_eq_some_node ((h'.live a).mpr (hhead ▸ ha))]
    generalize nodeAt s.nodes a = e at *
    generalize nodeAt s'.nodes a = e' at *
    cases e
    cases e'
    simp only [LinkedListEntry.payload, Payload.mk.injEq] at hp
    simp_all
  · have hn : ¬ (s.nodes.lookup a).isSome := fun hs => ha ((h.live a).mp hs)
    have hn' : ¬ (s'.nodes.lookup a).isSome := fun hs => ha (hhead ▸ (h'.live a).mp hs)
    rw [Option.not_isSome_iff_eq_none.mp hn, Option.not_isSome_iff_eq_none.mp hn']

end ListState.Rep

/-! ## Push -/

/-- `s'` is `s` with a new node `a` for `data` at the end of the list `L`. -/
structure Pushed (s s' : ListState) (L : List Addr) (a data : Addr) (size tid : UInt64) : Prop where
  rep : s'.Rep (L ++ [a])
  fresh : a ∉ s.list.head :: L
  new : (nodeAt s'.nodes a).payload = ⟨data, size, tid, false, 0, 0⟩
  old : ∀ b, b ≠ a → (nodeAt s'.nodes b).payload = (nodeAt s.nodes b).payload
  head : s'.list.head = s.list.head
  len : s'.list.len = s.list.len + 1
  lastAccess : s'.list.lastAccess = s.list.lastAccess
  mutex : s'.mutex = release s.mutex
  freed : s'.freed = s.freed

section Updates

variable {env : Env} {E : Stop → ListState → Prop} {s : ListState} {L : List Addr}

/-- The node that `linked_list_push` leaves at the end. -/
def pushedEntry (previous data : Addr) (size tid : UInt64) : LinkedListEntry :=
  { previous, data, size, tid, cached := false, blockId := 0, isHead := false, weight := 0,
    mutex := .list, next := NULL }

/-- Linking a fresh node behind the last one represents the longer list. -/
theorem pushed_of_eq (h : s.Rep L) {a data : Addr} {size tid : UInt64} {s' : ListState}
    (ha : s.AdmitsNode a)
    (hlive : ∀ b, (s'.nodes.lookup b).isSome ↔ b = a ∨ (s.nodes.lookup b).isSome)
    (hself : nodeAt s'.nodes a = pushedEntry s.list.lastEntry data size tid)
    (hlast : nodeAt s'.nodes s.list.lastEntry
      = { nodeAt s.nodes s.list.lastEntry with next := a })
    (hother : ∀ b, b ≠ a → b ≠ s.list.lastEntry → nodeAt s'.nodes b = nodeAt s.nodes b)
    (hlist : s'.list = { s.list with
      len := s.list.len + 1
      firstEntry := if L = [] then a else s.list.firstEntry
      lastEntry := a })
    (hmutex : s'.mutex = release s.mutex) (hfreed : s'.freed = s.freed) :
    Pushed s s' L a data size tid := by
  obtain ⟨hnull, hfits, hdead⟩ := ha
  have hfresh : a ∉ s.list.head :: L := by
    intro hm
    have hlive := (h.live a).mpr hm
    rw [Option.isNone_iff_eq_none.mp hdead] at hlive
    simp at hlive
  -- everything but the next pointer of the last node is as before
  have hold : ∀ b, b ≠ a → ∃ n, nodeAt s'.nodes b = { nodeAt s.nodes b with next := n } := by
    intro b hba
    by_cases hbl : b = s.list.lastEntry
    · exact ⟨a, by rw [hbl, hlast]⟩
    · exact ⟨(nodeAt s.nodes b).next, hother b hba hbl⟩
  have hsome : ∀ b ∈ s.list.head :: L, (s.nodes.lookup b).isSome := fun b hb => (h.live b).mpr hb
  have hneA : ∀ b ∈ s.list.head :: L, b ≠ a := fun b hb heq => hfresh (heq ▸ hb)
  refine ⟨⟨?_, fun b => ?_, fun b hb => ?_, fun b hb => ?_, fun b hb => ?_, ?_, ?_, ?_⟩,
    hfresh, ?_, fun b hb => ?_, ?_, ?_, ?_, hmutex, hfreed⟩
  · rw [hlist]
    refine h.links.push hfresh hnull ?_ ?_ ?_ (fun b hb hbl => ?_) (fun b hb => ?_)
    · rw [← h.last, nextAt_eq ((hlive _).mpr (Or.inr h.live_last)), hlast]
    · rw [nextAt_eq ((hlive a).mpr (Or.inl rfl)), hself]
      rfl
    · rw [← h.last, prevAt_eq ((hlive a).mpr (Or.inl rfl)), hself]
      rfl
    · rw [← h.last] at hbl
      rw [nextAt_eq ((hlive b).mpr (Or.inr (hsome b hb))), nextAt_eq (hsome b hb),
        hother b (hneA b hb) hbl]
    · obtain ⟨n, hn⟩ := hold b (hneA b hb)
      rw [prevAt_eq ((hlive b).mpr (Or.inr (hsome b hb))), prevAt_eq (hsome b hb), hn]
  · rw [hlive, hlist, h.live]
    simp only [List.mem_cons, List.mem_append, List.not_mem_nil, or_false]
    tauto
  · rcases List.mem_append.mp hb with hb | hb
    · exact h.fits b hb
    · obtain rfl := List.mem_singleton.mp hb
      exact hfits
  · rw [hlist] at hb ⊢
    by_cases hba : b = a
    · have hhead : a ≠ s.list.head := fun heq => hfresh (heq ▸ List.mem_cons_self)
      rw [hba, hself, decide_eq_false hhead]
      rfl
    · obtain ⟨n, hn⟩ := hold b hba
      rw [hn]
      refine h.isHead b ?_
      simp only [List.mem_cons, List.mem_append, List.not_mem_nil, or_false] at hb ⊢
      tauto
  · rw [hlist] at hb ⊢
    by_cases hba : b = a
    · have hhead : a ≠ s.list.head := fun heq => hfresh (heq ▸ List.mem_cons_self)
      rw [hba, hself, if_neg hhead]
      rfl
    · obtain ⟨n, hn⟩ := hold b hba
      rw [hn]
      refine h.mutexRef b ?_
      simp only [List.mem_cons, List.mem_append, List.not_mem_nil, or_false] at hb ⊢
      tauto
  · rw [hlist]
    dsimp only
    rw [h.first]
    cases L <;> simp
  · rw [hlist]
    simp
  · rw [hlist, List.length_append]
    exact Nat.succ_le_succ h.len
  · rw [hself]
    rfl
  · obtain ⟨n, hn⟩ := hold b hb
    rw [hn]
    rfl
  · rw [hlist]
  · rw [hlist]
  · rw [hlist]

/-- The node heap after `linked_list_entry_new` has linked `blank` at `a` behind `p`. -/
def linkedNodes (h : NodeHeap) (p a : Addr) (blank : LinkedListEntry) : NodeHeap :=
  updNode (updNode (h.insert a blank) p fun e => { e with next := a }) a
    fun e => { e with previous := p }

section LinkedNodes

variable {h : NodeHeap} {p a : Addr} (blank : LinkedListEntry)

theorem isSome_linkedNodes (hp : (h.lookup p).isSome) (b : Addr) :
    ((linkedNodes h p a blank).lookup b).isSome ↔ b = a ∨ (h.lookup b).isSome := by
  have h₁ : ((h.insert a blank).lookup p).isSome :=
    (isSome_lookup_insert _ _ _ _).mpr (Or.inr hp)
  have h₂ : ((updNode (h.insert a blank) p fun e => { e with next := a }).lookup a).isSome := by
    rw [isSome_lookup_updNode _ h₁, isSome_lookup_insert]
    exact Or.inl rfl
  rw [linkedNodes, isSome_lookup_updNode _ h₂, isSome_lookup_updNode _ h₁, isSome_lookup_insert]

theorem nodeAt_linkedNodes_self (hne : p ≠ a) :
    nodeAt (linkedNodes h p a blank) a = { blank with previous := p } := by
  rw [linkedNodes, nodeAt_updNode_self, nodeAt_updNode_of_ne _ _ hne.symm, nodeAt_insert_self]

theorem nodeAt_linkedNodes_prev (hne : p ≠ a) :
    nodeAt (linkedNodes h p a blank) p = { nodeAt h p with next := a } := by
  rw [linkedNodes, nodeAt_updNode_of_ne _ _ hne, nodeAt_updNode_self, nodeAt_insert_of_ne _ _ hne]

theorem nodeAt_linkedNodes_of_ne {b : Addr} (hb : b ≠ a) (hbp : b ≠ p) :
    nodeAt (linkedNodes h p a blank) b = nodeAt h b := by
  rw [linkedNodes, nodeAt_updNode_of_ne _ _ hb, nodeAt_updNode_of_ne _ _ hbp,
    nodeAt_insert_of_ne _ _ hb]

end LinkedNodes

/-- `linked_list_entry_new` behind a live node. -/
theorem wp_linkedListEntryNew {Q : Addr → ListState → Prop} {previous data : Addr}
    {size tid : UInt64} (hnull : previous ≠ NULL) (hlive : (s.nodes.lookup previous).isSome)
    (hfull : ¬ s.AdmitsNode env.node → Q NULL s)
    (hQ : s.AdmitsNode env.node → Q env.node { s with
      nodes := linkedNodes s.nodes previous env.node
        { pushedEntry NULL data size tid with mutex := .null } }) :
    wp (linkedListEntryNew previous data size tid) env Q E s := by
  rw [linkedListEntryNew, wp_bind, wp_ask, wp_bind, wp_get, wp_ite]
  refine ⟨hfull, fun hadm => ?_⟩
  have hres := hQ (not_not.mp hadm)
  rw [wp_bind, wp_modify, wp_bind, wp_when]
  refine ⟨fun _ => ?_, fun hnot => absurd hnull hnot⟩
  have hlive' := (isSome_lookup_insert s.nodes env.node previous
    { pushedEntry NULL data size tid with mutex := .null }).mpr (Or.inr hlive)
  rw [wp_bind]
  refine wp_store_live hlive' (wp_store_live ?_ hres)
  refine (isSome_lookup_updNode _ hlive' _).mpr ?_
  exact (isSome_lookup_insert _ _ _ _).mpr (Or.inl rfl)

theorem wp_linkedListPush {Q : Unit → ListState → Prop} {data : Addr} {size tid : UInt64}
    (h : s.Rep L) (hblock : Blocks env.tid s.mutex → E .blocked s)
    (hfull : ¬ Blocks env.tid s.mutex → ¬ s.AdmitsNode env.node →
      E (.crash .snErrCatastrophic) { s with mutex := acquire env.tid s.mutex })
    (hQ : ¬ Blocks env.tid s.mutex → s.AdmitsNode env.node →
      ∀ s', Pushed s s' L env.node data size tid → Q () s') :
    wp (linkedListPush data size tid) env Q E s := by
  have hlastMem : s.list.lastEntry ∈ s.list.head :: L := (h.live _).mp h.live_last
  have hlastNull : s.list.lastEntry ≠ NULL := fun heq => h.links.notNull (heq ▸ hlastMem)
  have hfirstMem : s.list.firstEntry ∈ s.list.head :: L := (h.live _).mp h.live_first
  have hfirstNull : s.list.firstEntry ≠ NULL := fun heq => h.links.notNull (heq ▸ hfirstMem)
  rw [linkedListPush, wp_bind, wp_getList, wp_bind, wp_when]
  refine ⟨fun hn => absurd hn hfirstNull, fun _ => ?_⟩
  rw [wp_bind, wp_lockList]
  refine ⟨fun hfree => ?_, hblock⟩
  rw [wp_bind, wp_getList, wp_bind]
  refine wp_linkedListEntryNew hlastNull h.live_last (fun hadm => ?_) ?_
  · rw [wp_bind, wp_when]
    exact ⟨fun _ => hfull hfree hadm, fun hne => absurd rfl hne⟩
  intro hadm
  have hdead : ¬ (s.nodes.lookup env.node).isSome := by
    simp [Option.isNone_iff_eq_none.mp hadm.2.2]
  have hneLast : s.list.lastEntry ≠ env.node := fun heq => hdead (heq ▸ h.live_last)
  have hneFirst : s.list.firstEntry ≠ env.node := fun heq => hdead (heq ▸ h.live_first)
  have hlive := isSome_linkedNodes (a := env.node)
    { pushedEntry NULL data size tid with mutex := .null } h.live_last
  have hself := nodeAt_linkedNodes_self (h := s.nodes)
    { pushedEntry NULL data size tid with mutex := .null } hneLast
  have hlast := nodeAt_linkedNodes_prev (h := s.nodes)
    { pushedEntry NULL data size tid with mutex := .null } hneLast
  have hother : ∀ b, b ≠ env.node → b ≠ s.list.lastEntry → _ := fun b hb hbl =>
    nodeAt_linkedNodes_of_ne (h := s.nodes)
      { pushedEntry NULL data size tid with mutex := .null } hb hbl
  dsimp only
  generalize linkedNodes s.nodes s.list.lastEntry env.node _ = nodes at hlive hself hlast hother ⊢
  rw [wp_bind, wp_when]
  refine ⟨fun hn => absurd hn hadm.1, fun _ => ?_⟩
  rw [wp_bind]
  have hliveNew : (nodes.lookup env.node).isSome := (hlive _).mpr (Or.inl rfl)
  refine wp_store_live hliveNew ?_
  dsimp only
  rw [wp_bind, wp_getList, wp_bind]
  refine wp_isHead_live ?_ ?_
  · exact (isSome_lookup_updNode _ hliveNew _).mpr ((hlive _).mpr (Or.inr h.live_first))
  -- the node behind `firstEntry` says whether the list was empty
  have hhead : (nodeAt (updNode nodes env.node fun e => { e with mutex := .list })
      s.list.firstEntry).isHead = decide (L = []) := by
    rw [nodeAt_updNode_of_ne _ _ hneFirst, ← h.isHead_first]
    by_cases hfl : s.list.firstEntry = s.list.lastEntry
    · rw [hfl, hlast]
    · rw [hother _ hneFirst hfl]
  have hpushed : ∀ first, first = (if L = [] then env.node else s.list.firstEntry) →
      Pushed s
        { s with
          nodes := updNode nodes env.node fun e => { e with mutex := .list }
          list := { s.list with
            len := s.list.len + 1, firstEntry := first, lastEntry := env.node }
          mutex := release s.mutex } L env.node data size tid := by
    rintro first rfl
    refine pushed_of_eq h hadm (fun b => ?_) ?_ ?_ (fun b hb hbl => ?_) rfl rfl rfl
    · exact (isSome_lookup_updNode _ hliveNew b).trans (hlive b)
    · rw [nodeAt_updNode_self, hself]
      rfl
    · rw [nodeAt_updNode_of_ne _ _ hneLast, hlast]
    · rw [nodeAt_updNode_of_ne _ _ hb, hother b hb hbl]
  rw [wp_bind, wp_when]
  refine ⟨fun hL => ?_, fun hL => ?_⟩
  · have hnil : L = [] := of_decide_eq_true (hhead.symm.trans hL)
    simp only [wp_bind, wp_setList, wp_unlockList, release_acquire]
    exact hQ hfree hadm _ (hpushed env.node (by rw [if_pos hnil]))
  · have hcons : L ≠ [] := fun hnil => hL (hhead.trans (decide_eq_true hnil))
    simp only [wp_bind, wp_setList, wp_unlockList, release_acquire]
    exact hQ hfree hadm _ (hpushed s.list.firstEntry (by rw [if_neg hcons]))

end Updates

/-! ## Removal -/

/-- `s'` is `s` without the node `a` of the list `A ++ a :: B`. The length goes
down only when `a` was the last node. -/
structure Removed (s s' : ListState) (A : List Addr) (a : Addr) (B : List Addr) : Prop where
  rep : s'.Rep (A ++ B)
  old : ∀ b, b ≠ a → (nodeAt s'.nodes b).payload = (nodeAt s.nodes b).payload
  head : s'.list.head = s.list.head
  len : s'.list.len = if B = [] then s.list.len - 1 else s.list.len
  lastAccess : s'.list.lastAccess = s.list.lastAccess
  mutex : s'.mutex = release s.mutex
  freed : s'.freed = s.freed ++ [a]

section Removal

variable {env : Env} {E : Stop → ListState → Prop} {s : ListState} {L : List Addr}

/-- Linking the neighbours of a node to each other represents the shorter list. -/
theorem removed_of_eq {A B : List Addr} {a : Addr} {s' : ListState} (h : s.Rep (A ++ a :: B))
    (hlive : ∀ b, (s'.nodes.lookup b).isSome ↔ b ≠ a ∧ (s.nodes.lookup b).isSome)
    (hprev : nodeAt s'.nodes (A.getLastD s.list.head)
      = { nodeAt s.nodes (A.getLastD s.list.head) with next := B.headD NULL })
    (hnext : ∀ b ∈ B.head?, nodeAt s'.nodes b
      = { nodeAt s.nodes b with previous := A.getLastD s.list.head })
    (hother : ∀ b, b ≠ a → b ≠ A.getLastD s.list.head → b ∉ B.head? →
      nodeAt s'.nodes b = nodeAt s.nodes b)
    (hlist : s'.list = { s.list with
      len := if B = [] then s.list.len - 1 else s.list.len
      firstEntry := (A ++ B).headD s.list.head
      lastEntry := (A ++ B).getLastD s.list.head })
    (hmutex : s'.mutex = release s.mutex) (hfreed : s'.freed = s.freed ++ [a]) :
    Removed s s' A a B := by
  have hmem : ∀ b, b ∈ s.list.head :: (A ++ a :: B) ↔ b = a ∨ b ∈ s.list.head :: (A ++ B) := by
    intro b
    simp only [List.mem_cons, List.mem_append]
    tauto
  have hne : ∀ b ∈ s.list.head :: (A ++ B), b ≠ a := by
    rintro b hb rfl
    have hperm : (s.list.head :: (A ++ b :: B)).Perm (b :: s.list.head :: (A ++ B)) :=
      (List.perm_middle.cons _).trans (List.Perm.swap _ _ _)
    exact (List.nodup_cons.mp (hperm.nodup_iff.mp h.links.nodup)).1 hb
  have hsome : ∀ b ∈ s.list.head :: (A ++ B), (s.nodes.lookup b).isSome :=
    fun b hb => (h.live b).mpr ((hmem b).mpr (Or.inr hb))
  have hsome' : ∀ b ∈ s.list.head :: (A ++ B), (s'.nodes.lookup b).isSome :=
    fun b hb => (hlive b).mpr ⟨hne b hb, hsome b hb⟩
  have hlastMem : A.getLastD s.list.head ∈ s.list.head :: (A ++ B) := by
    have := getLastD_mem_cons s.list.head A
    simp only [List.mem_cons, List.mem_append] at this ⊢
    tauto
  -- no two of the written nodes are the same
  have hdisj : ∀ b ∈ B.head?, b ≠ A.getLastD s.list.head := by
    intro b hb heq
    have hnd : ((s.list.head :: A) ++ a :: B).Nodup := h.links.nodup
    have hbB : b ∈ a :: B := List.mem_cons_of_mem a (List.mem_of_mem_head? hb)
    exact (List.nodup_append.mp hnd).2.2 _ (getLastD_mem_cons s.list.head A) b hbB heq.symm
  -- everything but the two links across the gap is as before
  have hold : ∀ b, b ≠ a →
      ∃ n p, nodeAt s'.nodes b = { nodeAt s.nodes b with next := n, previous := p } := by
    intro b hba
    by_cases hbl : b = A.getLastD s.list.head
    · exact ⟨B.headD NULL, (nodeAt s.nodes b).previous, by rw [hbl, hprev]⟩
    · by_cases hbn : b ∈ B.head?
      · exact ⟨(nodeAt s.nodes b).next, A.getLastD s.list.head, hnext b hbn⟩
      · exact ⟨(nodeAt s.nodes b).next, (nodeAt s.nodes b).previous, hother b hba hbl hbn⟩
  refine ⟨⟨?_, fun b => ?_, fun b hb => ?_, fun b hb => ?_, fun b hb => ?_, ?_, ?_, ?_⟩,
    fun b hb => ?_, ?_, ?_, ?_, hmutex, hfreed⟩
  · rw [hlist]
    refine h.links.unlink ?_ (fun b hb => ?_) (fun b hb hbl => ?_) (fun b hb hbn => ?_)
    · rw [nextAt_eq (hsome' _ hlastMem), hprev]
    · have hbm : b ∈ s.list.head :: (A ++ B) := by simp [List.mem_of_mem_head? hb]
      rw [prevAt_eq (hsome' b hbm), hnext b hb]
    · rw [nextAt_eq (hsome' b hb), nextAt_eq (hsome b hb)]
      by_cases hbn : b ∈ B.head?
      · rw [hnext b hbn]
      · rw [hother b (hne b hb) hbl hbn]
    · rw [prevAt_eq (hsome' b hb), prevAt_eq (hsome b hb)]
      by_cases hbl : b = A.getLastD s.list.head
      · rw [hbl, hprev]
      · rw [hother b (hne b hb) hbl hbn]
  · rw [hlive, hlist, h.live]
    show b ≠ a ∧ b ∈ s.list.head :: (A ++ a :: B) ↔ b ∈ s.list.head :: (A ++ B)
    rw [hmem]
    exact ⟨fun hb => hb.2.resolve_left hb.1, fun hb => ⟨hne b hb, Or.inr hb⟩⟩
  · refine h.fits b ?_
    simp only [List.mem_append, List.mem_cons] at hb ⊢
    tauto
  · rw [hlist] at hb ⊢
    obtain ⟨n, p, hn⟩ := hold b (hne b hb)
    rw [hn]
    exact h.isHead b ((hmem b).mpr (Or.inr hb))
  · rw [hlist] at hb ⊢
    obtain ⟨n, p, hn⟩ := hold b (hne b hb)
    rw [hn]
    exact h.mutexRef b ((hmem b).mpr (Or.inr hb))
  · rw [hlist]
  · rw [hlist]
  · have hlen := h.len
    rw [hlist, List.length_append]
    rw [List.length_append, List.length_cons] at hlen
    dsimp only
    split_ifs with hB
    · rw [hB, List.length_nil]
      omega
    · omega
  · obtain ⟨n, p, hn⟩ := hold b hb
    rw [hn]
    rfl
  · rw [hlist]
  · rw [hlist]
  · rw [hlist]

/-- Destroying a live node. -/
theorem wp_linkedListEntryDestroy {a : Addr} {Q : Unit → ListState → Prop} (hnull : a ≠ NULL)
    (hlive : (s.nodes.lookup a).isSome)
    (hQ : Q () { s with nodes := s.nodes.erase a, freed := s.freed ++ [a] }) :
    wp (linkedListEntryDestroy a) env Q E s := by
  rw [linkedListEntryDestroy, wp_ite]
  refine ⟨fun h0 => absurd h0 hnull, fun _ => ?_⟩
  rw [wp_bind, wp_modify, wp_bind]
  exact wp_deref_live hlive hQ

/-- The node heap after the node `a` between `pre` and `nxt` has been unlinked and destroyed. -/
def unlinkedNodes (h : NodeHeap) (pre nxt a : Addr) : NodeHeap :=
  let h' := updNode h pre fun e => { e with next := nxt }
  (if nxt = NULL then h' else updNode h' nxt fun e => { e with previous := pre }).erase a

section UnlinkedNodes

variable {h : NodeHeap} {pre nxt a : Addr}

theorem isSome_unlinkedNodes (hpre : (h.lookup pre).isSome)
    (hnxt : nxt ≠ NULL → (h.lookup nxt).isSome) (b : Addr) :
    ((unlinkedNodes h pre nxt a).lookup b).isSome ↔ b ≠ a ∧ (h.lookup b).isSome := by
  have h₁ := isSome_lookup_updNode (fun e => { e with next := nxt }) hpre
  rw [unlinkedNodes, isSome_lookup_erase]
  refine and_congr_right fun _ => ?_
  split_ifs with hn
  · exact h₁ b
  · exact (isSome_lookup_updNode _ ((h₁ nxt).mpr (hnxt hn)) b).trans (h₁ b)

theorem nodeAt_unlinkedNodes_pre (hpa : pre ≠ a) (hpn : nxt ≠ NULL → pre ≠ nxt) :
    nodeAt (unlinkedNodes h pre nxt a) pre = { nodeAt h pre with next := nxt } := by
  rw [unlinkedNodes, nodeAt_erase_of_ne _ hpa]
  split_ifs with hn
  · rw [nodeAt_updNode_self]
  · rw [nodeAt_updNode_of_ne _ _ (hpn hn), nodeAt_updNode_self]

theorem nodeAt_unlinkedNodes_nxt (hn : nxt ≠ NULL) (hna : nxt ≠ a) (hnp : nxt ≠ pre) :
    nodeAt (unlinkedNodes h pre nxt a) nxt = { nodeAt h nxt with previous := pre } := by
  rw [unlinkedNodes, nodeAt_erase_of_ne _ hna, if_neg hn, nodeAt_updNode_self,
    nodeAt_updNode_of_ne _ _ hnp]

theorem nodeAt_unlinkedNodes_of_ne {b : Addr} (hba : b ≠ a) (hbp : b ≠ pre)
    (hbn : nxt ≠ NULL → b ≠ nxt) : nodeAt (unlinkedNodes h pre nxt a) b = nodeAt h b := by
  rw [unlinkedNodes, nodeAt_erase_of_ne _ hba]
  split_ifs with hn
  · rw [nodeAt_updNode_of_ne _ _ hbp]
  · rw [nodeAt_updNode_of_ne _ _ (hbn hn), nodeAt_updNode_of_ne _ _ hbp]

end UnlinkedNodes

/-- Where the node `a` sits between its neighbours `pre` and `nxt`. -/
structure Gap (s : ListState) (A : List Addr) (a : Addr) (B : List Addr) (pre nxt : Addr) :
    Prop where
  pre_eq : pre = A.getLastD s.list.head
  nxt_eq : nxt = B.headD NULL
  live : (s.nodes.lookup a).isSome
  preLive : (s.nodes.lookup pre).isSome
  preNull : pre ≠ NULL
  pre_ne : pre ≠ a
  nxtLive : nxt ≠ NULL → (s.nodes.lookup nxt).isSome
  nxt_ne : nxt ≠ NULL → nxt ≠ a ∧ nxt ≠ pre
  nxt_head : ∀ b ∈ B.head?, b = nxt ∧ nxt ≠ NULL

theorem ListState.Rep.gap {A B : List Addr} {a : Addr} (h : s.Rep (A ++ a :: B)) :
    Gap s A a B (nodeAt s.nodes a).previous (nodeAt s.nodes a).next := by
  have hnd : ((s.list.head :: A) ++ a :: B).Nodup := h.links.nodup
  obtain ⟨-, hndB, hdisj⟩ := List.nodup_append.mp hnd
  have hlast := getLastD_mem_cons s.list.head A
  have hlastMem : A.getLastD s.list.head ∈ s.list.head :: (A ++ a :: B) := by
    simp only [List.mem_cons, List.mem_append] at hlast ⊢
    tauto
  have hhead : B.headD NULL ≠ NULL → B.headD NULL ∈ B := by
    cases B with
    | nil => exact fun hn => absurd rfl hn
    | cons b B => exact fun _ => List.mem_cons_self
  rw [h.prev_of_mem, h.next_of_mem]
  refine ⟨rfl, rfl, h.live_of_mem (by simp), (h.live _).mpr hlastMem, ?_, ?_, fun hn => ?_,
    fun hn => ⟨?_, ?_⟩, fun b hb => ?_⟩
  · exact fun heq => h.links.notNull (heq ▸ hlastMem)
  · exact hdisj _ hlast a List.mem_cons_self
  · exact h.live_of_mem (List.mem_append_right A (List.mem_cons_of_mem a (hhead hn)))
  · exact fun heq => (List.nodup_cons.mp hndB).1 (heq ▸ hhead hn)
  · exact fun heq => hdisj _ hlast _ (List.mem_cons_of_mem a (hhead hn)) heq.symm
  · cases B with
    | nil => simp at hb
    | cons c B =>
      obtain rfl : c = b := by simpa using hb
      exact ⟨rfl, h.ne_null (by simp)⟩

/-- A node is the last one exactly when nothing follows it. -/
theorem ListState.Rep.last_eq_iff {A B : List Addr} {a : Addr} (h : s.Rep (A ++ a :: B)) :
    s.list.lastEntry = a ↔ B = [] := by
  rw [h.last]
  constructor
  · intro hlast
    by_contra hB
    obtain ⟨C, c, rfl⟩ : ∃ C c, B = C ++ [c] := ⟨_, _, (List.dropLast_append_getLast hB).symm⟩
    rw [← List.cons_append, ← List.append_assoc, List.getLastD_concat] at hlast
    have hnd := (List.nodup_append.mp h.links.tail_nodup).2.1
    exact (List.nodup_cons.mp hnd).1 (by simp [hlast])
  · rintro rfl
    exact List.getLastD_concat

/-- The heap of `unlinkedNodes`, with the list's own fields put right, is a removal. -/
theorem removed_unlinkedNodes {A B : List Addr} {a : Addr} (h : s.Rep (A ++ a :: B))
    (list : LinkedList)
    (hlist : list = { s.list with
      len := if B = [] then s.list.len - 1 else s.list.len
      firstEntry := (A ++ B).headD s.list.head
      lastEntry := (A ++ B).getLastD s.list.head }) :
    Removed s
      { nodes := unlinkedNodes s.nodes (nodeAt s.nodes a).previous (nodeAt s.nodes a).next a
        list, mutex := release s.mutex, freed := s.freed ++ [a] } A a B := by
  have hgap := h.gap
  generalize (nodeAt s.nodes a).previous = pre at hgap ⊢
  generalize (nodeAt s.nodes a).next = nxt at hgap ⊢
  have hpre := hgap.pre_eq
  refine removed_of_eq h (isSome_unlinkedNodes hgap.preLive hgap.nxtLive) ?_ (fun b hb => ?_)
    (fun b hba hbp hbn => ?_) hlist rfl rfl
  · rw [← hpre, ← hgap.nxt_eq]
    exact nodeAt_unlinkedNodes_pre hgap.pre_ne fun hn => (hgap.nxt_ne hn).2.symm
  · obtain ⟨rfl, hn⟩ := hgap.nxt_head b hb
    rw [← hpre]
    exact nodeAt_unlinkedNodes_nxt hn (hgap.nxt_ne hn).1 (hgap.nxt_ne hn).2
  · rw [← hpre] at hbp
    refine nodeAt_unlinkedNodes_of_ne hba hbp ?_
    rintro hn rfl
    have hnxt := hgap.nxt_eq
    cases B with
    | nil => exact hn hnxt
    | cons c B => exact hbn (by rw [hnxt]; rfl)

/-- In the list without its last node, the node before it says whether it is empty. -/
theorem isHead_pre {A B : List Addr} {a : Addr} (h : s.Rep (A ++ a :: B)) :
    (nodeAt s.nodes (nodeAt s.nodes a).previous).isHead = decide (A = []) := by
  have hgap := h.gap
  rw [h.isHead _ ((h.live _).mp hgap.preLive), hgap.pre_eq]
  cases A with
  | nil => simp
  | cons b A =>
    have hmem : (b :: A).getLastD s.list.head ∈ (b :: A) ++ a :: B := by
      rw [List.getLastD_cons]
      exact List.mem_append_left _ (getLastD_mem_cons b A)
    rw [decide_eq_false (h.links.ne_head hmem), decide_eq_false (List.cons_ne_nil b A)]

theorem wp_linkedListPop {Q : Unit → ListState → Prop} (h : s.Rep L)
    (hblock : Blocks env.tid s.mutex → E .blocked s)
    (hempty : ¬ Blocks env.tid s.mutex → L = [] →
      Q () { s with mutex := acquire env.tid s.mutex })
    (hQ : ¬ Blocks env.tid s.mutex → ∀ A a, L = A ++ [a] → ∀ s', Removed s s' A a [] → Q () s') :
    wp linkedListPop env Q E s := by
  rw [linkedListPop, wp_bind, wp_lockList]
  refine ⟨fun hfree => ?_, hblock⟩
  rw [wp_bind, wp_getList, wp_bind]
  refine wp_isHead_live h.live_last ?_
  have hhead := h.isHead_last
  rw [wp_ite]
  refine ⟨fun hemp => hempty hfree (of_decide_eq_true (hhead.symm.trans hemp)), fun hne => ?_⟩
  have hL : L ≠ [] := fun hL => hne (hhead.trans (decide_eq_true hL))
  obtain ⟨A, a, rfl⟩ : ∃ A a, L = A ++ [a] := ⟨_, _, (List.dropLast_append_getLast hL).symm⟩
  have hlast : s.list.lastEntry = a := by
    rw [h.last]
    simp
  have hgap := h.gap
  have hpreHead := isHead_pre h
  have hnxt : (nodeAt s.nodes a).next = NULL := hgap.nxt_eq
  have hremoved := removed_unlinkedNodes h
  have hprev := hgap.pre_eq
  rw [hnxt] at hgap hremoved
  have hpreNode := nodeAt_unlinkedNodes_pre (h := s.nodes) hgap.pre_ne
    fun hn => absurd rfl hn
  have hpreLive := (isSome_unlinkedNodes (a := a) hgap.preLive hgap.nxtLive _).mpr
    ⟨hgap.pre_ne, hgap.preLive⟩
  rw [wp_bind, wp_getList, wp_bind]
  dsimp only
  rw [hlast]
  refine wp_deref_live hgap.live ?_
  dsimp only
  rw [wp_bind, wp_setList, wp_bind]
  refine wp_store_live hgap.preLive ?_
  rw [wp_bind]
  refine wp_linkedListEntryDestroy (h.ne_null (by simp))
    ((isSome_lookup_updNode _ hgap.preLive a).mpr hgap.live) ?_
  rw [wp_bind, wp_getList, wp_bind]
  refine wp_isHead_live hpreLive ?_
  rw [wp_bind, wp_when]
  have hnewHead : (nodeAt (unlinkedNodes s.nodes (nodeAt s.nodes a).previous NULL a)
      (nodeAt s.nodes a).previous).isHead = decide (A = []) := by
    rw [hpreNode]
    exact hpreHead
  refine ⟨fun hA => ?_, fun hA => ?_⟩
  · have hnil : A = [] := of_decide_eq_true (hnewHead.symm.trans hA)
    simp only [wp_bind, wp_setList, wp_unlockList, release_acquire]
    refine hQ hfree A a rfl _ (hremoved _ ?_)
    rw [hnil] at hprev ⊢
    simp [hprev]
  · have hcons : A ≠ [] := fun hnil => hA (hnewHead.trans (decide_eq_true hnil))
    simp only [wp_bind, wp_setList, wp_unlockList, release_acquire]
    refine hQ hfree A a rfl _ (hremoved _ ?_)
    rw [h.first, hprev, if_pos rfl, List.append_nil]
    cases A with
    | nil => exact absurd rfl hcons
    | cons b A => rfl

/-- `linked_list_removeEntry` on an entry of the list. -/
theorem wp_linkedListRemoveEntry {Q : Bool → ListState → Prop} {A B : List Addr} {a : Addr}
    (h : s.Rep (A ++ a :: B)) (hblock : Blocks env.tid s.mutex → E .blocked s)
    (hQ : ¬ Blocks env.tid s.mutex → ∀ s', Removed s s' A a B → Q true s') :
    wp (linkedListRemoveEntry a) env Q E s := by
  have hgap := h.gap
  have hremoved := removed_unlinkedNodes h
  rw [linkedListRemoveEntry, wp_ite]
  refine ⟨fun h0 => absurd h0 (h.ne_null (by simp)), fun _ => ?_⟩
  rw [wp_bind, wp_lockList]
  refine ⟨fun hfree => ?_, hblock⟩
  rw [wp_bind, wp_getList, wp_ite]
  refine ⟨fun hlast => ?_, fun hlast => ?_⟩
  · -- the last entry goes through `linked_list_pop`, which locks the released mutex again
    have hB : B = [] := h.last_eq_iff.mp hlast
    subst hB
    rw [wp_bind, wp_unlockList, release_acquire, wp_bind]
    have hrep : ({ s with mutex := release s.mutex } : ListState).Rep (A ++ [a]) :=
      (SameList.mutex s _).rep h
    refine wp_linkedListPop hrep (fun hb => ?_) (fun _ hnil => by simp at hnil) ?_
    · exact absurd hb ((isFree_release _).not_blocks env.tid)
    · rintro - A' a' heq s' hrem
      obtain ⟨rfl, rfl⟩ : A = A' ∧ a = a' := by simpa using heq
      refine hQ hfree s' ⟨hrem.rep, hrem.old, hrem.head, hrem.len, hrem.lastAccess, ?_, hrem.freed⟩
      rw [hrem.mutex, release_release]
  · have hB : B ≠ [] := fun hB => hlast (h.last_eq_iff.mpr hB)
    have hnxtNull : (nodeAt s.nodes a).next ≠ NULL := by
      rw [hgap.nxt_eq]
      cases B with
      | nil => exact absurd rfl hB
      | cons b B => exact h.ne_null (by simp)
    have hlastEq : (A ++ B).getLastD s.list.head = s.list.lastEntry := by
      rw [h.last]
      obtain ⟨C, c, rfl⟩ : ∃ C c, B = C ++ [c] := ⟨_, _, (List.dropLast_append_getLast hB).symm⟩
      rw [← List.append_assoc, ← List.cons_append, ← List.append_assoc, List.getLastD_concat,
        List.getLastD_concat]
    have hpreLive := isSome_lookup_updNode (fun e => { e with next := (nodeAt s.nodes a).next })
      hgap.preLive
    rw [wp_bind]
    refine wp_deref_live hgap.live ?_
    rw [wp_bind]
    refine wp_deref_live hgap.live ?_
    dsimp only
    rw [wp_bind, wp_when]
    refine ⟨fun _ => ?_, fun hn => absurd hgap.preNull hn⟩
    refine wp_store_live hgap.preLive ?_
    rw [wp_bind, wp_when]
    refine ⟨fun _ => ?_, fun hn => absurd hnxtNull hn⟩
    have hnxtLive := (hpreLive _).mpr (hgap.nxtLive hnxtNull)
    refine wp_store_live hnxtLive ?_
    rw [wp_bind]
    refine wp_linkedListEntryDestroy (h.ne_null (by simp)) ?_ ?_
    · exact (isSome_lookup_updNode _ hnxtLive a).mpr ((hpreLive a).mpr hgap.live)
    rw [unlinkedNodes, if_neg hnxtNull] at hremoved
    have hfirst : (if s.list.firstEntry = a then (nodeAt s.nodes a).next else s.list.firstEntry)
        = (A ++ B).headD s.list.head := by
      rw [h.first, hgap.nxt_eq]
      cases A with
      | nil =>
        rw [List.nil_append, List.headD_cons, if_pos rfl]
        cases B with
        | nil => exact absurd rfl hB
        | cons b B => rfl
      | cons b A =>
        have hne : b ≠ a := by
          rintro rfl
          have hnd := h.links.tail_nodup
          rw [List.cons_append] at hnd
          exact (List.nodup_cons.mp hnd).1 (by simp)
        rw [List.cons_append, List.headD_cons, if_neg hne]
        rfl
    rw [wp_bind, wp_getList, wp_bind, wp_when]
    refine ⟨fun hf => ?_, fun hf => ?_⟩
    · simp only [wp_bind, wp_setList, wp_unlockList, wp_pure, release_acquire]
      refine hQ hfree _ (hremoved _ ?_)
      rw [if_pos (show s.list.firstEntry = a from hf)] at hfirst
      rw [if_neg hB, hlastEq, ← hfirst]
    · simp only [wp_bind, wp_unlockList, wp_pure, release_acquire]
      refine hQ hfree _ (hremoved _ ?_)
      rw [if_neg (show ¬ s.list.firstEntry = a from hf)] at hfirst
      rw [if_neg hB, hlastEq, ← hfirst]

/-- A removal whose mutex started elsewhere. -/
theorem Removed.of_mutex {s' : ListState} {m : Option PlatMutex} {A B : List Addr} {a : Addr}
    (h : Removed { s with mutex := m } s' A a B) (hm : release m = release s.mutex) :
    Removed s { s' with mutex := release s'.mutex } A a B := by
  refine ⟨(SameList.mutex s' _).rep h.rep, h.old, h.head, h.len, h.lastAccess, ?_, h.freed⟩
  show release s'.mutex = release s.mutex
  rw [h.mutex, release_release, hm]

/-- `linked_list_removeEntryByPtr`: the first entry with that data, if there is one. -/
theorem wp_linkedListRemoveEntryByPtr {Q : Unit → ListState → Prop} {key : Addr} (h : s.Rep L)
    (hnull : key = NULL → Q () s)
    (hblock : key ≠ NULL → Blocks env.tid s.mutex → E .blocked s)
    (hnone : key ≠ NULL → ¬ Blocks env.tid s.mutex → findPtr s L key = NULL →
      Q () { s with mutex := release s.mutex })
    (hQ : key ≠ NULL → ¬ Blocks env.tid s.mutex → ∀ A a B, L = A ++ a :: B →
      findPtr s L key = a → ∀ s', Removed s s' A a B → Q () s') :
    wp (linkedListRemoveEntryByPtr key) env Q E s := by
  rw [linkedListRemoveEntryByPtr, wp_ite]
  refine ⟨hnull, fun hkey => ?_⟩
  rw [wp_bind, wp_lockList]
  refine ⟨fun hfree => ?_, hblock hkey⟩
  have hmine := mine_acquire hfree
  have hrep : ({ s with mutex := acquire env.tid s.mutex } : ListState).Rep L :=
    (SameList.mutex s _).rep h
  have hfind : searchFrom (fun key _ ctx => decide (ctx.data = key))
      { s with mutex := acquire env.tid s.mutex } key 0 L = findPtr s L key := searchFrom_pure
  have hmutex : release (scanMutex env.tid { s with mutex := acquire env.tid s.mutex } L)
      = release s.mutex := by
    unfold scanMutex
    split_ifs <;> simp
  rw [wp_bind]
  refine wp_search hrep (fun hsb => absurd hsb.2 hmine.2) fun hnb => ?_
  rw [hfind]
  dsimp only
  by_cases hfound : findPtr s L key = NULL
  · rw [hfound, linkedListRemoveEntry, if_pos rfl, wp_bind, wp_pure, wp_unlockList, hmutex]
    exact hnone hkey hfree hfound
  · obtain ⟨A, B, hL⟩ := List.append_of_mem (findPtr_mem hfound).1
    generalize hm : scanMutex env.tid { s with mutex := acquire env.tid s.mutex } L = m at hmutex
    have hnotBlocked : ¬ Blocks env.tid m := by
      rw [← hm]
      unfold scanMutex
      split_ifs
      · exact hmine.2
      · exact (mine_acquire hmine.2).2
      · exact (isFree_release _).not_blocks env.tid
    have hrep' : ({ s with mutex := m } : ListState).Rep (A ++ findPtr s L key :: B) := by
      rw [← hL]
      exact (SameList.mutex s m).rep h
    rw [wp_bind]
    refine wp_linkedListRemoveEntry hrep' (fun hb => absurd hb hnotBlocked) fun _ s' hrem => ?_
    rw [wp_unlockList]
    exact hQ hkey hfree A _ B hL rfl _ (hrem.of_mutex hmutex)

/-! ## The empty list -/

/-- What `linked_list_new` leaves. -/
structure FreshList (env : Env) (s : ListState) : Prop where
  rep : s.Rep []
  len : s.list.len = 0
  head : s.list.head = env.node
  lastAccess : s.list.lastAccess = NULL
  free : IsFree s.mutex
  mutex : s.mutex.isSome = env.mutexOk 0
  freed : s.freed = []

/-- `linked_list_new` represents the empty list. -/
theorem wp_linkedListNew {Q : Unit → ListState → Prop}
    (hfull : ¬ ListState.blank.AdmitsNode env.node → E (.crash .snErrCatastrophic) .blank)
    (hQ : ListState.blank.AdmitsNode env.node → ∀ s', FreshList env s' → Q () s') :
    wp linkedListNew env Q E .blank := by
  rw [linkedListNew, wp_bind, wp_platGetTid, wp_bind, linkedListEntryNew, wp_bind, wp_ask,
    wp_bind, wp_get, wp_ite]
  refine ⟨fun hnot => ?_, fun hadm => ?_⟩
  · rw [wp_pure, wp_bind, wp_when]
    exact ⟨fun _ => hfull hnot, fun hn => absurd rfl hn⟩
  rw [not_not] at hadm
  rw [wp_bind, wp_modify, wp_bind, wp_when]
  refine ⟨fun hn => absurd rfl hn, fun _ => ?_⟩
  rw [wp_pure, wp_bind, wp_when]
  refine ⟨fun hn => absurd hn hadm.1, fun _ => ?_⟩
  generalize hblank : (LinkedListEntry.mk NULL NULL 0 env.tid false 0 false 0 .null NULL) = blank
  have hlive : ∀ b, ((Finmap.insert env.node blank ListState.blank.nodes).lookup b).isSome
      ↔ b = env.node := fun b => by
    rw [isSome_lookup_insert]
    simp [ListState.blank]
  rw [wp_bind]
  refine wp_store_live ((hlive _).mpr rfl) ?_
  rw [wp_bind, platMutexNew, wp_bind, wp_ask, wp_pure, wp_modify]
  refine hQ hadm _ ⟨⟨⟨⟨?_, trivial⟩, ⟨?_, trivial⟩, List.nodup_singleton _, ?_⟩, fun b => ?_, ?_,
    fun b hb => ?_, fun b hb => ?_, rfl, rfl, Nat.le_refl 0⟩, rfl, rfl, rfl, ?_, ?_, rfl⟩
  · simp [nextAt, updNode, Finmap.lookup_insert, ← hblank]
  · simp [prevAt, updNode, Finmap.lookup_insert, ← hblank]
  · exact fun hn => hadm.1 (List.mem_singleton.mp hn).symm
  · rw [isSome_lookup_updNode _ ((hlive _).mpr rfl), hlive, List.mem_singleton]
  · exact fun b hb => absurd hb (by simp)
  · obtain rfl := List.mem_singleton.mp hb
    simp
  · obtain rfl := List.mem_singleton.mp hb
    simp [← hblank]
  · cases env.mutexOk 0 <;> simp [IsFree]
  · cases env.mutexOk 0 <;> rfl

end Removal

end LibSafetynet
