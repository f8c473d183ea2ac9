import LibSafetynet.Reachability

/-!
# Cache coherence

A slot names an entry by address and describes it by a copy of its data. The copy
goes stale only when the entry's data changes under it, and one operation does
that: an `sn_realloc` that moves the block. A run has coherent slots throughout
exactly when no call of it moves the block of an entry that a slot holds
(`coherent_iff_no_cached_move`); address reuse, duplicate registrations and
refills by the automatic pass do no harm.
-/

namespace LibSafetynet

open Logic Prog PlatMutex ListState AllocManager

/-- Every slot that is not empty holds one of the items, under its data. -/
def Describes (m : AllocManager) (is : List Item) : Prop :=
  ∀ i, m.cacheList i ≠ .empty →
    ∃ it ∈ is, it.addr = (m.cacheList i).value ∧ it.data = (m.cacheList i).key

instance (m : AllocManager) (is : List Item) : Decidable (Describes m is) :=
  inferInstanceAs (Decidable (∀ i, _))

/-- `sn_realloc` goes through, moves the block, and a slot holds the block's entry. -/
def MovesCached (l : Env × Op) (s : Lib) : Prop :=
  match l.2 with
  | .realloc ptr newSize => ReallocGranted l.1 s s.list.entries ptr newSize ∧ l.1.block ≠ ptr ∧
      ∃ i, (s.manager.cacheList i).value = findPtr s.list s.list.entries ptr
  | _ => False

/-! ## What keeps the slots coherent -/

section Kept

variable {m m' : AllocManager} {is is' : List Item}

/-- Slots may be emptied or refilled from the items, while the described items stay. -/
theorem Describes.of_slots (h : Describes m is)
    (hslot : ∀ i, m'.cacheList i = m.cacheList i ∨ m'.cacheList i = .empty ∨
      ∃ it ∈ is', it.addr = (m'.cacheList i).value ∧ it.data = (m'.cacheList i).key)
    (hitem : ∀ i, m'.cacheList i ≠ .empty → m'.cacheList i = m.cacheList i → ∀ it ∈ is,
      it.data = (m.cacheList i).key → it ∈ is') :
    Describes m' is' := by
  intro i hi
  rcases hslot i with heq | hempty | hnew
  · have hold := hitem i hi heq
    rw [heq] at hi ⊢
    obtain ⟨it, hit, haddr, hdata⟩ := h i hi
    exact ⟨it, hold it hit hdata, haddr, hdata⟩
  · exact absurd hempty hi
  · exact hnew

/-- With the slots as they are, it is enough that no item goes. -/
theorem Describes.mono (h : Describes m is) (hslots : m'.cacheList = m.cacheList)
    (hsub : ∀ it ∈ is, it ∈ is') : Describes m' is' :=
  h.of_slots (fun i => Or.inl (congrFun hslots i)) fun _ _ _ it hit _ => hsub it hit

variable {cfg : Config} {l : Env × Op} {s₀ s s' : Lib} {L₀ L L' : List Addr}

/-- Every change but a move of a cached block keeps the slots coherent. -/
theorem Trans.describes (h : Trans cfg l.1 l.2 s₀ L s L' s') (hb : Base s L) (hb₀ : Base s₀ L₀)
    (hsafe : ¬ MovesCached l s₀) (hd : Describes s.manager (L.map (item s.list))) :
    Describes s'.manager (L'.map (item s'.list)) := by
  cases h with
  | quiet hq =>
    rw [hq.list.items]
    exact hd.mono hq.cacheList fun _ hit => hit
  | pass _ _ _ =>
    rw [(sameList_worked hb.rep).items]
    refine hd.of_slots (fun i => ?_) fun _ _ _ it hit _ => hit
    rcases (refilled_worked hb.rep).slot i with heq | ⟨a, ha, hnew⟩
    · exact Or.inl heq
    · refine Or.inr (Or.inr ⟨_, List.mem_map_of_mem ha, ?_⟩)
      rw [hnew]
      exact ⟨rfl, rfl⟩
  | cleared hsame hdrop _ =>
    rw [hsame.items]
    exact hd.of_slots (fun i => (hdrop.slot_or i).symm.imp_right Or.inl) fun _ _ _ it hit _ => hit
  | @put i p _ _ hfound _ _ =>
    have hmem := (findPtr_mem hfound).1
    rw [(sameList_put (hb.rep.live_of_mem hmem)).items]
    refine hd.of_slots (fun j => ?_) fun _ _ _ it hit _ => hit
    show (s.manager.setSlot i _).cacheList j = _ ∨ (s.manager.setSlot i _).cacheList j = _ ∨
      ∃ it ∈ L.map (item s.list), it.addr = ((s.manager.setSlot i _).cacheList j).value ∧
        it.data = ((s.manager.setSlot i _).cacheList j).key
    by_cases hji : j = i
    · rw [hji, setSlot_self]
      exact Or.inr (Or.inr ⟨_, List.mem_map_of_mem hmem, rfl, rfl⟩)
    · exact Or.inl (setSlot_of_ne hji)
  | granted _ hgr =>
    rw [hgr.pushed.items hb.rep]
    exact hd.mono (by rw [hgr.manager]) fun it hit => List.mem_append_left _ hit
  | registered _ _ hpush hm _ =>
    rw [hpush.items hb.rep]
    exact hd.mono (by rw [hm]) fun it hit => List.mem_append_left _ hit
  | @realloced _ p newSize bytes hop hq hg hlive hlen hheap hrw hm =>
    obtain rfl : L₀ = L := (hq.list.rep hb₀.rep).unique hb.rep
    rw [hrw.items]
    -- the rewritten entry is in no slot, or its data stays
    have hdata : ∀ i, (s.manager.cacheList i).value = findPtr s₀.list L₀ p → l.1.block = p := by
      intro i hi
      by_contra hmoved
      refine hsafe ?_
      rw [MovesCached, hop, hb₀.rep.entries_eq]
      exact ⟨hg, hmoved, i, by rw [← hq.cacheList]; exact hi⟩
    intro i hi
    rw [hm] at hi ⊢
    obtain ⟨it, hit, haddr, hkey⟩ := hd i hi
    by_cases heq : it.addr = findPtr s₀.list L₀ p
    · refine ⟨item s'.list (findPtr s₀.list L₀ p), ?_, haddr ▸ heq.symm, ?_⟩
      · exact List.mem_map.mpr ⟨it, hit, if_pos heq⟩
      · have hp : it.data = p := by
          obtain ⟨a, ha, rfl⟩ := List.mem_map.mp hit
          have := (findPtr_mem hg.found).2
          rw [← hq.list.data, ← heq] at this
          exact this
        show (nodeAt s'.list.nodes _).data = _
        rw [hrw.node, ← hkey, hp]
        exact hdata i (haddr ▸ heq)
    · exact ⟨it, List.mem_map.mpr ⟨it, hit, if_neg heq⟩, haddr, hkey⟩
  | @tagged _ a block id hop ha hrw hm _ =>
    rw [hrw.items]
    intro i hi
    rw [hm] at hi ⊢
    obtain ⟨it, hit, haddr, hkey⟩ := hd i hi
    by_cases heq : it.addr = a
    · refine ⟨item s'.list a, List.mem_map.mpr ⟨it, hit, if_pos heq⟩, haddr ▸ heq.symm, ?_⟩
      obtain ⟨b, hb', rfl⟩ := List.mem_map.mp hit
      obtain rfl : b = a := heq
      show (nodeAt s'.list.nodes b).data = _
      rw [hrw.node]
      exact hkey
    · exact ⟨it, List.mem_map.mpr ⟨it, hit, if_neg heq⟩, haddr, hkey⟩
  | wrote _ _ hl hm _ =>
    rw [hl]
    exact hd.mono (by rw [hm]) fun _ hit => hit
  | @freed _ _ p e hp _ _ _ hdrop hrem _ =>
    rw [hrem.items hb.rep hp]
    refine hd.of_slots (fun i => (hdrop.slot_or i).symm.imp_right Or.inl)
      fun i hi heq it hit hkey => ?_
    -- a slot for `p` would have been emptied
    refine (List.mem_eraseP_of_neg fun hdp => hi ?_).mpr hit
    have hkp : (s.manager.cacheList i).key = p := hkey.symm.trans (of_decide_eq_true hdp)
    rw [hdrop.slot i, if_pos]
    exact ⟨mem_slots i, decide_eq_true ⟨hkp ▸ hp, decide_eq_true hkp⟩⟩
  | clientAlloc _ _ hl hm _ =>
    rw [hl]
    exact hd.mono (by rw [hm]) fun _ hit => hit
  | clientFree _ _ hl hm _ =>
    rw [hl]
    exact hd.mono (by rw [hm]) fun _ hit => hit

/-- One completed operation that moves no cached block keeps the slots coherent. -/
theorem libStep_describes (hb : Base s L) (hd : Describes s.manager (L.map (item s.list)))
    (hsafe : ¬ MovesCached l s) (h : libStep cfg l s = some s') :
    ∃ L', Base s' L' ∧ Describes s'.manager (L'.map (item s'.list)) := by
  obtain ⟨L', hspec⟩ := libStep_meets hb h
  obtain ⟨hd', hb'⟩ := hspec.changes.invariant
    (I := fun L s => Describes s.manager (L.map (item s.list)))
    (fun hb₁ hd₁ htrans => htrans.describes hb₁ hb hsafe hd₁) hb hd
  exact ⟨L', hb', hd'⟩

theorem Loaded.describes (h : Loaded s) : Describes s.manager [] := by
  intro i hi
  rw [h.manager] at hi
  exact absurd rfl hi

end Kept

/-! ## What coherent slots give -/

/-- The property of one state: the slots are coherent, a hit is the entry of the
block that was asked for, and `sn_free` passes on the block it was given. -/
structure CacheCoherent (cfg : Config) (s : Lib) : Prop where
  slot : ∀ i, (s.manager.cacheList i).key ≠ NULL →
    (s.manager.cacheList i).value ∈ s.list.entries ∧
      (nodeAt s.list.nodes (s.manager.cacheList i).value).data = (s.manager.cacheList i).key
  hit : ∀ env k, wp (memmanTryCacheHit k) env
    (fun v _ => v ≠ memmanCacheMiss → v ∈ s.list.entries ∧ (nodeAt s.list.nodes v).data = k)
    (fun e _ => e = .blocked) s
  free : ∀ env k, wlp (snFree cfg k) env (fun _ s' =>
    (k = NULL ∨ ∀ a ∈ s.list.entries, (nodeAt s.list.nodes a).data ≠ k) ∧
        s'.heap.freed = s.heap.freed ∨
      ∃ bytes, s'.heap.freed = s.heap.freed ++ [(k, bytes)]) s

section Coherent

variable {cfg : Config} {l : Env × Op} {s s' : Lib} {L : List Addr}

theorem Describes.slot (hd : Describes s.manager (L.map (item s.list))) {i : Slot}
    (hi : s.manager.cacheList i ≠ .empty) : (s.manager.cacheList i).value ∈ L ∧
      (nodeAt s.list.nodes (s.manager.cacheList i).value).data = (s.manager.cacheList i).key := by
  obtain ⟨it, hit, haddr, hkey⟩ := hd i hi
  obtain ⟨a, ha, rfl⟩ := List.mem_map.mp hit
  rw [← haddr]
  exact ⟨ha, hkey⟩

theorem ne_empty_of_keySlot {m : AllocManager} {k : Addr} {i : Slot} (h : m.keySlot k = some i) :
    m.cacheList i ≠ .empty := by
  obtain ⟨hkey, hne⟩ := keySlot_eq_some h
  intro hempty
  rw [hempty] at hkey
  exact hne hkey.symm

theorem Describes.slotsLive (hd : Describes s.manager (L.map (item s.list))) (hb : Base s L) :
    s.manager.SlotsLive s.list.nodes :=
  fun _ hi => hb.rep.live_of_mem (hd.slot hi).1

/-- With coherent slots the lookup of `sn_free` finds an entry for the pointer. -/
theorem Describes.lookup (hd : Describes s.manager (L.map (item s.list))) (hb : Base s L)
    {p e : Addr} (h : Lookup s L p e) (he : e ∈ L) : (nodeAt s.list.nodes e).data = p := by
  cases h with
  | cached i _ hslot hval =>
    rw [← hval, (hd.slot (ne_empty_of_keySlot hslot)).2]
    exact (keySlot_eq_some hslot).1
  | listed _ hfind =>
    rw [← hfind]
    exact (findPtr_mem (hfind ▸ hb.rep.ne_null he)).2

theorem Describes.coherent (hd : Describes s.manager (L.map (item s.list))) (hb : Base s L) :
    CacheCoherent cfg s := by
  constructor
  · intro i hkey
    rw [hb.rep.entries_eq]
    refine hd.slot fun hempty => hkey ?_
    rw [hempty]
    rfl
  · intro env k
    rw [hb.rep.entries_eq]
    refine wp_tryCacheHit hb (fun _ _ => rfl)
      (fun i _ hslot hdead => absurd (((hd.slotsLive hb).dropsLive _ _).keySlot hslot) hdead)
      (fun _ _ _ hne => absurd rfl hne) fun i _ hslot hmem _ _ => ⟨hmem, ?_⟩
    rw [(hd.slot (ne_empty_of_keySlot hslot)).2]
    exact (keySlot_eq_some hslot).1
  · intro env k
    rw [hb.rep.entries_eq]
    refine wp_snFree hb (fun _ _ => trivial) (fun _ _ => trivial)
      (fun h0 => Or.inl ⟨Or.inl h0, rfl⟩)
      (fun _ _ hnone => Or.inl ⟨Or.inr ?_, rfl⟩)
      fun e s' L' h => Or.inr ?_
    · exact (findPtr_eq_null fun h0 => hb.rep.ne_null h0 rfl).mp hnone
    · have hheap := h.heap
      rw [hd.lookup hb h.lookup h.mem] at hheap
      exact ⟨_, by rw [(hheap.live h.ptr_ne).2.2]⟩

/-- A move of a cached block leaves its slot stale. -/
theorem MovesCached.stale (hm : MovesCached l s) (hb : Base s L)
    (hd : Describes s.manager (L.map (item s.list))) (h : libStep cfg l s = some s') :
    ¬ CacheCoherent cfg s' := by
  intro hc
  obtain ⟨env, op⟩ := l
  cases op with
  | realloc ptr newSize =>
    obtain ⟨hg, hmoved, i, hi⟩ := hm
    rw [hb.rep.entries_eq] at hg hi
    obtain ⟨hmem, hdata⟩ := findPtr_mem hg.found
    -- before the call the slot describes the block
    have hslot : s.manager.cacheList i ≠ .empty := by
      intro hempty
      rw [hempty] at hi
      exact hg.found hi.symm
    have hkey : (s.manager.cacheList i).key = ptr := by
      rw [← (hd.slot hslot).2, hi]
      exact hdata
    obtain ⟨_, hdone⟩ := Outcome.done?_eq_some.mp h
    have hrealloc : wlp (snRealloc ptr newSize) env
        (fun _ s' => Meets cfg (env, .realloc ptr newSize) s L s' ∧
          (ReallocGranted env s L ptr newSize → ReallocDone env s L ptr s')) s := spec_snRealloc hb
    have hspec : wlp (forEffect (snRealloc ptr newSize)) env
        (fun _ s' => ReallocDone env s L ptr s') s :=
      wlp_forEffect (hrealloc.imp fun _ _ h => h.2 hg)
    have hnew := wp.done hspec hdone
    -- after it the entry's data is the new block, and the slot is as it was
    have hstale := (hc.slot i (by rw [hnew.cacheList, hkey]; exact hg.ptr_ne)).2
    rw [hnew.cacheList, hi, hnew.data, hkey] at hstale
    exact hmoved hstale
  | _ => exact hm

end Coherent

/-- **Cache coherence, and the one call that ends it.** Every state of a run has
coherent slots, hits the right entries and frees the right blocks exactly when no
`sn_realloc` of the run moves the block of an entry that a slot holds. -/
theorem coherent_iff_no_cached_move {cfg : Config} {s₀ s : Lib} {ls : List (Env × Op)}
    (h₀ : Started s₀) (hrun : run (libStep cfg) ls s₀ = some s) :
    (∀ ls' s', ls' <+: ls → run (libStep cfg) ls' s₀ = some s' → CacheCoherent cfg s') ↔
      Along (libStep cfg) (fun l s => ¬ MovesCached l s) ls s₀ := by
  have hl := loaded_of_started h₀
  refine prefixes_iff_along
    (J := fun s => ∃ L, Base s L ∧ Describes s.manager (L.map (item s.list)))
    (fun s h => ?_) (fun l s s' h hstay hs => ?_) (fun l s s' h hmove hs => ?_)
    ⟨[], hl.base, hl.describes⟩ hrun
  · obtain ⟨L, hb, hd⟩ := h
    exact hd.coherent hb
  · obtain ⟨L, hb, hd⟩ := h
    exact libStep_describes hb hd hstay hs
  · obtain ⟨L, hb, hd⟩ := h
    exact hmove.stale hb hd hs

/-- Two blocks in the cache, a pass, a block that grows where it is, and the other one freed. -/
theorem coherent_iff_no_cached_move_at :
    ∃ ls s₀ s, ls = [(Env.plain 1 128 4096, .malloc 8), (Env.plain 1 0 0, .requestToFastCache 4096),
        (Env.plain 1 192 8192, .malloc 8), (Env.plain 1 0 0, .requestToFastCache 8192),
        (Env.plain 1 0 0, .querySize 4096), (Env.plain 1 0 8192, .realloc 8192 16),
        (Env.plain 1 0 0, .free 4096)] ∧
      Started s₀ ∧ run (libStep ⟨false⟩) ls s₀ = some s ∧
      s.manager.cacheList 1 = ⟨8192, 192⟩ ∧ CacheCoherent ⟨false⟩ s := by
  generalize hls : [(Env.plain 1 128 4096, Op.malloc 8),
    (Env.plain 1 0 0, .requestToFastCache 4096), (Env.plain 1 192 8192, .malloc 8),
    (Env.plain 1 0 0, .requestToFastCache 8192), (Env.plain 1 0 0, .querySize 4096),
    (Env.plain 1 0 8192, .realloc 8192 16), (Env.plain 1 0 0, .free 4096)] = ls
  have hsome : ((doinit (Env.plain 1 64 0) .blank).done?.bind fun s₀ =>
      (run (libStep ⟨false⟩) ls s₀).map fun s => s.manager.cacheList 1) = some ⟨8192, 192⟩ := by
    rw [← hls]
    decide +kernel
  obtain ⟨s₀, h₀, hsome⟩ := Option.bind_eq_some_iff.mp hsome
  obtain ⟨s, hs, hslot⟩ := Option.map_eq_some_iff.mp hsome
  have hok : Along (libStep ⟨false⟩) (fun l s => ¬ MovesCached l s) ls s₀ := by
    rw [← hls]
    refine ⟨id, fun _ _ => ⟨id, fun _ _ => ⟨id, fun _ _ => ⟨id, fun _ _ => ⟨id, fun _ _ => ?_⟩⟩⟩⟩⟩
    exact ⟨fun h => h.2.1 rfl, fun _ _ => ⟨id, fun _ _ => trivial⟩⟩
  exact ⟨ls, s₀, s, rfl, started_of_done h₀, hs, hslot,
    (coherent_iff_no_cached_move (started_of_done h₀) hs).mpr hok ls s List.prefix_rfl hs⟩

/-- A block in the cache is moved by `sn_realloc`: the slot keeps the old address, its
entry has the new one, and freeing the old address frees the new block. -/
theorem moved_block_slot_stale :
    ((doinit (Env.plain 1 64 0) .blank).done?.bind (run (libStep ⟨false⟩)
      [(Env.plain 1 128 4096, .malloc 8), (Env.plain 1 0 0, .requestToFastCache 4096),
        (Env.plain 1 0 8192, .realloc 4096 16)])).map (fun s =>
          (s.manager.cacheList 0, s.list.entries, (nodeAt s.list.nodes 128).data,
            (libStep ⟨false⟩ (Env.plain 1 0 0, .free 4096) s).map (·.heap.freed.map (·.1))))
      = some (⟨4096, 128⟩, [128], 8192, some [8192]) := by
  decide +kernel

end LibSafetynet
