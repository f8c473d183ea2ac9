import LibSafetynet.MountFailure

/-!
# Dumping a block and mounting it again

`sn_dump_to_file` takes the size of the block from its entry, and finds the entry by the
lookup that all queries by address share: what is not in the cache is not dumped. What
is mounted afterwards has the size of the file. So a block comes back exactly if the
cache answers for it, with the size that was asked for (`round_trips_iff`).
-/

namespace LibSafetynet

open Logic Prog PlatMutex ListState AllocManager

/-- libc's I/O succeeds: every file opens, as much is transferred as is asked for, and
closing a file leaves all of it there. -/
structure IoSucceeds (env : Env) : Prop where
  opens : ∀ n, env.fopenOk n = true
  transfers : addressSpace ≤ env.transferred
  flushes : addressSpace ≤ env.flushed

/-- The limit and the allocator admit `size` bytes, and the node of their entry. -/
def Lib.HasRoom (env : Env) (s : Lib) (size : UInt64) : Prop :=
  mallocRefusal env s size = none ∧ s.list.AdmitsNode env.node

/-- `s'` is `s` with a new tracked block at `p` that holds the `size` bytes at `b`; blocks
and entries of `s` are as they were. -/
structure CopyMounted (env : Env) (s : Lib) (b : Addr) (size : UInt64) (p : Addr) (s' : Lib) :
    Prop where
  fresh : ¬ s.heap.Live p
  tracked : s'.items = s.items ++ [⟨env.node, p, size, env.tid, 0⟩]
  length : (s'.heap.bytes p).length = size.toNat
  bytes : s'.heap.bytes p = s.heap.readAt b size.toNat
  kept : ∀ q, s.heap.Live q → s'.heap.Live q ∧ s'.heap.bytes q = s.heap.bytes q

/-- The block at `b` is dumped to the file, and mounted from there if there is room for it. -/
def RoundTrips (cfg : Config) (env env' : Env) (s : Lib) (path : FileName) (b : Addr)
    (size : UInt64) : Prop :=
  ∃ v s₁, snDumpToFile (some path) b env s = .done v s₁ ∧ v = true ∧
    (s₁.HasRoom env' size → ∃ p s', snMountFileToRam cfg (some path) env' s₁ = .done p s' ∧
      CopyMounted env' s b size p s')

/-- The cache answers for the block with an entry of its size, and the bytes are there. -/
def DumpsWhole (env' : Env) (s : Lib) (b : Addr) (size : UInt64) : Prop :=
  ∃ i, s.manager.useCache = true ∧ s.manager.keySlot b = some i ∧
    (s.list.nodes.lookup (s.manager.cacheList i).value).isSome ∧
    s.heap.Readable b (s.slotNode i).size.toNat ∧
    (s.HasRoom env' size → (s.slotNode i).size = size)

instance (env : Env) (s : Lib) (size : UInt64) : Decidable (s.HasRoom env size) :=
  inferInstanceAs (Decidable (_ ∧ _))

instance (env' : Env) (s : Lib) (b : Addr) (size : UInt64) : Decidable (DumpsWhole env' s b size) :=
  inferInstanceAs (Decidable (∃ _, _))

section RoundTrip

variable {cfg : Config} {env env' : Env} {s s₁ s' : Lib} {L : List Addr} {path : FileName}
  {b : Addr} {size sz : UInt64} {content bytes : List UInt8}

theorem DumpsWhole.hits (h : DumpsWhole env' s b size) : s.Hits b := by
  obtain ⟨i, huse, hslot, -⟩ := h
  exact hits_of_keySlot huse hslot

/-- With one slot known, the condition speaks of that slot. -/
theorem dumpsWhole_iff {i : Slot} (huse : s.manager.useCache = true)
    (hslot : s.manager.keySlot b = some i) : DumpsWhole env' s b size ↔
      (s.list.nodes.lookup (s.manager.cacheList i).value).isSome ∧
        s.heap.Readable b (s.slotNode i).size.toNat ∧
        (s.HasRoom env' size → (s.slotNode i).size = size) := by
  constructor
  · rintro ⟨j, -, hj, h⟩
    obtain rfl : i = j := Option.some.inj (hslot.symm.trans hj)
    exact h
  · exact fun h => ⟨i, huse, hslot, h⟩

/-- Lookups and files take no room. -/
theorem Quiet.hasRoom_iff (h : Quiet s s') (hlimit : s'.manager.allocLimit = s.manager.allocLimit) :
    s'.HasRoom env' size ↔ s.HasRoom env' size := by
  have hcan : memmanCanAllocateBasedOnLimitAndSize s'.manager size ↔
      memmanCanAllocateBasedOnLimitAndSize s.manager size := by
    unfold memmanCanAllocateBasedOnLimitAndSize
    rw [h.usage, hlimit]
  have hnode := h.list.live env'.node
  unfold Lib.HasRoom AdmitsNode
  rw [mallocRefusal_eq_none, mallocRefusal_eq_none, hcan, h.heap, ← Option.not_isSome,
    ← Option.not_isSome, hnode]

theorem Lib.HasRoom.size_ne (h : s.HasRoom env' size) : size ≠ 0 := (mallocRefusal_eq_none.mp h.1).1

/-- What the mount leaves is a copy of the block, as long as the file is. -/
theorem Buffered.copyMounted_iff (h : Buffered env' s₁ L content sz s' bytes) (hb : Base s₁ L)
    (hio : IoSucceeds env') (hitems : s₁.items = s.items) (hheap : s₁.heap = s.heap)
    (hcontent : content = s.heap.readAt b sz.toNat) :
    CopyMounted env' s b size env'.block s' ↔ sz = size := by
  have hb' : Base s' (L ++ [env'.node]) := h.granted.base hb
  have htracked : s'.items = s.items ++ [⟨env'.node, env'.block, sz, env'.tid, 0⟩] := by
    rw [LibSafetynet.items_eq hb', h.items hb, ← hitems, LibSafetynet.items_eq hb]
  constructor
  · intro hcopy
    have hlast := List.append_cancel_left (htracked.symm.trans hcopy.tracked)
    exact congrArg Item.size (List.cons.inj hlast).1
  · rintro rfl
    have hle : sz.toNat ≤ env'.transferred :=
      (Nat.le_of_lt (UInt64.toNat_lt _)).trans hio.transfers
    have hnew : s'.heap.bytes env'.block = bytes := by
      rw [h.granted.heap, ClientHeap.bytes_place_self]
    have hdead : ¬ s.heap.Live env'.block := hheap ▸ h.granted.admits.not_live
    refine ⟨hdead, htracked, hnew ▸ h.length, ?_, fun q hq => ?_⟩
    · have hread := h.read
      rw [List.take_of_length_le (h.length.le.trans hle), hcontent, ClientHeap.readAt,
        List.take_take, List.take_take, Nat.min_eq_right hle, Nat.min_self] at hread
      rw [hnew, hread, ClientHeap.readAt]
    · have hne : q ≠ env'.block := fun heq => hdead (heq ▸ hq)
      rw [h.granted.heap, hheap, ClientHeap.bytes_place_of_ne hne, ClientHeap.live_place]
      exact ⟨Or.inr hq, rfl⟩

/-- The mount of a file with the bytes at `b`. -/
theorem mounts_copy_iff (hb : Base s₁ L) (hfree : IsFree s₁.allocMutex)
    (hlist : IsFree s₁.list.mutex) (hio : IoSucceeds env') (hitems : s₁.items = s.items)
    (hheap : s₁.heap = s.heap) (hroom : s₁.HasRoom env' size)
    (hfile : s₁.files.lookup path = some (s.heap.readAt b sz.toNat))
    (hread : s.heap.Readable b sz.toNat) :
    (∃ p s', snMountFileToRam cfg (some path) env' s₁ = .done p s' ∧
      CopyMounted env' s b size p s') ↔ sz = size := by
  have hlen : UInt64.ofNat (s.heap.readAt b sz.toNat).length = sz := by
    rw [hread.length_readAt, UInt64.ofNat_toNat]
  have hopens : ∀ {content n}, Opens env' s₁ (some path) content n →
      content = s.heap.readAt b sz.toNat ∧ n = sz := by
    intro content n h
    obtain ⟨path', hpath, hfound⟩ := h.found
    obtain rfl : path = path' := Option.some.inj hpath
    obtain rfl : _ = content := Option.some.inj (hfile.symm.trans hfound)
    exact ⟨rfl, h.size_eq.trans hlen⟩
  refine wp.returns_iff (wp_snMountFileToRam hb (fun hbl => ?_) (fun err herr => ?_)
    (fun content n hopen hrefused _ heq => ?_)
    (fun content n hopen _ hno => absurd hroom.2 hno)
    (fun content n s' bytes hopen _ hbuf _ => ?_)
    fun content n s' bytes _ _ _ hshort => ?_)
  · exact absurd hbl (not_or.mpr ⟨hfree.not_blocks _, fun h => hlist.not_blocks _ h.2⟩)
  · -- only an empty file is refused, and then nothing is mounted
    refine iff_of_false (fun hcopy => ?_) (fun heq => ?_)
    · have htracked := hcopy.tracked
      rw [← hitems] at htracked
      have hcount := congrArg List.length htracked
      rw [List.length_append] at hcount
      exact Nat.succ_ne_self _ hcount.symm
    · rw [mountRefusal, hfile, if_neg (not_not.mpr ⟨hio.opens 0, rfl⟩),
        if_neg (not_not.mpr (hio.opens 1)), Option.getD_some, hlen, heq,
        if_neg hroom.size_ne] at herr
      cases herr
  · obtain ⟨-, rfl⟩ := hopens hopen
    exact hrefused (heq ▸ hroom.1)
  · obtain ⟨hcontent, rfl⟩ := hopens hopen
    exact hbuf.copyMounted_iff hb hio hitems hheap hcontent
  · -- no file is longer than what is transferred
    exact absurd (hio.transfers.trans hshort.le) (Nat.not_le.mpr (UInt64.toNat_lt _))

end RoundTrip

/-- **When a block comes back from a file.** For every address and size, tracked or not, and
every absent path: dumping and mounting gives a copy exactly if the cache in use holds a
slot for the address whose node is alive, as many bytes as that node records lie in one
block there, and their number is the size, or there is no room to mount that many. -/
theorem round_trips_iff {cfg : Config} {env env' : Env} {s : Lib} {path : FileName} {b : Addr}
    {size : UInt64} (hs : Reachable cfg s) (hio : IoSucceeds env) (hio' : IoSucceeds env')
    (habsent : s.files.lookup path = none) :
    RoundTrips cfg env env' s path b size ↔ DumpsWhole env' s b size := by
  obtain ⟨L, hb, hu⟩ := hs.base
  refine wp.returns_iff (wp_snDumpToFile hb (fun hbl _ hwhole => ?_)
    (fun i hfrom hdead _ hwhole => ?_) (fun err herr => ?_) (fun _ hmiss _ _ => ?_)
    (fun i _ _ hfail => ?_) fun i path' hfrom hpath hmem hread => ?_)
  · exact absurd hbl (not_or.mpr ⟨hu.alloc.not_blocks _, fun h => h.2.1 hwhole.hits⟩)
  · obtain ⟨hlive, hread, -⟩ := (dumpsWhole_iff hfrom.use hfrom.slot).mp hwhole
    exact hdead ⟨hlive, fun _ => hread⟩
  · refine iff_of_false (fun h => Bool.false_ne_true h.1) fun hwhole => ?_
    have hne := hwhole.hits.ne_null
    rw [dumpRefusal, if_neg hne, habsent, if_neg fun h => Bool.false_ne_true h.2] at herr
    cases herr
  · exact iff_of_false (fun h => Bool.false_ne_true h.1) fun hwhole => hmiss hwhole.hits
  · refine absurd ⟨hio.opens 1, ?_⟩ hfail
    exact (Nat.le_of_lt (UInt64.toNat_lt _)).trans hio.transfers
  · obtain rfl : path = path' := Option.some.inj hpath
    have hlive := hb.rep.live_of_mem hmem
    have hquiet : Quiet s { s.hit (s.manager.cacheList i).value with
        files := s.files.insert path (s.heap.readAt b (s.slotNode i).size.toNat) } :=
      ⟨sameList_hit hlive, rfl, rfl, rfl, rfl⟩
    -- all of the block is in the file once it is closed
    have hflush : (s.heap.readAt b (s.slotNode i).size.toNat).length ≤ env.flushed := by
      rw [hread.length_readAt]
      exact (Nat.le_of_lt (UInt64.toNat_lt _)).trans hio.flushes
    rw [List.take_of_length_le hflush]
    have hfree : IsFree s.list.mutex := hu.list (List.ne_nil_of_mem hmem)
    rw [dumpsWhole_iff hfrom.use hfrom.slot, and_iff_right rfl, and_iff_right hlive,
      and_iff_right hread, ← hquiet.hasRoom_iff rfl]
    refine forall_congr' fun hroom => ?_
    exact mounts_copy_iff (hquiet.base hb) (isFree_release _) hfree hio' (hquiet.items_eq hb) rfl
      hroom (Finmap.lookup_insert _) hread

theorem ioSucceeds_plain (tid : UInt64) (node block : Addr) :
    IoSucceeds (Env.plain tid node block) :=
  ⟨fun _ => rfl, le_rfl, le_rfl⟩

/-- A block of 16 bytes in the cache comes back, and so do the 8 bytes inside it that are
registered as a block of their own. -/
theorem round_trips_iff_at :
    ∃ s, Reachable ⟨false⟩ s ∧ s.items = [⟨128, 4096, 16, 1, 0⟩, ⟨192, 4104, 8, 1, 0⟩] ∧
      s.HasRoom (Env.plain 1 256 8192) 16 ∧ s.HasRoom (Env.plain 1 256 8192) 8 ∧
      RoundTrips ⟨false⟩ (Env.plain 1 0 0) (Env.plain 1 256 8192) s [102] 4096 16 ∧
      RoundTrips ⟨false⟩ (Env.plain 1 0 0) (Env.plain 1 256 8192) s [102] 4104 8 := by
  have hsome : ((doinit (Env.plain 1 64 0) .blank).done?.bind fun s₀ =>
      (run (libStep ⟨false⟩) [(Env.plain 1 128 4096, .malloc 16),
        (Env.plain 1 192 0, .registerSize 4104 8), (Env.plain 1 0 0, .requestToFastCache 4096),
        (Env.plain 1 0 0, .requestToFastCache 4104)] s₀).map fun s =>
          (s.items, (decide (s.HasRoom (Env.plain 1 256 8192) 16),
            decide (s.HasRoom (Env.plain 1 256 8192) 8)),
            (decide (DumpsWhole (Env.plain 1 256 8192) s 4096 16),
              decide (DumpsWhole (Env.plain 1 256 8192) s 4104 8)), s.files.lookup [102])) =
      some ([⟨128, 4096, 16, 1, 0⟩, ⟨192, 4104, 8, 1, 0⟩], (true, true), (true, true), none) := by
    decide +kernel
  obtain ⟨s₀, h₀, hsome⟩ := Option.bind_eq_some_iff.mp hsome
  obtain ⟨s, hs, hall⟩ := Option.map_eq_some_iff.mp hsome
  obtain ⟨hitems, hall⟩ := Prod.mk.inj hall
  obtain ⟨hrooms, hall⟩ := Prod.mk.inj hall
  obtain ⟨hroom, hroom'⟩ := Prod.mk.inj hrooms
  obtain ⟨hwholes, habsent⟩ := Prod.mk.inj hall
  obtain ⟨hwhole, hwhole'⟩ := Prod.mk.inj hwholes
  have hreach : Reachable ⟨false⟩ s := ⟨s₀, _, started_of_done h₀, hs⟩
  have hio := ioSucceeds_plain 1 0 0
  have hio' := ioSucceeds_plain 1 256 8192
  refine ⟨s, hreach, hitems, of_decide_eq_true hroom, of_decide_eq_true hroom', ?_, ?_⟩
  · exact (round_trips_iff hreach hio hio' habsent).mpr (of_decide_eq_true hwhole)
  · exact (round_trips_iff hreach hio hio' habsent).mpr (of_decide_eq_true hwhole')

/-- A block of 8 bytes that is not in the cache is tracked, and is not dumped. -/
theorem uncached_block_not_dumped :
    ∃ s, Reachable ⟨false⟩ s ∧ ⟨128, 4096, 8, 1, 0⟩ ∈ s.items ∧ s.files.lookup [102] = none ∧
      (snDumpToFile (some [102]) 4096 (Env.plain 1 0 0) s).value? = some false ∧
      ¬ RoundTrips ⟨false⟩ (Env.plain 1 0 0) (Env.plain 1 192 8192) s [102] 4096 8 := by
  have hsome : ((doinit (Env.plain 1 64 0) .blank).done?.bind fun s₀ =>
      (run (libStep ⟨false⟩) [(Env.plain 1 128 4096, .malloc 8)] s₀).map fun s =>
        (decide (⟨128, 4096, 8, 1, 0⟩ ∈ s.items), s.files.lookup [102],
          (snDumpToFile (some [102]) 4096 (Env.plain 1 0 0) s).value?)) =
      some (true, none, some false) := by
    decide +kernel
  obtain ⟨s₀, h₀, hsome⟩ := Option.bind_eq_some_iff.mp hsome
  obtain ⟨s, hs, hall⟩ := Option.map_eq_some_iff.mp hsome
  obtain ⟨hitem, hall⟩ := Prod.mk.inj hall
  obtain ⟨habsent, hvalue⟩ := Prod.mk.inj hall
  refine ⟨s, ⟨s₀, _, started_of_done h₀, hs⟩, of_decide_eq_true hitem, habsent, hvalue, ?_⟩
  rintro ⟨v, s₁, hdone, rfl, -⟩
  rw [hdone] at hvalue
  cases hvalue

end LibSafetynet
