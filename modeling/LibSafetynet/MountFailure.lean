import LibSafetynet.BlockOwnership
import LibSafetynet.CacheView
import LibSafetynet.LimitCheck

/-!
# Mounts that fail

`mountError` is the error that fits what keeps `sn_mount_file_to_ram` from delivering
its file: an early check, the allocation of the block or of its node, the read. The
early checks fail cleanly. A refused allocation does not: it ends in `sn_crash`. A short
read is undone by `sn_free`, which looks the new block up by its address, in the cache
first; `RollsBack` is what that takes (`mount_fails_cleanly_iff`).
-/

namespace LibSafetynet

open Logic Prog PlatMutex ListState AllocManager

/-- The bytes for which `sn_mount_file_to_ram` asks `sn_malloc`. -/
def mountSize (s : Lib) (file : Option FileName) : UInt64 :=
  UInt64.ofNat ((file.bind s.files.lookup).getD []).length

/-- The error that fits what keeps the file from being delivered, if anything does. -/
def mountError (env : Env) (s : Lib) (file : Option FileName) : Option SnErrorCodes :=
  match mountRefusal env s file, mallocRefusal env s (mountSize s file) with
  | some err, _ | none, some err => some err
  | none, none =>
    if ¬ s.list.AdmitsNode env.node then some .snErrBadAlloc
    else if env.transferred < (mountSize s file).toNat then some .snErrFileIo
    else none

/-- What a failed mount leaves as it was. -/
structure Undone (s s' : Lib) : Prop where
  items : s'.items = s.items
  nodes : ∀ a, (s'.list.nodes.lookup a).isSome ↔ (s.list.nodes.lookup a).isSome
  usage : s'.manager.globalMemoryUsage = s.manager.globalMemoryUsage
  len : s'.list.list.len = s.list.list.len
  blocks : s'.heap.blocks = s.heap.blocks

/-- The mount returns null with the error `err` set, and nothing is left of it. -/
def FailsCleanly (cfg : Config) (env : Env) (s : Lib) (file : Option FileName)
    (err : SnErrorCodes) : Prop :=
  ∃ v s', snMountFileToRam cfg file env s = .done v s' ∧
    v = NULL ∧ s'.errorCode = err ∧ Undone s s'

/-- An entry for the block at `env.block`, held by the node at `env.node`, can be pushed
and removed by `sn_free` again. -/
structure RollsBack (env : Env) (s : Lib) : Prop where
  free : ¬ Blocks env.tid s.list.mutex
  untracked : ¬ Tracked s env.block
  slots : ∀ i, (s.manager.cacheList i).key = env.block →
    (s.manager.cacheList i).value = env.node ∨
      (s.list.nodes.lookup (s.manager.cacheList i).value).isSome
  hit : s.manager.useCache = true → ∀ i, s.manager.keySlot env.block = some i →
    (s.manager.cacheList i).value = env.node

/-- An early check stops the mount, or its block and node are granted and can be given back. -/
def MountUndone (env : Env) (s : Lib) (file : Option FileName) : Prop :=
  mountRefusal env s file ≠ none ∨
    mallocRefusal env s (mountSize s file) = none ∧ s.list.AdmitsNode env.node ∧ RollsBack env s

instance (env : Env) (s : Lib) : Decidable (RollsBack env s) :=
  decidable_of_iff (¬ Blocks env.tid s.list.mutex ∧ ¬ Tracked s env.block ∧
      (∀ i, (s.manager.cacheList i).key = env.block → (s.manager.cacheList i).value = env.node ∨
        (s.list.nodes.lookup (s.manager.cacheList i).value).isSome) ∧
      (s.manager.useCache = true → ∀ i, s.manager.keySlot env.block = some i →
        (s.manager.cacheList i).value = env.node))
    ⟨fun h => ⟨h.1, h.2.1, h.2.2.1, h.2.2.2⟩, fun h => ⟨h.free, h.untracked, h.slots, h.hit⟩⟩

instance (env : Env) (s : Lib) (file : Option FileName) : Decidable (MountUndone env s file) :=
  inferInstanceAs (Decidable (_ ∨ _))

section Mount

variable {cfg : Config} {env : Env} {s s₁ s₂ : Lib} {L L' : List Addr} {file : Option FileName}
  {content bytes : List UInt8} {size : UInt64} {err : SnErrorCodes}

theorem Opens.mountSize_eq (h : Opens env s file content size) : mountSize s file = size := by
  obtain ⟨path, rfl, hfound⟩ := h.found
  rw [h.size_eq, mountSize, Option.bind_some, hfound]
  rfl

/-- What is known of the mount once the file is open. -/
theorem Opens.undone_iff (h : Opens env s file content size) : MountUndone env s file ↔
    mallocRefusal env s size = none ∧ s.list.AdmitsNode env.node ∧ RollsBack env s := by
  rw [MountUndone, h.mountSize_eq]
  exact or_iff_right fun hne => hne h.refusal

theorem mountError_refused (h : mountRefusal env s file = some err) :
    mountError env s file = some err := by
  rw [mountError, h]

theorem Opens.mountError_short (h : Opens env s file content size)
    (hnone : mallocRefusal env s size = none) (hnode : s.list.AdmitsNode env.node) :
    mountError env s file = if env.transferred < size.toNat then some .snErrFileIo else none := by
  rw [mountError, h.refusal, h.mountSize_eq, hnone]
  exact if_neg (not_not.mpr hnode)

/-! ## The short read -/

theorem Buffered.tracks (h : Buffered env s L content size s₁ bytes) :
    (nodeAt s₁.list.nodes env.node).data = env.block :=
  congrArg Payload.data h.granted.pushed.new

theorem Buffered.fresh (h : Buffered env s L content size s₁ bytes) : env.node ∉ L :=
  fun hmem => h.granted.pushed.fresh (List.mem_cons_of_mem _ hmem)

theorem Buffered.items (h : Buffered env s L content size s₁ bytes) (hb : Base s L) :
    (L ++ [env.node]).map (item s₁.list) =
      L.map (item s.list) ++ [⟨env.node, env.block, size, env.tid, 0⟩] :=
  h.granted.pushed.items hb.rep

/-- After the push the first slot for the block decides which entry `sn_free` finds. -/
theorem Buffered.lookup_iff (h : Buffered env s L content size s₁ bytes) (hb : Base s L)
    (huntracked : ¬ Tracked s env.block) {e : Addr}
    (hlook : Lookup s₁ (L ++ [env.node]) env.block e) :
    e = env.node ↔ (s.manager.useCache = true → ∀ i, s.manager.keySlot env.block = some i →
      (s.manager.cacheList i).value = env.node) := by
  have hman := h.granted.manager
  have hslot : s₁.manager.keySlot env.block = s.manager.keySlot env.block := by
    rw [hman]
    rfl
  cases hlook with
  | cached i huse hkey hvalue =>
    rw [hman] at huse hvalue
    rw [hslot] at hkey
    rw [← hvalue]
    constructor
    · intro heq _ j hj
      obtain rfl : i = j := Option.some.inj (hkey.symm.trans hj)
      exact heq
    · exact fun hhit => hhit huse i hkey
  | listed hmiss hfind =>
    have hnone : findPtr s.list L env.block = NULL := by
      by_contra hne
      exact huntracked ((tracked_iff hb).mpr hne)
    rw [h.granted.pushed.findPtr_new hb.rep hnone] at hfind
    refine iff_of_true hfind.symm fun huse i hi => absurd ?_ hmiss
    exact (h.hits_iff env.block).mpr (hits_of_keySlot huse hi)

/-- The nodes of the slots for the block are there once the block's own node is. -/
theorem Buffered.dropsLive_iff (h : Buffered env s L content size s₁ bytes) (hb : Base s L) :
    s₁.manager.DropsLive (· = env.block) slots s₁.list.nodes ↔
      ∀ i, (s.manager.cacheList i).key = env.block →
        (s.manager.cacheList i).value = env.node ∨
          (s.list.nodes.lookup (s.manager.cacheList i).value).isSome := by
  have hne : env.block ≠ NULL := h.granted.admits.ne_null
  have hlive : ∀ a, (s₁.list.nodes.lookup a).isSome ↔
      a = env.node ∨ (s.list.nodes.lookup a).isSome := by
    intro a
    rw [h.granted.pushed.rep.live, hb.rep.live, h.granted.pushed.head, List.mem_cons,
      List.mem_append, List.mem_singleton, List.mem_cons]
    tauto
  unfold DropsLive DropsSlot
  rw [h.granted.manager]
  refine forall_congr' fun i => ?_
  simp only [decide_eq_true_eq, hlive, mem_slots, true_imp_iff]
  constructor
  · exact fun hdrop hkey => hdrop ⟨hkey ▸ hne, hkey⟩
  · exact fun hdrop hkey => hdrop hkey.2

/-- The new entry and its block are what `sn_free` reads, if it can be given back. -/
theorem Buffered.freeable (h : Buffered env s L content size s₁ bytes) (hb : Base s L)
    (hback : RollsBack env s) : Freeable s₁ (L ++ [env.node]) env.block := by
  refine ⟨(h.dropsLive_iff hb).mpr hback.slots, fun e _ hlook => ?_⟩
  obtain rfl := (h.lookup_iff hb hback.untracked hlook).mpr hback.hit
  have hsize : (nodeAt s₁.list.nodes env.node).size = size :=
    congrArg Payload.size h.granted.pushed.new
  rw [h.tracks, hsize, h.granted.heap, ClientHeap.live_place, ClientHeap.bytes_place_self,
    h.length]
  exact ⟨Or.inl rfl, le_rfl⟩

/-- Giving the new entry back leaves what was there before the mount. -/
theorem Buffered.undone (h : Buffered env s L content size s₁ bytes) (hb : Base s L)
    (huntracked : ¬ Tracked s env.block)
    (hrel : Released cfg s₁ (L ++ [env.node]) env.block env.node s₂ L') : Undone s s₂ := by
  have hb₁ : Base s₁ (L ++ [env.node]) := h.granted.base hb
  have hrep₂ := hrel.list.rep hb₁.rep
  -- the removal finds the new entry behind all others
  have hnone : findPtr s.list L env.block = NULL := by
    by_contra hne
    exact huntracked ((tracked_iff hb).mpr hne)
  have hfirst := h.granted.pushed.findPtr_new hb.rep hnone
  obtain ⟨rfl, hlen⟩ : L' = L ∧ s₂.list.list.len = s₁.list.list.len - 1 := by
    cases hrel.list with
    | none hno _ =>
      rw [hfirst] at hno
      exact absurd hno (hb₁.rep.ne_null (List.mem_append_right _ (List.mem_singleton_self _)))
    | @found _ A B a hL hfind hsame hrem =>
      obtain rfl : a = env.node := hfind.symm.trans hfirst
      obtain ⟨rfl, -, rfl⟩ := (List.append_cons_inj_of_notMem h.fresh List.not_mem_nil).mp hL
      refine ⟨List.append_nil _, ?_⟩
      rw [hrem.len, if_pos rfl, hsame.len]
  refine ⟨?_, fun a => ?_, ?_, ?_, ?_⟩
  · rw [LibSafetynet.items_eq hb, Lib.items, hrep₂.entries_eq,
      hrel.list.items hb₁.rep h.granted.admits.ne_null, h.items hb, List.eraseP_append_right]
    · simp
    · intro i hi hd
      obtain ⟨a, ha, rfl⟩ := List.mem_map.mp hi
      exact huntracked ⟨a, hb.rep.entries_eq.symm ▸ ha, of_decide_eq_true hd⟩
  · rw [hrep₂.live, hb.rep.live, hrel.list.head, h.granted.pushed.head]
  · have husage : UInt64.ofNat bytes.length = size := by
      rw [h.length, UInt64.ofNat_toNat]
    have hsize : (nodeAt s₁.list.nodes env.node).size = size :=
      congrArg Payload.size h.granted.pushed.new
    rw [hrel.slots.rest, hsize, h.granted.manager, husage]
    simp
  · rw [hlen, h.granted.pushed.len, Nat.add_sub_cancel]
  · have hheap := (hrel.heap.live (h.tracks ▸ hrel.ptr_ne)).2.2
    rw [hheap, h.tracks, h.granted.heap]
    exact ClientHeap.erase_place_of_not_live h.granted.admits.not_live

/-- Nothing else does. -/
theorem Buffered.rollsBack_of_undone (h : Buffered env s L content size s₁ bytes) (hb : Base s L)
    (hw : s.heap.WellFormed) {e : Addr}
    (hrel : Released cfg s₁ (L ++ [env.node]) env.block e s₂ L') (hun : Undone s s₂) :
    RollsBack env s := by
  have hb₁ : Base s₁ (L ++ [env.node]) := h.granted.base hb
  have hne : env.block ≠ NULL := h.granted.admits.ne_null
  -- an older entry for the block would have been removed in place of the new one
  have huntracked : ¬ Tracked s env.block := by
    rintro ⟨a, ha, hdata⟩
    rw [hb.rep.entries_eq] at ha
    have hitems := hun.items
    rw [Lib.items, (hrel.list.rep hb₁.rep).entries_eq, LibSafetynet.items_eq hb,
      hrel.list.items hb₁.rep hne, h.items hb,
      List.eraseP_append_left (p := fun i : Item => decide (i.data = env.block))
        (decide_eq_true hdata) _ (List.mem_map_of_mem ha)] at hitems
    have hlast : (⟨env.node, env.block, size, env.tid, 0⟩ : Item) ∈ L.map (item s.list) := by
      rw [← hitems]
      exact List.mem_append_right _ (List.mem_singleton_self _)
    obtain ⟨b, hbL, hitem⟩ := List.mem_map.mp hlast
    have haddr : b = env.node := congrArg Item.addr hitem
    exact h.fresh (haddr ▸ hbL)
  refine ⟨h.unblocked, huntracked, (h.dropsLive_iff hb).mp hrel.slotsLive,
    (h.lookup_iff hb huntracked hrel.lookup).mp ?_⟩
  -- an older entry would have had its own block freed
  by_contra hold
  have hmem : e ∈ L := by
    rcases List.mem_append.mp hrel.mem with hL | hnew
    · exact hL
    · exact absurd (List.mem_singleton.mp hnew) hold
  have hdata : (nodeAt s₁.list.nodes e).data ≠ env.block := by
    intro hd
    refine huntracked ⟨e, hb.rep.entries_eq.symm ▸ hmem, ?_⟩
    rw [← hd]
    exact (congrArg Payload.data (h.granted.pushed.old e hold)).symm
  have hw₁ : s₁.heap.WellFormed := h.granted.heap ▸ hw.place h.granted.admits
  have hlive₁ : s₁.heap.Live env.block := by
    rw [h.granted.heap, ClientHeap.live_place]
    exact Or.inl rfl
  have hlive₂ := hrel.heap.live_of_ne hw₁.null (Ne.symm hdata) hlive₁
  exact h.granted.admits.not_live ((ClientHeap.Live.congr hun.blocks _).mp hlive₂)

/-- The clean-up of a short read. -/
theorem Buffered.cleanup (h : Buffered env s L content size s₁ bytes) (hb : Base s L)
    (hw : s.heap.WellFormed) (hfree : IsFree s.allocMutex) :
    wp (do
      snFree cfg env.block
      snError .snErrFileIo NULL) env
      (fun v s' => v = NULL ∧ s'.errorCode = .snErrFileIo ∧ Undone s s' ↔ RollsBack env s)
      (fun _ _ => ¬ RollsBack env s) s₁ := by
  have hb₁ : Base s₁ (L ++ [env.node]) := h.granted.base hb
  have hfree₁ : IsFree s₁.allocMutex := h.granted.allocMutex ▸ hfree
  have hlist₁ : ¬ Blocks env.tid s₁.list.mutex := by
    rw [h.granted.pushed.mutex]
    exact (isFree_release _).not_blocks _
  rw [wp_bind]
  refine wp_snFree hb₁ (fun hbl => ?_) (fun hdead _ hback => hdead (h.freeable hb hback))
    (fun hnull => absurd hnull h.granted.admits.ne_null) (fun _ _ hnone => ?_)
    fun e s₂ L' hrel => ?_
  · exact absurd hbl (not_or.mpr ⟨hfree₁.not_blocks _, fun hscan => hlist₁ hscan.2⟩)
  · refine absurd h.tracks ((findPtr_eq_null fun h0 => hb₁.rep.ne_null h0 rfl).mp hnone _ ?_)
    exact List.mem_append_right _ (List.mem_singleton_self _)
  · refine wp_snError_free hrel.alloc ?_
    rw [and_iff_right rfl, and_iff_right rfl]
    constructor
    · exact fun hun => h.rollsBack_of_undone hb hw hrel ⟨hun.1, hun.2, hun.3, hun.4, hun.5⟩
    · intro hback
      obtain rfl := (h.lookup_iff hb hback.untracked hrel.lookup).mpr hback.hit
      have hun := h.undone hb hback.untracked hrel
      exact ⟨hun.1, hun.2, hun.3, hun.4, hun.5⟩

end Mount

/-- **When a failed mount is clean.** A mount that cannot deliver its file returns null
with the error that fits and leaves nothing behind exactly if an early check stops it, or
`sn_malloc` and its node are granted and the short read can be rolled back. -/
theorem mount_fails_cleanly_iff {cfg : Config} {env : Env} {s : Lib} {file : Option FileName}
    {err : SnErrorCodes} (hs : Reachable cfg s) (herr : mountError env s file = some err) :
    FailsCleanly cfg env s file err ↔ MountUndone env s file := by
  obtain ⟨L, hb, hu⟩ := hs.base
  refine wp.returns_iff (wp_snMountFileToRam hb (fun hbl _ => ?_) (fun e he => ?_)
    (fun content size hopen hrefused _ => ?_) (fun content size hopen _ hno _ => ?_)
    (fun content size s₁ bytes hopen hnone hbuf hread => ?_)
    fun content size s₁ bytes hopen hnone hbuf hshort => ?_)
  · rcases hbl with hbl | ⟨hpass, hbl⟩
    · exact absurd hbl (hu.alloc.not_blocks _)
    · rintro (hearly | ⟨-, -, hback⟩)
      · exact hearly hpass
      · exact hback.free hbl
  · obtain rfl : e = err := Option.some.inj ((mountError_refused he).symm.trans herr)
    refine iff_of_true ⟨rfl, rfl, ?_⟩ (Or.inl fun hnone => ?_)
    · exact ⟨rfl, fun _ => Iff.rfl, rfl, rfl, rfl⟩
    · rw [he] at hnone
      cases hnone
  · rw [hopen.undone_iff]
    exact fun hundone => hrefused hundone.1
  · rw [hopen.undone_iff]
    exact fun hundone => hno hundone.2.1
  · rw [hopen.mountError_short hnone hbuf.admitsNode, if_neg (Nat.not_lt.mpr hread)] at herr
    cases herr
  · rw [hopen.mountError_short hnone hbuf.admitsNode, if_pos hshort] at herr
    obtain rfl : SnErrorCodes.snErrFileIo = err := Option.some.inj herr
    rw [hopen.undone_iff, and_iff_right hnone, and_iff_right hbuf.admitsNode]
    exact hbuf.cleanup hb hs.wellFormed hu.alloc

/-- A block of 8 bytes is dumped, and its file read up to the fourth byte. -/
theorem mount_fails_cleanly_iff_at :
    ∃ s, Reachable ⟨false⟩ s ∧
      FailsCleanly ⟨false⟩ { Env.plain 1 192 8192 with transferred := 4 } s (some [102])
        .snErrFileIo := by
  have hsome : ((doinit (Env.plain 1 64 0) .blank).done?.bind fun s₀ =>
      (run (libStep ⟨false⟩) [(Env.plain 1 128 4096, .malloc 8),
        (Env.plain 1 0 0, .requestToFastCache 4096),
        (Env.plain 1 0 0, .dumpToFile (some [102]) 4096)] s₀).map fun s =>
          let env := { Env.plain 1 192 8192 with transferred := 4 }
          (mountError env s (some [102]), decide (MountUndone env s (some [102])))) =
      some (some .snErrFileIo, true) := by
    decide +kernel
  obtain ⟨s₀, h₀, hsome⟩ := Option.bind_eq_some_iff.mp hsome
  obtain ⟨s, hs, hpair⟩ := Option.map_eq_some_iff.mp hsome
  have hreach : Reachable ⟨false⟩ s := ⟨s₀, _, started_of_done h₀, hs⟩
  obtain ⟨herr, hundone⟩ := Prod.mk.inj hpair
  exact ⟨s, hreach, (mount_fails_cleanly_iff hreach herr).mpr (of_decide_eq_true hundone)⟩

/-- With a limit of 12 and 8 bytes in use the same file is not mounted: the limit's error
is set, but the process is terminated. -/
theorem limited_mount_terminates :
    ∃ s, Reachable ⟨false⟩ s ∧
      mountError (Env.plain 1 192 8192) s (some [102]) = some .snErrAllocLimitHit ∧
      (∃ s', snMountFileToRam ⟨false⟩ (some [102]) (Env.plain 1 192 8192) s =
        .stop (.crash .snErrBadAlloc) s') ∧
      ¬ FailsCleanly ⟨false⟩ (Env.plain 1 192 8192) s (some [102]) .snErrAllocLimitHit := by
  have hsome : ((doinit (Env.plain 1 64 0) .blank).done?.bind fun s₀ =>
      (run (libStep ⟨false⟩) [(Env.plain 1 128 4096, .malloc 8),
        (Env.plain 1 0 0, .requestToFastCache 4096),
        (Env.plain 1 0 0, .dumpToFile (some [102]) 4096),
        (Env.plain 1 0 0, .setAllocLimit 12)] s₀).map fun s =>
          (mountError (Env.plain 1 192 8192) s (some [102]),
            (snMountFileToRam ⟨false⟩ (some [102]) (Env.plain 1 192 8192) s).map
              (fun _ => ()) fun _ => ())) =
      some (some .snErrAllocLimitHit, .stop (.crash .snErrBadAlloc) ()) := by
    decide +kernel
  obtain ⟨s₀, h₀, hsome⟩ := Option.bind_eq_some_iff.mp hsome
  obtain ⟨s, hs, hpair⟩ := Option.map_eq_some_iff.mp hsome
  obtain ⟨herr, hrun⟩ := Prod.mk.inj hpair
  obtain ⟨s', hstop⟩ : ∃ s', snMountFileToRam ⟨false⟩ (some [102]) (Env.plain 1 192 8192) s =
      .stop (.crash .snErrBadAlloc) s' := by
    cases hend : snMountFileToRam ⟨false⟩ (some [102]) (Env.plain 1 192 8192) s with
    | done v s' =>
      rw [hend] at hrun
      cases hrun
    | stop e s' =>
      rw [hend] at hrun
      obtain ⟨rfl, -⟩ := Outcome.stop.inj hrun
      exact ⟨s', rfl⟩
  refine ⟨s, ⟨s₀, _, started_of_done h₀, hs⟩, herr, ⟨s', hstop⟩, ?_⟩
  rintro ⟨v, s'', hdone, -⟩
  rw [hstop] at hdone
  cases hdone

end LibSafetynet
