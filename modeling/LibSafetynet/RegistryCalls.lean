import LibSafetynet.RegistrySpec

/-!
# Allocation, registration and files against the registry

The operations that change the memory or the entries, one lemma each, and
`reply_spec` for all of them. The contents of new memory are the oracle's
(`Oracle.filled`); what the code writes there itself is the registry's.
-/

namespace LibSafetynet

open Logic Prog PlatMutex ListState AllocManager

/-- The memory of a new block contains `bytes`. -/
def Oracle.filled (bytes : List UInt8) : Oracle :=
  { Oracle.miss with junk := fun i => bytes.getD i 0 }

theorem fresh_filled (bytes : List UInt8) : (Oracle.filled bytes).fresh bytes.length = bytes := by
  refine List.ext_getElem (by simp [Oracle.fresh]) fun i _ hi => ?_
  simp [Oracle.fresh, Oracle.filled, hi]

/-! ## Allocation -/

section Allocation

variable {cfg : Config} {env : Env} {l : Env × Op} {s₀ s s' : Lib} {L : List Addr}
variable {size : UInt64} {ptr : Addr}

/-- The registry after an allocation. -/
theorem Granted.view {bytes : List UInt8} (h : Granted env s s' L size bytes) (hrep : s.list.Rep L)
    (hlen : bytes.length = size.toNat) (herr : s'.errorCode = s.errorCode) :
    s'.viewAt (L ++ [env.node]) = { (s.viewAt L).push env.block size env.tid with
      heap := s.heap.place env.block bytes
      usage := s.manager.globalMemoryUsage + size } := by
  rw [Lib.viewAt, h.heap, h.pushed.trackings hrep, h.manager, herr, hlen, UInt64.ofNat_toNat]
  rfl

theorem Granted.consistent {bytes : List UInt8} (h : Granted env s s' L size bytes)
    (hrep : s.list.Rep L) (hlen : bytes.length = size.toNat) (herr : s'.errorCode = s.errorCode)
    (hc : (s.viewAt L).Consistent) : (s'.viewAt (L ++ [env.node])).Consistent := by
  rw [h.view hrep hlen herr]
  refine .of_backed (Backed.allocate (r := (env.block, size)) hc h.admits hlen.ge) rfl ?_
  exact (Registry.records_push env.block size env.tid).symm

/-- A call can begin where an allocation ended. -/
theorem Granted.ready {bytes : List UInt8} (h : Granted env s s' L size bytes)
    (hr : Ready env s L s) : Ready env s' (L ++ [env.node]) s' := by
  refine .start (h.base hr.base) ⟨?_, fun _ => ?_⟩ ?_
  · rw [h.allocMutex]
    exact hr.alloc
  · rw [h.pushed.mutex]
    exact isFree_release _
  · rw [h.pushed.items hr.base.rep]
    refine hr.describes.mono (by rw [h.manager]) fun it hit => List.mem_append_left _ hit

/-- The registry's `malloc` refuses what the code refuses. -/
theorem malloc_view {bs : List UInt8} (hlen : bs.length = size.toNat) :
    (s.viewAt L).malloc env bs size = match mallocRefusal env s size with
      | some err => (s.viewAt L).fail err (.addr NULL)
      | none => (.addr env.block, { (s.viewAt L).push env.block size env.tid with
          heap := s.heap.place env.block bs
          usage := s.manager.globalMemoryUsage + size }) := by
  unfold Registry.malloc mallocRefusal
  by_cases hzero : size = 0
  · rw [if_pos hzero, if_pos hzero]
  rw [if_neg hzero, if_neg hzero, Registry.allocate, hlen]
  by_cases hlimit : memmanCanAllocateBasedOnLimitAndSize s.manager size = true
  · rw [if_neg ((refuses_view size).not.mpr (not_not.mpr hlimit)), if_neg (not_not.mpr hlimit)]
    by_cases hadm : s.heap.Admits env.block size.toNat
    · rw [if_neg (not_not.mpr hadm)]
      exact if_pos hadm
    · rw [if_pos hadm]
      exact if_neg hadm
  · rw [if_pos ((refuses_view size).mpr hlimit), if_pos hlimit]

theorem Ready.admitsNode (h : Ready env s₀ L s) (n : Addr) :
    s.list.AdmitsNode n ↔ s₀.list.AdmitsNode n := by
  unfold AdmitsNode
  rw [← Option.not_isSome, ← Option.not_isSome, h.same.live]

/-- `sn_malloc` inside an operation. -/
theorem Ready.malloc (h : Ready l.1 s₀ L s) (hop : l.2.Enlists) {Q : Addr → Lib → Prop}
    (hfail : ∀ err s', s'.list.Rep L → s'.viewAt L = { s₀.viewAt L with error := err } →
      (∀ bs, bs.length = size.toNat →
        (s₀.viewAt L).malloc l.1 bs size = (s₀.viewAt L).fail err (.addr NULL)) → Q NULL s')
    (hok : ∀ s' bytes, bytes.length = size.toNat → Granted l.1 s s' L size bytes →
      (∀ bs, bs.length = size.toNat → (s₀.viewAt L).malloc l.1 bs size =
        (.addr l.1.block, { s'.viewAt (L ++ [l.1.node]) with
          heap := s.heap.place l.1.block bs })) → Q l.1.block s') :
    wp (snMalloc cfg size) l.1 Q (fun e _ => Halts l s₀ e) s := by
  refine wp_snMalloc h.base (fun hbl _ => ?_) (fun _ hno _ => ?_) (fun err herr => ?_)
    fun hnone _ _ l₁ bytes hlen hgr => ?_
  · rcases hbl with halloc | ⟨-, hlist⟩
    · exact absurd halloc (h.alloc.not_blocks _)
    · exact h.blocked hlist
  · exact .noNode hop fun hadm => hno ((h.admitsNode _).mpr hadm)
  · refine hfail err _ h.base.rep ?_ fun bs hbs => ?_
    · rw [← h.view]
      rfl
    · rw [← h.view, malloc_view hbs, herr]
  · refine hok _ bytes hlen hgr fun bs hbs => ?_
    rw [← h.view, malloc_view hbs, hnone]
    dsimp only
    rw [Registry.push, Lib.viewAt, Lib.viewAt, hgr.pushed.trackings h.base.rep]

theorem reply_malloc (h : Ready env s L s) :
    Conforms cfg (env, .malloc size) s L .addr (snMalloc cfg size) s := by
  refine Ready.malloc (l := (env, .malloc size)) h trivial (fun err s' hrep hview hstep => ?_)
    fun s' bytes hlen hgr hstep => ?_
  · refine ⟨.miss, L, hrep, ?_⟩
    show (s.viewAt L).malloc env _ size = _
    rw [hstep _ (by simp [Oracle.fresh]), hview]
    rfl
  · refine ⟨.filled bytes, _, hgr.pushed.rep, ?_⟩
    show (s.viewAt L).malloc env ((Oracle.filled bytes).fresh size.toNat) size = _
    rw [← hlen, fresh_filled, hstep bytes hlen, ← hgr.heap]
    rfl

theorem reply_mallocPreInitialized {v : UInt8} (h : Ready env s L s) :
    Conforms cfg (env, .mallocPreInitialized size v) s L .addr (snMallocPreInitialized cfg size v)
      s := by
  rw [Conforms, snMallocPreInitialized, wp_bind]
  have hlenv : (List.replicate size.toNat v).length = size.toNat := List.length_replicate ..
  refine Ready.malloc (l := (env, .mallocPreInitialized size v)) h trivial
    (fun err s' hrep hview hstep => ?_) fun s' bytes hlen hgr hstep => ?_
  · rw [wp_ite]
    refine ⟨fun _ => ⟨.miss, L, hrep, ?_⟩, fun hne => absurd rfl hne⟩
    show (s.viewAt L).malloc env _ size = _
    rw [hstep _ hlenv, hview]
    rfl
  rw [wp_ite]
  refine ⟨fun hnull => absurd hnull hgr.admits.ne_null, fun _ => ?_⟩
  have hbytes : s'.heap.bytes env.block = bytes := by rw [hgr.heap, ClientHeap.bytes_place_self]
  rw [wp_bind, wp_onHeap]
  refine wp_memset ?_ (fun hzero => absurd ?_ hgr.nonempty) fun _ => ?_
  · rw [hbytes, hlen, hgr.heap]
    exact ⟨ClientHeap.live_place.mpr (Or.inl rfl), le_rfl⟩
  · rw [← List.length_eq_zero_iff, hlen, hzero]
  · refine ⟨.miss, _, hgr.pushed.rep, ?_⟩
    show (s.viewAt L).malloc env (List.replicate size.toNat v) size = _
    rw [hstep _ hlenv, hbytes, List.drop_eq_nil_of_le hlen.le, List.append_nil, hgr.heap,
      ClientHeap.place_place]
    rfl

theorem reply_calloc {num : UInt64} (h : Ready env s L s) :
    Conforms cfg (env, .calloc num size) s L .addr (snCalloc num size) s := by
  have hblocked : Blocks env.tid s.list.mutex → Halts (env, .calloc num size) s .blocked :=
    Ready.blocked (l := (env, .calloc num size)) h
  rw [Conforms, snCalloc, wp_ite]
  constructor
  · intro hzero
    refine h.snError .miss ?_
    rw [Registry.step, if_pos hzero]
  intro hzero
  rw [wp_bind, wp_getManager, wp_ite]
  constructor
  · intro hlimit
    refine h.snError .miss ?_
    rw [Registry.step, if_neg hzero, Registry.allocate, if_pos ((refuses_view _).mpr hlimit)]
  intro hlimit
  have hrefuse : ¬ (s.viewAt L).Refuses (size * num) := (refuses_view _).not.mpr hlimit
  rw [wp_bind, wp_onHeap]
  refine wp_platCalloc (fun hno => ?_) fun hadm => ?_
  · rw [wp_ite]
    refine ⟨fun _ => h.snError .miss ?_, fun hne => absurd rfl hne⟩
    rw [Registry.step, if_neg hzero, Registry.allocate, if_neg hrefuse, List.length_replicate]
    exact if_neg hno
  rw [wp_ite]
  refine ⟨fun hnull => absurd hnull hadm.ne_null, fun _ => ?_⟩
  rw [wp_bind, wp_setManager, wp_bind, wp_platGetTid, wp_bind, wp_onList]
  refine wp_linkedListPush h.base.rep hblocked (fun _ hno => .noNode trivial hno)
    fun _ _ l₁ hpush => ?_
  refine ⟨.miss, _, hpush.rep, ?_⟩
  rw [Registry.step, if_neg hzero, Registry.allocate, if_neg hrefuse, List.length_replicate]
  refine (if_pos hadm).trans ?_
  rw [Registry.push, Lib.viewAt, Lib.viewAt, hpush.trackings h.base.rep]

end Allocation

/-! ## Registration -/

section Registration

variable {cfg : Config} {env : Env} {l : Env × Op} {s₀ s s' : Lib} {L : List Addr}
variable {size : UInt64} {ptr : Addr}

/-- `linked_list_push` at the end of an operation. -/
theorem Ready.push (h : Ready l.1 s₀ L s) (hop : l.2.Enlists) {Q : Unit → Lib → Prop}
    (hQ : ∀ s', s'.list.Rep (L ++ [l.1.node]) →
      s'.viewAt (L ++ [l.1.node]) = (s₀.viewAt L).push ptr size l.1.tid → Q () s') :
    wp (onList (linkedListPush ptr size l.1.tid)) l.1 Q (fun e _ => Halts l s₀ e) s := by
  rw [wp_onList]
  refine wp_linkedListPush h.base.rep (fun hbl => h.blocked hbl)
    (fun _ hno => .noNode hop fun hadm => hno ((h.admitsNode _).mpr hadm))
    fun _ _ l₁ hpush => hQ _ hpush.rep ?_
  rw [Registry.push, ← h.view, Lib.viewAt, Lib.viewAt, hpush.trackings h.base.rep]

theorem reply_register (h₀ : Ready env s L s) :
    Conforms cfg (env, .register ptr) s L .addr (snRegister ptr) s := by
  rw [Conforms, snRegister, wp_bind]
  refine h₀.work fun h => ?_
  rw [wp_bind, wp_platGetTid, wp_bind]
  refine h.push trivial fun s' hrep hview => ⟨.miss, _, hrep, ?_⟩
  rw [hview]
  rfl

theorem reply_registerSize (h₀ : Ready env s L s) :
    Conforms cfg (env, .registerSize ptr size) s L .addr (snRegisterSize ptr size) s := by
  rw [Conforms, snRegisterSize, wp_bind]
  refine h₀.work fun h => ?_
  rw [wp_ite]
  constructor
  · intro hnull
    refine h.snError .miss ?_
    rw [Registry.step, if_pos hnull]
  intro hp
  rw [wp_ite]
  constructor
  · intro hzero
    refine h.snError .miss ?_
    rw [Registry.step, if_neg hp, if_pos hzero]
  intro hzero
  rw [wp_bind]
  refine h.hasPtr hp fun s₁ h₁ _ => ?_
  rw [wp_ite]
  constructor
  · intro hhas
    refine h₁.answered (o := .miss) ?_
    have hfound := h.find?_some (of_decide_eq_true hhas)
    rw [Registry.step, if_neg hp, if_neg hzero, if_pos (by rw [hfound]; rfl)]
  · intro hno
    have hnone := h.find?_none (p := ptr) (by simpa using hno)
    rw [wp_bind, wp_platGetTid, wp_bind]
    refine h₁.push trivial fun s' hrep hview => ⟨.miss, _, hrep, ?_⟩
    rw [hview, Registry.step, if_neg hp, if_neg hzero, if_neg (by rw [hnone]; simp)]

end Registration

/-! ## Moving and releasing a block -/

section Release

variable {cfg : Config} {env : Env} {l : Env × Op} {s₀ s s' : Lib} {L : List Addr}
variable {size newSize : UInt64} {ptr : Addr}

/-- `plat_realloc`, with the contents of the block. -/
theorem wp_platRealloc_exact {h : ClientHeap} {E : Stop → ClientHeap → Prop}
    {Q : Addr → ClientHeap → Prop} (hlive : h.Live ptr)
    (hfail : ¬ (h.drop ptr).Admits env.block newSize.toNat → Q NULL h)
    (hok : (h.drop ptr).Admits env.block newSize.toNat →
      Q env.block ((h.drop ptr).place env.block ((h.bytes ptr ++
        env.junkBytes (newSize.toNat - (h.bytes ptr).length)).take newSize.toNat))) :
    wp (platRealloc ptr newSize) env Q E h := by
  rw [platRealloc, wp_bind, wp_ask, wp_bind, wp_get, wp_bind, wp_when]
  refine ⟨fun hdead => absurd hlive hdead, fun _ => ?_⟩
  rw [wp_ite]
  exact ⟨hok, hfail⟩

theorem reply_realloc (h₀ : Ready env s L s) (hc : (s.viewAt L).Consistent) :
    Conforms cfg (env, .realloc ptr newSize) s L .addr (snRealloc ptr newSize) s := by
  have hdef : ∀ o : Oracle, (s.viewAt L).step cfg env o (.realloc ptr newSize) =
    (s.viewAt L).realloc env o ptr newSize := fun _ => rfl
  rw [Conforms, snRealloc, wp_ite]
  constructor
  · intro hnull
    refine h₀.snError .miss ?_
    rw [hdef, Registry.realloc, if_pos hnull]
  intro hp
  rw [wp_bind]
  refine h₀.getByPtr hp fun s₁ h hman hfind => ?_
  rw [← hfind, wp_ite]
  constructor
  · intro hnull
    refine h.snError .miss ?_
    rw [hdef, Registry.realloc, if_neg hp, h.find?_none hnull]
  intro hfound
  have hentry := h.find?_some hfound
  have hv := (findPtr_mem hfound).1
  obtain ⟨hdata, hlive, -⟩ := hc.of_find? hentry
  have honly : ∀ a ∈ L, (nodeAt s₁.list.nodes a).data = ptr → a = findPtr s₁.list L ptr :=
    fun a ha heq => (h.findPtr_of_mem hc ha heq).symm
  generalize findPtr s₁.list L ptr = v at *
  rw [wp_ite]
  constructor
  · intro hzero
    refine h.snError .miss ?_
    rw [hdef, Registry.realloc, if_neg hp, hentry]
    exact if_pos hzero
  intro hzero
  rw [wp_bind, wp_onList]
  refine wp_deref_live (h.base.rep.live_of_mem hv) ?_
  rw [wp_bind, wp_getManager, wp_ite]
  -- what the registry answers, once the entry and its new size are in order
  have hgrow : ((nodeAt s₁.list.nodes v).size < newSize ∧
      ¬ memmanCanAllocateBasedOnLimitAndSize s₁.manager
        (newSize - (nodeAt s₁.list.nodes v).size)) ↔
      (tracking s₁.list v).size < newSize ∧
        (s.viewAt L).Refuses (newSize - (tracking s₁.list v).size) := by
    rw [hman, refuses_view]
    rfl
  constructor
  · intro hlimit
    refine h.snError .miss ?_
    rw [hdef, Registry.realloc, if_neg hp, hentry]
    dsimp only
    rw [if_neg hzero, if_pos (hgrow.mp hlimit)]
  intro hlimit
  have hheap : s₁.heap = s.heap := congrArg Registry.heap h.view
  rw [wp_bind, wp_onHeap, hheap]
  refine wp_platRealloc_exact hlive (fun hno => ?_) fun hadm => ?_
  · rw [wp_ite]
    refine ⟨fun _ => ?_, fun hne => absurd rfl hne⟩
    have heq : { s₁ with heap := s.heap } = s₁ := by rw [← hheap]
    rw [heq]
    refine h.snError .miss ?_
    rw [hdef, Registry.realloc, if_neg hp, hentry]
    dsimp only
    rw [if_neg hzero, if_neg (hgrow.not.mp hlimit)]
    exact if_neg hno
  rw [wp_ite]
  refine ⟨fun hnull => absurd hnull hadm.ne_null, fun _ => ?_⟩
  have hblocked : Blocks env.tid s₁.list.mutex → Halts (env, .realloc ptr newSize) s .blocked :=
    Ready.blocked (l := (env, .realloc ptr newSize)) h
  rw [wp_bind, wp_setManager, wp_bind, wp_setManager, wp_bind, wp_onList]
  refine wp_linkedListEntrySet h.base.rep hv (fun _ => ⟨rfl, rfl, rfl, rfl⟩) hblocked
    fun _ l₁ hset hmu => ?_
  rw [wp_bind, wp_onList]
  refine wp_linkedListEntrySet (hset.links.rep h.base.rep) hv (fun _ => ⟨rfl, rfl, rfl, rfl⟩)
    (fun hbl => ?_) fun _ l₂ hset' _ => ?_
  · rw [hmu] at hbl
    exact absurd hbl ((isFree_release _).not_blocks _)
  have hboth := hset.trans hset'
  have hmap := hboth.trackings (g := fun t => { t with data := env.block, size := newSize })
    (by rw [tracking, hboth.node]; rfl) hdata honly
  refine ⟨⟨env.junk, none, false, false, 0, fun _ => none⟩, L, hboth.links.rep h.base.rep, ?_⟩
  rw [hdef, Registry.realloc, if_neg hp, hentry]
  dsimp only
  rw [if_neg hzero, if_neg (hgrow.not.mp hlimit)]
  refine (if_pos hadm).trans ?_
  rw [← h.view, Registry.rewrite, Lib.viewAt, Lib.viewAt, hmap]
  dsimp only
  rw [hheap]
  rfl

/-- The registry after `sn_free` released the block `ptr`. -/
theorem Released.view {e : Addr} {L' : List Addr} (h : Released cfg s L ptr e s' L')
    (hrep : s.list.Rep L) (hdata : (nodeAt s.list.nodes e).data = ptr) :
    s'.viewAt L' = { s.viewAt L with
      heap :=
        { blocks := s.heap.blocks.erase ptr
          freed := s.heap.freed ++
            [(ptr, sanitized cfg (nodeAt s.list.nodes e).size (s.heap.bytes ptr))] }
      entries := (L.map (tracking s.list)).eraseP (·.data = ptr)
      usage := s.manager.globalMemoryUsage - (nodeAt s.list.nodes e).size } := by
  obtain ⟨-, -, hheap⟩ := h.heap.live (hdata ▸ h.ptr_ne)
  rw [hdata] at hheap
  rw [Lib.viewAt, h.list.trackings hrep h.ptr_ne, hheap, h.slots.rest, h.errorCode]
  rfl

/-- What `sn_free` finds is the entry for the block, and the block is there. -/
theorem Ready.lookup_eq (h : Ready env s₀ L s) (hc : (s₀.viewAt L).Consistent) {e : Addr}
    (hlook : Lookup s L ptr e) (he : e ∈ L) :
    (s₀.viewAt L).find? ptr = some (tracking s.list e) := by
  cases hlook with
  | cached i _ hslot heq =>
    subst heq
    exact (h.slot hc hslot).2.2
  | listed _ heq =>
    subst heq
    exact h.find?_some (h.base.rep.ne_null he)

theorem Ready.freeable (h : Ready env s L s) (hc : (s.viewAt L).Consistent) (ptr : Addr) :
    Freeable s L ptr := by
  refine ⟨h.slotsLive.dropsLive _ _, fun e he hlook => ?_⟩
  obtain ⟨hdata, hlive, hle⟩ := hc.of_find? (h.lookup_eq hc hlook he)
  have hdata : (nodeAt s.list.nodes e).data = ptr := hdata
  rw [hdata]
  exact ⟨hlive, hle⟩

theorem reply_free (h : Ready env s L s) (hc : (s.viewAt L).Consistent) :
    Conforms cfg (env, .free ptr) s L (fun _ => .none) (snFree cfg ptr) s := by
  have hdef : ∀ o : Oracle, (s.viewAt L).step cfg env o (.free ptr) = (s.viewAt L).free cfg ptr :=
    fun _ => rfl
  refine wp_snFree h.base (fun hbl _ => ?_) (fun hdead => absurd (h.freeable hc ptr) hdead)
    (fun hnull => ?_) (fun hp hmiss hnone => ?_) fun e s' L' hrel => ?_
  · rcases hbl with halloc | hsb
    · exact absurd halloc (h.alloc.not_blocks _)
    · exact Ready.blocked (l := (env, .free ptr)) h hsb.2
  · refine ⟨.miss, L, h.base.rep, ?_⟩
    rw [hdef, Registry.free, if_pos hnull]
    rfl
  · refine ⟨.miss, L, (SameList.mutex _ _).rep h.base.rep, ?_⟩
    rw [hdef, Registry.free, if_neg hp, h.find?_none hnone]
    rfl
  · refine ⟨.miss, L', hrel.list.rep h.base.rep, ?_⟩
    have hfind := h.lookup_eq hc hrel.lookup hrel.mem
    rw [hdef, Registry.free, if_neg hrel.ptr_ne, hfind,
      hrel.view h.base.rep (hc.of_find? hfind).1]
    rfl

end Release

/-! ## The copy of the metadata -/

section StaticMetadata

variable {cfg : Config} {env : Env} {s : Lib} {L : List Addr} {ptr : Addr}

/-- The marks of the node `e`, when the cache answers for `p`. -/
def Oracle.marks (p : Addr) (e : LinkedListEntry) : Oracle :=
  { Oracle.hit p with marked := e.cached, weight := e.weight }

theorem metadataBytes_length (e : LinkedListEntry) :
    (metadataBytes e).length = sizeofSnMemMetadata.toNat := by
  simp [metadataBytes, leBytes, sizeofSnMemMetadata]

/-- The metadata is that of the payload, for an entry of the list. -/
theorem metadata_marks {l l' : ListState} {v : Addr} (hrep : l'.Rep L) (hv : v ∈ L)
    (hsame : (nodeAt l'.nodes v).payload = (nodeAt l.nodes v).payload) :
    metadataBytes (nodeAt l'.nodes v) =
      (Oracle.marks ptr (nodeAt l.nodes v)).metadata (tracking l v) := by
  have hhead : (nodeAt l'.nodes v).isHead = false := by
    rw [hrep.isHead v (List.mem_cons_of_mem _ hv)]
    exact decide_eq_false (hrep.links.ne_head hv)
  have hfields := hsame
  simp only [LinkedListEntry.payload, Payload.mk.injEq] at hfields
  obtain ⟨hdata, hsize, htid, hcached, hid, hweight⟩ := hfields
  simp only [metadataBytes, Oracle.metadata, Oracle.marks, tracking, hhead, hdata, hsize, htid,
    hcached, hid, hweight]

theorem reply_queryStaticMetadata (h₀ : Ready env s L s) (hc : (s.viewAt L).Consistent) :
    Conforms cfg (env, .queryStaticMetadata ptr) s L .addr (snQueryStaticMetadata cfg ptr) s := by
  have hdef : ∀ o : Oracle, (s.viewAt L).step cfg env o (.queryStaticMetadata ptr) =
    (s.viewAt L).answer o ptr (.addr NULL) fun t =>
      (s.viewAt L).malloc env (o.metadata t) sizeofSnMemMetadata := fun _ => rfl
  rw [Conforms, snQueryStaticMetadata, wp_bind]
  refine h₀.work fun h₁ => ?_
  rw [wp_bind, snQueryMetadata, wp_bind]
  refine h₁.work fun h => ?_
  -- where there is no address to copy from, nothing follows
  have hnull : ∀ s', Answered cfg (env, .queryStaticMetadata ptr) s L (.addr NULL) s' →
      wp (if NULL = NULL then return NULL else do
        let retCopyMeta ← snMalloc cfg sizeofSnMemMetadata
        if retCopyMeta = NULL then return NULL
        let e ← onList (deref (NULL - offsetofData))
        onHeap (memWrite retCopyMeta (metadataBytes e))
        return retCopyMeta : CProg Lib Addr) env
        (fun a s' => Answered cfg (env, .queryStaticMetadata ptr) s L (.addr a) s')
        (fun e _ => Halts (env, .queryStaticMetadata ptr) s e) s' := by
    intro s' hs'
    rw [wp_ite]
    exact ⟨fun _ => hs', fun hne => absurd rfl hne⟩
  rw [wp_ite]
  constructor
  · intro hp
    rw [snError, wp_bind]
    refine wp_snSetLastError (fun hbl => absurd hbl (h.alloc.not_blocks _)) (hnull _ ?_)
    refine ⟨.miss, L, h.base.rep, ?_⟩
    rw [hdef, Registry.answer, if_pos hp, ← h.view]
    rfl
  intro hp
  refine h.lookup hc hp (fun hnone s' hrep hview => hnull _ ⟨.miss, L, hrep, ?_⟩)
    (fun t hfind s' hrep hview => hnull _ ⟨.miss, L, hrep, ?_⟩) fun v s₁ hv hfind hr => ?_
  · rw [hdef, Registry.answer, if_neg hp, hnone, hview]
    rfl
  · rw [hdef, Registry.answer, if_neg hp, hfind, hview]
    rfl
  have hstep : (s.viewAt L).step cfg env (.marks ptr (nodeAt s₁.list.nodes v))
      (.queryStaticMetadata ptr) = (s.viewAt L).malloc env
        ((Oracle.marks ptr (nodeAt s₁.list.nodes v)).metadata (tracking s₁.list v))
        sizeofSnMemMetadata := by
    rw [hdef, Registry.answer, if_neg hp, hfind]
    exact if_pos rfl
  have hlength : ((Oracle.marks ptr (nodeAt s₁.list.nodes v)).metadata
      (tracking s₁.list v)).length = sizeofSnMemMetadata.toNat := metadataBytes_length _
  rw [wp_pure, wp_ite]
  refine ⟨fun h0 => absurd h0 (Nat.succ_ne_zero _), fun _ => ?_⟩
  rw [wp_bind]
  refine hr.malloc trivial (fun err s' hrep hview hmalloc => ?_)
    fun s' bytes hlen hgr hmalloc => ?_
  · rw [wp_ite]
    refine ⟨fun _ => ⟨_, L, hrep, hstep.trans ?_⟩, fun hne => absurd rfl hne⟩
    rw [hmalloc _ hlength, hview]
    rfl
  rw [wp_ite]
  refine ⟨fun h0 => absurd h0 hgr.admits.ne_null, fun _ => ?_⟩
  have hne : v ≠ env.node := fun heq =>
    hgr.pushed.fresh (List.mem_cons_of_mem _ (heq ▸ hv : env.node ∈ L))
  have hmem : v ∈ L ++ [env.node] := List.mem_append_left _ hv
  have hbytes : metadataBytes (nodeAt s'.list.nodes v) =
      (Oracle.marks ptr (nodeAt s₁.list.nodes v)).metadata (tracking s₁.list v) :=
    metadata_marks hgr.pushed.rep hmem (hgr.pushed.old v hne)
  have hblock : s'.heap.bytes env.block = bytes := by rw [hgr.heap, ClientHeap.bytes_place_self]
  rw [wp_bind, wp_onList, Nat.add_sub_cancel]
  refine wp_deref_live (hgr.pushed.rep.live_of_mem hmem) ?_
  rw [wp_bind, wp_onHeap]
  have hmeta := metadataBytes_length (nodeAt s'.list.nodes v)
  refine wp_memWrite ?_ (fun hnil => ?_) fun _ => ?_
  · rw [hblock, hlen, hmeta, hgr.heap]
    exact ⟨ClientHeap.live_place.mpr (Or.inl rfl), le_rfl⟩
  · rw [hnil] at hmeta
    exact absurd hmeta (by decide)
  · refine ⟨_, _, hgr.pushed.rep, hstep.trans ?_⟩
    rw [hmalloc _ hlength, ← hbytes, hblock,
      List.drop_eq_nil_of_le (by rw [hlen, hmeta]), List.append_nil, hgr.heap,
      ClientHeap.place_place]
    rfl

end StaticMetadata

/-! ## Files -/

section Files

variable {cfg : Config} {env : Env} {s : Lib} {L : List Addr} {block : Addr}
variable {file : Option FileName}

/-- The files are as they are; the cache answers for `cached`. -/
def Oracle.withFiles (s : Lib) (cached : Option Addr) : Oracle :=
  { Oracle.miss with cached, files := fun path => s.files.lookup path }

theorem reply_dumpToFile (h : Ready env s L s) (hc : (s.viewAt L).Consistent) :
    Conforms cfg (env, .dumpToFile file block) s L .flag (snDumpToFile file block) s := by
  cases file with
  | none => exact h.snError .miss rfl
  | some path =>
    have hdef : ∀ o : Oracle, (s.viewAt L).step cfg env o (.dumpToFile (some path) block) =
      (s.viewAt L).dumpToFile env o (some path) block := fun _ => rfl
    rw [Conforms, snDumpToFile, wp_ite]
    constructor
    · intro hnull
      refine h.snError .miss ?_
      rw [hdef, Registry.dumpToFile, if_neg fun hne => hne.1 hnull, Registry.answer, if_pos hnull]
    intro hp
    rw [wp_bind]
    refine wp_fileExists fun found hfile => ?_
    rw [wp_ite]
    constructor
    · intro hyes
      refine h.snError (.withFiles s none) ?_
      rw [hdef]
      exact if_pos ⟨hp, hfile.mp hyes⟩
    intro hno
    have hlook : ∀ cached, (s.viewAt L).step cfg env (.withFiles s cached)
        (.dumpToFile (some path) block) = (s.viewAt L).answer (.withFiles s cached) block
          (.flag false) fun t =>
            if env.fopenOk 1 = true ∧ t.size.toNat ≤ env.transferred then (.flag true, s.viewAt L)
            else (s.viewAt L).fail .snErrFileIo (.flag false) := fun _ =>
      if_neg fun hyes => hno (hfile.mpr hyes.2)
    refine h.lookup hc hp (fun hnone s' hrep hview => ⟨.withFiles s none, L, hrep, ?_⟩)
      (fun t hfind s' hrep hview => ⟨.withFiles s none, L, hrep, ?_⟩) fun v s' hv hfind hr => ?_
    · rw [hlook, Registry.answer, if_neg hp, hnone, hview]
      rfl
    · rw [hlook, Registry.answer, if_neg hp, hfind, hview]
      rfl
    obtain ⟨-, hlive, hle⟩ := hc.of_find? hfind
    have hheap : s'.heap = s.heap := congrArg Registry.heap hr.view
    -- a hit: the outcome of the write is that of the two file operations
    have hhit : (s.viewAt L).step cfg env (.withFiles s (some block))
        (.dumpToFile (some path) block) =
          if env.fopenOk 1 = true ∧ (nodeAt s'.list.nodes v).size.toNat ≤ env.transferred then
            (.flag true, s.viewAt L)
          else (s.viewAt L).fail .snErrFileIo (.flag false) := by
      rw [hlook, Registry.answer, if_neg hp, hfind]
      exact if_pos rfl
    have herror : ∀ files, ¬ (env.fopenOk 1 = true ∧
        (nodeAt s'.list.nodes v).size.toNat ≤ env.transferred) →
        wp (snError .snErrFileIo false) env
          (fun b s'' => Answered cfg (env, .dumpToFile (some path) block) s L (.flag b) s'')
          (fun e _ => Halts (env, .dumpToFile (some path) block) s e)
          { s' with files := files } := by
      intro files hshort
      rw [snError, wp_bind]
      refine wp_snSetLastError (fun hbl => absurd hbl (hr.alloc.not_blocks _)) ?_
      refine ⟨.withFiles s (some block), L, hr.base.rep, ?_⟩
      rw [hhit, if_neg hshort, ← hr.view]
      rfl
    rw [wp_bind, fopenWrite, wp_bind, wp_ask, wp_ite]
    refine ⟨fun hopen => ?_, fun hclosed => ?_⟩
    swap
    · rw [wp_pure, wp_ite]
      exact ⟨fun _ => herror s'.files fun h => hclosed h.1,
        fun hno => absurd Bool.false_ne_true hno⟩
    rw [wp_bind, wp_modify, wp_pure, wp_ite]
    refine ⟨fun hno => absurd rfl hno, fun _ => ?_⟩
    have hb' : Base { s' with files := s'.files.insert path [] } L := ⟨hr.base.rep, hr.base.slot⟩
    rw [wp_bind]
    refine wp_entryGet hb' hv ?_
    dsimp only
    rw [wp_bind, wp_onHeap, hheap]
    have hwritten : ∀ data : List UInt8, data.length = (nodeAt s'.list.nodes v).size.toNat →
        wp (do
          let env ← ask
          let written := data.take env.transferred
          modify fun s => { s with files := s.files.insert path (written.take env.flushed) }
          if written.length ≠ (nodeAt s'.list.nodes v).size.toNat then snError .snErrFileIo false
          else return true) env
          (fun b s'' => Answered cfg (env, .dumpToFile (some path) block) s L (.flag b) s'')
          (fun e _ => Halts (env, .dumpToFile (some path) block) s e)
          { s' with heap := s.heap, files := s'.files.insert path [] } := by
      intro data hlen
      have heq : ∀ files, { s' with heap := s.heap, files := files } = { s' with files := files } :=
        fun files => by rw [← hheap]
      rw [heq, wp_bind, wp_ask, wp_bind, wp_modify, wp_ite, List.length_take, hlen]
      constructor
      · intro hshort
        exact herror _ fun h => hshort (Nat.min_eq_right h.2)
      · intro hfull
        refine ⟨.withFiles s (some block), L, hr.base.rep, ?_⟩
        rw [hhit, if_pos ⟨hopen, by omega⟩, ← hr.view]
        rfl
    refine wp_memRead ⟨hlive, hle⟩ (hwritten _ ?_)
    rw [List.length_take]
    exact Nat.min_eq_left hle

/-- What the registry mounts, by why the code gives up. -/
theorem mountFileToRam_refused {err : SnErrorCodes} (herr : mountRefusal env s file = some err) :
    (s.viewAt L).mountFileToRam cfg env (.withFiles s none) file =
      (s.viewAt L).fail err (.addr NULL) := by
  cases file with
  | none =>
    obtain rfl : SnErrorCodes.snErrNullPtr = err := Option.some.inj herr
    rfl
  | some path =>
    have hfiles : (Oracle.withFiles s none).files path = s.files.lookup path := rfl
    rw [Registry.mountFileToRam, hfiles]
    rw [mountRefusal] at herr
    by_cases hopen : env.fopenOk 0 = true
    swap
    · rw [if_pos fun h => hopen h.1] at herr
      rw [if_neg hopen, ← Option.some.inj herr]
    rw [if_pos hopen]
    cases hfound : s.files.lookup path with
    | none =>
      rw [hfound, if_pos (by simp)] at herr
      rw [← Option.some.inj herr]
    | some content =>
      rw [hfound, if_neg (by simp [hopen])] at herr
      dsimp only
      by_cases hopen' : env.fopenOk 1 = true
      · rw [if_neg (not_not.mpr hopen')] at herr ⊢
        split_ifs at herr with hzero
        rw [← Option.some.inj herr]
        exact if_pos hzero
      · rw [if_pos hopen'] at herr ⊢
        rw [← Option.some.inj herr]

/-- Once the file is open, it depends on how much of it is read. -/
theorem mountFileToRam_opened {o : Oracle} {content : List UInt8} {size : UInt64}
    (hopens : Opens env s file content size) (ho : ∀ path, o.files path = s.files.lookup path) :
    (s.viewAt L).mountFileToRam cfg env o file =
      if env.transferred < size.toNat then
        Registry.fail { s.viewAt L with
          heap := { s.heap with
            freed := s.heap.freed ++ [(env.block, sanitized cfg size
              (content.take env.transferred ++ (o.fresh size.toNat).drop env.transferred))] } }
          .snErrFileIo (.addr NULL)
      else (s.viewAt L).allocate env size size (content.take size.toNat) := by
  obtain ⟨path, rfl, hfound⟩ := hopens.found
  rw [Registry.mountFileToRam, if_pos hopens.exists_ok, ho, hfound]
  dsimp only
  rw [← hopens.size_eq, if_neg (not_not.mpr hopens.open_ok), if_neg hopens.size_ne]
  rfl

theorem reply_mountFileToRam (h : Ready env s L s) (hc : (s.viewAt L).Consistent) :
    Conforms cfg (env, .mountFileToRam file) s L .addr (snMountFileToRam cfg file) s := by
  have hblocked : Blocks env.tid s.list.mutex → Halts (env, .mountFileToRam file) s .blocked :=
    Ready.blocked (l := (env, .mountFileToRam file)) h
  have hdef : ∀ o : Oracle, (s.viewAt L).step cfg env o (.mountFileToRam file) =
    (s.viewAt L).mountFileToRam cfg env o file := fun _ => rfl
  refine wp_snMountFileToRam h.base (fun hbl _ => ?_) (fun err herr => ?_)
    (fun content size hopens hrefused _ => .noMemory rfl hopens hrefused)
    (fun _ _ _ _ hno _ => .noNode trivial hno)
    (fun content size s' bytes hopens hnone hbuf hfull => ?_)
    fun content size s' bytes hopens hnone hbuf hshort => ?_
  · rcases hbl with halloc | ⟨-, hlist⟩
    · exact absurd halloc (h.alloc.not_blocks _)
    · exact hblocked hlist
  · refine ⟨.withFiles s none, L, h.base.rep, ?_⟩
    rw [hdef, mountFileToRam_refused herr]
    rfl
  · -- the whole file was read
    have hbytes : bytes = content.take size.toNat := by
      have hread := hbuf.read
      have hlen := hopens.size_le
      rwa [List.take_of_length_le (by rw [hbuf.length]; exact hfull), List.take_take,
        Nat.min_eq_right hfull] at hread
    refine ⟨.withFiles s none, _, hbuf.granted.pushed.rep, ?_⟩
    have hmalloc : (s.viewAt L).malloc env bytes size = (.addr env.block,
        { (s.viewAt L).push env.block size env.tid with
          heap := s.heap.place env.block bytes
          usage := s.manager.globalMemoryUsage + size }) := by
      rw [malloc_view hbuf.length, hnone]
    rw [Registry.malloc, if_neg hopens.size_ne] at hmalloc
    rw [hdef, mountFileToRam_opened hopens fun _ => rfl, if_neg (Nat.not_lt.mpr hfull), ← hbytes,
      hmalloc, hbuf.granted.view h.base.rep hbuf.length hbuf.errorCode]
  · -- the block is freed again: of the registry only the record of the call of `free` is left
    have hgr := hbuf.granted
    have h' : Ready env s' (L ++ [env.node]) s' := hgr.ready h
    have hc' := hgr.consistent h.base.rep hbuf.length hbuf.errorCode hc
    have hview := hgr.view h.base.rep hbuf.length hbuf.errorCode
    have hnew : (s.viewAt L).find? env.block = none := by
      refine Registry.find?_eq_none.mpr fun hmem => ?_
      obtain ⟨r, hr, heq⟩ := List.mem_map.mp hmem
      exact hgr.admits.not_live (heq ▸ hc.live r hr)
    have hfind : (s'.viewAt (L ++ [env.node])).find? env.block =
        some ⟨env.block, size, env.tid, 0⟩ := by
      rw [hview, Registry.find?]
      show ((s.viewAt L).entries ++ [_]).find? _ = _
      rw [List.find?_append, show (s.viewAt L).entries.find? (·.data = env.block) = none from hnew]
      simp
    have hp : env.block ≠ NULL := hgr.admits.ne_null
    rw [wp_bind]
    refine wp_snFree h'.base (fun hbl _ => ?_) (fun hdead => absurd (h'.freeable hc' _) hdead)
      (fun hnull => absurd hnull hp) (fun _ _ hnone => ?_) fun e s₂ L' hrel => ?_
    · rcases hbl with halloc | hsb
      · exact absurd halloc (h'.alloc.not_blocks _)
      · rw [ScanBlocks, hgr.pushed.mutex] at hsb
        exact absurd hsb.2 ((isFree_release _).not_blocks _)
    · rw [h'.find?_none hnone] at hfind
      cases hfind
    · have hentry : tracking s'.list e = ⟨env.block, size, env.tid, 0⟩ :=
        Option.some.inj ((h'.lookup_eq hc' hrel.lookup hrel.mem).symm.trans hfind)
      have hdata : (nodeAt s'.list.nodes e).data = env.block := congrArg TrackedBlock.data hentry
      have hsize : (nodeAt s'.list.nodes e).size = size := congrArg TrackedBlock.size hentry
      have hbytes : content.take env.transferred ++
          ((Oracle.filled bytes).fresh size.toNat).drop env.transferred = bytes := by
        have hread := hbuf.read
        rw [List.take_take, Nat.min_eq_left hshort.le] at hread
        rw [← hread, ← hbuf.length, fresh_filled, List.take_append_drop]
      have hheap : s'.heap = s.heap.place env.block bytes := hgr.heap
      have herase : (L ++ [env.node]).map (tracking s'.list) = L.map (tracking s.list) ++
          [⟨env.block, size, env.tid, 0⟩] := hgr.pushed.trackings h.base.rep
      have hlast : ((L ++ [env.node]).map (tracking s'.list)).eraseP (·.data = env.block) =
          L.map (tracking s.list) := by
        rw [herase, List.eraseP_append_right _ fun t ht => ?_]
        · simp
        · have hne := List.find?_eq_none.mp hnew t ht
          simpa using hne
      rw [snError, wp_bind]
      refine wp_snSetLastError (fun hbl => absurd hbl (hrel.alloc.not_blocks _)) ?_
      refine ⟨{ Oracle.filled bytes with files := fun path => s.files.lookup path }, L',
        hrel.list.rep h'.base.rep, ?_⟩
      have hafter := hrel.view h'.base.rep hdata
      rw [hlast, hsize, hheap, ClientHeap.bytes_place_self,
        ClientHeap.erase_place_of_not_live hgr.admits.not_live, hview] at hafter
      have husage : s'.manager.globalMemoryUsage - size = s.manager.globalMemoryUsage := by
        rw [hgr.manager, hbuf.length, UInt64.ofNat_toNat]
        exact UInt64.add_sub_cancel _ _
      have hend : Lib.viewAt { s₂ with
          errorCode := .snErrFileIo, allocMutex := release s₂.allocMutex } L' =
            { s₂.viewAt L' with error := .snErrFileIo } := rfl
      rw [hend, hafter, husage, hdef, mountFileToRam_opened hopens fun _ => rfl, if_pos hshort]
      show Registry.fail { s.viewAt L with
        heap := { s.heap with freed := s.heap.freed ++ [(env.block, sanitized cfg size
          (content.take env.transferred ++
            ((Oracle.filled bytes).fresh size.toNat).drop env.transferred))] } } _ _ = _
      rw [hbytes]
      rfl

end Files

/-! ## All operations -/

/-- Run `m` for its result. -/
def replying {α : Type} (f : α → Reply) (m : CProg Lib α) : CProg Lib Reply := do
  return f (← m)

/-- An operation with its reply. The client's worker of `sn_mem_metadata_for_each` makes its
result, and `sn_query_metadata` a pointer into a node, so neither is a reply of the registry. -/
def Op.reply (cfg : Config) : Op → CProg Lib Reply
  | .malloc size => replying .addr (snMalloc cfg size)
  | .calloc num size => replying .addr (snCalloc num size)
  | .realloc ptr newSize => replying .addr (snRealloc ptr newSize)
  | .mallocPreInitialized size v => replying .addr (snMallocPreInitialized cfg size v)
  | .free ptr => replying (fun _ => .none) (snFree cfg ptr)
  | .doAutoFreeAtExit val => replying (fun _ => .none) (snDoAutoFreeAtExit val)
  | .register ptr => replying .addr (snRegister ptr)
  | .registerSize ptr size => replying .addr (snRegisterSize ptr size)
  | .querySize ptr => replying .size (snQuerySize ptr)
  | .queryTid ptr => replying .size (snQueryTid ptr)
  | .isTrackedBlock ptr => replying .flag (snIsTrackedBlock ptr)
  | .setBlockId block id => replying (fun _ => .none) (snSetBlockId block id)
  | .getBlockId block => replying .blockId (snGetBlockId block)
  | .queryBlockId id => replying .addr (snQueryBlockId id)
  | .queryMetadata ptr => replying (fun p => .flag (p ≠ NULL)) (snQueryMetadata ptr)
  | .queryStaticMetadata ptr => replying .addr (snQueryStaticMetadata cfg ptr)
  | .setAllocLimit limit => replying (fun _ => .none) (snSetAllocLimit limit)
  | .queryThreadMemoryUsage tid => replying .size (snQueryThreadMemoryUsage tid)
  | .queryTotalMemoryUsage => replying .size snQueryTotalMemoryUsage
  | .calculateChecksum block => replying .size (snCalculateChecksum block)
  | .memMetadataForEach worker genericArg =>
    replying (fun _ => .none) (snMemMetadataForEach worker genericArg)
  | .requestToFastCache ptr => replying .flag (snRequestToFastCache ptr)
  | .lockFastCache => replying (fun _ => .none) snLockFastCache
  | .unlockFastCache => replying (fun _ => .none) snUnlockFastCache
  | .doFastCaching val => replying (fun _ => .none) (snDoFastCaching val)
  | .fastCacheClear => replying (fun _ => .none) snFastCacheClear
  | .dumpToFile file block => replying .flag (snDumpToFile file block)
  | .mountFileToRam file => replying .addr (snMountFileToRam cfg file)
  | .getLastError => replying .error snGetLastError
  | .resetLastError => replying (fun _ => .none) snResetLastError
  | .clientMalloc size => replying .addr (onHeap (platMalloc size))
  | .clientFree ptr => replying (fun _ => .none) (onHeap (clientReleases ptr))
  | .clientWrite ptr bytes => replying (fun _ => .none) (onHeap (memWrite ptr bytes))

theorem forEffect_replying {α : Type} (f : α → Reply) (m : CProg Lib α) :
    forEffect (replying f m) = forEffect m := by
  unfold forEffect replying
  rw [bind_assoc]
  rfl

/-- The operation is its reply, run for its effect. -/
theorem exec_eq (cfg : Config) (op : Op) : op.exec cfg = forEffect (op.reply cfg) := by
  cases op <;>
    simp only [Op.exec, Op.reply, forEffect_replying] <;> exact (bind_pure_unit _).symm

section All

variable {cfg : Config} {env : Env} {op : Op} {s : Lib} {L : List Addr}

theorem wp_replying {α : Type} {f : α → Reply} {m : CProg Lib α} {E : Stop → Lib → Prop}
    {Q : Reply → Lib → Prop} :
    wp (replying f m) env Q E s ↔ wp m env (fun a s' => Q (f a) s') E s := by
  rw [replying, wp_bind]
  rfl

theorem reply_fastCacheClear (h : Ready env s L s) :
    Conforms cfg (env, .fastCacheClear) s L (fun _ => .none) snFastCacheClear s := by
  rw [Conforms, snFastCacheClear, memmanCacheClear]
  refine wp_memmanDrop (fun hbl => absurd hbl (h.alloc.not_blocks _))
    (fun hdead => absurd (h.slotsLive.dropsLive _ _) hdead) fun _ nodes m hsame hdrop => ?_
  refine ⟨.miss, L, hsame.rep h.base.rep, ?_⟩
  have hview : Lib.viewAt { s with
      list := { s.list with nodes := nodes }, manager := m, allocMutex := release s.allocMutex } L =
        s.viewAt L := by
    rw [Lib.viewAt, hsame.trackings, hdrop.rest]
    rfl
  exact congrArg (Prod.mk Reply.none) hview.symm

theorem reply_clientMalloc {size : UInt64} (h : Ready env s L s) :
    Conforms cfg (env, .clientMalloc size) s L .addr (onHeap (platMalloc size)) s := by
  rw [Conforms, wp_onHeap]
  refine wp_platMalloc (fun hno => ⟨.miss, L, h.base.rep, ?_⟩) fun hadm =>
    ⟨{ Oracle.miss with junk := env.junk }, L, h.base.rep, ?_⟩
  · exact if_neg hno
  · exact if_pos hadm

theorem reply_clientFree {ptr : Addr} (h : Ready env s L s)
    (hok : (s.viewAt L).Allows (.clientFree ptr)) :
    Conforms cfg (env, .clientFree ptr) s L (fun _ => .none) (onHeap (clientReleases ptr)) s := by
  rw [Conforms, wp_onHeap, clientReleases, wp_ite]
  constructor
  · intro hnull
    exact ⟨.miss, L, h.base.rep, if_pos hnull⟩
  · intro hp
    rw [wp_bind, wp_get, wp_bind, wp_when]
    refine ⟨fun hdead => absurd (hok.resolve_left hp).1 hdead, fun _ => ?_⟩
    exact ⟨.miss, L, h.base.rep, if_neg hp⟩

theorem reply_clientWrite {ptr : Addr} {bytes : List UInt8} (h : Ready env s L s)
    (hok : (s.viewAt L).Allows (.clientWrite ptr bytes)) :
    Conforms cfg (env, .clientWrite ptr bytes) s L (fun _ => .none) (onHeap (memWrite ptr bytes))
      s := by
  rw [Conforms, wp_onHeap]
  by_cases hnil : bytes = []
  · refine wp_memWrite_at (fun _ => ⟨.miss, L, h.base.rep, if_pos hnil⟩)
      (fun hne => absurd hnil hne) fun hne _ => absurd hnil hne
  · refine wp_memWrite (hok.resolve_left hnil) (fun h0 => absurd h0 hnil) fun _ => ?_
    exact ⟨.miss, L, h.base.rep, if_neg hnil⟩

/-- **Every operation is the registry's**: called in a state whose slots describe their
entries and whose entries are for blocks of their own, an allowed operation replies and ends
as the registry does, or stops in one of the ways of `Halts`. -/
theorem reply_spec (op : Op) (h : Ready env s L s) (hc : (s.viewAt L).Consistent)
    (hok : (s.viewAt L).Allows op) :
    wp (op.reply cfg) env (Answered cfg (env, op) s L) (fun e _ => Halts (env, op) s e) s := by
  have hsame : ∀ s' : Lib, s'.list = s.list → ((s.viewAt L).step cfg env .miss op =
      (.none, s'.viewAt L)) → Answered cfg (env, op) s L .none s' :=
    fun s' hl hstep => ⟨.miss, L, hl ▸ h.base.rep, hstep⟩
  cases op <;> rw [Op.reply, wp_replying]
  case malloc => exact reply_malloc h
  case calloc => exact reply_calloc h
  case realloc => exact reply_realloc h hc
  case mallocPreInitialized => exact reply_mallocPreInitialized h
  case free => exact reply_free h hc
  case doAutoFreeAtExit =>
    rw [snDoAutoFreeAtExit, wp_bind, wp_lockAlloc]
    refine ⟨fun _ => ?_, fun hbl => absurd hbl (h.alloc.not_blocks _)⟩
    rw [wp_bind, wp_modify, wp_unlockAlloc]
    exact hsame _ rfl rfl
  case register => exact reply_register h
  case registerSize => exact reply_registerSize h
  case querySize => exact reply_querySize h
  case queryTid => exact reply_queryTid h hc
  case isTrackedBlock => exact reply_isTrackedBlock h hc
  case setBlockId => exact reply_setBlockId h hc
  case getBlockId => exact reply_getBlockId h hc
  case queryBlockId => exact reply_queryBlockId h
  case queryMetadata => exact reply_queryMetadata h hc
  case queryStaticMetadata => exact reply_queryStaticMetadata h hc
  case setAllocLimit => exact hsame _ rfl rfl
  case queryThreadMemoryUsage => exact reply_queryThreadMemoryUsage h
  case queryTotalMemoryUsage => exact ⟨.miss, L, h.base.rep, rfl⟩
  case calculateChecksum => exact reply_calculateChecksum h hc
  case memMetadataForEach => exact reply_memMetadataForEach h
  case requestToFastCache => exact reply_requestToFastCache h
  case lockFastCache => exact hsame _ rfl rfl
  case unlockFastCache => exact hsame _ rfl rfl
  case doFastCaching => exact hsame _ rfl rfl
  case fastCacheClear => exact reply_fastCacheClear h
  case dumpToFile => exact reply_dumpToFile h hc
  case mountFileToRam => exact reply_mountFileToRam h hc
  case getLastError => exact ⟨.miss, L, h.base.rep, rfl⟩
  case resetLastError => exact hsame _ rfl rfl
  case clientMalloc => exact reply_clientMalloc h
  case clientFree => exact reply_clientFree h hok
  case clientWrite => exact reply_clientWrite h hok

end All

end LibSafetynet
