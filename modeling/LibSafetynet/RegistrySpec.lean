import LibSafetynet.BlockQueries
import LibSafetynet.CacheCoherence
import LibSafetynet.Registry

/-!
# The code against the registry, operation by operation

`Lib.viewAt` reads the registry off the library. For every operation, and for every way
it can end: if it returns, then the registry made the same step with the same reply, for
some choice of what the registry leaves open (`Answered`); if it does not, then it is one
of the four stops in `Halts`. In particular no operation of a client that keeps to
`Registry.Allows` touches memory that is not there, and no loop runs on.

`Ready` is what the code before the last statement of an operation leaves behind: the
pass and the lookups change nothing of the registry. Here are the operations that query,
tag or only read a block.
-/

namespace LibSafetynet

open Logic Prog PlatMutex ListState AllocManager

/-! ## The registry of a state -/

/-- A tracked block as its node records it. -/
def tracking (l : ListState) (a : Addr) : TrackedBlock :=
  { data := (nodeAt l.nodes a).data, size := (nodeAt l.nodes a).size, tid := (nodeAt l.nodes a).tid,
    blockId := (nodeAt l.nodes a).blockId }

/-- The registry of a library whose entries are `L`. -/
def Lib.viewAt (s : Lib) (L : List Addr) : Registry :=
  { heap := s.heap, entries := L.map (tracking s.list), usage := s.manager.globalMemoryUsage
    limit := s.manager.allocLimit, error := s.errorCode }

/-- The registry of the library. -/
def Lib.registry (s : Lib) : Registry := s.viewAt s.list.entries

/-- What is left of an item without its address. -/
def Item.tracked (i : Item) : TrackedBlock :=
  { data := i.data, size := i.size, tid := i.tid, blockId := i.blockId }

section View

variable {env : Env} {s s' : Lib} {l l' : ListState} {L L' : List Addr} {p : Addr}

theorem registry_eq (h : s.list.Rep L) : s.registry = s.viewAt L := by
  rw [Lib.registry, h.entries_eq]

theorem map_tracking (L : List Addr) : L.map (tracking l) = (L.map (item l)).map Item.tracked := by
  rw [List.map_map]
  rfl

theorem SameList.trackings (h : SameList l l') (L : List Addr) :
    L.map (tracking l') = L.map (tracking l) := by
  rw [map_tracking, map_tracking, h.items]

theorem Pushed.trackings {a data : Addr} {size tid : UInt64} (h : Pushed l l' L a data size tid)
    (hrep : l.Rep L) :
    (L ++ [a]).map (tracking l') = L.map (tracking l) ++ [⟨data, size, tid, 0⟩] := by
  rw [map_tracking, h.items hrep, List.map_append, ← map_tracking]
  rfl

theorem RemovedByPtr.trackings (h : RemovedByPtr l l' L p L') (hrep : l.Rep L) (hp : p ≠ NULL) :
    L'.map (tracking l') = (L.map (tracking l)).eraseP (·.data = p) := by
  rw [map_tracking, map_tracking, h.items hrep hp]
  simp only [List.eraseP_map]
  rfl

/-- The one entry for `p` is rewritten. -/
theorem Rewritten.trackings {v : Addr} {f : LinkedListEntry → LinkedListEntry}
    {g : TrackedBlock → TrackedBlock} (h : Rewritten l l' v f)
    (hg : tracking l' v = g (tracking l v)) (hp : (nodeAt l.nodes v).data = p)
    (honly : ∀ a ∈ L, (nodeAt l.nodes a).data = p → a = v) :
    L.map (tracking l') = (L.map (tracking l)).map fun t => if t.data = p then g t else t := by
  rw [List.map_map]
  refine List.map_congr_left fun a ha => ?_
  show tracking l' a = if (nodeAt l.nodes a).data = p then g (tracking l a) else tracking l a
  by_cases hav : a = v
  · rw [hav, hg, if_pos hp]
  · rw [if_neg fun hdata => hav (honly a ha hdata), tracking, tracking, h.other a hav]

/-- A quiet change shows in the limit and the error code only. -/
theorem Quiet.view (h : Quiet s s') (hlimit : s'.manager.allocLimit = s.manager.allocLimit) :
    s'.viewAt L = { s.viewAt L with error := s'.errorCode } := by
  rw [Lib.viewAt, h.list.trackings, h.usage, h.heap, hlimit]
  rfl

theorem view_worked (hb : Base s L) : (s.worked env L).viewAt L = s.viewAt L := by
  have hsame : SameList s.list (s.worked env L).list := sameList_worked hb.rep
  have hrefill : Refilled s.list.nodes L s.manager (s.worked env L).manager :=
    refilled_worked hb.rep
  rw [Lib.viewAt, hsame.trackings, hrefill.rest]
  rfl

theorem records_view : (s.viewAt L).records = L.map (record s.list) := by
  rw [Registry.records, Lib.viewAt, List.map_map]
  rfl

theorem findId_eq_null {id : UInt16} (hL : NULL ∉ L) :
    findId l L id = NULL ↔ ∀ a ∈ L, (nodeAt l.nodes a).blockId ≠ id := by
  unfold findId
  cases hf : L.find? fun a => (nodeAt l.nodes a).blockId = id with
  | none => simpa using List.find?_eq_none.mp hf
  | some a =>
    have hid := List.find?_some hf
    have hmem := List.mem_of_find?_eq_some hf
    refine iff_of_false (fun h0 => hL ?_) fun hall => hall a hmem (of_decide_eq_true hid)
    exact (show a = NULL from h0) ▸ hmem

theorem find?_view_none (hb : Base s L) (h : findPtr s.list L p = NULL) :
    (s.viewAt L).find? p = none := by
  rw [Registry.find?_eq_none, records_view]
  simpa [record] using (findPtr_eq_null fun h0 => hb.rep.ne_null h0 rfl).mp h

theorem find?_view_some (h : findPtr s.list L p ≠ NULL) :
    (s.viewAt L).find? p = some (tracking s.list (findPtr s.list L p)) := by
  unfold findPtr at h ⊢
  rw [Registry.find?, Lib.viewAt, List.find?_map]
  show Option.map _ (L.find? fun a => (nodeAt s.list.nodes a).data = p) = _
  cases hf : L.find? fun a => (nodeAt s.list.nodes a).data = p with
  | none => exact absurd (by rw [hf]; rfl) h
  | some a => rfl

theorem refuses_view (size : UInt64) :
    (s.viewAt L).Refuses size ↔ ¬ memmanCanAllocateBasedOnLimitAndSize s.manager size := by
  unfold Registry.Refuses memmanCanAllocateBasedOnLimitAndSize Lib.viewAt
  split_ifs <;> simp_all

end View

/-! ## What is shown of an operation -/

/-- The operations that add an entry. -/
def Op.Enlists : Op → Prop
  | .malloc _ | .calloc _ _ | .mallocPreInitialized _ _ | .register _ | .registerSize _ _
  | .queryStaticMetadata _ | .mountFileToRam _ => True
  | _ => False

/-- How an operation that does not return ends: a lock that was left over an empty list,
or one of the three crashes of the library. -/
inductive Halts (l : Env × Op) (s : Lib) : Stop → Prop
  | waits : s.list.entries = [] → Blocks l.1.tid s.list.mutex → Halts l s .blocked
  | noNode : l.2.Enlists → ¬ s.list.AdmitsNode l.1.node → Halts l s (.crash .snErrCatastrophic)
  | noMemory {file : Option FileName} {content : List UInt8} {size : UInt64} :
      l.2 = .mountFileToRam file → Opens l.1 s file content size →
      mallocRefusal l.1 s size ≠ none → Halts l s (.crash .snErrBadAlloc)
  | noSlot {ptr : Addr} : l.2 = .requestToFastCache ptr → s.manager.AcceptsPut →
      s.manager.freeSlot = none → Halts l s (.crash .snErrSysFail)

/-- The reply `r` and the state `s'` are the registry's, for some choice of what it leaves open. -/
def Answered (cfg : Config) (l : Env × Op) (s : Lib) (L : List Addr) (r : Reply) (s' : Lib) :
    Prop :=
  ∃ o L', s'.list.Rep L' ∧ (s.viewAt L).step cfg l.1 o l.2 = (r, s'.viewAt L')

/-- Every way the rest `m` of the operation can end is right. -/
abbrev Conforms {α : Type} (cfg : Config) (l : Env × Op) (s : Lib) (L : List Addr) (f : α → Reply)
    (m : CProg Lib α) (s₁ : Lib) : Prop :=
  wp m l.1 (fun a s' => Answered cfg l s L (f a) s') (fun e _ => Halts l s e) s₁

/-- The state before the last statements of an operation that began in `s₀`: nothing of
the registry has changed. -/
structure Ready (env : Env) (s₀ : Lib) (L : List Addr) (s : Lib) : Prop where
  base : Base s L
  alloc : IsFree s.allocMutex
  waits : Blocks env.tid s.list.mutex → s₀.list.entries = [] ∧ Blocks env.tid s₀.list.mutex
  describes : Describes s.manager (L.map (item s.list))
  same : SameList s₀.list s.list
  view : s.viewAt L = s₀.viewAt L
  files : s.files = s₀.files

section Framework

variable {cfg : Config} {env : Env} {l : Env × Op} {op : Op} {s₀ s s' : Lib} {L L' : List Addr}
variable {α : Type} {Q : α → Lib → Prop} {E : Stop → Lib → Prop} {p : Addr} {o : Oracle}

theorem Ready.start (hb : Base s L) (hu : Unlocked s L)
    (hd : Describes s.manager (L.map (item s.list))) : Ready env s L s := by
  refine ⟨hb, hu.alloc, fun hbl => ⟨?_, hbl⟩, hd, SameList.refl _, rfl, rfl⟩
  rw [hb.rep.entries_eq]
  by_contra hL
  exact (hu.list hL).not_blocks _ hbl

/-- A quiet change that leaves limit, error code and files alone. -/
theorem Ready.quiet (h : Ready env s₀ L s) (hq : Quiet s s') (halloc : IsFree s'.allocMutex)
    (hwaits : Blocks env.tid s'.list.mutex → Blocks env.tid s.list.mutex)
    (hlimit : s'.manager.allocLimit = s.manager.allocLimit) (herr : s'.errorCode = s.errorCode)
    (hfiles : s'.files = s.files) : Ready env s₀ L s' := by
  refine ⟨hq.base h.base, halloc, fun hbl => h.waits (hwaits hbl), ?_, h.same.trans hq.list, ?_,
    hfiles.trans h.files⟩
  · rw [hq.list.items]
    exact h.describes.mono hq.cacheList fun _ hit => hit
  · rw [hq.view hlimit, herr, ← h.view]
    rfl

/-- A scan does not leave the mutex to anyone who could not scan before. -/
theorem blocks_of_scanMutex (hscan : ¬ ScanBlocks env.tid s.list)
    (hbl : Blocks env.tid (scanMutex env.tid s.list L)) : Blocks env.tid s.list.mutex := by
  unfold scanMutex at hbl
  split_ifs at hbl with hlen hL
  · exact hbl
  · exact absurd hbl (mine_acquire fun hb => hscan ⟨hlen, hb⟩).2
  · exact absurd hbl ((isFree_release _).not_blocks _)

theorem Ready.answered (h : Ready l.1 s₀ L s) {r : Reply}
    (hstep : (s₀.viewAt L).step cfg l.1 o l.2 = (r, s₀.viewAt L)) : Answered cfg l s₀ L r s :=
  ⟨o, L, h.base.rep, by rw [hstep, h.view]⟩

theorem Ready.blocked (h : Ready l.1 s₀ L s) (hbl : Blocks l.1.tid s.list.mutex) :
    Halts l s₀ .blocked := .waits (h.waits hbl).1 (h.waits hbl).2

/-- The end of an operation with an error code. -/
theorem Ready.failed (h : Ready l.1 s₀ L s) (hrep : s'.list.Rep L) {err : SnErrorCodes} {r : Reply}
    (hview : s'.viewAt L = { s.viewAt L with error := err })
    (hstep : (s₀.viewAt L).step cfg l.1 o l.2 = (s₀.viewAt L).fail err r) :
    Answered cfg l s₀ L r s' := by
  refine ⟨o, L, hrep, ?_⟩
  rw [hstep, Registry.fail, hview, h.view]

theorem Ready.snError (h : Ready l.1 s₀ L s) {f : α → Reply} {err : SnErrorCodes} {ret : α}
    (o : Oracle) (hstep : (s₀.viewAt L).step cfg l.1 o l.2 = (s₀.viewAt L).fail err (f ret)) :
    Conforms cfg l s₀ L f (snError err ret) s := by
  rw [Conforms, LibSafetynet.snError, wp_bind]
  refine wp_snSetLastError (fun hbl => absurd hbl (h.alloc.not_blocks _)) ?_
  rw [wp_pure]
  refine h.failed ?_ ?_ hstep
  · exact h.base.rep
  · rfl

/-- The automatic pass leaves the registry alone. -/
theorem Ready.work (h : Ready l.1 s₀ L s) {Q : Unit → Lib → Prop}
    (hQ : Ready l.1 s₀ L (s.worked l.1 L) → Q () (s.worked l.1 L)) :
    wp memmanWork l.1 Q (fun e _ => Halts l s₀ e) s := by
  have hrep := h.base.rep
  have hlive : s.manager.SlotsLive s.list.nodes := h.describes.slotsLive h.base
  refine wp_memmanWork hrep (fun hbl _ => ?_) (fun hdead => absurd hlive hdead)
    fun _ hscan => hQ ?_
  · rcases hbl with halloc | hsb
    · exact absurd halloc (h.alloc.not_blocks _)
    · exact h.blocked hsb.2
  have hd : Describes (s.worked l.1 L).manager (L.map (item (s.worked l.1 L).list)) := by
    have hpass : Trans ⟨false⟩ l.1 (.querySize NULL) s L s L (s.worked l.1 L) :=
      .pass trivial hrep (Or.inl rfl)
    exact hpass.describes (l := (l.1, .querySize NULL)) h.base h.base id h.describes
  exact ⟨base_worked h.base, isFree_release _, fun hbl => h.waits (blocks_of_scanMutex hscan hbl),
    hd, h.same.trans (sameList_worked hrep), (view_worked h.base).trans h.view, h.files⟩

/-! ### Lookups -/

theorem Ready.find?_none (h : Ready env s₀ L s) (hnone : findPtr s.list L p = NULL) :
    (s₀.viewAt L).find? p = none := by
  rw [← h.view]
  exact find?_view_none h.base hnone

theorem Ready.find?_some (h : Ready env s₀ L s) (hfound : findPtr s.list L p ≠ NULL) :
    (s₀.viewAt L).find? p = some (tracking s.list (findPtr s.list L p)) := by
  rw [← h.view]
  exact find?_view_some hfound

theorem Ready.findPtr_of_mem (h : Ready env s₀ L s) (hc : (s₀.viewAt L).Consistent) {v : Addr}
    (hv : v ∈ L) (hdata : (nodeAt s.list.nodes v).data = p) : findPtr s.list L p = v := by
  have hfound : findPtr s.list L p ≠ NULL := fun hnull =>
    (findPtr_eq_null fun h0 => h.base.rep.ne_null h0 rfl).mp hnull v hv hdata
  obtain ⟨hmem, hsame⟩ := findPtr_mem hfound
  have hnodup := hc.nodup
  rw [← h.view, records_view, List.map_map] at hnodup
  exact List.inj_on_of_nodup_map hnodup hmem hv (hsame.trans hdata.symm)

/-- The value of a slot for `p` is the entry for `p`. -/
theorem Ready.slot (h : Ready env s₀ L s) (hc : (s₀.viewAt L).Consistent) {i : Slot}
    (hslot : s.manager.keySlot p = some i) :
    (s.manager.cacheList i).value ∈ L ∧ findPtr s.list L p = (s.manager.cacheList i).value ∧
      (s₀.viewAt L).find? p = some (tracking s.list (s.manager.cacheList i).value) := by
  obtain ⟨hmem, hdata⟩ := h.describes.slot (ne_empty_of_keySlot hslot)
  rw [(keySlot_eq_some hslot).1] at hdata
  have heq := h.findPtr_of_mem hc hmem hdata
  refine ⟨hmem, heq, ?_⟩
  rw [← heq]
  exact h.find?_some (heq ▸ h.base.rep.ne_null hmem)

theorem Ready.slotsLive (h : Ready env s₀ L s) : s.manager.SlotsLive s.list.nodes :=
  h.describes.slotsLive h.base

theorem Ready.keySlot_live (h : Ready env s₀ L s) {i : Slot}
    (hslot : s.manager.keySlot p = some i) :
    (s.list.nodes.lookup (s.manager.cacheList i).value).isSome :=
  (h.slotsLive.dropsLive _ _).keySlot hslot

/-- What the search of the cache by id finds is an entry with the id. -/
theorem Ready.idHit (h : Ready env s₀ L s) {id : UInt16}
    (hne : s.manager.idHit s.list.nodes id ≠ NULL) : s.manager.idHit s.list.nodes id ∈ L ∧
      (nodeAt s.list.nodes (s.manager.idHit s.list.nodes id)).blockId = id := by
  unfold AllocManager.idHit at *
  cases hf : slots.find? fun i => (s.manager.cacheList i).value ≠ NULL ∧
      (nodeAt s.list.nodes (s.manager.cacheList i).value).blockId = id with
  | none =>
    rw [hf] at hne
    exact absurd rfl hne
  | some i =>
    have hfound := List.find?_some hf
    obtain ⟨hval, hid⟩ := of_decide_eq_true hfound
    have hmem := h.describes.slot (i := i) fun hempty => hval (by rw [hempty]; rfl)
    exact ⟨hmem.1, hid⟩

theorem Ready.hit (h : Ready env s₀ L s) {i : Slot} (hmem : (s.manager.cacheList i).value ∈ L) :
    Ready env s₀ L (s.hit (s.manager.cacheList i).value) :=
  h.quiet ⟨sameList_hit (h.base.rep.live_of_mem hmem), rfl, rfl, rfl, rfl⟩ (isFree_release _) id rfl
    rfl rfl

/-- The search of the list, which only moves `lastAccess`. -/
theorem Ready.getByPtr (h : Ready l.1 s₀ L s) (hp : p ≠ NULL) {Q : Addr → Lib → Prop}
    (hQ : ∀ s', Ready l.1 s₀ L s' → s'.manager = s.manager →
      findPtr s'.list L p = findPtr s.list L p → Q (findPtr s.list L p) s') :
    wp (onList (linkedListGetByPtr p)) l.1 Q (fun e _ => Halts l s₀ e) s := by
  rw [wp_onList]
  refine wp_linkedListGetByPtr h.base.rep (fun h0 => absurd h0 hp)
    (fun _ hsb => h.blocked hsb.2) fun _ hscan => ?_
  have hsame : SameList s.list
      { s.list.access (findPtr s.list L p) with mutex := scanMutex l.1.tid s.list L } := by
    refine (sameList_access fun hne => ?_).trans (SameList.mutex _ _)
    exact h.base.rep.live_of_mem (findPtr_mem hne).1
  refine hQ _ (h.quiet ⟨hsame, rfl, rfl, rfl, rfl⟩ h.alloc ?_ rfl rfl rfl) rfl (hsame.findPtr L p)
  exact fun hbl => blocks_of_scanMutex hscan hbl

theorem Ready.hasPtr (h : Ready l.1 s₀ L s) (hp : p ≠ NULL) {Q : Bool → Lib → Prop}
    (hQ : ∀ s', Ready l.1 s₀ L s' → s'.manager = s.manager →
      Q (decide (findPtr s.list L p ≠ NULL)) s') :
    wp (onList (linkedListHasPtr p)) l.1 Q (fun e _ => Halts l s₀ e) s := by
  rw [wp_onList]
  refine wp_linkedListHasPtr h.base.rep (fun h0 => absurd h0 hp) (fun _ hbl => h.blocked hbl)
    fun _ _ => hQ _ (h.quiet ⟨?_, rfl, rfl, rfl, rfl⟩ h.alloc ?_ rfl rfl rfl) rfl
  · exact (SameList.mutex s.list (release s.list.mutex)).trans (SameList.lastAccess _ _)
  · exact fun hbl => absurd hbl ((isFree_release _).not_blocks _)

/-- The shared lookup, as the registry sees it. -/
theorem Ready.lookup (h : Ready l.1 s₀ L s) (hc : (s₀.viewAt L).Consistent) (hp : p ≠ NULL)
    {ret : α} {body : Addr → CProg Lib α}
    (hnone : (s₀.viewAt L).find? p = none → ∀ s', s'.list.Rep L →
      s'.viewAt L = { s₀.viewAt L with error := .snErrNoAdderFound } → Q ret s')
    (hmiss : ∀ t, (s₀.viewAt L).find? p = some t → ∀ s', s'.list.Rep L →
      s'.viewAt L = s₀.viewAt L → Q ret s')
    (hhit : ∀ v s', v ∈ L → (s₀.viewAt L).find? p = some (tracking s'.list v) →
      Ready l.1 s₀ L s' → wp (body v) l.1 Q (fun e _ => Halts l s₀ e) s') :
    wp (cacheOrListByPtr p ret body) l.1 Q (fun e _ => Halts l s₀ e) s := by
  refine wp_cacheOrListByPtr h.base hp (fun hbl _ => ?_)
    (fun i _ hslot hdead => absurd (h.keySlot_live hslot) hdead) (fun _ s' hm => ?_)
    fun i huse hslot hmem _ => ?_
  · rcases hbl with halloc | ⟨-, hsb⟩
    · exact absurd halloc (h.alloc.not_blocks _)
    · exact h.blocked hsb.2
  · have hrep := (hm.quiet.base h.base).rep
    have hview := hm.quiet.quiet.view (L := L) (by rw [hm.manager])
    rw [hm.errorCode, h.view] at hview
    by_cases hnull : findPtr s.list L p = NULL
    · rw [if_pos hnull] at hview
      exact hnone (h.find?_none hnull) s' hrep hview
    · rw [if_neg hnull] at hview
      refine hmiss _ (h.find?_some hnull) s' hrep (hview.trans ?_)
      rw [← h.view]
      rfl
  · obtain ⟨hv, -, hfind⟩ := h.slot hc hslot
    refine hhit _ _ hv ?_ (h.hit hmem)
    have hsame : SameList s.list (s.hit (s.manager.cacheList i).value).list :=
      sameList_hit (h.base.rep.live_of_mem hv)
    rw [hfind, tracking, tracking, hsame.data, hsame.size, hsame.tid, hsame.blockId]

/-- What the registry leaves open, when the cache does not answer. -/
def Oracle.miss : Oracle := ⟨fun _ => 0, none, false, false, 0, fun _ => none⟩

/-- The cache answers for `p`. -/
def Oracle.hit (p : Addr) : Oracle := { Oracle.miss with cached := some p }

/-- A function that asks the cache first. -/
theorem Ready.answer (h : Ready l.1 s₀ L s) (hc : (s₀.viewAt L).Consistent) {f : α → Reply}
    {ret : α} {body : Addr → CProg Lib α} {g : TrackedBlock → Reply × Registry}
    (hstep : ∀ o, (s₀.viewAt L).step cfg l.1 o l.2 = (s₀.viewAt L).answer o p (f ret) g)
    (hbody : ∀ v s', v ∈ L → Ready l.1 s₀ L s' →
      (s₀.viewAt L).find? p = some (tracking s'.list v) → (∀ o : Oracle, o.cached = some p →
        (s₀.viewAt L).step cfg l.1 o l.2 = g (tracking s'.list v)) →
      Conforms cfg l s₀ L f (body v) s') :
    Conforms cfg l s₀ L f
      (if p = NULL then LibSafetynet.snError .snErrNullPtr ret else cacheOrListByPtr p ret body)
      s := by
  rw [Conforms, wp_ite]
  constructor
  · intro hnull
    refine h.snError .miss ?_
    rw [hstep, Registry.answer, if_pos hnull]
  intro hp
  refine h.lookup hc hp (fun hnone s' hrep hview => ?_) (fun t hfind s' hrep hview => ?_)
    fun v s' hv hfind hr => hbody v s' hv hr hfind fun o ho => ?_
  · refine ⟨.miss, L, hrep, ?_⟩
    rw [hstep, Registry.answer, if_neg hp, hnone, hview]
    rfl
  · refine ⟨.miss, L, hrep, ?_⟩
    rw [hstep, Registry.answer, if_neg hp, hfind, hview]
    rfl
  · rw [hstep, Registry.answer, if_neg hp, hfind]
    dsimp only
    rw [if_pos ho]

end Framework

/-! ## The queries -/

section Queries

variable {cfg : Config} {env : Env} {s : Lib} {L : List Addr} {ptr block : Addr}

theorem reply_querySize (h₀ : Ready env s L s) :
    Conforms cfg (env, .querySize ptr) s L .size (snQuerySize ptr) s := by
  rw [Conforms, snQuerySize, wp_bind]
  refine h₀.work fun h => ?_
  rw [wp_ite]
  constructor
  · intro hnull
    refine h.snError .miss ?_
    rw [Registry.step, if_pos hnull]
  intro hp
  rw [wp_bind]
  refine h.getByPtr hp fun s₁ h₁ _ hfind => ?_
  rw [← hfind, wp_ite]
  constructor
  · intro hnull
    refine h₁.snError .miss ?_
    rw [Registry.step, if_neg hp, h₁.find?_none hnull]
  · intro hfound
    refine wp_entryGet h₁.base (findPtr_mem hfound).1 (h₁.answered (o := .miss) ?_)
    rw [Registry.step, if_neg hp, h₁.find?_some hfound]
    rfl

theorem reply_queryTid (h₀ : Ready env s L s) (hc : (s.viewAt L).Consistent) :
    Conforms cfg (env, .queryTid ptr) s L .size (snQueryTid ptr) s := by
  rw [Conforms, snQueryTid, wp_bind]
  refine h₀.work fun h => h.answer hc (fun _ => rfl) fun v s' hv hr hfind hstep => ?_
  refine wp_entryGet hr.base hv (hr.answered (o := .hit ptr) ?_)
  exact hstep _ rfl

theorem reply_getBlockId (h₀ : Ready env s L s) (hc : (s.viewAt L).Consistent) :
    Conforms cfg (env, .getBlockId block) s L .blockId (snGetBlockId block) s := by
  rw [Conforms, snGetBlockId, wp_bind]
  refine h₀.work fun h => h.answer hc (fun _ => rfl) fun v s' hv hr hfind hstep => ?_
  refine wp_entryGet hr.base hv (hr.answered (o := .hit block) ?_)
  exact hstep _ rfl

/-- The result of `sn_query_metadata` only counts as null or not. -/
theorem reply_queryMetadata (h₀ : Ready env s L s) (hc : (s.viewAt L).Consistent) :
    Conforms cfg (env, .queryMetadata ptr) s L (fun p => .flag (p ≠ NULL)) (snQueryMetadata ptr)
      s := by
  rw [Conforms, snQueryMetadata, wp_bind]
  refine h₀.work fun h => h.answer hc (fun _ => rfl) fun v s' hv hr hfind hstep => ?_
  rw [Conforms, wp_pure]
  refine hr.answered (o := .hit ptr) ?_
  have hne : v + offsetofData ≠ NULL := Nat.succ_ne_zero _
  rw [hstep _ rfl, decide_eq_true hne]

theorem reply_calculateChecksum (h₀ : Ready env s L s) (hc : (s.viewAt L).Consistent) :
    Conforms cfg (env, .calculateChecksum block) s L .size (snCalculateChecksum block) s := by
  rw [Conforms, snCalculateChecksum, wp_bind]
  refine h₀.work fun h => h.answer hc (fun _ => rfl) fun v s' hv hr hfind hstep => ?_
  rw [Conforms, wp_bind]
  refine wp_entryGet hr.base hv ?_
  rw [wp_ite]
  constructor
  · intro hzero
    refine hr.snError (.hit block) ?_
    rw [hstep _ rfl, tracking, if_pos hzero]
  · intro hsize
    obtain ⟨hdata, hlive, hle⟩ := hc.of_find? hfind
    have hanswer : Answered cfg (env, .calculateChecksum block) s L (.size (checksumBytes
        ((s.heap.bytes block).take (nodeAt s'.list.nodes v).size.toNat))) s' := by
      refine hr.answered (o := .hit block) ?_
      rw [hstep _ rfl, tracking, if_neg hsize]
      rfl
    have hheap : s'.heap = s.heap := congrArg Registry.heap hr.view
    rw [wp_bind, wp_onHeap, hheap]
    refine wp_memRead ⟨hlive, hle⟩ ?_
    exact hheap ▸ hanswer

theorem reply_isTrackedBlock (h₀ : Ready env s L s) (hc : (s.viewAt L).Consistent) :
    Conforms cfg (env, .isTrackedBlock ptr) s L .flag (snIsTrackedBlock ptr) s := by
  rw [Conforms, snIsTrackedBlock, wp_bind]
  refine h₀.work fun h => ?_
  rw [wp_ite]
  constructor
  · intro hnull
    refine h.snError .miss ?_
    rw [Registry.step, if_pos hnull]
  intro hp
  have hstep : (s.viewAt L).step cfg env .miss (.isTrackedBlock ptr) =
      (.flag true, s.viewAt L) := by
    rw [Registry.step, if_neg hp]
  rw [wp_bind]
  refine wp_tryCacheHit h.base (fun hbl => absurd hbl (h.alloc.not_blocks _))
    (fun i _ hslot hdead => absurd (h.keySlot_live hslot) hdead) (fun _ m hm => ?_)
    fun i _ hslot hmem _ => ?_
  · rw [wp_ite]
    refine ⟨fun _ => ⟨.miss, L, h.base.rep, ?_⟩, fun hne => absurd rfl hne⟩
    rw [hstep, ← h.view]
    rfl
  · have hfind : findPtr (s.worked env L).list L ptr ≠ NULL := by
      rw [(h.slot hc hslot).2.1]
      exact h.base.rep.ne_null hmem
    have h₁ := h.hit hmem
    have hsame : SameList (s.worked env L).list _ := sameList_hit (h.base.rep.live_of_mem hmem)
    rw [wp_ite]
    refine ⟨fun hnull => absurd hnull (h.base.rep.ne_null hmem), fun _ => ?_⟩
    refine h₁.hasPtr hp fun s₂ h₂ _ => ?_
    rw [hsame.findPtr, decide_eq_true hfind]
    exact h₂.answered hstep

theorem reply_setBlockId {id : UInt16} (h₀ : Ready env s L s) (hc : (s.viewAt L).Consistent) :
    Conforms cfg (env, .setBlockId block id) s L (fun _ => .none) (snSetBlockId block id) s := by
  rw [Conforms, snSetBlockId, wp_bind]
  refine h₀.work fun h => ?_
  by_cases hid : block ≠ NULL ∧ id ≤ 20
  · rw [if_neg hid.1, if_pos hid.2]
    refine h.snError .miss ?_
    rw [Registry.step, if_pos hid]
  have hcode : (if block = NULL then snError .snErrNullPtr ()
      else if id ≤ 20 then snError .snErrBadBlockId ()
      else cacheOrListByPtr block () fun entry => onList (linkedListEntrySetBlockId entry id)) =
      if block = NULL then snError .snErrNullPtr ()
      else cacheOrListByPtr block () fun entry => onList (linkedListEntrySetBlockId entry id) := by
    by_cases hnull : block = NULL
    · rw [if_pos hnull, if_pos hnull]
    · rw [if_neg hnull, if_neg hnull, if_neg fun hle => hid ⟨hnull, hle⟩]
  rw [hcode]
  refine h.answer (g := fun _ => (.none,
    (s.viewAt L).rewrite block fun t => { t with blockId := id })) hc (fun o => ?_)
    fun v s' hv hr hfind hstep => ?_
  · rw [Registry.step, if_neg hid]
  rw [Conforms, wp_onList]
  refine wp_linkedListEntrySet hr.base.rep hv (fun _ => ⟨rfl, rfl, rfl, rfl⟩)
    (fun hbl => hr.blocked hbl) fun _ l hset _ => ?_
  refine ⟨.hit block, L, hset.links.rep hr.base.rep, ?_⟩
  have hdata : (nodeAt s'.list.nodes v).data = block := (hc.of_find? hfind).1
  have hmap : L.map (tracking l) = (L.map (tracking s'.list)).map fun t =>
      if t.data = block then { t with blockId := id } else t := by
    refine hset.trackings ?_ hdata fun a ha heq => ?_
    · rw [tracking, hset.node]
      rfl
    · rw [← hr.findPtr_of_mem hc ha heq, hr.findPtr_of_mem hc hv hdata]
  rw [hstep _ rfl, Registry.rewrite, ← hr.view, Lib.viewAt, Lib.viewAt, hmap]

/-- The search by id. -/
theorem reply_queryBlockId {id : UInt16} (h₀ : Ready env s L s) :
    Conforms cfg (env, .queryBlockId id) s L .addr (snQueryBlockId id) s := by
  rw [Conforms, snQueryBlockId, wp_bind]
  refine h₀.work fun h => ?_
  rw [wp_ite]
  constructor
  · intro hzero
    refine h.snError .miss ?_
    show (s.viewAt L).queryBlockId .miss id = _
    rw [Registry.queryBlockId, if_pos hzero]
  intro hid
  have hentries : L.map (tracking (s.worked env L).list) = (s.viewAt L).entries :=
    congrArg Registry.entries h.view
  -- without an answer of the cache the registry looks for the id among the entries
  have hmiss : (s.viewAt L).queryBlockId .miss id =
      if ∃ t ∈ (s.viewAt L).entries, t.blockId = id then (.addr NULL, s.viewAt L)
      else (s.viewAt L).fail .snErrNoAdderFound (.addr NULL) := by
    have hnone : ((s.viewAt L).entries.find? fun t =>
        Oracle.miss.cached = some t.data ∧ t.blockId = id) = none := by
      simp [Oracle.miss]
    rw [Registry.queryBlockId, if_neg hid, hnone]
  have hlist : ∀ s₁, Ready env s L s₁ → wp (do
      let entry ← onList (linkedListGetById id)
      when (entry = NULL) (snSetLastError .snErrNoAdderFound)
      return NULL : CProg Lib Addr) env
      (fun a s' => Answered cfg (env, .queryBlockId id) s L (.addr a) s')
      (fun e _ => Halts (env, .queryBlockId id) s e) s₁ := by
    intro s₁ h₁
    have hentries₁ : (s.viewAt L).entries = L.map (tracking s₁.list) :=
      (congrArg Registry.entries h₁.view).symm
    have hexists : (∃ t ∈ (s.viewAt L).entries, t.blockId = id) ↔ findId s₁.list L id ≠ NULL := by
      rw [hentries₁, ne_eq, findId_eq_null fun h0 => h₁.base.rep.ne_null h0 rfl]
      simp [tracking]
    have hsame : SameList s₁.list
        { s₁.list.access (findId s₁.list L id) with mutex := byIdMutex env.tid s₁.list L } := by
      refine (sameList_access fun hne => ?_).trans (SameList.mutex _ _)
      exact h₁.base.rep.live_of_mem (findId_mem hne).1
    have hview : ∀ err m, Lib.viewAt { s₁ with
        list := { s₁.list.access (findId s₁.list L id) with mutex := byIdMutex env.tid s₁.list L }
        errorCode := err, allocMutex := m } L = { s.viewAt L with error := err } := by
      intro err m
      rw [Lib.viewAt, hsame.trackings, ← h₁.view]
      rfl
    rw [wp_bind, wp_onList]
    refine wp_linkedListGetById h₁.base.rep (fun hbl => h₁.blocked hbl) fun _ => ?_
    rw [wp_bind, wp_when]
    constructor
    · intro hnull
      refine wp_snSetLastError (fun hbl => absurd hbl (h₁.alloc.not_blocks _)) ?_
      refine ⟨.miss, L, hsame.rep h₁.base.rep, ?_⟩
      rw [hview]
      exact hmiss.trans (if_neg (hexists.not.mpr (not_not.mpr hnull)))
    · intro hfound
      refine ⟨.miss, L, hsame.rep h₁.base.rep, hmiss.trans ?_⟩
      rw [if_pos (hexists.mpr hfound)]
      refine congrArg (Prod.mk _) (Eq.symm ((hview s₁.errorCode s₁.allocMutex).trans ?_))
      rw [← h₁.view]
      rfl
  rw [cacheOrList, wp_bind]
  refine wp_memmanTryCacheHitById (fun _ => ?_) (fun _ hbl => absurd hbl (h.alloc.not_blocks _))
    (fun _ hend => ?_) fun _ _ _ => ?_
  · rw [wp_ite]
    exact ⟨fun _ => hlist _ h, fun hne => absurd rfl hne⟩
  · obtain ⟨_, _, hstale⟩ := hend
    exact absurd h.slotsLive hstale.not_slotsLive
  have h₁ : Ready env s L { s.worked env L with
      allocMutex := release (s.worked env L).allocMutex } :=
    h.quiet (Quiet.of_list (SameList.refl _)) (isFree_release _) (fun hbl => hbl) rfl rfl rfl
  rw [wp_ite]
  refine ⟨fun _ => hlist _ h₁, fun hne => ?_⟩
  -- a slot answers, for an entry with the id
  obtain ⟨hmem, hblock⟩ := h.idHit hne
  generalize (s.worked env L).manager.idHit (s.worked env L).list.nodes id = v at hne hmem hblock ⊢
  refine wp_entryGet h₁.base hmem
    (h₁.answered (o := .hit (nodeAt (s.worked env L).list.nodes v).data) ?_)
  show (s.viewAt L).queryBlockId _ id = _
  rw [Registry.queryBlockId, if_neg hid]
  have ht : tracking (s.worked env L).list v ∈ (s.viewAt L).entries := by
    rw [← hentries]
    exact List.mem_map_of_mem hmem
  cases hf : (s.viewAt L).entries.find? fun t =>
      (Oracle.hit (nodeAt (s.worked env L).list.nodes v).data).cached = some t.data ∧
        t.blockId = id with
  | none =>
    refine absurd (List.find?_eq_none.mp hf _ ht) (not_not.mpr (decide_eq_true ?_))
    exact ⟨rfl, hblock⟩
  | some t =>
    have hfound := List.find?_some hf
    obtain ⟨hdata, -⟩ := of_decide_eq_true hfound
    exact congrArg (fun q => (Reply.addr q, s.viewAt L)) (Option.some.inj hdata).symm

/-- The sum that the scan of `sn_query_thread_memory_usage` computes. -/
theorem readLoop_threadUsage {l : ListState} (tid : UInt64) (i : Nat) (siz : UInt64)
    (L : List Addr) :
    readLoop (fun _ e _ siz => if e.tid = tid then (NULL, siz + e.size) else (NULL, siz))
        l.nodes i siz L =
      (NULL, (L.map (tracking l)).foldl (fun siz t => if t.tid = tid then siz + t.size else siz)
        siz) := by
  induction L generalizing i siz with
  | nil => rfl
  | cons a L ih =>
    rw [readLoop, List.map_cons, List.foldl_cons]
    by_cases ht : (nodeAt l.nodes a).tid = tid
    · rw [if_pos ht]
      dsimp only
      rw [if_pos rfl, ih, tracking, if_pos ht]
    · rw [if_neg ht]
      dsimp only
      rw [if_pos rfl, ih, tracking, if_neg ht]

theorem reply_queryThreadMemoryUsage {tid : UInt64} (h₀ : Ready env s L s) :
    Conforms cfg (env, .queryThreadMemoryUsage tid) s L .size (snQueryThreadMemoryUsage tid) s := by
  rw [Conforms, snQueryThreadMemoryUsage, wp_bind]
  refine h₀.work fun h => ?_
  rw [wp_bind, wp_onList]
  refine wp_linkedListForEach_read h.base.rep (searchForTid_eq tid) (fun hsb => h.blocked hsb.2)
    fun hscan => ?_
  rw [readLoop_threadUsage, wp_pure]
  refine ⟨.miss, L, (SameList.mutex _ _).rep h.base.rep, ?_⟩
  show (Reply.size ((s.viewAt L).threadUsage tid), s.viewAt L) = _
  rw [Registry.threadUsage, ← h.view]
  rfl

theorem reply_memMetadataForEach {worker : SnMetadataForEachWorker} {g : Addr}
    (h : Ready env s L s) : Conforms cfg (env, .memMetadataForEach worker g) s L (fun _ => .none)
      (snMemMetadataForEach worker g) s := by
  rw [Conforms, snMemMetadataForEach, wp_bind, wp_onList]
  refine wp_linkedListForEach_read h.base.rep (memMetadataForEach_eq worker g)
    (fun hsb => h.blocked hsb.2) fun _ => ?_
  have hend : Answered cfg (env, .memMetadataForEach worker g) s L .none
      { s with list := { s.list with mutex := scanMutex env.tid s.list L } } :=
    ⟨.miss, L, (SameList.mutex _ _).rep h.base.rep, rfl⟩
  rw [wp_ite]
  exact ⟨fun _ => hend, fun _ => hend⟩

theorem reply_requestToFastCache (h : Ready env s L s) :
    Conforms cfg (env, .requestToFastCache ptr) s L .flag (snRequestToFastCache ptr) s := by
  rw [Conforms, snRequestToFastCache, wp_ite]
  constructor
  · intro hnull
    refine h.snError .miss ?_
    rw [Registry.step, if_pos hnull]
  intro hp
  rw [wp_bind]
  refine h.getByPtr hp fun s₁ h₁ hman hfind => ?_
  rw [← hfind, wp_ite]
  constructor
  · intro hnull
    refine h₁.snError .miss ?_
    rw [Registry.step, if_neg hp, h₁.find?_none hnull]
  intro hfound
  have hlive := h₁.base.rep.live_of_mem (findPtr_mem hfound).1
  have hstep : ∀ o : Oracle, (s.viewAt L).step cfg env o (.requestToFastCache ptr) =
      (.flag o.accepts, s.viewAt L) := by
    intro o
    rw [Registry.step, if_neg hp, h₁.find?_some hfound]
  refine wp_memmanTryCachePut hlive (fun hbl => absurd hbl (h₁.alloc.not_blocks _))
    (fun _ => h₁.answered (hstep .miss)) (fun hacc hfull _ => ?_) fun _ i _ => ?_
  · rw [hman] at hacc hfull
    exact .noSlot rfl hacc hfull
  · have hsame : SameList s₁.list (s₁.put i (findPtr s₁.list L ptr)).list := sameList_put hlive
    have hview : (s₁.put i (findPtr s₁.list L ptr)).viewAt L = s.viewAt L := by
      rw [Lib.viewAt, hsame.trackings, ← h₁.view]
      rfl
    refine ⟨{ Oracle.miss with accepts := true }, L, hsame.rep h₁.base.rep, ?_⟩
    rw [hstep, hview]

end Queries

end LibSafetynet
