import LibSafetynet.Logic.Frame
import LibSafetynet.OperationsSpec

/-!
# Properties read off the text of an operation

Five analyses of the development go through the code of the operations statement by
statement: what never reads the error code, what leaves the cache alone, what keeps
`lastAccess` linked, which calls of the list and of the manager are made, what leaves a
file alone. They differ in what they say of the primitives only. `CallFrame F` lists the
primitives but for the writing of files, which `OpFrame F` adds; everything above them has
`F` because it is put together from them. `OwnFrame F` and `ExecFrame F` go on to whole
operations.
-/

namespace LibSafetynet

open Logic Prog

/-- `F` holds of what is composed of code that has it, and of the manager's own statements. -/
structure CodeFrame (F : {α : Type} → CProg Lib α → Prop) : Prop where
  pure : ∀ {α : Type} (a : α), F (Pure.pure a : CProg Lib α)
  ask : F (Prog.ask : CProg Lib Env)
  bind : ∀ {α β : Type} {m : CProg Lib α} {k : α → CProg Lib β}, F m → (∀ a, F (k a)) → F (m >>= k)
  ite : ∀ {α : Type} {c : Prop} [Decidable c] {m n : CProg Lib α}, F m → F n →
    F (if c then m else n)
  lockAlloc : F lockAlloc
  unlockAlloc : F unlockAlloc
  getManager : F getManager

namespace CodeFrame

variable {F : {α : Type} → CProg Lib α → Prop} (hF : CodeFrame F)

include hF

theorem when {c : Prop} [Decidable c] {m : CProg Lib Unit} (hm : F m) : F (Prog.when c m) :=
  hF.ite hm (hF.pure ())

/-- `memman_TryCacheHit`, which writes one weight. -/
theorem memmanTryCacheHit
    (hit : ∀ a, F (onList (store a fun e => { e with weight := e.weight + 1 }))) (key : Addr) :
    F (memmanTryCacheHit key) := by
  refine hF.bind hF.getManager fun m => hF.ite (hF.pure _) ?_
  refine hF.bind hF.lockAlloc fun _ => hF.bind hF.getManager fun self => ?_
  dsimp only
  cases self.keySlot key with
  | some i => exact hF.bind (hit _) fun _ => hF.bind hF.unlockAlloc fun _ => hF.pure _
  | none => exact hF.bind hF.unlockAlloc fun _ => hF.pure _

/-- `memman_TryCacheHitById`, which reads the slots' nodes. -/
theorem memmanTryCacheHitById (scanIds : ∀ self id, F (onList (memmanScanIds self id slots)))
    (id : UInt16) : F (memmanTryCacheHitById id) := by
  refine hF.bind hF.getManager fun m => hF.ite (hF.pure _) (hF.bind hF.lockAlloc fun _ => ?_)
  refine hF.bind hF.getManager fun self => hF.bind (scanIds self id) fun _ => ?_
  exact hF.bind hF.unlockAlloc fun _ => hF.pure _

section Emptying

variable (mark : ∀ a cached, F (onList (store a fun e => { e with cached })))
  (empty : ∀ i, F (setManager fun self =>
    { self.setSlot i .empty with availableCacheSlots := self.availableCacheSlots + 1 }))

include mark empty

theorem memmanDropSlots (wanted : Addr → Bool) (cached : Bool) (rest : List Slot) :
    F (memmanDropSlots wanted cached rest) := by
  induction rest with
  | nil => exact hF.pure ()
  | cons i rest ih =>
    refine hF.bind hF.getManager fun m => hF.bind (hF.when ?_) fun _ => ih
    exact hF.bind (mark _ cached) fun _ => empty i

theorem memmanCacheInvalidate (key : Addr) : F (memmanCacheInvalidate key) :=
  hF.bind hF.lockAlloc fun _ => hF.bind (hF.memmanDropSlots mark empty _ false slots) fun _ =>
    hF.unlockAlloc

theorem memmanCacheClear : F memmanCacheClear :=
  hF.bind hF.lockAlloc fun _ => hF.bind (hF.memmanDropSlots mark empty _ true slots) fun _ =>
    hF.unlockAlloc

end Emptying

end CodeFrame

/-- `F` holds of the primitives of the operations but for the writing of files, and of what
is composed of them. -/
structure CallFrame (F : {α : Type} → CProg Lib α → Prop) : Prop extends CodeFrame F where
  /-- Writing the counter. -/
  setUsage : ∀ f : AllocManager → UInt64,
    F (setManager fun m => { m with globalMemoryUsage := f m })
  setError : ∀ err, F (modify fun s : Lib => { s with errorCode := err })
  fopenRead : ∀ n path, F (fopenRead n path)
  onHeap : ∀ {α : Type} (m : CProg ClientHeap α), F (onHeap m)
  deref : ∀ a, F (onList (deref a))
  entryGet : ∀ {α : Type} (a : Addr) (dflt : α) (get : LinkedListEntry → α),
    F (onList (if a = NULL then return dflt else do return get (← LibSafetynet.deref a)))
  /-- The setters of an entry. -/
  entrySet : ∀ (a : Addr) (f : LinkedListEntry → LinkedListEntry),
    (∀ e, ∃ data size blockId, f e = { e with data, size, blockId }) →
      F (onList (linkedListEntrySet a f))
  tryCacheHit : ∀ key, F (memmanTryCacheHit key)
  tryCacheHitById : ∀ id, F (memmanTryCacheHitById id)
  getByPtr : ∀ key, F (onList (linkedListGetByPtr key))
  getById : ∀ id, F (onList (linkedListGetById id))
  hasPtr : ∀ key, F (onList (linkedListHasPtr key))
  push : ∀ data size tid, F (onList (linkedListPush data size tid))
  /-- A scan with a worker that only reads. -/
  scan : ∀ {β : Type} {worker : LinkedListForEachWorker β}
    (f : Addr → LinkedListEntry → Nat → β → Addr × β),
    (∀ a i arg, worker a i arg = do
      let e ← LibSafetynet.deref a
      return f a e i arg) → ∀ arg, F (onList (linkedListForEach worker arg))

/-- `F` holds of the primitives of the operations, and of what is composed of them. -/
structure OpFrame (F : {α : Type} → CProg Lib α → Prop) : Prop extends CallFrame F where
  setFile : ∀ path content, F (modify fun s : Lib =>
    { s with files := s.files.insert path content })

/-- The pass, and code behind it that has `F`. -/
def OpFrame.AfterPass (F : {α : Type} → CProg Lib α → Prop) {α : Type} (m : CProg Lib α) : Prop :=
  ∃ k : Unit → CProg Lib α, m = (memmanWork >>= k) ∧ ∀ u, F (k u)

namespace CallFrame

variable {F : {α : Type} → CProg Lib α → Prop} (hF : CallFrame F)

include hF

theorem platGetTid : F (platGetTid : CProg Lib UInt64) := hF.bind hF.ask fun _ => hF.pure _

/-! ## Errors and lookups -/

theorem snSetLastError (err : SnErrorCodes) : F (snSetLastError err) :=
  hF.bind hF.lockAlloc fun _ => hF.bind (hF.setError err) fun _ => hF.unlockAlloc

theorem snError {α : Type} (err : SnErrorCodes) (ret : α) : F (snError err ret) :=
  hF.bind (hF.snSetLastError err) fun _ => hF.pure ret

theorem lookupEntry (ptr : Addr) : F (lookupEntry ptr) :=
  hF.bind (hF.tryCacheHit ptr) fun _ => hF.ite (hF.getByPtr ptr) (hF.pure _)

theorem cacheOrList {α : Type} {cache list : CProg Lib Addr} {ret : α} {body : Addr → CProg Lib α}
    (hcache : F cache) (hlist : F list) (hbody : ∀ a, F (body a)) :
    F (cacheOrList cache list ret body) := by
  refine hF.bind hcache fun a => hF.ite (hF.bind hlist fun _ => ?_) (hbody a)
  exact hF.bind (hF.toCodeFrame.when (hF.snSetLastError _)) fun _ => hF.pure ret

theorem cacheOrListByPtr {α : Type} {ptr : Addr} {ret : α} {body : Addr → CProg Lib α}
    (hbody : ∀ a, F (body a)) : F (cacheOrListByPtr ptr ret body) :=
  hF.cacheOrList (hF.tryCacheHit ptr) (hF.getByPtr ptr) hbody

/-! ## Allocation -/

theorem snMalloc (cfg : Config) (size : UInt64) : F (snMalloc cfg size) := by
  refine hF.ite (hF.snError _ _) (hF.bind hF.getManager fun m => hF.ite (hF.snError _ _) ?_)
  refine hF.bind (hF.onHeap _) fun pr => hF.ite (hF.snError _ _) ?_
  refine hF.bind (hF.toCodeFrame.when (hF.onHeap _)) fun _ => hF.bind (hF.setUsage _) fun _ => ?_
  exact hF.bind hF.platGetTid fun _ => hF.bind (hF.push _ _ _) fun _ => hF.pure _

theorem snCalloc (num size : UInt64) : F (snCalloc num size) := by
  refine hF.ite (hF.snError _ _) (hF.bind hF.getManager fun m => hF.ite (hF.snError _ _) ?_)
  refine hF.bind (hF.onHeap _) fun pr => hF.ite (hF.snError _ _) ?_
  refine hF.bind (hF.setUsage _) fun _ => hF.bind hF.platGetTid fun _ => ?_
  exact hF.bind (hF.push _ _ _) fun _ => hF.pure _

theorem snRealloc (ptr : Addr) (newSize : UInt64) : F (snRealloc ptr newSize) := by
  have hdata : ∀ a newData, F (onList (linkedListEntrySetData a newData)) :=
    fun a newData => hF.entrySet a _ fun e => ⟨newData, e.size, e.blockId, rfl⟩
  have hsize : ∀ a size, F (onList (linkedListEntrySetSize a size)) :=
    fun a size => hF.entrySet a _ fun e => ⟨e.data, size, e.blockId, rfl⟩
  refine hF.ite (hF.snError _ _) (hF.bind (hF.getByPtr ptr) fun entry => ?_)
  refine hF.ite (hF.snError _ _) (hF.ite (hF.snError _ _) (hF.bind (hF.deref _) fun e => ?_))
  refine hF.bind hF.getManager fun m => hF.ite (hF.snError _ _) ?_
  refine hF.bind (hF.onHeap _) fun newPtr => hF.ite (hF.snError _ _) ?_
  refine hF.bind (hF.setUsage _) fun _ => hF.bind (hF.setUsage _) fun _ => ?_
  exact hF.bind (hdata _ _) fun _ => hF.bind (hsize _ _) fun _ => hF.pure _

theorem snMallocPreInitialized (cfg : Config) (size : UInt64) (b : UInt8) :
    F (snMallocPreInitialized cfg size b) :=
  hF.bind (hF.snMalloc cfg size) fun _ =>
    hF.ite (hF.pure _) (hF.bind (hF.onHeap _) fun _ => hF.pure _)

/-- `sn_free`, for code that may also empty slots and unlink the entry. -/
theorem snFree {cfg : Config} {ptr : Addr} (hinvalidate : F (memmanCacheInvalidate ptr))
    (hremove : F (onList (linkedListRemoveEntryByPtr ptr))) : F (snFree cfg ptr) := by
  refine hF.ite (hF.snError _ _) (hF.bind (hF.lookupEntry ptr) fun entry => ?_)
  refine hF.ite (hF.snError _ _) (hF.bind (hF.toCodeFrame.when ?_) fun _ => ?_)
  · exact hF.bind (hF.deref _) fun _ => hF.onHeap _
  refine hF.bind (hF.deref _) fun _ => hF.bind (hF.setUsage _) fun _ => ?_
  refine hF.bind hinvalidate fun _ => hF.bind (hF.entryGet _ _ _) fun _ => ?_
  exact hF.bind (hF.onHeap _) fun _ => hremove

/-! ## Operations that begin with the pass -/

open OpFrame (AfterPass)

omit hF in
theorem afterPass {α : Type} {k : Unit → CProg Lib α} (hk : ∀ u, F (k u)) :
    AfterPass F (memmanWork >>= k) := ⟨k, rfl, hk⟩

theorem of_afterPass {α : Type} {m : CProg Lib α} (h : AfterPass F m) (hwork : F memmanWork) :
    F m := by
  obtain ⟨k, rfl, hk⟩ := h
  exact hF.bind hwork hk

/-- The query functions that end with the shared lookup. -/
theorem query {α : Type} {ptr : Addr} {ret : α} {body : Addr → CProg Lib α}
    (hbody : ∀ a, F (body a)) : AfterPass F (do
      memmanWork
      if ptr = NULL then LibSafetynet.snError .snErrNullPtr ret
      else LibSafetynet.cacheOrListByPtr ptr ret body) :=
  afterPass fun _ => hF.ite (hF.snError _ _) (hF.cacheOrListByPtr hbody)

theorem snRegister (ptr : Addr) : AfterPass F (snRegister ptr) :=
  afterPass fun _ => hF.bind hF.platGetTid fun _ => hF.bind (hF.push _ _ _) fun _ => hF.pure _

theorem snRegisterSize (ptr : Addr) (size : UInt64) : AfterPass F (snRegisterSize ptr size) := by
  refine afterPass fun _ => hF.ite (hF.snError _ _) (hF.ite (hF.snError _ _) ?_)
  refine hF.bind (hF.hasPtr ptr) fun _ => hF.ite (hF.pure _) ?_
  exact hF.bind hF.platGetTid fun _ => hF.bind (hF.push _ _ _) fun _ => hF.pure _

theorem snQuerySize (ptr : Addr) : AfterPass F (snQuerySize ptr) := by
  refine afterPass fun _ => hF.ite (hF.snError _ _) (hF.bind (hF.getByPtr ptr) fun entry => ?_)
  exact hF.ite (hF.snError _ _) (hF.entryGet _ _ _)

theorem snQueryTid (ptr : Addr) : AfterPass F (snQueryTid ptr) :=
  hF.query fun _ => hF.entryGet _ _ _

theorem snIsTrackedBlock (ptr : Addr) : AfterPass F (snIsTrackedBlock ptr) :=
  afterPass fun _ => hF.ite (hF.snError _ _) (hF.bind (hF.tryCacheHit ptr) fun _ =>
    hF.ite (hF.pure _) (hF.hasPtr ptr))

theorem snSetBlockId (block : Addr) (id : UInt16) : AfterPass F (snSetBlockId block id) := by
  refine afterPass fun _ => hF.ite (hF.snError _ _) (hF.ite (hF.snError _ _) ?_)
  refine hF.cacheOrListByPtr fun a => ?_
  exact hF.entrySet a _ fun e => ⟨e.data, e.size, id, rfl⟩

theorem snGetBlockId (block : Addr) : AfterPass F (snGetBlockId block) :=
  hF.query fun _ => hF.entryGet _ _ _

theorem snQueryBlockId (id : UInt16) : AfterPass F (snQueryBlockId id) :=
  afterPass fun _ => hF.ite (hF.snError _ _)
    (hF.cacheOrList (hF.tryCacheHitById id) (hF.getById id) fun _ => hF.entryGet _ _ _)

theorem snQueryMetadata (ptr : Addr) : AfterPass F (snQueryMetadata ptr) :=
  hF.query fun _ => hF.pure _

theorem snCalculateChecksum (block : Addr) : AfterPass F (snCalculateChecksum block) := by
  refine hF.query fun entry => hF.bind (hF.entryGet _ _ _) fun size => ?_
  exact hF.ite (hF.snError _ _) (hF.bind (hF.onHeap _) fun _ => hF.pure _)

theorem snQueryThreadMemoryUsage (tid : UInt64) : AfterPass F (snQueryThreadMemoryUsage tid) :=
  afterPass fun _ => hF.bind (hF.scan _ (searchForTid_eq tid) _) fun _ => hF.pure _

/-- The pass runs a second time inside. -/
theorem snQueryStaticMetadata {cfg : Config} {ptr : Addr} (hwork : F memmanWork) :
    F (snQueryStaticMetadata cfg ptr) := by
  refine hF.bind hwork fun _ => ?_
  refine hF.bind (hF.of_afterPass (hF.snQueryMetadata ptr) hwork) fun _ => hF.ite (hF.pure _) ?_
  refine hF.bind (hF.snMalloc cfg _) fun _ => hF.ite (hF.pure _) ?_
  exact hF.bind (hF.deref _) fun _ => hF.bind (hF.onHeap _) fun _ => hF.pure _

/-! ## The other operations -/

theorem snMemMetadataForEach (worker : SnMetadataForEachWorker) (genericArg : Addr) :
    F (snMemMetadataForEach worker genericArg) :=
  hF.bind (hF.scan _ (memMetadataForEach_eq worker genericArg) _) fun _ =>
    hF.ite (hF.pure _) (hF.pure _)

theorem fileExists (path : FileName) : F (fileExists path) :=
  hF.bind (hF.fopenRead 0 path) fun _ => hF.pure _

/-- `sn_dump_to_file`, for code that may write this file. -/
theorem dumpTo {file : Option FileName} (setFile : ∀ path, file = some path → ∀ content,
    F (modify fun s : Lib => { s with files := s.files.insert path content })) (block : Addr) :
    F (snDumpToFile file block) := by
  cases file with
  | none => exact hF.snError _ _
  | some path =>
    have hset := setFile path rfl
    have hopen : F (fopenWrite 1 path) :=
      hF.bind hF.ask fun _ => hF.ite (hF.bind (hset _) fun _ => hF.pure _) (hF.pure _)
    refine hF.ite (hF.snError _ _) (hF.bind (hF.fileExists path) fun _ => ?_)
    refine hF.ite (hF.snError _ _) (hF.cacheOrListByPtr fun entry => hF.bind hopen fun _ => ?_)
    refine hF.ite (hF.snError _ _) (hF.bind (hF.entryGet _ _ _) fun size => ?_)
    refine hF.bind (hF.onHeap _) fun data => hF.bind hF.ask fun _ => hF.bind (hset _) ?_
    exact fun _ => hF.ite (hF.snError _ _) (hF.pure _)

end CallFrame

theorem OpFrame.snDumpToFile {F : {α : Type} → CProg Lib α → Prop} (hF : OpFrame F)
    (file : Option FileName) (block : Addr) : F (snDumpToFile file block) :=
  hF.dumpTo (fun path _ => hF.setFile path) block

/-- `F` holds of the code of the operations, but for `sn_free` and what calls it, and for
`sn_dump_to_file`. -/
structure OwnFrame (F : {α : Type} → CProg Lib α → Prop) : Prop extends CallFrame F where
  work : F memmanWork
  requestToFastCache : ∀ ptr, F (snRequestToFastCache ptr)
  cacheClear : F memmanCacheClear
  getLastError : F snGetLastError
  setDoFree : ∀ val, F (modify fun s : Lib => { s with doFree := val })
  /-- Writing the manager's settings. -/
  setSetting : ∀ f : AllocManager → AllocManager, (∀ m, (f m).cacheList = m.cacheList) →
    F (setManager f)

/-- `F` holds of the code of the operations, but for `sn_free` and what calls it. -/
structure ExecFrame (F : {α : Type} → CProg Lib α → Prop) : Prop extends OpFrame F where
  work : F memmanWork
  requestToFastCache : ∀ ptr, F (snRequestToFastCache ptr)
  cacheClear : F memmanCacheClear
  getLastError : F snGetLastError
  /-- Writing what the list and the manager do not have. -/
  setField : ∀ f : Lib → Lib, (∀ s, (f s).list = s.list ∧ (f s).manager = s.manager) →
    F (modify f)
  /-- Writing the manager's settings. -/
  setSetting : ∀ f : AllocManager → AllocManager, (∀ m, (f m).cacheList = m.cacheList) →
    F (setManager f)

/-- An operation has `F` if it has it as far as it frees blocks and writes files. -/
theorem OwnFrame.exec {F : {α : Type} → CProg Lib α → Prop} (hF : OwnFrame F) {cfg : Config}
    (op : Op) (hfree : ∀ ptr, op = .free ptr → F (snFree cfg ptr))
    (hmount : ∀ file, op = .mountFileToRam file → F (snMountFileToRam cfg file))
    (hdump : ∀ file block, op = .dumpToFile file block → F (snDumpToFile file block)) :
    F (op.exec cfg) := by
  have heffect : ∀ {α : Type} {m : CProg Lib α}, F m → F (forEffect m) :=
    fun hm => hF.bind hm fun _ => hF.pure _
  have hpass : ∀ {α : Type} {m : CProg Lib α}, OpFrame.AfterPass F m → F (forEffect m) :=
    fun hm => heffect (hF.of_afterPass hm hF.work)
  cases op with
  | malloc size => exact heffect (hF.snMalloc cfg size)
  | calloc num size => exact heffect (hF.snCalloc num size)
  | realloc ptr newSize => exact heffect (hF.snRealloc ptr newSize)
  | mallocPreInitialized size v => exact heffect (hF.snMallocPreInitialized cfg size v)
  | free ptr => exact hfree ptr rfl
  | doAutoFreeAtExit val =>
    exact hF.bind hF.lockAlloc fun _ => hF.bind (hF.setDoFree val) fun _ => hF.unlockAlloc
  | register ptr => exact hpass (hF.snRegister ptr)
  | registerSize ptr size => exact hpass (hF.snRegisterSize ptr size)
  | querySize ptr => exact hpass (hF.snQuerySize ptr)
  | queryTid ptr => exact hpass (hF.snQueryTid ptr)
  | isTrackedBlock ptr => exact hpass (hF.snIsTrackedBlock ptr)
  | setBlockId block id => exact hF.of_afterPass (hF.snSetBlockId block id) hF.work
  | getBlockId block => exact hpass (hF.snGetBlockId block)
  | queryBlockId id => exact hpass (hF.snQueryBlockId id)
  | queryMetadata ptr => exact hpass (hF.snQueryMetadata ptr)
  | queryStaticMetadata ptr => exact heffect (hF.snQueryStaticMetadata hF.work)
  | setAllocLimit limit =>
    exact hF.setSetting (fun m => { m with allocLimit := limit }) fun _ => rfl
  | queryThreadMemoryUsage tid => exact hpass (hF.snQueryThreadMemoryUsage tid)
  | queryTotalMemoryUsage => exact heffect (hF.bind hF.getManager fun _ => hF.pure _)
  | calculateChecksum block => exact hpass (hF.snCalculateChecksum block)
  | memMetadataForEach worker g => exact heffect (hF.snMemMetadataForEach worker g)
  | requestToFastCache ptr => exact heffect (hF.requestToFastCache ptr)
  | lockFastCache => exact hF.setSetting (fun m => { m with cacheLock := true }) fun _ => rfl
  | unlockFastCache => exact hF.setSetting (fun m => { m with cacheLock := false }) fun _ => rfl
  | doFastCaching val => exact hF.setSetting (fun m => { m with useCache := val }) fun _ => rfl
  | fastCacheClear => exact hF.cacheClear
  | dumpToFile file block => exact heffect (hdump file block rfl)
  | mountFileToRam file => exact heffect (hmount file rfl)
  | getLastError => exact heffect hF.getLastError
  | resetLastError => exact hF.setError .snErrOk
  | clientMalloc size => exact heffect (hF.onHeap _)
  | clientFree ptr => exact hF.onHeap _
  | clientWrite ptr bytes => exact hF.onHeap _

/-- An operation has `F` if it has it as far as it frees blocks. -/
theorem ExecFrame.exec {F : {α : Type} → CProg Lib α → Prop} (hF : ExecFrame F) {cfg : Config}
    (op : Op) (hfree : ∀ ptr, op = .free ptr → F (snFree cfg ptr))
    (hmount : ∀ file, op = .mountFileToRam file → F (snMountFileToRam cfg file)) :
    F (op.exec cfg) := by
  have hown : OwnFrame F :=
    { toCallFrame := hF.toCallFrame
      work := hF.work
      requestToFastCache := hF.requestToFastCache
      cacheClear := hF.cacheClear
      getLastError := hF.getLastError
      setDoFree := fun val => hF.setField (fun s => { s with doFree := val }) fun _ => ⟨rfl, rfl⟩
      setSetting := hF.setSetting }
  exact hown.exec op hfree hmount fun file block _ => hF.snDumpToFile file block

end LibSafetynet
