import LibSafetynet.Allocator

/-!
# Queries and the cache interface (`src/sn_metadata.c`, `src/sn_cache.c`)

Six functions look an entry up in the cache and then in the list, and report a
missing entry with `sn_error` after an unbraced `if`. The macro's `return` is
then unconditional: whatever the list search found, the function returns its
default. `cacheOrList` is that shared part.
-/

namespace LibSafetynet

open Logic Prog

/-- `entry = <cache>; if (entry == MISS) { entry = <list>; if (!entry) sn_error(..); }`
followed by the rest of the function. -/
def cacheOrList {α : Type} (cache list : CProg Lib Addr) (ret : α) (body : Addr → CProg Lib α) :
    CProg Lib α := do
  let entry ← cache
  if entry = memmanCacheMiss then
    let entry ← list
    -- only `sn_set_last_error` is under the `if`
    when (entry = NULL) (snSetLastError .snErrNoAdderFound)
    return ret
  body entry

/-- The lookup by address that five of the functions share. -/
def cacheOrListByPtr {α : Type} (ptr : Addr) (ret : α) (body : Addr → CProg Lib α) :
    CProg Lib α :=
  cacheOrList (memmanTryCacheHit ptr) (onList (linkedListGetByPtr ptr)) ret body

/-! ## Registration -/

/-- `sn_register` -/
def snRegister (ptr : Addr) : CProg Lib Addr := do
  memmanWork
  onList (linkedListPush ptr 0 (← platGetTid))
  return ptr

/-- `sn_register_size` -/
def snRegisterSize (ptr : Addr) (size : UInt64) : CProg Lib Addr := do
  memmanWork
  if ptr = NULL then snError .snErrNullPtr NULL
  else if size = 0 then snError .snErrBadSize NULL
  else if ← onList (linkedListHasPtr ptr) then return ptr
  else
    onList (linkedListPush ptr size (← platGetTid))
    return ptr

/-! ## Queries -/

/-- `sn_query_size` -/
def snQuerySize (ptr : Addr) : CProg Lib UInt64 := do
  memmanWork
  if ptr = NULL then snError .snErrNullPtr 0
  else
    let entry ← onList (linkedListGetByPtr ptr)
    if entry = NULL then snError .snErrNoAdderFound 0
    else onList (linkedListEntryGetSize entry)

/-- `sn_query_tid` -/
def snQueryTid (ptr : Addr) : CProg Lib UInt64 := do
  memmanWork
  if ptr = NULL then snError .snErrNullPtr 0
  else cacheOrListByPtr ptr 0 fun entry => onList (linkedListEntryGetTid entry)

/-- `sn_is_tracked_block` -/
def snIsTrackedBlock (ptr : Addr) : CProg Lib Bool := do
  memmanWork
  if ptr = NULL then snError .snErrNullPtr false
  else
    let notHasEntry := (← memmanTryCacheHit ptr) = memmanCacheMiss
    if notHasEntry then return notHasEntry
    onList (linkedListHasPtr ptr)

/-- `sn_set_block_id` -/
def snSetBlockId (block : Addr) (id : UInt16) : CProg Lib Unit := do
  memmanWork
  if block = NULL then snError .snErrNullPtr ()
  else if id ≤ 20 then snError .snErrBadBlockId ()
  else cacheOrListByPtr block () fun entry => onList (linkedListEntrySetBlockId entry id)

/-- `sn_get_block_id` -/
def snGetBlockId (block : Addr) : CProg Lib UInt16 := do
  memmanWork
  if block = NULL then snError .snErrNullPtr 0
  else cacheOrListByPtr block 0 fun entry => onList (linkedListEntryGetBlockId entry)

/-- `sn_query_block_id` -/
def snQueryBlockId (id : UInt16) : CProg Lib Addr := do
  memmanWork
  if id = 0 then snError .snErrBadBlockId NULL
  else
    cacheOrList (memmanTryCacheHitById id) (onList (linkedListGetById id)) NULL
      fun entry => onList (linkedListEntryGetData entry)

/-- `offsetof(linked_list_entry_t, data)`: where the metadata view of a node starts. -/
def offsetofData : Nat := 8

/-- `sn_query_metadata`; the result is the address `&entry->data`. -/
def snQueryMetadata (ptr : Addr) : CProg Lib Addr := do
  memmanWork
  if ptr = NULL then snError .snErrNullPtr NULL
  else cacheOrListByPtr ptr NULL fun entry => return entry + offsetofData

/-- The `n` bytes of a number, least significant first. -/
def leBytes : Nat → Nat → List UInt8
  | 0, _ => []
  | n + 1, v => UInt8.ofNat v :: leBytes n (v / 256)

/-- `sizeof(sn_mem_metadata_t)` -/
def sizeofSnMemMetadata : UInt64 := 32

/-- The bytes of a node from `data` on, as many as `sn_mem_metadata_t` has. The
last four are no fields of the metadata: `isHead`, `_weight` and padding. -/
def metadataBytes (e : LinkedListEntry) : List UInt8 :=
  leBytes 8 e.data ++ leBytes 8 e.size.toNat ++ leBytes 8 e.tid.toNat ++
    [e.cached.toUInt8, 0] ++ leBytes 2 e.blockId.toNat ++ [e.isHead.toUInt8, e.weight, 0, 0]

/-- `sn_query_static_metadata` -/
def snQueryStaticMetadata (cfg : Config) (ptr : Addr) : CProg Lib Addr := do
  memmanWork
  let memMetadata ← snQueryMetadata ptr
  if memMetadata = NULL then return NULL
  let retCopyMeta ← snMalloc cfg sizeofSnMemMetadata
  if retCopyMeta = NULL then return NULL
  let e ← onList (deref (memMetadata - offsetofData))
  onHeap (memWrite retCopyMeta (metadataBytes e))
  return retCopyMeta

/-- `sn_set_alloc_limit` -/
def snSetAllocLimit (limit : UInt64) : CProg Lib Unit :=
  setManager fun m => { m with allocLimit := limit }

/-- `search_for_tid`; `generic_arg` carries the running sum. -/
def searchForTid (tid : UInt64) : LinkedListForEachWorker UInt64 := fun ctx _ siz => do
  let e ← deref ctx
  if e.tid = tid then return (NULL, siz + e.size)
  return (NULL, siz)

/-- `sn_query_thread_memory_usage` -/
def snQueryThreadMemoryUsage (tid : UInt64) : CProg Lib UInt64 := do
  memmanWork
  let ret ← onList (linkedListForEach (searchForTid tid) 0)
  return ret.2

/-- `sn_query_total_memory_usage` -/
def snQueryTotalMemoryUsage : CProg Lib UInt64 := do
  return (← getManager).globalMemoryUsage

/-- The loop of `sn_calculate_checksum`: `int` terms, `i` by its low byte. -/
def checksumLoop (mixer mid last : UInt8) : Nat → List UInt8 → UInt64 → UInt64
  | _, [], checksum => checksum
  | i, d :: data, checksum =>
    let term := ((d ^^^ mixer).toNat + mid.toNat) * last.toNat + i % 256
    checksumLoop mixer mid last (i + 1) data (UInt64.ofNat term ^^^ checksum)

/-- The checksum of a block's bytes. -/
def checksumBytes (data : List UInt8) : UInt64 :=
  let first := data.headD 0
  if data.length = 1 then UInt64.ofNat (first ^^^ 0xFF).toNat
  else
    let last := data.getLastD 0
    let mid := data.getD (data.length / 2) 0
    checksumLoop (~~~(first ^^^ last) ^^^ mid) mid last 0 data 0

/-- `sn_calculate_checksum` -/
def snCalculateChecksum (block : Addr) : CProg Lib UInt64 := do
  memmanWork
  if block = NULL then snError .snErrNullPtr 0
  else
    cacheOrListByPtr block 0 fun entry => do
      let size ← onList (linkedListEntryGetSize entry)
      if size = 0 then snError .snErrBadSize 0
      else
        let data ← onHeap (memRead block size.toNat)
        return checksumBytes data

/-- `sn_mem_metadata_t` -/
structure SnMemMetadata where
  data : Addr
  size : UInt64
  tid : UInt64
  cached : Bool
  blockId : UInt16
  deriving DecidableEq

/-- The metadata view of a node. -/
def LinkedListEntry.metadata (e : LinkedListEntry) : SnMemMetadata :=
  { data := e.data, size := e.size, tid := e.tid, cached := e.cached, blockId := e.blockId }

/-- What a client worker gets as its last argument. -/
inductive WorkerArg where
  /-- The argument the client passed. -/
  | client (genericArg : Addr)
  /-- `__sn_mem_metadata_for_each_data_t`, with the client's argument inside. -/
  | wrapper (realGenericArg : Addr)
  deriving DecidableEq

/-- `sn_metadata_for_each_worker_f`; a worker only looks at the metadata. -/
abbrev SnMetadataForEachWorker := SnMemMetadata → Nat → WorkerArg → Addr

/-- `mem_metadata_for_each`; `generic_arg` carries `out`. The client's worker is
handed the wrapper itself. -/
def memMetadataForEach (worker : SnMetadataForEachWorker) (realGenericArg : Addr) :
    LinkedListForEachWorker Addr := fun ctx index out => do
  let rt := worker (← deref ctx).metadata index (.wrapper realGenericArg)
  if rt ≠ NULL then return (listForEachLoopBrake, rt)
  return (NULL, out)

/-- `sn_mem_metadata_for_each` -/
def snMemMetadataForEach (worker : SnMetadataForEachWorker) (genericArg : Addr) :
    CProg Lib Addr := do
  let ret ← onList (linkedListForEach (memMetadataForEach worker genericArg) NULL)
  if ret.1 = listForEachLoopBrake then return ret.2
  return NULL

/-! ## The cache interface -/

/-- `sn_request_to_fast_cache` -/
def snRequestToFastCache (ptr : Addr) : CProg Lib Bool := do
  if ptr = NULL then snError .snErrNullPtr false
  else
    let entry ← onList (linkedListGetByPtr ptr)
    if entry = NULL then snError .snErrNoAdderFound false
    else memmanTryCachePut entry

/-- `sn_lock_fast_cache` -/
def snLockFastCache : CProg Lib Unit := setManager fun m => { m with cacheLock := true }

/-- `sn_unlock_fast_cache` -/
def snUnlockFastCache : CProg Lib Unit := setManager fun m => { m with cacheLock := false }

/-- `sn_do_fast_caching` -/
def snDoFastCaching (val : Bool) : CProg Lib Unit := setManager fun m => { m with useCache := val }

/-- `sn_fast_cache_clear` -/
def snFastCacheClear : CProg Lib Unit := memmanCacheClear

end LibSafetynet
