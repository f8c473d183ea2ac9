import LibSafetynet.AllocManager

/-!
# Errors and allocation (`src/sn_error.c`, `src/sn_allocator.c`)

The macro `sn_error(code, value)` is two statements. Inside braces it is
`snError`; after an unbraced `if` only its first statement is conditional, which
the functions of `Metadata.lean` spell out.
-/

namespace LibSafetynet

open Logic Prog

/-- `sn_set_last_error` -/
def snSetLastError (err : SnErrorCodes) : CProg Lib Unit := do
  lockAlloc
  modify fun s => { s with errorCode := err }
  unlockAlloc

/-- `sn_get_last_error` -/
def snGetLastError : CProg Lib SnErrorCodes := do
  return (← get).errorCode

/-- `sn_reset_last_error` -/
def snResetLastError : CProg Lib Unit :=
  modify fun s => { s with errorCode := .snErrOk }

/-- `sn_error(err, ret)` where both statements are in the same block. -/
def snError {α : Type} (err : SnErrorCodes) (ret : α) : CProg Lib α := do
  snSetLastError err
  return ret

/-- The build options that change what the library does. -/
structure Config where
  /-- `SN_CONFIG_SANITIZE_MEMORY_ON_FREE` -/
  sanitizeMemoryOnFree : Bool

/-- `sn_malloc` -/
def snMalloc (cfg : Config) (size : UInt64) : CProg Lib Addr := do
  if size = 0 then snError .snErrBadSize NULL
  else if ¬ memmanCanAllocateBasedOnLimitAndSize (← getManager) size then
    snError .snErrAllocLimitHit NULL
  else
    let pr ← onHeap (platMalloc size)
    if pr = NULL then snError .snErrBadAlloc NULL
    else
      when cfg.sanitizeMemoryOnFree (onHeap (memset pr 0 size.toNat))
      setManager fun m => { m with globalMemoryUsage := m.globalMemoryUsage + size }
      onList (linkedListPush pr size (← platGetTid))
      return pr

/-- The lookup of `sn_free`: the cache, then the list. -/
def lookupEntry (ptr : Addr) : CProg Lib Addr := do
  let entry ← memmanTryCacheHit ptr
  if entry = memmanCacheMiss then onList (linkedListGetByPtr ptr) else return entry

/-- `sn_free` -/
def snFree (cfg : Config) (ptr : Addr) : CProg Lib Unit := do
  if ptr = NULL then snError .snErrNullPtr ()
  else
    let entry ← lookupEntry ptr
    if entry = NULL then snError .snErrNoAdderFound ()
    else
      when cfg.sanitizeMemoryOnFree do
        let e ← onList (deref entry)
        onHeap (memset e.data 0 e.size.toNat)
      let size := (← onList (deref entry)).size
      setManager fun m => { m with globalMemoryUsage := m.globalMemoryUsage - size }
      memmanCacheInvalidate ptr
      let data ← onList (linkedListEntryGetData entry)
      onHeap (platFree data)
      onList (linkedListRemoveEntryByPtr ptr)

/-- `sn_calloc`. The list is told `size`, the counter `size * num`. -/
def snCalloc (num size : UInt64) : CProg Lib Addr := do
  if size = 0 ∨ num = 0 then snError .snErrBadSize NULL
  else if ¬ memmanCanAllocateBasedOnLimitAndSize (← getManager) (size * num) then
    snError .snErrAllocLimitHit NULL
  else
    let pr ← onHeap (platCalloc num size)
    if pr = NULL then snError .snErrBadAlloc NULL
    else
      setManager fun m => { m with globalMemoryUsage := m.globalMemoryUsage + size * num }
      onList (linkedListPush pr size (← platGetTid))
      return pr

/-- `sn_realloc` -/
def snRealloc (ptr : Addr) (newSize : UInt64) : CProg Lib Addr := do
  if ptr = NULL then snError .snErrNullPtr NULL
  else
    let entry ← onList (linkedListGetByPtr ptr)
    if entry = NULL then snError .snErrNoAdderFound NULL
    else if newSize = 0 then snError .snErrBadSize NULL
    else
      let size := (← onList (deref entry)).size
      if size < newSize ∧
          ¬ memmanCanAllocateBasedOnLimitAndSize (← getManager) (newSize - size) then
        snError .snErrAllocLimitHit NULL
      else
        let newPtr ← onHeap (platRealloc ptr newSize)
        if newPtr = NULL then snError .snErrBadAlloc NULL
        else
          setManager fun m => { m with globalMemoryUsage := m.globalMemoryUsage - size }
          setManager fun m => { m with globalMemoryUsage := m.globalMemoryUsage + newSize }
          onList (linkedListEntrySetData entry newPtr)
          onList (linkedListEntrySetSize entry newSize)
          return newPtr

/-- `sn_malloc_pre_initialized` -/
def snMallocPreInitialized (cfg : Config) (size : UInt64) (initialByteValue : UInt8) :
    CProg Lib Addr := do
  let ptr ← snMalloc cfg size
  if ptr = NULL then return ptr
  onHeap (memset ptr initialByteValue size.toNat)
  return ptr

/-- `sn_do_auto_free_at_exit` -/
def snDoAutoFreeAtExit (val : Bool) : CProg Lib Unit := do
  lockAlloc
  modify fun s => { s with doFree := val }
  unlockAlloc

end LibSafetynet
