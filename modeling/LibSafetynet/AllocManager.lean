import Mathlib.Data.List.FinRange
import LibSafetynet.LinkedList

/-!
# The allocation manager (`backend_api/src/allocation_manager/alloc_manager_c.c`)

The cache of recently used entries and the allocation counters, over the whole
state of the library.

- `Lib`: the globals of `setup.c` (`mem_list`, `alloc_mutex`, `memory_manager`,
  `doFree`), the last error code, and the memory and files the library works on.
- A slot of `cache_list` holds the address of a node. Nothing ties it to the
  list: reading a slot whose node is gone is undefined, as for any dead node.
- The loops over the slots are recursions over the list of slot indices; a loop
  that only reads the manager and leaves at the first match is `find?`.
-/

namespace LibSafetynet

open Logic Prog

/-- `MEMMAN_MAX_CACHE_SLOTS` -/
abbrev memmanMaxCacheSlots : Nat := 5

/-- `MEMMAN_CACHE_MISS` -/
abbrev memmanCacheMiss : Addr := NULL

/-- `MEMMAN_NO_ALLOC_LIMIT` -/
abbrev memmanNoAllocLimit : UInt64 := 0

/-- An index into `cache_list` -/
abbrev Slot := Fin memmanMaxCacheSlots

/-- The slots in the order the loops visit them. -/
def slots : List Slot := List.finRange memmanMaxCacheSlots

/-- `cache_pair_t` -/
structure CachePair where
  key : Addr
  value : Addr
  deriving DecidableEq

/-- A slot after `memset(.., 0, ..)`. -/
def CachePair.empty : CachePair := ⟨NULL, NULL⟩

/-- `alloc_manager_t`; its `mutex_ref` is `Lib.allocMutex`. -/
structure AllocManager where
  cacheList : Slot → CachePair
  availableCacheSlots : UInt8
  cacheLock : Bool
  useCache : Bool
  allocLimit : UInt64
  globalMemoryUsage : UInt64

/-- A path in the file system. -/
abbrev FileName := List UInt8

/-- The globals of the library, the client's memory and the files. -/
structure Lib where
  list : ListState
  manager : AllocManager
  allocMutex : Option PlatMutex
  errorCode : SnErrorCodes
  doFree : Bool
  heap : ClientHeap
  files : Finmap fun _ : FileName => List UInt8

/-- Run list code on `mem_list`. -/
def onList {α : Type} (m : CProg ListState α) : CProg Lib α :=
  zoom (·.list) (fun l s => { s with list := l }) m

/-- Run allocator code on the client's memory. -/
def onHeap {α : Type} (m : CProg ClientHeap α) : CProg Lib α :=
  zoom (·.heap) (fun h s => { s with heap := h }) m

/-- `plat_mutex_lock(alloc_mutex)` -/
def lockAlloc : CProg Lib Unit :=
  zoom (·.allocMutex) (fun m s => { s with allocMutex := m }) platMutexLock

/-- `plat_mutex_unlock(alloc_mutex)` -/
def unlockAlloc : CProg Lib Unit :=
  zoom (·.allocMutex) (fun m s => { s with allocMutex := m }) platMutexUnlock

/-- Read the manager. -/
def getManager : CProg Lib AllocManager := do
  return (← get).manager

/-- Write the manager. -/
def setManager (f : AllocManager → AllocManager) : CProg Lib Unit :=
  modify fun s => { s with manager := f s.manager }

/-- `memman_new` -/
def memmanNew : AllocManager :=
  { cacheList := fun _ => .empty, availableCacheSlots := 5, cacheLock := false, useCache := true
    allocLimit := memmanNoAllocLimit, globalMemoryUsage := 0 }

/-- Overwrite one slot. -/
def AllocManager.setSlot (self : AllocManager) (i : Slot) (pair : CachePair) : AllocManager :=
  { self with cacheList := Function.update self.cacheList i pair }

/-! ## The automatic pass -/

/-- The slot loop of `memman_CacheAlgorithmWorker`: the first slot that is empty
or whose node is light. -/
def memmanPickSlot (self : AllocManager) : List Slot → CProg ListState (Option Slot)
  | [] => return none
  | i :: rest => do
    let value := (self.cacheList i).value
    if value = NULL then return some i
    if (← deref value).weight < 10 then return some i
    memmanPickSlot self rest

/-- `memman_CacheAlgorithmWorker`; `generic_arg` is the manager. -/
def memmanCacheAlgorithmWorker : LinkedListForEachWorker AllocManager := fun ctx _ self => do
  if (← deref ctx).weight ≤ 10 then
    store ctx fun e => { e with weight := 0, cached := true }
    match ← memmanPickSlot self slots with
    | none => return (NULL, self)
    | some i =>
      store ctx fun e => { e with cached := true }
      let key := (← deref ctx).data
      return (NULL, self.setSlot i { key, value := ctx })
  return (NULL, self)

/-- `memman_work` -/
def memmanWork : CProg Lib Unit := do
  lockAlloc
  let ret ← onList (linkedListForEach memmanCacheAlgorithmWorker (← getManager))
  setManager fun _ => ret.2
  unlockAlloc

/-! ## Lookups -/

/-- The first slot with this (non-null) key. -/
def AllocManager.keySlot (self : AllocManager) (key : Addr) : Option Slot :=
  slots.find? fun i => (self.cacheList i).key ≠ NULL ∧ (self.cacheList i).key = key

/-- `memman_TryCacheHit` -/
def memmanTryCacheHit (key : Addr) : CProg Lib Addr := do
  if ¬ (← getManager).useCache then return memmanCacheMiss
  lockAlloc
  let self ← getManager
  match self.keySlot key with
  | some i =>
    let value := (self.cacheList i).value
    onList (store value fun e => { e with weight := e.weight + 1 })
    unlockAlloc
    return value
  | none =>
    unlockAlloc
    return memmanCacheMiss

/-- The slot loop of `memman_TryCacheHitById`. -/
def memmanScanIds (self : AllocManager) (id : UInt16) : List Slot → CProg ListState Addr
  | [] => return memmanCacheMiss
  | i :: rest => do
    let value := (self.cacheList i).value
    if value = NULL then memmanScanIds self id rest
    else if (← deref value).blockId = id then return value
    else memmanScanIds self id rest

/-- `memman_TryCacheHitById` -/
def memmanTryCacheHitById (id : UInt16) : CProg Lib Addr := do
  if ¬ (← getManager).useCache then return memmanCacheMiss
  lockAlloc
  let value ← onList (memmanScanIds (← getManager) id slots)
  unlockAlloc
  return value

/-! ## Emptying and filling slots -/

/-- The loop of `memman_cacheInvalidate` and `memman_cacheClear`: the slots whose
key is wanted are zeroed, and their nodes' `cached` is set to `cached`. -/
def memmanDropSlots (wanted : Addr → Bool) (cached : Bool) : List Slot → CProg Lib Unit
  | [] => return ()
  | i :: rest => do
    let pair := (← getManager).cacheList i
    when (pair.key ≠ NULL ∧ wanted pair.key) do
      onList (store pair.value fun e => { e with cached })
      setManager fun self =>
        { self.setSlot i .empty with availableCacheSlots := self.availableCacheSlots + 1 }
    memmanDropSlots wanted cached rest

/-- `memman_cacheInvalidate` -/
def memmanCacheInvalidate (key : Addr) : CProg Lib Unit := do
  lockAlloc
  memmanDropSlots (· = key) false slots
  unlockAlloc

/-- `memman_cacheClear`. The source sets `cached` to 1 here. -/
def memmanCacheClear : CProg Lib Unit := do
  lockAlloc
  memmanDropSlots (fun _ => true) true slots
  unlockAlloc

/-- The first slot with a null key. -/
def AllocManager.freeSlot (self : AllocManager) : Option Slot :=
  slots.find? fun i => (self.cacheList i).key = NULL

/-- `memman_tryCachePut` -/
def memmanTryCachePut (entry : Addr) : CProg Lib Bool := do
  let self ← getManager
  if self.cacheLock ∨ ¬ self.useCache then return false
  if self.availableCacheSlots = 0 then return false
  lockAlloc
  match self.freeSlot with
  | some i =>
    let key := (← onList (deref entry)).data
    setManager fun self =>
      { self.setSlot i { key, value := entry } with
        availableCacheSlots := self.availableCacheSlots - 1 }
    onList (store entry fun e => { e with cached := true })
    unlockAlloc
    return true
  | none => stop (.crash .snErrSysFail)

/-! ## The allocation limit -/

/-- `memman_canAllocateBasedOnLimitAndSize` -/
def memmanCanAllocateBasedOnLimitAndSize (self : AllocManager) (size : UInt64) : Bool :=
  if self.allocLimit = memmanNoAllocLimit then true
  else if self.allocLimit ≤ self.globalMemoryUsage + size then false
  else true

end LibSafetynet
