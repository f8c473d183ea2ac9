import LibSafetynet.Logic.Run
import LibSafetynet.Setup

/-!
# Runs of the library

`Op` lists the public operations, and what the client does to its own memory in
between: allocating and freeing blocks the library knows nothing of, and writing
to its blocks. A label of a run is an operation with the platform's answers to
it; an operation that does not return ends the run.
-/

namespace LibSafetynet

open Logic Prog

/-- What a client can do. -/
inductive Op where
  | malloc (size : UInt64)
  | calloc (num size : UInt64)
  | realloc (ptr : Addr) (newSize : UInt64)
  | mallocPreInitialized (size : UInt64) (initialByteValue : UInt8)
  | free (ptr : Addr)
  | doAutoFreeAtExit (val : Bool)
  | register (ptr : Addr)
  | registerSize (ptr : Addr) (size : UInt64)
  | querySize (ptr : Addr)
  | queryTid (ptr : Addr)
  | isTrackedBlock (ptr : Addr)
  | setBlockId (block : Addr) (id : UInt16)
  | getBlockId (block : Addr)
  | queryBlockId (id : UInt16)
  | queryMetadata (ptr : Addr)
  | queryStaticMetadata (ptr : Addr)
  | setAllocLimit (limit : UInt64)
  | queryThreadMemoryUsage (tid : UInt64)
  | queryTotalMemoryUsage
  | calculateChecksum (block : Addr)
  | memMetadataForEach (worker : SnMetadataForEachWorker) (genericArg : Addr)
  | requestToFastCache (ptr : Addr)
  | lockFastCache
  | unlockFastCache
  | doFastCaching (val : Bool)
  | fastCacheClear
  | dumpToFile (file : Option FileName) (block : Addr)
  | mountFileToRam (file : Option FileName)
  | getLastError
  | resetLastError
  /-- The client's own `malloc`. -/
  | clientMalloc (size : UInt64)
  /-- The client's own `free`. -/
  | clientFree (ptr : Addr)
  /-- The client overwrites the first bytes of a block. -/
  | clientWrite (ptr : Addr) (bytes : List UInt8)

/-- The client's own `free`: not a call of `plat_free`. -/
def clientReleases (ptr : Addr) : CProg ClientHeap Unit := do
  if ptr = NULL then return ()
  when (¬ (← get).Live ptr) (stop .undefined)
  modify (·.drop ptr)

/-- Run an operation for its effect. -/
def forEffect {α : Type} (m : CProg Lib α) : CProg Lib Unit := do
  let _ ← m
  return ()

/-- The operation itself. -/
def Op.exec (cfg : Config) : Op → CProg Lib Unit
  | .malloc size => forEffect (snMalloc cfg size)
  | .calloc num size => forEffect (snCalloc num size)
  | .realloc ptr newSize => forEffect (snRealloc ptr newSize)
  | .mallocPreInitialized size v => forEffect (snMallocPreInitialized cfg size v)
  | .free ptr => snFree cfg ptr
  | .doAutoFreeAtExit val => snDoAutoFreeAtExit val
  | .register ptr => forEffect (snRegister ptr)
  | .registerSize ptr size => forEffect (snRegisterSize ptr size)
  | .querySize ptr => forEffect (snQuerySize ptr)
  | .queryTid ptr => forEffect (snQueryTid ptr)
  | .isTrackedBlock ptr => forEffect (snIsTrackedBlock ptr)
  | .setBlockId block id => snSetBlockId block id
  | .getBlockId block => forEffect (snGetBlockId block)
  | .queryBlockId id => forEffect (snQueryBlockId id)
  | .queryMetadata ptr => forEffect (snQueryMetadata ptr)
  | .queryStaticMetadata ptr => forEffect (snQueryStaticMetadata cfg ptr)
  | .setAllocLimit limit => snSetAllocLimit limit
  | .queryThreadMemoryUsage tid => forEffect (snQueryThreadMemoryUsage tid)
  | .queryTotalMemoryUsage => forEffect snQueryTotalMemoryUsage
  | .calculateChecksum block => forEffect (snCalculateChecksum block)
  | .memMetadataForEach worker genericArg => forEffect (snMemMetadataForEach worker genericArg)
  | .requestToFastCache ptr => forEffect (snRequestToFastCache ptr)
  | .lockFastCache => snLockFastCache
  | .unlockFastCache => snUnlockFastCache
  | .doFastCaching val => snDoFastCaching val
  | .fastCacheClear => snFastCacheClear
  | .dumpToFile file block => forEffect (snDumpToFile file block)
  | .mountFileToRam file => forEffect (snMountFileToRam cfg file)
  | .getLastError => forEffect snGetLastError
  | .resetLastError => snResetLastError
  | .clientMalloc size => forEffect (onHeap (platMalloc size))
  | .clientFree ptr => onHeap (clientReleases ptr)
  | .clientWrite ptr bytes => onHeap (memWrite ptr bytes)

/-- One completed operation. -/
def libStep (cfg : Config) (l : Env × Op) (s : Lib) : Option Lib := (l.2.exec cfg l.1 s).done?

/-- `s` is the state right after the library was loaded. -/
def Started (s : Lib) : Prop := ∃ env, doinit env .blank = .done () s

/-- `s` is reached from the start of the library by completed operations. -/
def Reachable (cfg : Config) (s : Lib) : Prop :=
  ∃ s₀ ls, Started s₀ ∧ run (libStep cfg) ls s₀ = some s

theorem started_of_done {env : Env} {s : Lib} (h : (doinit env .blank).done? = some s) :
    Started s :=
  ⟨env, (Outcome.done?_eq_some.mp h).choose_spec⟩

theorem Started.reachable {cfg : Config} {s : Lib} (h : Started s) : Reachable cfg s :=
  ⟨s, [], h, rfl⟩

end LibSafetynet
