import LibSafetynet.Metadata

/-!
# Files, start and exit (`src/sn_file_work.c`, `backend_api/src/setup.c`)

The file system is a map from paths to bytes; a null path is `none`. Each `fopen`
of a call may fail on its own (`Env.fopenOk`).
-/

namespace LibSafetynet

open Logic Prog

/-! ## Files -/

/-- The call's `n`-th `fopen(path, "rb")`: the contents, if it succeeds. -/
def fopenRead (n : Nat) (path : FileName) : CProg Lib (Option (List UInt8)) := do
  if (← ask).fopenOk n then return (← get).files.lookup path
  return none

/-- The call's `n`-th `fopen(path, "wb")`: creates or truncates the file. -/
def fopenWrite (n : Nat) (path : FileName) : CProg Lib Bool := do
  if (← ask).fopenOk n then
    modify fun s => { s with files := s.files.insert path [] }
    return true
  return false

/-- `file_exists` -/
def fileExists (path : FileName) : CProg Lib Bool := do
  return (← fopenRead 0 path).isSome

/-- `sn_dump_to_file` -/
def snDumpToFile (file : Option FileName) (block : Addr) : CProg Lib Bool := do
  match file with
  | none => snError .snErrNullPtr false
  | some path =>
    if block = NULL then snError .snErrNullPtr false
    else if ← fileExists path then snError .snErrFilePreExist false
    else
      cacheOrListByPtr block false fun entry => do
        if ¬ (← fopenWrite 1 path) then snError .snErrFileIo false
        else
          let size ← onList (linkedListEntryGetSize entry)
          let data ← onHeap (memRead block size.toNat)
          let env ← ask
          let written := data.take env.transferred
          -- what `fclose` returns is not looked at
          modify fun s => { s with files := s.files.insert path (written.take env.flushed) }
          if written.length ≠ size.toNat then snError .snErrFileIo false
          else return true

/-- `sn_mount_file_to_ram` -/
def snMountFileToRam (cfg : Config) (file : Option FileName) : CProg Lib Addr := do
  match file with
  | none => snError .snErrNullPtr NULL
  | some path =>
    if ¬ (← fileExists path) then snError .snErrFileNotExist NULL
    else
      match ← fopenRead 1 path with
      | none => snError .snErrFileIo NULL
      | some content =>
        let filesize := UInt64.ofNat content.length
        if filesize = 0 then snError .snErrBadSize NULL
        else
          let buffer ← snMalloc cfg filesize
          when (buffer = NULL) (stop (.crash .snErrBadAlloc))
          let read := (content.take filesize.toNat).take (← ask).transferred
          onHeap (memWrite buffer read)
          if read.length ≠ filesize.toNat then
            snFree cfg buffer
            snError .snErrFileIo NULL
          else return buffer

/-! ## Start and exit -/

/-- The process before the library is loaded. -/
def Lib.blank : Lib :=
  { list := .blank, manager := memmanNew, allocMutex := none, errorCode := .snErrOk
    doFree := true, heap := ⟨∅, []⟩, files := ∅ }

/-- `doinit` -/
def doinit : CProg Lib Unit := do
  onList linkedListNew
  let allocMutex ← platMutexNew 1
  modify fun s => { s with allocMutex }
  setManager fun _ => memmanNew

/-- `freeOnListFree`; `generic_arg` carries the client's memory. -/
def freeOnListFree (cfg : Config) (doFree : Bool) : LinkedListForEachWorker ClientHeap :=
  fun ctx _ heap => do
    if ¬ doFree then return (NULL, heap)
    let e ← deref ctx
    let ret ← onArg (do
      when cfg.sanitizeMemoryOnFree (memset e.data 0 e.size.toNat)
      platFree e.data) heap
    return (NULL, ret.2)

/-- `doexit` -/
def doexit (cfg : Config) : CProg Lib Unit := do
  when ((← onList linkedListGetSize) ≠ 0) do
    let s ← get
    let ret ← onList (linkedListForEach (freeOnListFree cfg s.doFree) s.heap)
    modify fun s => { s with heap := ret.2 }
  modify fun s => { s with allocMutex := none }
  onList linkedListDestroy

end LibSafetynet
