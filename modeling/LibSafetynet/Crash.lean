import LibSafetynet.Setup

/-!
# Error texts and crashes (`src/sn_error.c`, `backend_api/src/sn_crash.c`, `src/sn_debug.c`)

What a crash writes is the list of its calls of `sn_crash_print`, each with its format
and its arguments. `exit` goes on to `library_cleanup`, `abort` does not.
-/

namespace LibSafetynet

open Logic Prog ListState

/-! ## Error texts -/

/-- The value of an error code. `SN_ERR_DEBUG` has the value of `SN_WARN_DUB_FREE`. -/
def SnErrorCodes.code : SnErrorCodes → Int
  | .snErrOk => 0
  | .snErrNullPtr => 5
  | .snErrNoSize => 10
  | .snErrBadSize => 15
  | .snErrBadAlloc => 20
  | .snErrNoAdderFound => 30
  | .snErrNoTidFound => 40
  | .snErrBadBlockId => 50
  | .snErrFilePreExist => 60
  | .snErrFileIo => 70
  | .snErrFileNotExist => 110
  | .snErrAllocLimitHit => 120
  | .snWarnDubFree => 180
  | .snErrSysFail => 185
  | .snErrCatastrophic => 187
  | .snErrDebug => 180
  | .snInfoPlaceholder => 190

/-- `human_readable_messages` -/
def humanReadableMessages : List (SnErrorCodes × String) :=
  [(.snErrOk, "everything is AOK"),
    (.snErrNullPtr, "Null-Pointer provided to function"),
    (.snErrNoSize, "no size Metadata Provided or available"),
    (.snErrBadSize, "Invalid size provided"),
    (.snErrBadAlloc, "libc malloc Returned null"),
    (.snErrNoAdderFound, "no adder provided or available"),
    (.snErrNoTidFound, "No tid found in system"),
    (.snErrBadBlockId, "block id is not above 20"),
    (.snErrFilePreExist, "file path provided already exists"),
    (.snErrFileIo, "Libc Generic file IO error"),
    (.snErrFileNotExist, "file Does not exist"),
    (.snErrAllocLimitHit, "User defined alloc limit has been hit"),
    (.snWarnDubFree, "Possible double free, but not found in registry"),
    (.snErrSysFail, "generic system failure"),
    (.snErrCatastrophic, "Catastrophic system error"),
    (.snErrDebug, "A debug error used in debug crashes"),
    (.snInfoPlaceholder, "Undefined error Error code implementation coming soon")]

/-- `err_name_tap` -/
def errNameTap : List (SnErrorCodes × String) :=
  [(.snErrOk, "SN_ERR_OK"),
    (.snErrNullPtr, "SN_ERR_NULL_PTR"),
    (.snErrNoSize, "SN_ERR_NO_SIZE"),
    (.snErrBadSize, "SN_ERR_BAD_SIZE"),
    (.snErrBadAlloc, "SN_ERR_BAD_ALLOC"),
    (.snErrNoAdderFound, "SN_ERR_NO_ADDER_FOUND"),
    (.snErrNoTidFound, "SN_ERR_NO_TID_FOUND"),
    (.snErrBadBlockId, "SN_ERR_BAD_BLOCK_ID"),
    (.snErrFilePreExist, "SN_ERR_FILE_PRE_EXIST"),
    (.snErrFileIo, "SN_ERR_FILE_IO"),
    (.snErrFileNotExist, "SN_ERR_FILE_NOT_EXIST"),
    (.snErrAllocLimitHit, "SN_ERR_ALLOC_LIMIT_HIT"),
    (.snWarnDubFree, "SN_WARN_DUB_FREE"),
    (.snErrSysFail, "SN_ERR_SYS_FAIL"),
    (.snErrCatastrophic, "SN_ERR_CATASTROPHIC"),
    (.snErrDebug, "SN_ERR_DEBUG"),
    (.snInfoPlaceholder, "SN_INFO_PLACEHOLDER")]

/-- The size of both tables. -/
def tabSize : Int := 191

/-- An element of an array that is given by its initialisers; the last one for an index counts. -/
def tableEntry (table : List (SnErrorCodes × String)) (i : Int) : Option String :=
  (table.reverse.find? fun entry => entry.1.code = i).map (·.2)

/-- `sn_get_error_msg` -/
def snGetErrorMsg (err : Int) : String :=
  if err < SnErrorCodes.code .snErrOk ∨ tabSize ≤ err then "Unknown error"
  else match tableEntry humanReadableMessages err with
  | some str => str
  | none => "Unknown error"

/-- `sn_get_error_name` -/
def snGetErrorName (err : Int) : String :=
  if err < SnErrorCodes.code .snErrOk ∨ tabSize ≤ err then "SN_SOFT_FAKE_ERR_UNKNOWN"
  else match tableEntry errNameTap err with
  | some str => str
  | none => "SN_SOFT_FAKE_ERR_UNKNOWN"

/-- The name tells codes of different values apart, and says of none that it is unknown. -/
theorem snGetErrorName_inj (err err' : SnErrorCodes) :
    (snGetErrorName err.code = snGetErrorName err'.code ↔ err.code = err'.code) ∧
      snGetErrorName err.code ≠ "SN_SOFT_FAKE_ERR_UNKNOWN" := by
  cases err <;> cases err' <;> decide

/-! ## The crash handler -/

/-- An argument of `sn_crash_print`. -/
inductive PrintArg where
  | int (n : Int)
  | pointer (p : Addr)
  | text (str : String)
  deriving DecidableEq

/-- A call of `sn_crash_print`. -/
structure CrashPrint where
  str : String
  args : List PrintArg
  deriving DecidableEq

/-- How the process ends. -/
inductive ProcessEnd where
  | aborted
  | exited (status : Int)
  deriving DecidableEq

/-- The build options of the handler. -/
structure CrashConfig where
  /-- `SN_CONFIG_ENABLE_DUMP_LIST_CRASH` -/
  dumpList : Bool
  /-- `SN_CONFIG_ENABLE_PRIMITIVE_STACK_TRACE`, with the return address of each frame up the
  stack, where there is one. -/
  stackTrace : Option (Nat → Option Addr)

/-- Where `sn_crash` is called. -/
structure CrashSite where
  line : Nat
  file : String
  funcCallName : String

/-- `print_node` of a live node. -/
def nodePrints (node : Addr) (e : LinkedListEntry) : List CrashPrint :=
  [⟨"node@%p(head=%i)\n", [.pointer node, .int e.isHead.toNat]⟩,
    ⟨"previous: %p\n", [.pointer e.previous]⟩,
    ⟨"data: %p\n", [.pointer e.data]⟩,
    ⟨"size: %lu\n", [.int e.size.toNat]⟩,
    ⟨"tid: %lu\n", [.int e.tid.toNat]⟩,
    ⟨"isHead: %i\n", [.int e.isHead.toNat]⟩,
    ⟨"next: %p\n", [.pointer e.next]⟩,
    ⟨"weight : %x\n", [.int e.weight.toNat]⟩]

/-- `print_node` -/
def Crash.printNode (node : Addr) : CProg ListState (List CrashPrint) := do
  if node = NULL then return [⟨"NODE IS NULL", []⟩]
  else return nodePrints node (← deref node)

/-- `list_nodeas`; `generic_arg` carries what is printed. -/
def listNodeas : LinkedListForEachWorker (List CrashPrint) := fun ctx index out => do
  if ctx = NULL then
    return (listForEachLoopBrake, out ++ [⟨"node: %lu is NULL@%p\n", [.int index, .pointer ctx]⟩])
  else
    let node ← Crash.printNode ctx
    return (NULL, out ++ ([⟨"node: %lu\n", [.int index]⟩] ++ node ++ [⟨"\n", []⟩]))

/-- What is printed of the frame `x`. -/
def framePrint (x : Nat) (p : Addr) : CrashPrint := ⟨"Frame %d: %p\n", [.int x, .pointer p]⟩

/-- `print_trace_ent`: `__builtin_return_address(x)` reads past the stack where there is no
frame `x`. -/
def printTraceEnt (frame : Nat → Option Addr) (x : Nat) : CProg Lib CrashPrint :=
  match frame x with
  | some p => return framePrint x p
  | none => stop .undefined

/-- `print_stack_trace` -/
def printStackTrace (frame : Nat → Option Addr) : CProg Lib (List CrashPrint) := do
  let frame0 ← printTraceEnt frame 0
  let frame1 ← printTraceEnt frame 1
  let frame2 ← printTraceEnt frame 2
  let frame3 ← printTraceEnt frame 3
  let frame4 ← printTraceEnt frame 4
  return [frame0, frame1, frame2, frame3, frame4]

/-- The stack trace, where it is built in. -/
def printTrace (cc : CrashConfig) : CProg Lib (List CrashPrint) :=
  match cc.stackTrace with
  | none => return []
  | some frame => do
    let frames ← printStackTrace frame
    return [⟨"\nStock trace:\n", []⟩] ++ frames ++ [⟨"\n", []⟩]

/-- What a crash prints first. -/
def crashTitle (tid : UInt64) (err : SnErrorCodes) (site : CrashSite) : List CrashPrint :=
  [⟨"Crash in libsafetynet/%s:%i(%s) :-(\n\n",
      [.text site.file, .int site.line, .text site.funcCallName]⟩,
    ⟨"ERROR: %i\n", [.int err.code]⟩,
    ⟨"ERROR_NAME: %s\n", [.text (snGetErrorName err.code)]⟩,
    ⟨"ERROR_MSG: %s\n", [.text (snGetErrorMsg err.code)]⟩,
    ⟨"crash on tid %lu\n\n", [.int tid.toNat]⟩]

/-- The dump of the list. -/
def printList (cc : CrashConfig) : CProg ListState (List CrashPrint) := do
  let last ← Crash.printNode (← getList).lastAccess
  let head : List CrashPrint :=
    [⟨"Memory tracking list state:\n", []⟩, ⟨"\nlast_access_node:\n", []⟩]
  if ¬ cc.dumpList then return head ++ last
  else
    let nodes ← linkedListForEach listNodeas []
    return head ++ last ++ [⟨"\n\n", []⟩, ⟨"nodes:\n", []⟩] ++ nodes.2

/-- `__sn__pri__crash__`, up to `abort` or `exit` -/
def Crash.snPriCrash (cc : CrashConfig) (err : SnErrorCodes) (site : CrashSite) :
    CProg Lib (List CrashPrint × ProcessEnd) := do
  let title := crashTitle (← platGetTid) err site
  let header := title ++ (← printTrace cc)
  if err = .snErrCatastrophic then return (header, .aborted)
  else if err = .snErrSysFail then return (header, .exited err.code)
  else return (header ++ (← onList (printList cc)), .exited err.code)

end LibSafetynet
