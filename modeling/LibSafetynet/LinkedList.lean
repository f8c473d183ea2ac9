import LibSafetynet.Logic.Links
import LibSafetynet.Platform

/-!
# The tracking list (`backend_api/src/linked_list_c.c`)

The list as the code keeps it: nodes on a heap, linked both ways behind a dummy
head, with a separately maintained `len`. Every function below is the source
function of the same name over `ListState`, one statement at a time, including
each lock and unlock.

A pointer argument that the source passes through `generic_arg` is the value it
points at: a for-each worker takes it and returns it with its writes.

- `ListState`: the node heap, the `linked_list_t` fields, the mutex object that
  `list->mutex` points at, and the calls of `plat_free` on nodes.
- `len` is a `Nat`: `size_t` wraps only after 2^64 pushes.
- `ListState.entries`: the addresses visited from the head by `next`, the
  observation every statement about "the entries of `mem_list`" is made with.
-/

namespace LibSafetynet

open Logic Prog

/-- The `mutex` field of a node: null, or the mutex of the list. -/
inductive MutexRef where
  | null
  | list
  deriving DecidableEq

/-- `linked_list_entry_t` -/
structure LinkedListEntry where
  previous : Addr
  data : Addr
  size : UInt64
  tid : UInt64
  cached : Bool
  blockId : UInt16
  isHead : Bool
  weight : UInt8
  mutex : MutexRef
  next : Addr
  deriving DecidableEq

/-- `sizeof(linked_list_entry_t)` -/
def sizeofLinkedListEntry : Nat := 56

/-- `linked_list_t` without its mutex -/
structure LinkedList where
  head : Addr
  len : Nat
  firstEntry : Addr
  lastEntry : Addr
  lastAccess : Addr
  deriving DecidableEq

/-- The live nodes by address. -/
abbrev NodeHeap := Finmap fun _ : Addr => LinkedListEntry

/-- The node at an address that is known to be live. -/
def nodeAt (h : NodeHeap) (a : Addr) : LinkedListEntry :=
  (h.lookup a).getD ⟨NULL, NULL, 0, 0, false, 0, false, 0, .null, NULL⟩

/-- The next pointer stored at a node. -/
def nextAt (h : NodeHeap) (a : Addr) : Option Addr := (h.lookup a).map (·.next)

/-- The previous pointer stored at a node. -/
def prevAt (h : NodeHeap) (a : Addr) : Option Addr := (h.lookup a).map (·.previous)

/-- Rewrite the node at an address that is known to be live. -/
def updNode (h : NodeHeap) (a : Addr) (f : LinkedListEntry → LinkedListEntry) : NodeHeap :=
  h.insert a (f (nodeAt h a))

/-- The memory the list code works on. -/
structure ListState where
  nodes : NodeHeap
  list : LinkedList
  mutex : Option PlatMutex
  freed : List Addr

namespace ListState

/-- The memory before `linked_list_new`. -/
def blank : ListState := ⟨∅, ⟨NULL, 0, NULL, NULL, NULL⟩, none, []⟩

/-- The entries of the list: the nodes reached from the head by `next`. -/
def entries (s : ListState) : List Addr :=
  chase (nextAt s.nodes) NULL (s.nodes.keys.card + 1) ((nextAt s.nodes s.list.head).getD NULL)

/-- `a` may be handed out for a node: the struct fits there and nothing lives there. -/
def AdmitsNode (s : ListState) (a : Addr) : Prop :=
  a ≠ NULL ∧ a + sizeofLinkedListEntry ≤ addressSpace ∧ (s.nodes.lookup a).isNone

instance (s : ListState) (a : Addr) : Decidable (s.AdmitsNode a) :=
  inferInstanceAs (Decidable (_ ∧ _ ∧ _))

end ListState

/-! ## Memory access -/

/-- Read the node at `a`. -/
def deref (a : Addr) : CProg ListState LinkedListEntry := do
  match (← get).nodes.lookup a with
  | some e => return e
  | none => stop .undefined

/-- Write the node at `a`. -/
def store (a : Addr) (f : LinkedListEntry → LinkedListEntry) : CProg ListState Unit := do
  let _ ← deref a
  modify fun s => { s with nodes := updNode s.nodes a f }

/-- Read the list's own fields. -/
def getList : CProg ListState LinkedList := do
  return (← get).list

/-- Write the list's own fields. -/
def setList (f : LinkedList → LinkedList) : CProg ListState Unit :=
  modify fun s => { s with list := f s.list }

/-- `plat_mutex_lock(self->mutex)` -/
def lockList : CProg ListState Unit :=
  zoom (·.mutex) (fun m s => { s with mutex := m }) platMutexLock

/-- `plat_mutex_unlock(self->mutex)` -/
def unlockList : CProg ListState Unit :=
  zoom (·.mutex) (fun m s => { s with mutex := m }) platMutexUnlock

/-- `plat_mutex_lock(self->mutex)` of a node -/
def lockEntry (self : Addr) : CProg ListState Unit := do
  match (← deref self).mutex with
  | .null => return ()
  | .list => lockList

/-- `plat_mutex_unlock(self->mutex)` of a node -/
def unlockEntry (self : Addr) : CProg ListState Unit := do
  match (← deref self).mutex with
  | .null => return ()
  | .list => unlockList

/-! ## Entries -/

/-- `linked_list_entry_new` -/
def linkedListEntryNew (previous data : Addr) (size tid : UInt64) : CProg ListState Addr := do
  let self := (← ask).node
  if ¬ (← get).AdmitsNode self then return NULL
  let blank : LinkedListEntry :=
    { previous := NULL, data, size, tid, cached := false, blockId := 0, isHead := false,
      weight := 0, mutex := .null, next := NULL }
  modify fun s => { s with nodes := s.nodes.insert self blank }
  when (previous ≠ NULL) do
    store previous fun e => { e with next := self }
    store self fun e => { e with previous := previous }
  return self

/-- `linked_list_entry_getData` -/
def linkedListEntryGetData (self : Addr) : CProg ListState Addr := do
  if self = NULL then return NULL
  return (← deref self).data

/-- `linked_list_entry_getSize` -/
def linkedListEntryGetSize (self : Addr) : CProg ListState UInt64 := do
  if self = NULL then return 0
  return (← deref self).size

/-- `linked_list_entry_getTid` -/
def linkedListEntryGetTid (self : Addr) : CProg ListState UInt64 := do
  if self = NULL then return 0
  return (← deref self).tid

/-- `linked_list_entry_getBlockId` -/
def linkedListEntryGetBlockId (self : Addr) : CProg ListState UInt16 := do
  if self = NULL then return 0
  return (← deref self).blockId

/-- The locked setters of `linked_list_entry_*`: one field under the node's mutex. -/
def linkedListEntrySet (self : Addr) (f : LinkedListEntry → LinkedListEntry) :
    CProg ListState Unit := do
  if self = NULL then return ()
  lockEntry self
  store self f
  unlockEntry self

/-- `linked_list_entry_setData` -/
def linkedListEntrySetData (self newData : Addr) : CProg ListState Unit :=
  linkedListEntrySet self fun e => { e with data := newData }

/-- `linked_list_entry_setSize` -/
def linkedListEntrySetSize (self : Addr) (newSize : UInt64) : CProg ListState Unit :=
  linkedListEntrySet self fun e => { e with size := newSize }

/-- `linked_list_entry_setBlockId` -/
def linkedListEntrySetBlockId (self : Addr) (newId : UInt16) : CProg ListState Unit :=
  linkedListEntrySet self fun e => { e with blockId := newId }

/-- `linked_list_entry_destroy` -/
def linkedListEntryDestroy (self : Addr) : CProg ListState Unit := do
  if self = NULL then return ()
  modify fun s => { s with freed := s.freed ++ [self] }
  let _ ← deref self
  modify fun s => { s with nodes := s.nodes.erase self }

/-- `linked_list_entry_pri_isHead` -/
def linkedListEntryPriIsHead (self : Addr) : CProg ListState Bool := do
  return (← deref self).isHead

/-! ## The list -/

/-- `linked_list_new`. The list struct itself is `ListState.list`; the process
aborts when the allocator has no room for it. -/
def linkedListNew : CProg ListState Unit := do
  let head ← linkedListEntryNew NULL NULL 0 (← platGetTid)
  when (head = NULL) (stop (.crash .snErrCatastrophic))
  store head fun e => { e with isHead := true }
  let mutex ← platMutexNew 0
  modify fun s => { s with
    list := { head, len := 0, firstEntry := head, lastEntry := head, lastAccess := NULL }
    mutex }

/-- `linked_list_push` -/
def linkedListPush (data : Addr) (size tid : UInt64) : CProg ListState Unit := do
  when ((← getList).firstEntry = NULL) (stop (.crash .snErrCatastrophic))
  lockList
  let newEntry ← linkedListEntryNew (← getList).lastEntry data size tid
  when (newEntry = NULL) (stop (.crash .snErrCatastrophic))
  store newEntry fun e => { e with mutex := .list }
  when (← linkedListEntryPriIsHead (← getList).firstEntry) do
    setList fun l => { l with firstEntry := newEntry }
  setList fun l => { l with lastEntry := newEntry }
  setList fun l => { l with len := l.len + 1 }
  unlockList

/-- `linked_list_peek` -/
def linkedListPeek : CProg ListState Addr := do
  return (← getList).lastEntry

/-- `linked_list_pop` -/
def linkedListPop : CProg ListState Unit := do
  lockList
  -- The early return of the source leaves the mutex locked.
  if ← linkedListEntryPriIsHead (← getList).lastEntry then return ()
  let temp := (← getList).lastEntry
  let previous := (← deref temp).previous
  setList fun l => { l with lastEntry := previous }
  store previous fun e => { e with next := NULL }
  linkedListEntryDestroy temp
  when (← linkedListEntryPriIsHead (← getList).lastEntry) do
    setList fun l => { l with firstEntry := l.lastEntry }
  setList fun l => { l with len := l.len - 1 }
  unlockList

/-- `linked_list_getSize` -/
def linkedListGetSize : CProg ListState Nat := do
  return (← getList).len

/-- `LIST_FOR_EACH_LOOP_BRAKE`, the address `-44` -/
def listForEachLoopBrake : Addr := addressSpace - 44

/-- `linked_list_for_each_worker_f`: the visited node, its index and what
`generic_arg` points at. -/
abbrev LinkedListForEachWorker (β : Type) := Addr → Nat → β → CProg ListState (Addr × β)

/-- The `while` loop of `linked_list_forEach`. -/
def linkedListForEachLoop {β : Type} (worker : LinkedListForEachWorker β) :
    Nat → Addr → Nat → β → CProg ListState (Addr × β)
  | 0, _, _, _ => stop .diverge
  | fuel + 1, entry, i, genericArg => do
    if entry = NULL then
      unlockList
      return (NULL, genericArg)
    let next := (← deref entry).next
    let ret ← worker entry i genericArg
    lockList
    if ret.1 ≠ NULL then
      unlockList
      return (if ret.1 = listForEachLoopBrake then NULL else ret.1, ret.2)
    linkedListForEachLoop worker fuel next (i + 1) ret.2

/-- `linked_list_forEach` -/
def linkedListForEach {β : Type} (worker : LinkedListForEachWorker β) (genericArg : β) :
    CProg ListState (Addr × β) := do
  if (← getList).len = 0 then return (NULL, genericArg)
  let entry := (← getList).firstEntry
  lockList
  if ← linkedListEntryPriIsHead entry then return (NULL, genericArg)
  -- At most every live node is visited, so this fuel is never used up.
  linkedListForEachLoop worker ((← get).nodes.keys.card + 1) entry 0 genericArg

/-- `pri_listDestroyer` -/
def priListDestroyer : LinkedListForEachWorker Unit := fun ctx _ genericArg => do
  linkedListEntryDestroy ctx
  return (NULL, genericArg)

/-- `linked_list_destroy`. The mutex and the list struct go with the state. -/
def linkedListDestroy : CProg ListState Unit := do
  let _ ← linkedListForEach priListDestroyer ()
  linkedListEntryDestroy (← getList).head
  modify fun s => { s with mutex := none }

/-- A search worker: the first node that `found` accepts ends the loop. -/
def searchWorker {β : Type} (found : β → Nat → LinkedListEntry → Bool) :
    LinkedListForEachWorker β := fun ctx index genericArg => do
  if found genericArg index (← deref ctx) then return (ctx, genericArg)
  return (NULL, genericArg)

/-- `linked_list_searchForPointer` -/
def linkedListSearchForPointer : LinkedListForEachWorker Addr :=
  searchWorker fun key _ ctx => ctx.data = key

/-- `linked_list_searchForIndex` -/
def linkedListSearchForIndex : LinkedListForEachWorker Nat :=
  searchWorker fun wanted index _ => index = wanted

/-- `linked_list_searchForId` -/
def linkedListSearchForId : LinkedListForEachWorker UInt16 :=
  searchWorker fun id _ ctx => ctx.blockId = id

/-- `linked_list_hasPtr` -/
def linkedListHasPtr (key : Addr) : CProg ListState Bool := do
  if key = NULL then return false
  lockList
  let temp := (← linkedListForEach linkedListSearchForPointer key).1
  if temp ≠ NULL then
    setList fun l => { l with lastAccess := temp }
    unlockList
    return true
  unlockList
  return false

/-- What the three `linked_list_getBy*` do with the node they found. -/
def linkedListAccess (temp : Addr) : CProg ListState Unit := do
  setList fun l => { l with lastAccess := temp }
  lockList
  store temp fun e => { e with weight := e.weight + 1 }
  unlockList

/-- `linked_list_getByPtr` -/
def linkedListGetByPtr (key : Addr) : CProg ListState Addr := do
  if key = NULL then return NULL
  let temp := (← linkedListForEach linkedListSearchForPointer key).1
  when (temp ≠ NULL) (linkedListAccess temp)
  return temp

/-- `linked_list_getByIndex` -/
def linkedListGetByIndex (index : Nat) : CProg ListState Addr := do
  if (← linkedListGetSize) < index then return NULL
  let temp := (← linkedListForEach linkedListSearchForIndex index).1
  when (temp ≠ NULL) (linkedListAccess temp)
  return temp

/-- `linked_list_getById`. Unlike its siblings it locks before the search. -/
def linkedListGetById (id : UInt16) : CProg ListState Addr := do
  lockList
  let temp := (← linkedListForEach linkedListSearchForId id).1
  when (temp ≠ NULL) (linkedListAccess temp)
  return temp

/-- `linked_list_hasId` -/
def linkedListHasId (id : UInt16) : CProg ListState Bool := do
  let temp ← linkedListGetById id
  return temp ≠ NULL

/-- `linked_list_removeEntry`. Only the path through `linked_list_pop` updates `len`. -/
def linkedListRemoveEntry (entryRef : Addr) : CProg ListState Bool := do
  if entryRef = NULL then return false
  lockList
  if (← getList).lastEntry = entryRef then
    unlockList
    linkedListPop
    return true
  let pre := (← deref entryRef).previous
  let nxt := (← deref entryRef).next
  when (pre ≠ NULL) (store pre fun e => { e with next := nxt })
  when (nxt ≠ NULL) (store nxt fun e => { e with previous := pre })
  linkedListEntryDestroy entryRef
  when ((← getList).firstEntry = entryRef) do
    setList fun l => { l with firstEntry := nxt }
  unlockList
  return true

/-- `linked_list_removeEntryByPtr` -/
def linkedListRemoveEntryByPtr (key : Addr) : CProg ListState Unit := do
  if key = NULL then return ()
  lockList
  let entry := (← linkedListForEach linkedListSearchForPointer key).1
  let _ ← linkedListRemoveEntry entry
  unlockList

end LibSafetynet
