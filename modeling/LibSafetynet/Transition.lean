import LibSafetynet.AllocManagerSpec
import LibSafetynet.ListRefinement
import LibSafetynet.Operations

/-!
# What an operation can do

`Trans` lists the kinds of change an operation makes, each with everything an
invariant needs to know about it: lookups change no entry, an allocation appends
one and places one block, `sn_free` drops one of each, and so on. Every operation
is a short sequence of such changes (`OperationsSpec.lean` proves it once for each),
so that an invariant of all runs is one case analysis over `Trans`.

The mutexes are kept apart from the data: `Unlocked` is what holds of them
between two operations, and `Leaks` names the calls after which the list's mutex
stays locked.
-/

namespace LibSafetynet

open Logic Prog PlatMutex ListState AllocManager

/-! ## Invariants of every run -/

/-- The tracking list is well formed, and no slot holds its dummy head. -/
structure Base (s : Lib) (L : List Addr) : Prop where
  rep : s.list.Rep L
  slot : ∀ i, (s.manager.cacheList i).value ≠ s.list.list.head

/-- Between two operations the manager's mutex is free, and the list's mutex too
unless the list is empty. -/
structure Unlocked (s : Lib) (L : List Addr) : Prop where
  alloc : IsFree s.allocMutex
  list : L ≠ [] → IsFree s.list.mutex

/-- A live node held by a slot is an entry. -/
theorem Base.mem_of_slot {s : Lib} {L : List Addr} (h : Base s L) {i : Slot}
    (hlive : (s.list.nodes.lookup (s.manager.cacheList i).value).isSome) :
    (s.manager.cacheList i).value ∈ L :=
  (List.mem_cons.mp ((h.rep.live _).mp hlive)).resolve_left (h.slot i)

/-! ## Kinds of change -/

/-- The operations that begin with `memman_work`. -/
def Op.RunsPass : Op → Prop
  | .register _ | .registerSize _ _ | .querySize _ | .queryTid _ | .isTrackedBlock _
  | .setBlockId _ _ | .getBlockId _ | .queryBlockId _ | .queryMetadata _ | .queryStaticMetadata _
  | .queryThreadMemoryUsage _ | .calculateChecksum _ => True
  | _ => False

instance : DecidablePred Op.RunsPass := fun op => by
  apply Op.casesOn (motive := fun op => Decidable op.RunsPass) op <;> intros <;>
    first | exact instDecidableTrue | exact instDecidableFalse

/-- Entries, slots, counters and the client's memory stay; the rest may change. -/
structure Quiet (s s' : Lib) : Prop where
  list : SameList s.list s'.list
  cacheList : s'.manager.cacheList = s.manager.cacheList
  available : s'.manager.availableCacheSlots = s.manager.availableCacheSlots
  usage : s'.manager.globalMemoryUsage = s.manager.globalMemoryUsage
  heap : s'.heap = s.heap

/-- What is left in a block of `bytes` when it is passed to `plat_free`. -/
def sanitized (cfg : Config) (size : UInt64) (bytes : List UInt8) : List UInt8 :=
  if cfg.sanitizeMemoryOnFree then List.replicate size.toNat 0 ++ bytes.drop size.toNat else bytes

/-- The client's memory after `sn_free` passed `data` to `plat_free`. -/
structure HeapFreed (cfg : Config) (h h' : ClientHeap) (data : Addr) (size : UInt64) : Prop where
  null : data = NULL → ¬ h.Live NULL → h' = h
  live : data ≠ NULL → h.Live data ∧
    (cfg.sanitizeMemoryOnFree → size.toNat ≤ (h.bytes data).length) ∧
    h' = { blocks := h.blocks.erase data
           freed := h.freed ++ [(data, sanitized cfg size (h.bytes data))] }

/-- The state after `bytes` were allocated at the platform's proposal and recorded
as `size` bytes. -/
structure Granted (env : Env) (s s' : Lib) (L : List Addr) (size : UInt64) (bytes : List UInt8) :
    Prop where
  nonempty : bytes ≠ []
  admits : s.heap.Admits env.block bytes.length
  heap : s'.heap = s.heap.place env.block bytes
  pushed : Pushed s.list s'.list L env.node env.block size env.tid
  manager : s'.manager = { s.manager with
    globalMemoryUsage := s.manager.globalMemoryUsage + UInt64.ofNat bytes.length }
  allocMutex : s'.allocMutex = s.allocMutex

/-- `sn_realloc` of a tracked block passes the limit, and the platform has room. -/
structure ReallocGranted (env : Env) (s : Lib) (L : List Addr) (ptr : Addr) (newSize : UInt64) :
    Prop where
  ptr_ne : ptr ≠ NULL
  found : findPtr s.list L ptr ≠ NULL
  size_ne : newSize ≠ 0
  limit : (nodeAt s.list.nodes (findPtr s.list L ptr)).size < newSize →
    memmanCanAllocateBasedOnLimitAndSize s.manager
      (newSize - (nodeAt s.list.nodes (findPtr s.list L ptr)).size)
  admits : (s.heap.drop ptr).Admits env.block newSize.toNat

/-- The cache holds a slot for `key`, and is in use. -/
def Lib.Hits (s : Lib) (key : Addr) : Prop :=
  s.manager.useCache = true ∧ s.manager.keySlot key ≠ none

theorem hits_of_keySlot {s : Lib} {key : Addr} {i : Slot} (huse : s.manager.useCache = true)
    (hslot : s.manager.keySlot key = some i) : s.Hits key :=
  ⟨huse, by rw [hslot]; exact Option.some_ne_none i⟩

instance (s : Lib) (key : Addr) : Decidable (s.Hits key) := inferInstanceAs (Decidable (_ ∧ _))

theorem Lib.Hits.ne_null {s : Lib} {key : Addr} (h : s.Hits key) : key ≠ NULL := by
  obtain ⟨i, hi⟩ := Option.ne_none_iff_exists'.mp h.2
  exact (keySlot_eq_some hi).2

/-- `e` is what the lookup of `sn_free` returns: the value of the slot for `p`, or
else the first entry for `p`. -/
inductive Lookup (s : Lib) (L : List Addr) (p e : Addr) : Prop
  | cached (i : Slot) : s.manager.useCache = true → s.manager.keySlot p = some i →
      (s.manager.cacheList i).value = e → Lookup s L p e
  | listed : ¬ s.Hits p → findPtr s.list L p = e → Lookup s L p e

/-- The tracking list after `linked_list_removeEntryByPtr(p)`. -/
inductive RemovedByPtr (l l' : ListState) (L : List Addr) (p : Addr) : List Addr → Prop
  | found {l₁ : ListState} {A B : List Addr} {a : Addr} : L = A ++ a :: B → findPtr l L p = a →
      SameList l l₁ → Removed l₁ l' A a B → RemovedByPtr l l' L p (A ++ B)
  | none : findPtr l L p = NULL → SameList l l' → RemovedByPtr l l' L p L

/-- One change made by the operation `op`, which was called in the state `s₀`. -/
inductive Trans (cfg : Config) (env : Env) (op : Op) (s₀ : Lib) (L : List Addr) :
    Lib → List Addr → Lib → Prop
  /-- A lookup, an error code, a setting, a file. -/
  | quiet {s s' : Lib} : Quiet s s' → Trans cfg env op s₀ L s L s'
  /-- `memman_work`, at the start of the operation or a second time. -/
  | pass {s : Lib} : op.RunsPass → s₀.list.Rep L → s = s₀ ∨ s = s₀.worked env L →
      Trans cfg env op s₀ L s L (s.worked env L)
  /-- `memman_cacheClear` -/
  | cleared {s s' : Lib} : SameList s.list s'.list →
      Dropped (fun _ => true) slots s.manager s'.manager → s'.heap = s.heap →
      Trans cfg env op s₀ L s L s'
  /-- `memman_tryCachePut` -/
  | put {s : Lib} {i : Slot} {p : Addr} : op = .requestToFastCache p → p ≠ NULL →
      findPtr s.list L p ≠ NULL → s.manager.AcceptsPut → s.manager.freeSlot = some i →
      Trans cfg env op s₀ L s L (s.put i (findPtr s.list L p))
  /-- A successful allocation; only `sn_calloc` grants more than it records. -/
  | granted {s s' : Lib} {size : UInt64} {bytes : List UInt8} :
      (bytes.length = size.toNat ∨ ∃ num, op = .calloc num size ∧ s = s₀ ∧ num ≠ 0 ∧
        memmanCanAllocateBasedOnLimitAndSize s₀.manager (size * num) ∧
        bytes = List.replicate (num.toNat * size.toNat) 0) →
      Granted env s s' L size bytes → Trans cfg env op s₀ L s (L ++ [env.node]) s'
  /-- `sn_register` and `sn_register_size` of a block that is not tracked. -/
  | registered {s s' : Lib} {p : Addr} {size : UInt64} : s₀.list.Rep L →
      (op = .register p ∧ size = 0 ∨ op = .registerSize p size ∧ p ≠ NULL ∧ size ≠ 0 ∧
        findPtr s₀.list L p = NULL) →
      Pushed s.list s'.list L env.node p size env.tid → s'.manager = s.manager →
      s'.heap = s.heap → Trans cfg env op s₀ L s (L ++ [env.node]) s'
  /-- A successful `sn_realloc`. -/
  | realloced {s s' : Lib} {p : Addr} {newSize : UInt64} {bytes : List UInt8} :
      op = .realloc p newSize → Quiet s₀ s → ReallocGranted env s₀ L p newSize →
      s.heap.Live p → bytes.length = newSize.toNat →
      s'.heap = (s.heap.drop p).place env.block bytes →
      Rewritten s.list s'.list (findPtr s₀.list L p)
        (fun e => { e with data := env.block, size := newSize }) →
      s'.manager = { s.manager with
        globalMemoryUsage := s.manager.globalMemoryUsage
          - (nodeAt s.list.nodes (findPtr s₀.list L p)).size + newSize } →
      Trans cfg env op s₀ L s L s'
  /-- A successful `sn_set_block_id`. -/
  | tagged {s s' : Lib} {a : Addr} {block : Addr} {id : UInt16} : op = .setBlockId block id →
      a ∈ L → Rewritten s.list s'.list a (fun e => { e with blockId := id }) →
      s'.manager = s.manager → s'.heap = s.heap → Trans cfg env op s₀ L s L s'
  /-- The bytes of one block change. -/
  | wrote {s s' : Lib} {p : Addr} {bytes : List UInt8} : s.heap.Live p →
      bytes.length = (s.heap.bytes p).length → s'.list = s.list → s'.manager = s.manager →
      s'.heap = s.heap.place p bytes → Trans cfg env op s₀ L s L s'
  /-- `sn_free(p)`, where `e` is the node its lookup returned. -/
  | freed {s s' : Lib} {L' : List Addr} {p e : Addr} : p ≠ NULL → Lookup s L p e → e ∈ L →
      HeapFreed cfg s.heap s'.heap (nodeAt s.list.nodes e).data (nodeAt s.list.nodes e).size →
      Dropped (· = p) slots { s.manager with
        globalMemoryUsage := s.manager.globalMemoryUsage - (nodeAt s.list.nodes e).size }
        s'.manager →
      RemovedByPtr s.list s'.list L p L' →
      (op = .free p ∧ s = s₀ ∨ p = env.block ∧ ∃ file, op = .mountFileToRam file) →
      Trans cfg env op s₀ L s L' s'
  /-- The client's own `malloc` and `free`. -/
  | clientAlloc {s s' : Lib} {a : Addr} {bytes : List UInt8} {size : UInt64} :
      op = .clientMalloc size → s.heap.Admits a bytes.length → s'.list = s.list →
      s'.manager = s.manager → s'.heap = s.heap.place a bytes → Trans cfg env op s₀ L s L s'
  | clientFree {s s' : Lib} {p : Addr} : op = .clientFree p → s.heap.Live p → s'.list = s.list →
      s'.manager = s.manager → s'.heap = s.heap.drop p → Trans cfg env op s₀ L s L s'

/-- A write within a block. -/
theorem trans_writeAt {cfg : Config} {env : Env} {op : Op} {s₀ s : Lib} {L : List Addr} {p : Addr}
    {bs : List UInt8} (hc : s.heap.Covers p bs.length) :
    Trans cfg env op s₀ L s L { s with heap := s.heap.writeAt p bs } := by
  obtain ⟨cs, hwrite, hlen⟩ := hc.writeAt
  exact .wrote hc.1 hlen rfl rfl hwrite

/-- The changes of one operation, in order. -/
inductive Changes (cfg : Config) (env : Env) (op : Op) (s₀ : Lib) (L₀ : List Addr) :
    List Addr → Lib → Prop
  | start : Changes cfg env op s₀ L₀ L₀ s₀
  | step {s s' : Lib} {L L' : List Addr} : Changes cfg env op s₀ L₀ L s →
      Trans cfg env op s₀ L s L' s' → Changes cfg env op s₀ L₀ L' s'

/-! ## The base invariant is kept -/

section Kept

variable {cfg : Config} {env : Env} {op : Op} {s₀ s s' : Lib} {L L' L₀ : List Addr}

theorem Quiet.refl (s : Lib) : Quiet s s := ⟨SameList.refl _, rfl, rfl, rfl, rfl⟩

theorem Quiet.trans {s'' : Lib} (h : Quiet s s') (h' : Quiet s' s'') : Quiet s s'' :=
  ⟨h.list.trans h'.list, h'.cacheList.trans h.cacheList, h'.available.trans h.available,
    h'.usage.trans h.usage, h'.heap.trans h.heap⟩

theorem SameList.findPtr {l l' : ListState} (h : SameList l l') (L : List Addr) (key : Addr) :
    findPtr l' L key = findPtr l L key := by
  unfold LibSafetynet.findPtr
  simp only [h.data]

/-- Lookups before the removal do not matter. -/
theorem RemovedByPtr.of_same {l l' l'' : ListState} {p : Addr} (h : RemovedByPtr l' l'' L p L')
    (hs : SameList l l') : RemovedByPtr l l'' L p L' := by
  cases h with
  | found hL hfind hsame hrem =>
    exact .found hL ((hs.findPtr L p).symm.trans hfind) (hs.trans hsame) hrem
  | none hfind hsame => exact .none ((hs.findPtr L p).symm.trans hfind) (hs.trans hsame)

theorem RemovedByPtr.rep {l l' : ListState} {p : Addr} (h : RemovedByPtr l l' L p L')
    (hrep : l.Rep L) : l'.Rep L' := by
  cases h with
  | found _ _ _ hrem => exact hrem.rep
  | none _ hsame => exact hsame.rep hrep

theorem RemovedByPtr.head {l l' : ListState} {p : Addr} (h : RemovedByPtr l l' L p L') :
    l'.list.head = l.list.head := by
  cases h with
  | found _ _ hsame hrem => exact hrem.head.trans hsame.head
  | none _ hsame => exact hsame.head

theorem Dropped.slot_or {wanted : Addr → Bool} {rest : List Slot} {m m' : AllocManager}
    (h : Dropped wanted rest m m') (i : Slot) :
    m'.cacheList i = .empty ∨ m'.cacheList i = m.cacheList i := by
  rw [h.slot i]
  split_ifs
  · exact Or.inl rfl
  · exact Or.inr rfl

/-- A change of the slots that keeps each slot, empties it or fills it from the list. -/
theorem Base.of_slots (h : Base s L) (hrep : s'.list.Rep L')
    (hhead : s'.list.list.head = s.list.list.head)
    (hslot : ∀ i, s'.manager.cacheList i = s.manager.cacheList i ∨
      s'.manager.cacheList i = .empty ∨ (s'.manager.cacheList i).value ∈ L) : Base s' L' := by
  refine ⟨hrep, fun i => ?_⟩
  rw [hhead]
  rcases hslot i with heq | hempty | hmem
  · rw [heq]
    exact h.slot i
  · rw [hempty]
    intro hnull
    exact h.rep.links.notNull (List.mem_cons.mpr (Or.inl hnull))
  · exact h.rep.links.ne_head hmem

theorem Quiet.base (hq : Quiet s s') (h : Base s L) : Base s' L :=
  h.of_slots (hq.list.rep h.rep) hq.list.head fun i => Or.inl (by rw [hq.cacheList])

theorem base_worked (h : Base s L) : Base (s.worked env L) L := by
  refine h.of_slots ((sameList_worked h.rep).rep h.rep) (sameList_worked h.rep).head fun i => ?_
  have hrefill : Refilled s.list.nodes L s.manager (s.worked env L).manager := refilled_worked h.rep
  rcases hrefill.slot i with heq | ⟨a, ha, hnew⟩
  · exact Or.inl heq
  · exact Or.inr (Or.inr (by rw [hnew]; exact ha))

theorem Granted.base {size : UInt64} {bytes : List UInt8} (h : Granted env s s' L size bytes)
    (hb : Base s L) : Base s' (L ++ [env.node]) :=
  hb.of_slots h.pushed.rep h.pushed.head fun i => Or.inl (by rw [h.manager])

/-- Every change keeps the list well formed and the dummy head out of the slots. -/
theorem Trans.base (h : Trans cfg env op s₀ L s L' s') (hb : Base s L) : Base s' L' := by
  cases h with
  | quiet hq => exact hq.base hb
  | pass _ _ _ => exact base_worked hb
  | cleared hsame hdrop _ =>
    refine hb.of_slots (hsame.rep hb.rep) hsame.head fun i => ?_
    rcases hdrop.slot_or i with hempty | heq
    · exact Or.inr (Or.inl hempty)
    · exact Or.inl heq
  | @put i p _ _ hfound _ _ =>
    have hmem := (findPtr_mem hfound).1
    have hsame := sameList_put (i := i) (s := s) (hb.rep.live_of_mem hmem)
    refine hb.of_slots (hsame.rep hb.rep) hsame.head fun j => ?_
    by_cases hji : j = i
    · subst hji
      refine Or.inr (Or.inr ?_)
      show ((s.manager.setSlot j _).cacheList j).value ∈ L
      rw [setSlot_self]
      exact hmem
    · refine Or.inl ?_
      show (s.manager.setSlot i _).cacheList j = _
      rw [setSlot_of_ne hji]
  | granted _ hgr => exact hgr.base hb
  | registered _ _ hpush hm _ =>
    exact hb.of_slots hpush.rep hpush.head fun i => Or.inl (by rw [hm])
  | realloced _ _ _ _ _ _ hrw hm =>
    exact hb.of_slots (hrw.links.rep hb.rep) hrw.links.head fun i => Or.inl (by rw [hm])
  | tagged _ _ hrw hm _ =>
    exact hb.of_slots (hrw.links.rep hb.rep) hrw.links.head fun i => Or.inl (by rw [hm])
  | wrote _ _ hl hm _ =>
    exact hb.of_slots (by rw [hl]; exact hb.rep) (by rw [hl]) fun i => Or.inl (by rw [hm])
  | freed _ _ _ _ hdrop hrem _ =>
    refine hb.of_slots (hrem.rep hb.rep) hrem.head fun i => ?_
    rcases hdrop.slot_or i with hempty | heq
    · exact Or.inr (Or.inl hempty)
    · exact Or.inl heq
  | clientAlloc _ _ hl hm _ =>
    exact hb.of_slots (by rw [hl]; exact hb.rep) (by rw [hl]) fun i => Or.inl (by rw [hm])
  | clientFree _ _ hl hm _ =>
    exact hb.of_slots (by rw [hl]; exact hb.rep) (by rw [hl]) fun i => Or.inl (by rw [hm])

/-- **Invariant rule for one operation**: what every change keeps, the operation keeps. -/
theorem Changes.invariant {I : List Addr → Lib → Prop}
    (hstep : ∀ {L L' s s'}, Base s L → I L s → Trans cfg env op s₀ L s L' s' → I L' s')
    (h : Changes cfg env op s₀ L₀ L s) (hb : Base s₀ L₀) (h0 : I L₀ s₀) : I L s ∧ Base s L := by
  induction h with
  | start => exact ⟨h0, hb⟩
  | step _ htrans ih => exact ⟨hstep ih.2 ih.1 htrans, htrans.base ih.2⟩

end Kept

/-! ## The items after a change -/

section Items

variable {l l' : ListState} {L L' : List Addr} {b : Addr}

theorem SameList.item (h : SameList l l') (a : Addr) : item l' a = item l a := by
  simp only [LibSafetynet.item, h.data, h.size, h.tid, h.blockId]

theorem SameList.items (h : SameList l l') (L : List Addr) :
    L.map (LibSafetynet.item l') = L.map (LibSafetynet.item l) :=
  List.map_congr_left fun a _ => h.item a

theorem Pushed.items {a data : Addr} {size tid : UInt64} (h : Pushed l l' L a data size tid)
    (hrep : l.Rep L) : (L ++ [a]).map (item l') = L.map (item l) ++ [⟨a, data, size, tid, 0⟩] := by
  have heffect : ListEffect (Env.plain tid a 0) (.push data size tid) l L l' (L ++ [a]) :=
    .push rfl h
  exact heffect.items hrep

theorem RemovedByPtr.items {p : Addr} (h : RemovedByPtr l l' L p L') (hrep : l.Rep L)
    (hp : p ≠ NULL) :
    L'.map (item l') = (L.map (item l)).eraseP (·.data = p) := by
  cases h with
  | none hnone hsame =>
    rw [hsame.items, List.eraseP_of_forall_not]
    intro i hi
    obtain ⟨a, ha, rfl⟩ := List.mem_map.mp hi
    have hne := (findPtr_eq_null fun h0 => hrep.ne_null h0 rfl).mp hnone a ha
    exact fun hd => hne (of_decide_eq_true hd)
  | @found l₁ A B a hL hfind hsame hrem =>
    subst hL
    have hrep₁ := hsame.rep hrep
    have hfind₁ : findPtr l₁ (A ++ a :: B) p = a := (hsame.findPtr _ p).trans hfind
    have heffect : ListEffect (Env.plain 0 0 0) (.removeEntryByPtr p) l₁ (A ++ a :: B) l'
        (A ++ B) :=
      .remove rfl ⟨hp, findPtr_split hrep₁ rfl hfind₁⟩ hrem
    rw [heffect.items hrep₁, hsame.items]
    exact if_neg hp

/-- The items after the fields of one entry were rewritten. -/
theorem Rewritten.items {a : Addr} {f : LinkedListEntry → LinkedListEntry} (h : Rewritten l l' a f)
    (L : List Addr) : L.map (item l') = (L.map (item l)).map fun i =>
      if i.addr = a then item l' a else i := by
  rw [List.map_map]
  refine List.map_congr_left fun b _ => ?_
  by_cases hb : b = a
  · subst hb
    exact (if_pos rfl).symm
  · refine Eq.trans ?_ (if_neg hb).symm
    simp only [item, h.other b hb]

end Items

end LibSafetynet
