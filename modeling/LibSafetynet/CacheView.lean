import Mathlib.Data.List.Find
import LibSafetynet.BlockQueries
import LibSafetynet.OpFrame

/-!
# What an operation does to the cache

`CacheView` is the cache as its users see it: the slots, the two settings and the
`cached` marks of the nodes. Most code leaves the view alone (`Calm`), which is read
off its text. The rest is the automatic pass, the three cache functions and `sn_free`;
`libStep_cache` says for every completed operation which of these it did.
-/

namespace LibSafetynet

open Logic Prog PlatMutex ListState AllocManager

/-! ## The view -/

/-- The `cached` fields of the nodes. -/
def ListState.marks (l : ListState) (a : Addr) : Bool := (nodeAt l.nodes a).cached

/-- Slots, settings and marks. -/
@[ext] structure CacheView where
  slots : Slot → CachePair
  cacheLock : Bool
  useCache : Bool
  marks : Addr → Bool

/-- The view of a node heap and a manager. -/
def cacheViewOf (p : NodeHeap × AllocManager) : CacheView :=
  { slots := p.2.cacheList, cacheLock := p.2.cacheLock, useCache := p.2.useCache
    marks := fun a => (nodeAt p.1 a).cached }

/-- The view of the library's cache. -/
def Lib.cacheView (s : Lib) : CacheView := cacheViewOf (s.list.nodes, s.manager)

/-- The loop of `memman_cacheInvalidate` and `memman_cacheClear` over some slots. -/
def CacheView.drop (wanted : Addr → Bool) (cached : Bool) (rest : List Slot) (v : CacheView) :
    CacheView :=
  { v with
    slots := fun i => if i ∈ rest ∧ DropsSlot wanted (v.slots i) then .empty else v.slots i
    marks := fun a => if ∃ i ∈ rest, DropsSlot wanted (v.slots i) ∧ (v.slots i).value = a
      then cached else v.marks a }

/-- `memman_tryCachePut` into slot `i`. -/
def CacheView.put (i : Slot) (pair : CachePair) (v : CacheView) : CacheView :=
  { v with
    slots := Function.update v.slots i pair
    marks := Function.update v.marks pair.value true }

section View

variable {v : CacheView} {i : Slot} {a b k : Addr} {wanted : Addr → Bool} {cached : Bool}

theorem slot_put (j : Slot) : (v.put i ⟨k, a⟩).slots j = if j = i then ⟨k, a⟩ else v.slots j := by
  show Function.update v.slots i _ j = _
  rw [Function.update_apply]

theorem marks_put : (v.put i ⟨k, a⟩).marks b = if b = a then true else v.marks b := by
  show Function.update v.marks a true b = _
  rw [Function.update_apply]

theorem slot_drop (wanted : Addr → Bool) (cached : Bool) (v : CacheView) (i : Slot) :
    (v.drop wanted cached slots).slots i = v.slots i ∨
      (v.drop wanted cached slots).slots i = .empty := by
  show (if i ∈ slots ∧ DropsSlot wanted (v.slots i) then CachePair.empty else v.slots i) = _ ∨
    (if i ∈ slots ∧ DropsSlot wanted (v.slots i) then CachePair.empty else v.slots i) = _
  split_ifs
  · exact Or.inr rfl
  · exact Or.inl rfl

theorem marks_drop :
    (v.drop wanted cached slots).marks b =
      if ∃ i, DropsSlot wanted (v.slots i) = true ∧ (v.slots i).value = b then cached
      else v.marks b := by
  show (if ∃ i ∈ slots, DropsSlot wanted (v.slots i) = true ∧ (v.slots i).value = b
    then cached else v.marks b) = _
  refine if_congr ⟨?_, ?_⟩ rfl rfl
  · exact fun ⟨i, _, h⟩ => ⟨i, h⟩
  · exact fun ⟨i, h⟩ => ⟨i, mem_slots i, h⟩

end View

/-- The entries that the passes of an operation visit, in order. -/
def Op.visits (op : Op) (L : List Addr) : List Addr :=
  match op with
  -- `sn_query_metadata` inside runs the pass a second time
  | .queryStaticMetadata _ => L ++ L
  | .register _ | .registerSize _ _ | .querySize _ | .queryTid _ | .isTrackedBlock _
  | .setBlockId _ _ | .getBlockId _ | .queryBlockId _ | .queryMetadata _
  | .queryThreadMemoryUsage _ | .calculateChecksum _ => L
  | _ => []

theorem mem_of_mem_visits {op : Op} {L : List Addr} {a : Addr} (ha : a ∈ op.visits L) : a ∈ L := by
  cases op with
  | queryStaticMetadata _ => exact (List.mem_append.mp ha).elim id id
  | _ => first | exact ha | exact absurd ha List.not_mem_nil

/-- A pass leaves no entry out. -/
theorem visits_all (op : Op) (L : List Addr) : op.visits L = [] ∨ ∀ a ∈ L, a ∈ op.visits L := by
  cases op with
  | queryStaticMetadata _ => exact Or.inr fun a ha => List.mem_append_left L ha
  | _ => first | exact Or.inl rfl | exact Or.inr fun _ ha => ha

/-! ## List code leaves the marks alone -/

/-- A property of the list that list code keeps as long as it writes no mark. -/
structure MarkFrame (P : ListState → Prop) : Prop where
  other : ∀ l l' : ListState, l'.nodes = l.nodes → P l → P l'
  store : ∀ (l : ListState) (a : Addr) (f : LinkedListEntry → LinkedListEntry),
    (l.nodes.lookup a).isSome → (∀ e, (f e).cached = e.cached) → P l →
      P { l with nodes := updNode l.nodes a f }

theorem marks_updNode {l : ListState} {a : Addr} {f : LinkedListEntry → LinkedListEntry}
    (hf : ∀ e, (f e).cached = e.cached) :
    ({ l with nodes := updNode l.nodes a f } : ListState).marks = l.marks := by
  funext b
  show (nodeAt (updNode l.nodes a f) b).cached = (nodeAt l.nodes b).cached
  by_cases hb : b = a
  · rw [hb, nodeAt_updNode_self]
    exact hf _
  · rw [nodeAt_updNode_of_ne _ _ hb]

/-- The marks are `c`. -/
theorem markFrame_all (c : Addr → Bool) : MarkFrame fun l => l.marks = c := by
  constructor
  · intro l l' hnodes h
    rw [← h]
    funext a
    show (nodeAt l'.nodes a).cached = _
    rw [hnodes]
    rfl
  · intro l a f _ hf h
    rw [← h]
    exact marks_updNode hf

/-- The marks of the live nodes are those of `c`. -/
theorem markFrame_live (c : Addr → Bool) :
    MarkFrame fun l => ∀ b, (l.nodes.lookup b).isSome → l.marks b = c b := by
  constructor
  · intro l l' hnodes h b hb
    rw [hnodes] at hb
    rw [← h b hb]
    show (nodeAt l'.nodes b).cached = _
    rw [hnodes]
    rfl
  · intro l a f ha hf h b hb
    rw [marks_updNode hf]
    exact h b ((isSome_lookup_updNode f ha b).mp hb)

section ListCode

variable {P : ListState → Prop} (hP : MarkFrame P)

theorem keeps_deref (a : Addr) : Keeps P (deref a) := by
  refine .bind .get fun l => ?_
  cases l.nodes.lookup a with
  | none => exact .stop _
  | some e => exact .pure _

theorem keeps_getList : Keeps P getList := .bind .get fun _ => .pure _

theorem keeps_isHead (a : Addr) : Keeps P (linkedListEntryPriIsHead a) :=
  .bind (keeps_deref a) fun _ => .pure _

/-- The getters of an entry. -/
theorem keeps_entryGet {α : Type} {a : Addr} {dflt : α} {get : LinkedListEntry → α} :
    Keeps P (if a = NULL then return dflt else do return get (← deref a)) :=
  .ite (.pure _) (.bind (keeps_deref a) fun _ => .pure _)

/-- The setters of an entry: a write between two uses of the entry's mutex. -/
theorem keeps_linkedListEntrySet {a : Addr} {f : LinkedListEntry → LinkedListEntry}
    (hmutex : ∀ l m, P l → P { l with mutex := m }) (hstore : Keeps P (store a f)) :
    Keeps P (linkedListEntrySet a f) := by
  have hlock : Keeps P (lockEntry a) := .bind (keeps_deref a) fun e => by
    cases e.mutex with
    | null => exact .pure _
    | list => exact .zoom_other hmutex
  have hunlock : Keeps P (unlockEntry a) := .bind (keeps_deref a) fun e => by
    cases e.mutex with
    | null => exact .pure _
    | list => exact .zoom_other hmutex
  exact .ite (.pure _) (.bind hlock fun _ => .bind hstore fun _ => hunlock)

include hP

theorem keeps_store {a : Addr} {f : LinkedListEntry → LinkedListEntry}
    (hf : ∀ e, (f e).cached = e.cached) : Keeps P (store a f) := by
  refine Keeps.iff_wp.mpr fun env l hl => ?_
  rw [store, wp_bind]
  refine wp_deref (fun hlive => ?_) fun _ => hl
  exact hP.store l a f hlive hf hl

theorem keeps_setList (f : LinkedList → LinkedList) : Keeps P (setList f) :=
  .modify fun l hl => hP.other l _ rfl hl

theorem keeps_lockList : Keeps P lockList := .zoom_other fun l _ hl => hP.other l _ rfl hl

theorem keeps_unlockList : Keeps P unlockList := .zoom_other fun l _ hl => hP.other l _ rfl hl

theorem keeps_linkedListForEachLoop {β : Type} {worker : LinkedListForEachWorker β}
    (hworker : ∀ a i arg, Keeps P (worker a i arg)) (fuel : Nat) (entry : Addr) (i : Nat)
    (arg : β) :
    Keeps P (linkedListForEachLoop worker fuel entry i arg) := by
  induction fuel generalizing entry i arg with
  | zero => exact .stop _
  | succ fuel ih =>
    refine .ite (.bind (keeps_unlockList hP) fun _ => .pure _)
      (.bind (keeps_deref entry) fun e => ?_)
    refine .bind (hworker entry i arg) fun ret => .bind (keeps_lockList hP) fun _ => ?_
    exact .ite (.bind (keeps_unlockList hP) fun _ => .pure _) (ih e.next (i + 1) ret.2)

theorem keeps_linkedListForEach {β : Type} {worker : LinkedListForEachWorker β}
    (hworker : ∀ a i arg, Keeps P (worker a i arg)) (arg : β) :
    Keeps P (linkedListForEach worker arg) := by
  refine .bind keeps_getList fun l => .ite (.pure _) (.bind keeps_getList fun l' => ?_)
  refine .bind (keeps_lockList hP) fun _ => .bind (keeps_isHead _) fun isHead => ?_
  refine .ite (.pure _) (.bind .get fun l'' => ?_)
  exact keeps_linkedListForEachLoop hP hworker _ _ _ _

/-- A scan with a worker that only reads. -/
theorem keeps_forEach_read {β : Type} {worker : LinkedListForEachWorker β}
    {f : Addr → LinkedListEntry → Nat → β → Addr × β}
    (hworker : ∀ a i arg, worker a i arg = do
      let e ← deref a
      return f a e i arg) (arg : β) : Keeps P (linkedListForEach worker arg) := by
  refine keeps_linkedListForEach hP (fun a i arg' => ?_) arg
  rw [hworker]
  exact .bind (keeps_deref a) fun _ => .pure _

theorem keeps_search {β : Type} (found : β → Nat → LinkedListEntry → Bool) (arg : β) :
    Keeps P (linkedListForEach (searchWorker found) arg) :=
  keeps_linkedListForEach hP
    (fun a _ _ => .bind (keeps_deref a) fun _ => .ite (.pure _) (.pure _)) arg

theorem keeps_linkedListAccess (a : Addr) : Keeps P (linkedListAccess a) :=
  .bind (keeps_setList hP _) fun _ => .bind (keeps_lockList hP) fun _ =>
    .bind (keeps_store hP fun _ => rfl) fun _ => keeps_unlockList hP

theorem keeps_linkedListGetByPtr (key : Addr) : Keeps P (linkedListGetByPtr key) :=
  .ite (.pure _) (.bind (keeps_search hP _ key) fun _ =>
    .bind (.when (keeps_linkedListAccess hP _)) fun _ => .pure _)

theorem keeps_linkedListGetById (id : UInt16) : Keeps P (linkedListGetById id) :=
  .bind (keeps_lockList hP) fun _ => .bind (keeps_search hP _ id) fun _ =>
    .bind (.when (keeps_linkedListAccess hP _)) fun _ => .pure _

theorem keeps_linkedListHasPtr (key : Addr) : Keeps P (linkedListHasPtr key) := by
  refine .ite (.pure _)
    (.bind (keeps_lockList hP) fun _ => .bind (keeps_search hP _ key) fun r => ?_)
  refine .ite (.bind (keeps_setList hP _) fun _ => .bind (keeps_unlockList hP) fun _ => .pure _) ?_
  exact .bind (keeps_unlockList hP) fun _ => .pure _

end ListCode

/-- A new node is not marked, and neither was its address while nothing lived there. -/
theorem keeps_linkedListPush (c : Addr → Bool) (data : Addr) (size tid : UInt64) :
    Keeps (fun l => l.marks = c) (linkedListPush data size tid) := by
  have hP := markFrame_all c
  have hnew : ∀ previous, Keeps (fun l => l.marks = c)
      (linkedListEntryNew previous data size tid) := by
    intro previous
    refine Keeps.iff_wp.mpr fun env l hl => ?_
    rw [linkedListEntryNew, wp_bind, wp_ask, wp_bind, wp_get, wp_ite]
    refine ⟨fun _ => hl, fun hadm => ?_⟩
    rw [wp_bind, wp_modify]
    refine Keeps.iff_wp.mp (.bind (.when ?_) fun _ => .pure _) env _ ?_
    · exact .bind (keeps_store hP fun _ => rfl) fun _ => keeps_store hP fun _ => rfl
    rw [← hl]
    funext b
    show (nodeAt (l.nodes.insert env.node _) b).cached = (nodeAt l.nodes b).cached
    by_cases hb : b = env.node
    · have hnone := Option.isNone_iff_eq_none.mp (not_not.mp hadm).2.2
      rw [hb, nodeAt_insert_self, nodeAt, hnone]
      rfl
    · rw [nodeAt_insert_of_ne _ _ hb]
  refine .bind keeps_getList fun l => .bind (.when (.stop _)) fun _ => ?_
  refine .bind (keeps_lockList hP) fun _ => .bind keeps_getList fun l' => .bind (hnew _) fun a => ?_
  refine .bind (.when (.stop _)) fun _ => .bind (keeps_store hP fun _ => rfl) fun _ => ?_
  refine .bind keeps_getList fun _ => .bind (keeps_isHead _) fun _ =>
    .bind (.when (keeps_setList hP _)) fun _ => ?_
  exact .bind (keeps_setList hP _) fun _ => .bind (keeps_setList hP _) fun _ => keeps_unlockList hP

/-- A removal leaves the marks of the nodes that stay. -/
theorem keeps_linkedListRemoveEntryByPtr (c : Addr → Bool) (key : Addr) :
    Keeps (fun l => ∀ b, (l.nodes.lookup b).isSome → l.marks b = c b)
      (linkedListRemoveEntryByPtr key) := by
  have hP := markFrame_live c
  have hdestroy : ∀ a, Keeps (fun l : ListState => ∀ b, (l.nodes.lookup b).isSome → l.marks b = c b)
      (linkedListEntryDestroy a) := by
    intro a
    refine .ite (.pure _) (.bind (.modify fun l hl => hP.other l _ rfl hl) fun _ => ?_)
    refine .bind (keeps_deref a) fun _ => .modify fun l hl b hb => ?_
    obtain ⟨hne, hlive⟩ := (isSome_lookup_erase _ _ _).mp hb
    rw [← hl b hlive]
    show (nodeAt (l.nodes.erase a) b).cached = _
    rw [nodeAt_erase_of_ne _ hne]
    rfl
  have hpop : Keeps (fun l : ListState => ∀ b, (l.nodes.lookup b).isSome → l.marks b = c b)
      linkedListPop := by
    refine .bind (keeps_lockList hP) fun _ => .bind keeps_getList fun _ =>
      .bind (keeps_isHead _) fun _ => ?_
    refine .ite (.pure _) (.bind keeps_getList fun _ => .bind (keeps_deref _) fun _ => ?_)
    refine .bind (keeps_setList hP _) fun _ => .bind (keeps_store hP fun _ => rfl) fun _ => ?_
    refine .bind (hdestroy _) fun _ => .bind keeps_getList fun _ => .bind (keeps_isHead _) fun _ =>
      ?_
    exact .bind (.when (keeps_setList hP _)) fun _ => .bind (keeps_setList hP _) fun _ =>
      keeps_unlockList hP
  have hremove : ∀ a, Keeps (fun l : ListState => ∀ b, (l.nodes.lookup b).isSome → l.marks b = c b)
      (linkedListRemoveEntry a) := by
    intro a
    refine .ite (.pure _)
      (.bind (keeps_lockList hP) fun _ => .bind keeps_getList fun _ => .ite ?_ ?_)
    · exact .bind (keeps_unlockList hP) fun _ => .bind hpop fun _ => .pure _
    · refine .bind (keeps_deref a) fun _ => .bind (keeps_deref a) fun _ => ?_
      refine .bind (.when (keeps_store hP fun _ => rfl)) fun _ => ?_
      refine .bind (.when (keeps_store hP fun _ => rfl)) fun _ => .bind (hdestroy a) fun _ => ?_
      refine .bind keeps_getList fun _ => .bind (.when (keeps_setList hP _)) fun _ => ?_
      exact .bind (keeps_unlockList hP) fun _ => .pure _
  refine .ite (.pure _)
    (.bind (keeps_lockList hP) fun _ => .bind (keeps_search hP _ key) fun _ => ?_)
  exact .bind (hremove _) fun _ => keeps_unlockList hP

/-! ## Library code that leaves the view alone -/

/-- `m` changes nothing that the view shows. -/
abbrev Calm {α : Type} (m : CProg Lib α) : Prop := ∀ v, Keeps (fun s => s.cacheView = v) m

section CalmCode

/-- List code that keeps the marks. -/
theorem calm_onList {α : Type} {m : CProg ListState α}
    (hm : ∀ c, Keeps (fun l : ListState => l.marks = c) m) : Calm (onList m) := by
  intro v
  refine Keeps.zoom (hm v.marks) (fun s hs => ?_) fun s l hs hl => ?_
  · rw [← hs]
    rfl
  · rw [← hs] at hl ⊢
    exact CacheView.ext rfl rfl rfl hl

theorem calm_onHeap {α : Type} (m : CProg ClientHeap α) : Calm (onHeap m) :=
  fun _ => .zoom_other fun _ _ hs => hs

theorem calm_lockAlloc : Calm lockAlloc := fun _ => .zoom_other fun _ _ hs => hs

theorem calm_unlockAlloc : Calm unlockAlloc := fun _ => .zoom_other fun _ _ hs => hs

/-- Writing a field of the manager that the view does not show. -/
theorem calm_setManager {f : AllocManager → AllocManager}
    (hf : ∀ m, (f m).cacheList = m.cacheList ∧ (f m).cacheLock = m.cacheLock ∧
      (f m).useCache = m.useCache) : Calm (setManager f) := by
  intro v
  refine .modify fun s hs => ?_
  obtain ⟨hslots, hlock, huse⟩ := hf s.manager
  rw [← hs]
  exact CacheView.ext hslots hlock huse rfl

theorem keeps_memmanScanIds {P : ListState → Prop} (self : AllocManager) (id : UInt16)
    (rest : List Slot) : Keeps P (memmanScanIds self id rest) := by
  induction rest with
  | nil => exact .pure _
  | cons i rest ih => exact .ite ih (.bind (keeps_deref _) fun _ => .ite (.pure _) ih)

theorem calm_code : CodeFrame @Calm where
  pure a := fun _ => .pure a
  ask := fun _ => .ask
  bind hm hk := fun v => .bind (hm v) fun a => hk a v
  ite hm hn := fun v => .ite (hm v) (hn v)
  lockAlloc := calm_lockAlloc
  unlockAlloc := calm_unlockAlloc
  getManager := fun _ => .bind .get fun _ => .pure _

/-- The primitives leave the view alone. -/
theorem calm : OpFrame @Calm where
  toCodeFrame := calm_code
  setUsage f := calm_setManager fun _ => ⟨rfl, rfl, rfl⟩
  setError err := fun _ => .modify fun _ hs => hs
  fopenRead n path := fun _ => .bind .ask fun _ => .ite (.bind .get fun _ => .pure _) (.pure _)
  setFile path content := fun _ => .modify fun _ hs => hs
  onHeap := calm_onHeap
  deref a := calm_onList fun _ => keeps_deref a
  entryGet a dflt get := calm_onList fun _ => keeps_entryGet
  entrySet a f hf := by
    refine calm_onList fun c => keeps_linkedListEntrySet
      (fun l _ hl => (markFrame_all c).other l _ rfl hl) (keeps_store (markFrame_all c) fun e => ?_)
    obtain ⟨data, size, blockId, hfe⟩ := hf e
    rw [hfe]
  tryCacheHit := calm_code.memmanTryCacheHit fun _ =>
    calm_onList fun c => keeps_store (markFrame_all c) fun _ => rfl
  tryCacheHitById := calm_code.memmanTryCacheHitById fun self id =>
    calm_onList fun _ => keeps_memmanScanIds self id slots
  getByPtr key := calm_onList fun c => keeps_linkedListGetByPtr (markFrame_all c) key
  getById id := calm_onList fun c => keeps_linkedListGetById (markFrame_all c) id
  hasPtr key := calm_onList fun c => keeps_linkedListHasPtr (markFrame_all c) key
  push data size tid := calm_onList fun c => keeps_linkedListPush c data size tid
  scan f hworker arg := calm_onList fun c => keeps_forEach_read (markFrame_all c) hworker arg

end CalmCode

/-! ## Code that changes the view -/

/-- `sn_mount_file_to_ram` gets less than the whole file, and frees its buffer again. -/
structure ReadsShort (env : Env) (s : Lib) (path : FileName) (content : List UInt8) : Prop where
  exists_ok : env.fopenOk 0 = true
  open_ok : env.fopenOk 1 = true
  found : s.files.lookup path = some content
  short : env.transferred < (UInt64.ofNat content.length).toNat

/-- The operation gets to release `p` in `sn_free`. -/
inductive Frees (l : Env × Op) (s : Lib) (p : Addr) : Prop
  | free : l.2 = .free p → p ≠ NULL → s.Hits p ∨ findPtr s.list s.list.entries p ≠ NULL →
    Frees l s p
  | mount {path : FileName} {content : List UInt8} : l.2 = .mountFileToRam (some path) →
      ReadsShort l.1 s path content → p = l.1.block → Frees l s p

instance (env : Env) (s : Lib) (path : FileName) (content : List UInt8) :
    Decidable (ReadsShort env s path content) :=
  decidable_of_iff (_ ∧ _ ∧ _ ∧ _) ⟨fun h => ⟨h.1, h.2.1, h.2.2.1, h.2.2.2⟩,
    fun h => ⟨h.exists_ok, h.open_ok, h.found, h.short⟩⟩

/-- The pointer that the operation gets to release. -/
def released (l : Env × Op) (s : Lib) : Option Addr :=
  match l.2 with
  | .free p =>
    if p ≠ NULL ∧ (s.Hits p ∨ findPtr s.list s.list.entries p ≠ NULL) then some p else none
  | .mountFileToRam (some path) =>
    ((s.files.lookup path).filter fun content => ReadsShort l.1 s path content).map fun _ =>
      l.1.block
  | _ => none

theorem frees_iff {l : Env × Op} {s : Lib} {p : Addr} : Frees l s p ↔ p ∈ released l s := by
  obtain ⟨env, op⟩ := l
  constructor
  · rintro (⟨hop, hp, hfound⟩ | ⟨hop, hshort, rfl⟩)
    · obtain rfl : op = .free p := hop
      simp [released, hp, hfound]
    · rename_i path content
      obtain rfl : op = .mountFileToRam (some path) := hop
      simp [released, hshort.found, hshort]
  · intro h
    unfold released at h
    dsimp only at h
    split at h
    · obtain ⟨hp, h⟩ := Option.ite_none_right_eq_some.mp h
      obtain rfl := Option.some.inj h
      exact .free rfl hp.1 hp.2
    · obtain ⟨content, hcontent, rfl⟩ := Option.map_eq_some_iff.mp h
      exact .mount rfl (of_decide_eq_true (Option.filter_eq_some_iff.mp hcontent).2) rfl
    · cases h

instance (l : Env × Op) (s : Lib) (P : Addr → Prop) [DecidablePred P] :
    Decidable (∀ p, Frees l s p → P p) :=
  decidable_of_iff (∀ p ∈ released l s, P p) (forall_congr' fun _ => imp_congr_left frees_iff.symm)

/-- The view after `sn_free(p)` released a block; the marks of the removed node are gone. -/
structure FreedView (v : CacheView) (p : Addr) (s' : Lib) : Prop where
  ptr_ne : p ≠ NULL
  slot : s'.cacheView.slots = (v.drop (· = p) false slots).slots
  cacheLock : s'.cacheView.cacheLock = v.cacheLock
  useCache : s'.cacheView.useCache = v.useCache
  marks : ∀ b, (s'.list.nodes.lookup b).isSome →
    s'.cacheView.marks b = (v.drop (· = p) false slots).marks b

/-- What a completed operation did to the cache. -/
inductive CacheEffect (l : Env × Op) (s : Lib) (L : List Addr) (s' : Lib) : Prop
  /-- The passes of the operation, and nothing if it has none. -/
  | passed : s'.cacheView = cacheViewOf (workPass (s.list.nodes, s.manager) (l.2.visits L)) →
      CacheEffect l s L s'
  | locked : l.2 = .lockFastCache → s'.cacheView = { s.cacheView with cacheLock := true } →
      CacheEffect l s L s'
  | unlocked : l.2 = .unlockFastCache → s'.cacheView = { s.cacheView with cacheLock := false } →
      CacheEffect l s L s'
  | caching {val : Bool} : l.2 = .doFastCaching val →
      s'.cacheView = { s.cacheView with useCache := val } → CacheEffect l s L s'
  | cleared : l.2 = .fastCacheClear → s'.cacheView = s.cacheView.drop (fun _ => true) true slots →
      CacheEffect l s L s'
  | put {i : Slot} {p : Addr} : l.2 = .requestToFastCache p → p ≠ NULL →
      findPtr s.list L p ≠ NULL → s.manager.AcceptsPut → s.manager.freeSlot = some i →
      s'.cacheView = s.cacheView.put i ⟨p, findPtr s.list L p⟩ → CacheEffect l s L s'
  | freed {p : Addr} : Frees l s p → FreedView s.cacheView p s' →
      (findPtr s.list L p ≠ NULL → findPtr s.list L p ∉ s'.list.entries) → CacheEffect l s L s'

section Effects

variable {cfg : Config} {env : Env} {op : Op} {s s' : Lib} {L : List Addr} {v : CacheView}

theorem Calm.wlp {α : Type} {m : CProg Lib α} (hm : Calm m) (hs : s.cacheView = v) :
    wlp m env (fun _ s' => s'.cacheView = v) s :=
  (Keeps.iff_wp.mp (hm v) env s hs).mono (fun _ _ h => h) fun _ _ _ => trivial

/-- Code behind calm code starts from the same view. -/
theorem Calm.wlp_bind {α β : Type} {m : CProg Lib α} {k : α → CProg Lib β} {Q : β → Lib → Prop}
    (hm : Calm m) (hs : s.cacheView = v) (hk : ∀ a s', s'.cacheView = v → Prog.wlp (k a) env Q s') :
    Prog.wlp (m >>= k) env Q s := by
  rw [Prog.wlp, wp_bind]
  exact (hm.wlp hs).imp hk

theorem Calm.effect {α : Type} {m : CProg Lib α} (hm : Calm m) (hop : op.visits L = []) :
    Prog.wlp (forEffect m) env (fun _ s' => CacheEffect (env, op) s L s') s := by
  refine wlp_forEffect ((hm.wlp rfl).imp fun _ s' h => .passed ?_)
  rw [hop]
  exact h

/-- The pass, and calm code behind it. -/
theorem effect_afterPass {α : Type} {m : CProg Lib α} (hb : Base s L)
    (hm : OpFrame.AfterPass @Calm m) (hop : op.visits L = L) :
    Prog.wlp m env (fun _ s' => CacheEffect (env, op) s L s') s := by
  obtain ⟨k, rfl, hk⟩ := hm
  rw [Prog.wlp, wp_bind]
  refine wlp_memmanWork hb (((hk ()).wlp rfl).imp fun _ s' h => .passed ?_)
  rw [hop]
  exact h

/-- Emptying one slot, then the others. -/
theorem CacheView.drop_cons {wanted : Addr → Bool} {cached : Bool} {i : Slot} {rest : List Slot}
    (hi : i ∉ rest) (v : CacheView) :
    (v.drop wanted cached [i]).drop wanted cached rest = v.drop wanted cached (i :: rest) := by
  have hslot : ∀ j ∈ rest, (v.drop wanted cached [i]).slots j = v.slots j := by
    intro j hj
    refine if_neg fun h => hi ?_
    rw [← List.mem_singleton.mp h.1]
    exact hj
  refine CacheView.ext (funext fun j => ?_) rfl rfl (funext fun a => ?_)
  · show (if j ∈ rest ∧ DropsSlot wanted ((v.drop wanted cached [i]).slots j) then CachePair.empty
      else (v.drop wanted cached [i]).slots j) = if j ∈ i :: rest ∧ DropsSlot wanted (v.slots j)
        then .empty else v.slots j
    by_cases hj : j ∈ rest
    · rw [hslot j hj]
      simp [hj]
    · by_cases hji : j = i
      · subst hji
        simp [hj, CacheView.drop]
      · simp [hj, hji, CacheView.drop]
  · show (if ∃ j ∈ rest, DropsSlot wanted ((v.drop wanted cached [i]).slots j) ∧
        ((v.drop wanted cached [i]).slots j).value = a then cached
      else (v.drop wanted cached [i]).marks a) = if ∃ j ∈ i :: rest, DropsSlot wanted (v.slots j) ∧
        (v.slots j).value = a then cached else v.marks a
    have hrest : (∃ j ∈ rest, DropsSlot wanted ((v.drop wanted cached [i]).slots j) ∧
          ((v.drop wanted cached [i]).slots j).value = a) ↔
        ∃ j ∈ rest, DropsSlot wanted (v.slots j) ∧ (v.slots j).value = a := by
      refine exists_congr fun j => and_congr_right fun hj => ?_
      rw [hslot j hj]
    by_cases hr : ∃ j ∈ rest, DropsSlot wanted (v.slots j) ∧ (v.slots j).value = a
    · obtain ⟨j, hj, hdj⟩ := hr
      rw [if_pos (hrest.mpr ⟨j, hj, hdj⟩), if_pos ⟨j, List.mem_cons_of_mem i hj, hdj⟩]
    · rw [if_neg (fun h => hr (hrest.mp h))]
      refine if_congr ?_ rfl rfl
      rw [List.exists_mem_cons_iff, List.exists_mem_cons_iff]
      simp [hr]

theorem wlp_memmanDropSlots {wanted : Addr → Bool} {cached : Bool} {rest : List Slot}
    (hnd : rest.Nodup) (hs : s.cacheView = v) :
    wlp (memmanDropSlots wanted cached rest) env
      (fun _ s' => s'.cacheView = v.drop wanted cached rest) s := by
  induction rest generalizing s v with
  | nil =>
    show s.cacheView = v.drop wanted cached []
    rw [hs]
    exact CacheView.ext (by simp [CacheView.drop]) rfl rfl (by simp [CacheView.drop])
  | cons i rest ih =>
    obtain ⟨hi, hnd⟩ := List.nodup_cons.mp hnd
    rw [← CacheView.drop_cons hi, memmanDropSlots, wlp, wp_bind, wp_getManager, wp_bind, wp_when]
    constructor
    · intro hdrop
      have hd : DropsSlot wanted (s.manager.cacheList i) = true := decide_eq_true hdrop
      rw [wp_bind, wp_onList, store, wp_bind]
      refine wp_deref (fun _ => ?_) fun _ => trivial
      rw [wp_modify, wp_setManager]
      refine ih hnd ?_
      rw [← hs]
      refine CacheView.ext (funext fun j => ?_) rfl rfl (funext fun a => ?_)
      · show Function.update s.manager.cacheList i CachePair.empty j = if j ∈ [i] ∧
          DropsSlot wanted (s.manager.cacheList j) then .empty else s.manager.cacheList j
        by_cases hji : j = i
        · subst hji
          simp [hd]
        · simp [hji]
      · show (nodeAt (updNode s.list.nodes (s.manager.cacheList i).value _) a).cached =
          if ∃ j ∈ [i], DropsSlot wanted (s.manager.cacheList j) ∧ (s.manager.cacheList j).value = a
          then cached else (nodeAt s.list.nodes a).cached
        by_cases ha : a = (s.manager.cacheList i).value
        · rw [ha, nodeAt_updNode_self, if_pos ⟨i, by simp, hd, rfl⟩]
        · rw [nodeAt_updNode_of_ne _ _ ha, if_neg]
          rintro ⟨j, hj, -, hval⟩
          exact ha (by rw [← hval, List.mem_singleton.mp hj])
    · intro hkeep
      have hd : ¬ DropsSlot wanted (s.manager.cacheList i) = true :=
        fun h => hkeep (of_decide_eq_true h)
      refine ih hnd ?_
      rw [← hs]
      refine CacheView.ext (funext fun j => ?_) rfl rfl (funext fun a => ?_)
      · refine (if_neg fun h => hd ?_).symm
        rw [← List.mem_singleton.mp h.1]
        exact h.2
      · refine (if_neg ?_).symm
        rintro ⟨j, hj, hdj, -⟩
        rw [List.mem_singleton.mp hj] at hdj
        exact hd hdj

theorem wlp_memmanDrop_view {wanted : Addr → Bool} {cached : Bool} (hs : s.cacheView = v) :
    wlp (do lockAlloc; memmanDropSlots wanted cached slots; unlockAlloc) env
      (fun _ s' => s'.cacheView = v.drop wanted cached slots) s := by
  refine calm_lockAlloc.wlp_bind hs fun _ s₁ h₁ => ?_
  rw [wlp, wp_bind]
  refine (wlp_memmanDropSlots (List.nodup_finRange _) h₁).imp fun _ s₂ h₂ => ?_
  exact calm_unlockAlloc.wlp h₂

/-- `sn_free` leaves the cache alone or empties the slots of the pointer. -/
theorem wlp_snFree_view {p : Addr} (hs : s.cacheView = v) :
    wlp (snFree cfg p) env (fun _ s' => s'.cacheView = v ∨ FreedView v p s') s := by
  have hfail : ∀ (err : SnErrorCodes) (s₁ : Lib), s₁.cacheView = v →
      wlp (snError err ()) env (fun _ s' => s'.cacheView = v ∨ FreedView v p s') s₁ :=
    fun err _ h₁ => ((calm.snError err ()).wlp h₁).imp fun _ _ h => Or.inl h
  rw [wlp, snFree, wp_ite]
  refine ⟨fun _ => hfail _ s hs, fun hp => ?_⟩
  refine (calm.lookupEntry p).wlp_bind hs fun entry s₁ h₁ => ?_
  rw [wlp, wp_ite]
  refine ⟨fun _ => hfail _ s₁ h₁, fun _ => ?_⟩
  have hwipe : Calm (when cfg.sanitizeMemoryOnFree do
      let e ← onList (deref entry)
      onHeap (memset e.data 0 e.size.toNat)) :=
    calm.when (calm.bind (calm.deref entry) fun _ => calm_onHeap _)
  refine hwipe.wlp_bind h₁ fun _ s₂ h₂ => (calm.deref entry).wlp_bind h₂ fun e s₃ h₃ => ?_
  have husage : Calm (setManager fun m =>
      { m with globalMemoryUsage := m.globalMemoryUsage - e.size }) :=
    calm_setManager fun _ => ⟨rfl, rfl, rfl⟩
  refine husage.wlp_bind h₃ fun _ s₄ h₄ => ?_
  rw [wlp, wp_bind]
  refine (wlp_memmanDrop_view h₄).imp fun _ s₅ h₅ => ?_
  refine (calm.entryGet _ _ _).wlp_bind h₅ fun data s₆ h₆ => ?_
  refine (calm_onHeap _).wlp_bind h₆ fun _ s₇ h₇ => ?_
  rw [wlp, wp_onList]
  refine (Keeps.iff_wp.mp (keeps_linkedListRemoveEntryByPtr s₇.cacheView.marks p) env s₇.list
    fun b _ => rfl).mono (fun _ l hl => Or.inr ?_) fun _ _ _ => trivial
  rw [h₇] at hl
  obtain ⟨hslots, hlock, huse, -⟩ := CacheView.ext_iff.mp h₇
  exact ⟨hp, hslots, hlock, huse, hl⟩

theorem RemovedByPtr.findPtr_not_mem {l l' : ListState} {L' : List Addr} {p : Addr}
    (h : RemovedByPtr l l' L p L') (hrep : l.Rep L) : findPtr l L p ∉ L' := by
  cases h with
  | found hL hfind _ _ =>
    have hnd := hrep.links.tail_nodup
    rw [hL] at hnd
    rw [hfind]
    intro hmem
    rcases List.mem_append.mp hmem with hA | hB
    · exact (List.nodup_append.mp hnd).2.2 _ hA _ List.mem_cons_self rfl
    · exact (List.nodup_cons.mp (List.nodup_append.mp hnd).2.1).1 hB
  | none hnone _ =>
    rw [hnone]
    exact fun h0 => hrep.ne_null h0 rfl

/-- `sn_free` leaves the view alone, or it found the pointer and its first entry is gone. -/
theorem wlp_snFree_removed {p : Addr} (hb : Base s L) :
    wlp (snFree cfg p) env (fun _ s' => s'.cacheView = s.cacheView ∨
      (s.Hits p ∨ findPtr s.list s.list.entries p ≠ NULL) ∧ findPtr s.list L p ∉ s'.list.entries)
        s := by
  refine wp_snFree hb (fun _ _ => trivial) (fun _ _ => trivial) (fun _ => Or.inl rfl)
    (fun _ _ _ => Or.inl rfl) fun e s' L' h => Or.inr ⟨?_, ?_⟩
  · rw [hb.rep.entries_eq]
    cases h.lookup with
    | cached i huse hslot _ => exact Or.inl (hits_of_keySlot huse hslot)
    | listed _ hfind => exact Or.inr (hfind ▸ hb.rep.ne_null h.mem)
  · rw [(h.list.rep hb.rep).entries_eq]
    exact h.list.findPtr_not_mem hb.rep

theorem cache_snFree {p : Addr} (hb : Base s L) :
    wlp (snFree cfg p) env (fun _ s' => CacheEffect (env, .free p) s L s') s := by
  refine ((wlp_snFree_view rfl).and (wlp_snFree_removed hb)).mono (fun _ s' h => ?_)
    fun _ _ _ => trivial
  rcases h with ⟨hcalm | hfreed, hcalm' | ⟨hfound, hgone⟩⟩
  · exact .passed hcalm
  · exact .passed hcalm
  · exact .passed hcalm'
  · exact .freed (.free rfl hfreed.ptr_ne hfound) hfreed fun _ => hgone

/-- The entries before a push are found as before. -/
theorem Pushed.find?_old {l l' : ListState} {a data : Addr} {size tid : UInt64}
    (h : Pushed l l' L a data size tid) (p : Addr) :
    (L.find? fun b => (nodeAt l'.nodes b).data = p) =
      L.find? fun b => (nodeAt l.nodes b).data = p := by
  refine List.find?_congr fun b hb => ?_
  have hne : b ≠ a := fun heq => h.fresh (List.mem_cons_of_mem _ (heq ▸ hb))
  have hdata := congrArg Payload.data (h.old b hne)
  exact congrArg (fun d => decide (d = p)) hdata

theorem Pushed.findPtr {l l' : ListState} {a data p : Addr} {size tid : UInt64}
    (h : Pushed l l' L a data size tid) (hfound : findPtr l L p ≠ NULL) :
    findPtr l' (L ++ [a]) p = findPtr l L p := by
  unfold LibSafetynet.findPtr at *
  rw [List.find?_append, h.find?_old]
  cases hf : L.find? fun b => (nodeAt l.nodes b).data = p with
  | none =>
    rw [hf] at hfound
    exact absurd rfl hfound
  | some b => rfl

/-- The new entry is found under its block, unless an older one is. -/
theorem Pushed.findPtr_new {l l' : ListState} {a data : Addr} {size tid : UInt64}
    (h : Pushed l l' L a data size tid) (hrep : l.Rep L)
    (hnone : LibSafetynet.findPtr l L data = NULL) :
    LibSafetynet.findPtr l' (L ++ [a]) data = a := by
  have hold : (L.find? fun b => (nodeAt l.nodes b).data = data) = none := by
    rw [List.find?_eq_none]
    intro b hb
    rw [decide_eq_true_eq]
    exact (findPtr_eq_null fun h0 => hrep.ne_null h0 rfl).mp hnone b hb
  have hnew : (nodeAt l'.nodes a).data = data := congrArg Payload.data h.new
  unfold LibSafetynet.findPtr
  rw [List.find?_append, h.find?_old, hold]
  simp [hnew]

/-- A file that falls short has been opened. -/
theorem ReadsShort.opens {path : FileName} {content : List UInt8}
    (h : ReadsShort env s path content) :
    Opens env s (some path) content (UInt64.ofNat content.length) := by
  have hsize : UInt64.ofNat content.length ≠ 0 := by
    intro h0
    have hshort := h.short
    rw [h0] at hshort
    exact absurd hshort (Nat.not_lt_zero _)
  refine ⟨?_, h.exists_ok, h.open_ok, ⟨path, rfl, h.found⟩, rfl, hsize⟩
  rw [mountRefusal, h.found, if_neg (not_not.mpr ⟨h.exists_ok, rfl⟩),
    if_neg (not_not.mpr h.open_ok)]
  exact if_neg hsize

theorem cache_snMountFileToRam {file : Option FileName} (hb : Base s L) :
    wlp (snMountFileToRam cfg file) env
      (fun _ s' => CacheEffect (env, .mountFileToRam file) s L s') s := by
  -- the block and its node are not in the view
  have hview : ∀ {content size s₁ bytes}, Buffered env s L content size s₁ bytes →
      s₁.cacheView = s.cacheView := by
    intro content size s₁ bytes h
    obtain ⟨hslots, hlock, huse⟩ : s₁.manager.cacheList = s.manager.cacheList ∧
        s₁.manager.cacheLock = s.manager.cacheLock ∧ s₁.manager.useCache = s.manager.useCache := by
      rw [h.granted.manager]
      exact ⟨rfl, rfl, rfl⟩
    refine CacheView.ext hslots hlock huse (funext fun a => ?_)
    by_cases ha : a = env.node
    · have hnone := Option.isNone_iff_eq_none.mp h.admitsNode.2.2
      show (nodeAt s₁.list.nodes a).cached = (nodeAt s.list.nodes a).cached
      rw [ha, nodeAt, nodeAt, hnone]
      exact congrArg Payload.cached h.granted.pushed.new
    · exact congrArg Payload.cached (h.granted.pushed.old a ha)
  have hfail : ∀ s₁ : Lib, s₁.cacheView = s.cacheView → wlp (snError .snErrFileIo NULL) env
      (fun _ s' => CacheEffect (env, .mountFileToRam file) s L s') s₁ :=
    fun s₁ h₁ => ((calm.snError _ _).wlp h₁).imp fun _ _ h => .passed h
  refine wp_snMountFileToRam hb (fun _ _ => trivial) (fun _ _ => .passed rfl)
    (fun _ _ _ _ _ => trivial) (fun _ _ _ _ _ _ => trivial)
    (fun content size s₁ bytes _ _ h _ => .passed (hview h))
    fun content size s₁ bytes hopens _ h hless => ?_
  obtain ⟨path, rfl, hfound⟩ := hopens.found
  have hshort : ReadsShort env s path content :=
    ⟨hopens.exists_ok, hopens.open_ok, hfound, hopens.size_eq ▸ hless⟩
  have hb₁ : Base s₁ (L ++ [env.node]) := h.granted.base hb
  rw [wp_bind]
  refine ((wlp_snFree_view (hview h)).and (wlp_snFree_removed hb₁)).mono (fun _ s₂ h₂ => ?_)
    fun _ _ _ => trivial
  rcases h₂ with ⟨h₂ | hfreed, h₂' | ⟨-, hgone⟩⟩
  · exact hfail s₂ h₂
  · exact hfail s₂ h₂
  · exact hfail s₂ (h₂'.trans (hview h))
  · rw [snError, wp_bind]
    refine wp_snSetLastError (fun _ => trivial) (.freed (.mount rfl hshort rfl) ?_ ?_)
    · exact ⟨hfreed.ptr_ne, hfreed.slot, hfreed.cacheLock, hfreed.useCache, hfreed.marks⟩
    · intro hfound
      rw [← h.granted.pushed.findPtr hfound]
      exact hgone

theorem cache_snRequestToFastCache {p : Addr} (hb : Base s L) :
    wlp (snRequestToFastCache p) env
      (fun _ s' => CacheEffect (env, .requestToFastCache p) s L s') s := by
  have hcalm : ∀ s', s'.cacheView = s.cacheView → CacheEffect (env, .requestToFastCache p) s L s' :=
    fun _ h => .passed h
  rw [wlp, snRequestToFastCache, wp_ite]
  refine ⟨fun _ => ((calm.snError _ _).wlp rfl).imp fun _ _ h => hcalm _ h, fun hp => ?_⟩
  rw [wp_bind]
  have hfind : wlp (onList (linkedListGetByPtr p)) env
      (fun a s₁ => a = findPtr s.list L p ∧ s₁.manager = s.manager ∧ SameList s.list s₁.list) s :=
    wlp_getByPtr hb hp fun _ h hman => ⟨rfl, hman, h.quiet.list⟩
  refine (hfind.and ((calm.getByPtr p).wlp rfl)).mono (fun entry s₁ h => ?_) fun _ _ _ => trivial
  obtain ⟨⟨rfl, hman, hsame⟩, h₁⟩ := h
  rw [wp_ite]
  refine ⟨fun _ => ((calm.snError _ _).wlp h₁).imp fun _ _ h => hcalm _ h, fun hfound => ?_⟩
  obtain ⟨hmem, hdata⟩ := findPtr_mem hfound
  refine wp_memmanTryCachePut ((hsame.rep hb.rep).live_of_mem hmem) (fun _ _ => trivial)
    (fun _ => hcalm _ h₁) (fun _ _ _ => trivial) fun hacc i hslot => ?_
  rw [hman] at hacc hslot
  refine .put rfl hp hfound hacc hslot ?_
  rw [← h₁]
  have hkey : (nodeAt s₁.list.nodes (findPtr s.list L p)).data = p := (hsame.data _).trans hdata
  refine CacheView.ext ?_ rfl rfl (funext fun a => ?_)
  · show Function.update s₁.manager.cacheList i ⟨(nodeAt s₁.list.nodes _).data, _⟩ = _
    rw [hkey]
    rfl
  show (nodeAt (updNode s₁.list.nodes _ _) a).cached = Function.update s₁.cacheView.marks _ true a
  by_cases ha : a = findPtr s.list L p
  · rw [ha, nodeAt_updNode_self, Function.update_self]
  · rw [nodeAt_updNode_of_ne _ _ ha, Function.update_of_ne ha]
    rfl

theorem cache_snQueryStaticMetadata {p : Addr} (hb : Base s L) :
    wlp (snQueryStaticMetadata cfg p) env
      (fun _ s' => CacheEffect (env, .queryStaticMetadata p) s L s') s := by
  have hb₁ : Base (s.worked env L) L := base_worked hb
  rw [wlp, snQueryStaticMetadata, wp_bind]
  refine wlp_memmanWork hb ?_
  rw [wp_bind, snQueryMetadata, wp_bind]
  refine wlp_memmanWork hb₁ ?_
  -- one pass over the list twice
  have htwice : ((s.worked env L).worked env L).cacheView
      = cacheViewOf (workPass (s.list.nodes, s.manager) (L ++ L)) := by
    unfold workPass
    rw [List.foldl_append]
    rfl
  have hquery : Calm (if p = NULL then snError .snErrNullPtr NULL
      else cacheOrListByPtr p NULL fun entry => return entry + offsetofData) :=
    calm.ite (calm.snError _ _) (calm.cacheOrListByPtr fun _ => calm.pure _)
  refine (hquery.wlp htwice).imp fun memMetadata s₂ h₂ => ?_
  have hcopy : Calm (do
      if memMetadata = NULL then return NULL
      let retCopyMeta ← snMalloc cfg sizeofSnMemMetadata
      if retCopyMeta = NULL then return NULL
      let e ← onList (deref (memMetadata - offsetofData))
      onHeap (memWrite retCopyMeta (metadataBytes e))
      return retCopyMeta) := by
    refine calm.ite (calm.pure _) (calm.bind (calm.snMalloc cfg _) fun _ => ?_)
    refine calm.ite (calm.pure _) (calm.bind (calm.deref _) fun _ => ?_)
    exact calm.bind (calm_onHeap _) fun _ => calm.pure _
  exact (hcopy.wlp h₂).imp fun _ _ h => .passed h

/-- **Every operation** does one of the listed things to the cache. -/
theorem op_cache (op : Op) (hb : Base s L) :
    wlp (op.exec cfg) env (fun _ s' => CacheEffect (env, op) s L s') s := by
  cases op with
  | malloc size => exact (calm.snMalloc cfg size).effect rfl
  | calloc num size => exact (calm.snCalloc num size).effect rfl
  | realloc ptr newSize => exact (calm.snRealloc ptr newSize).effect rfl
  | mallocPreInitialized size b => exact (calm.snMallocPreInitialized cfg size b).effect rfl
  | free ptr => exact cache_snFree hb
  | doAutoFreeAtExit val =>
    have hcalm : Calm (snDoAutoFreeAtExit val) := fun v =>
      .bind (calm_lockAlloc v) fun _ => .bind (.modify fun _ hs => hs) fun _ => calm_unlockAlloc v
    exact (hcalm.wlp rfl).imp fun _ _ h => .passed h
  | register ptr => exact wlp_forEffect (effect_afterPass hb (calm.snRegister ptr) rfl)
  | registerSize ptr size =>
    exact wlp_forEffect (effect_afterPass hb (calm.snRegisterSize ptr size) rfl)
  | querySize ptr => exact wlp_forEffect (effect_afterPass hb (calm.snQuerySize ptr) rfl)
  | queryTid ptr => exact wlp_forEffect (effect_afterPass hb (calm.snQueryTid ptr) rfl)
  | isTrackedBlock ptr => exact wlp_forEffect (effect_afterPass hb (calm.snIsTrackedBlock ptr) rfl)
  | setBlockId block id => exact effect_afterPass hb (calm.snSetBlockId block id) rfl
  | getBlockId block => exact wlp_forEffect (effect_afterPass hb (calm.snGetBlockId block) rfl)
  | queryBlockId id => exact wlp_forEffect (effect_afterPass hb (calm.snQueryBlockId id) rfl)
  | queryMetadata ptr => exact wlp_forEffect (effect_afterPass hb (calm.snQueryMetadata ptr) rfl)
  | queryStaticMetadata ptr => exact wlp_forEffect (cache_snQueryStaticMetadata hb)
  | setAllocLimit limit => exact .passed rfl
  | queryThreadMemoryUsage tid =>
    exact wlp_forEffect (effect_afterPass hb (calm.snQueryThreadMemoryUsage tid) rfl)
  | queryTotalMemoryUsage => exact .passed rfl
  | calculateChecksum block =>
    exact wlp_forEffect (effect_afterPass hb (calm.snCalculateChecksum block) rfl)
  | memMetadataForEach worker g => exact (calm.snMemMetadataForEach worker g).effect rfl
  | requestToFastCache ptr => exact wlp_forEffect (cache_snRequestToFastCache hb)
  | lockFastCache => exact .locked rfl rfl
  | unlockFastCache => exact .unlocked rfl rfl
  | doFastCaching val => exact .caching rfl rfl
  | fastCacheClear => exact (wlp_memmanDrop_view rfl).imp fun _ _ h => .cleared rfl h
  | dumpToFile file block => exact (calm.snDumpToFile file block).effect rfl
  | mountFileToRam file => exact wlp_forEffect (cache_snMountFileToRam hb)
  | getLastError => exact .passed rfl
  | resetLastError => exact .passed rfl
  | clientMalloc size => exact (calm_onHeap _).effect rfl
  | clientFree ptr => exact ((calm_onHeap _).wlp rfl).imp fun _ _ h => .passed h
  | clientWrite ptr bytes => exact ((calm_onHeap _).wlp rfl).imp fun _ _ h => .passed h

/-! ## One completed operation -/

/-- Every change keeps the dummy head, and appends at most the proposed node. -/
theorem Trans.entries {s₀ : Lib} {L' : List Addr} (h : Trans cfg env op s₀ L s L' s')
    (hb : Base s L) :
    s'.list.list.head = s.list.list.head ∧ ∀ b ∈ L', b ∈ L ∨ b = env.node := by
  have hpush : ∀ {data : Addr} {size tid : UInt64}, Pushed s.list s'.list L env.node data size tid →
      s'.list.list.head = s.list.list.head ∧ ∀ b ∈ L ++ [env.node], b ∈ L ∨ b = env.node :=
    fun h => ⟨h.head, fun b hb => (List.mem_append.mp hb).imp_right List.mem_singleton.mp⟩
  have hsame : s'.list.list.head = s.list.list.head →
      s'.list.list.head = s.list.list.head ∧ ∀ b ∈ L, b ∈ L ∨ b = env.node :=
    fun hhead => ⟨hhead, fun _ => Or.inl⟩
  cases h with
  | quiet hq => exact hsame hq.list.head
  | pass _ _ _ => exact hsame (sameList_worked hb.rep).head
  | cleared hlist _ _ => exact hsame hlist.head
  | put _ _ _ _ _ => exact hsame rfl
  | granted _ hgr => exact hpush hgr.pushed
  | registered _ _ hpushed _ _ => exact hpush hpushed
  | realloced _ _ _ _ _ _ hrw _ => exact hsame hrw.links.head
  | tagged _ _ hrw _ _ => exact hsame hrw.links.head
  | wrote _ _ hl _ _ => exact hsame (by rw [hl])
  | freed _ _ _ _ _ hrem _ =>
    refine ⟨hrem.head, fun b hb => Or.inl ?_⟩
    cases hrem with
    | found hL _ _ _ =>
      rw [hL]
      rcases List.mem_append.mp hb with hA | hB
      · exact List.mem_append_left _ hA
      · exact List.mem_append_right _ (List.mem_cons_of_mem _ hB)
    | none _ _ => exact hb
  | clientAlloc _ _ hl _ _ => exact hsame (by rw [hl])
  | clientFree _ _ hl _ _ => exact hsame (by rw [hl])

/-- A completed operation did one of the listed things to the cache, and its new
entries are at the proposed address, where nothing lived before. -/
theorem libStep_cache {l : Env × Op} (hb : Base s L) (h : libStep cfg l s = some s') :
    ∃ L', Base s' L' ∧ (∀ b ∈ L', b ∈ L ∨ b = l.1.node ∧ (s.list.nodes.lookup b).isNone) ∧
      CacheEffect l s L s' := by
  obtain ⟨L', hspec⟩ := libStep_meets hb h
  obtain ⟨⟨hhead, hmem⟩, hb'⟩ := hspec.changes.invariant
    (I := fun L₁ s₁ => s₁.list.list.head = s.list.list.head ∧ ∀ b ∈ L₁, b ∈ L ∨ b = l.1.node)
    (fun hb₁ hI htrans => by
      obtain ⟨hhead, hmem⟩ := htrans.entries hb₁
      refine ⟨hhead.trans hI.1, fun b hb => ?_⟩
      rcases hmem b hb with hold | hnew
      · exact hI.2 b hold
      · exact Or.inr hnew) hb ⟨rfl, fun _ => Or.inl⟩
  refine ⟨L', hb', fun b hbL' => ?_, ?_⟩
  · by_cases hbL : b ∈ L
    · exact Or.inl hbL
    · refine Or.inr ⟨(hmem b hbL').resolve_left hbL, ?_⟩
      rw [Option.isNone_iff_eq_none, ← Option.not_isSome_iff_eq_none, hb.rep.live, List.mem_cons]
      rintro (hh | hL)
      · exact hb'.rep.links.ne_head hbL' (hh.trans hhead.symm)
      · exact hbL hL
  · obtain ⟨_, hdone⟩ := Outcome.done?_eq_some.mp h
    have heffect : wlp (l.2.exec cfg) l.1 (fun _ s' => CacheEffect l s L s') s := op_cache l.2 hb
    exact (wp_of_done hdone).mp heffect

end Effects

end LibSafetynet
