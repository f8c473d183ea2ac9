import LibSafetynet.CacheView
import LibSafetynet.HotBlocks

/-!
# The operations as calls of the list and the manager

The runs of `HotBlocks` are over calls of the list and of the manager. Every public
operation is made of such calls (`libStep_byCalls`): hits, passes, a push, a removal, a
request, and code that leaves entries and weights alone. So every reachable state of the
library is reached by a run in which the hits are counted (`reachable_byCalls`).
-/

namespace LibSafetynet

open Logic Prog PlatMutex ListState AllocManager

/-- Calls of the list and the manager lead from `c` to the library `s'`. -/
def ByCalls (c : HitCount) (s' : Lib) : Prop :=
  ∃ c', Reaches hitStep CacheCall.Legal c c' ∧ c'.lib = s'

/-- Whatever `m` does when it returns is done by calls of the list and of the manager. -/
def MadeOfCalls {α : Type} (m : CProg Lib α) : Prop :=
  ∀ env c, c.Right → wlp m env (fun _ s' => ByCalls c s') c.lib

/-- `l'` has the entries of `l` with their weights. -/
structure AsideList (l l' : ListState) : Prop where
  links : SameLinks l l'
  weight : ∀ a, (nodeAt l'.nodes a).weight = (nodeAt l.nodes a).weight

section Composed

variable {α β : Type} {env : Env} {c : HitCount} {s : Lib}

theorem right_of_reaches {c' : HitCount} (hc : c.Right)
    (h : Reaches hitStep CacheCall.Legal c c') : c'.Right :=
  h.invariant (fun _ _ _ => hitStep_right) hc

/-- A call leads to its own outcome. -/
theorem byCalls_one (env : Env) (q : CacheCall) (c' : HitCount)
    (hleg : CacheCall.Legal (env, q) c) (hstep : hitStep (env, q) c = some c') :
    ByCalls c c'.lib :=
  ⟨c', .one hleg hstep, rfl⟩

/-- Calls, and code from where they lead. -/
theorem ByCalls.wlp_next {n : CProg Lib β} (h : ByCalls c s) (hc : c.Right)
    (hn : ∀ c' : HitCount, c'.Right → c'.lib = s → wlp n env (fun _ s' => ByCalls c' s') s) :
    wlp n env (fun _ s' => ByCalls c s') s := by
  obtain ⟨c₁, h₁, hs⟩ := h
  refine (hn c₁ (right_of_reaches hc h₁) hs).imp fun _ s' h₂ => ?_
  obtain ⟨c₂, h₂, hs'⟩ := h₂
  exact ⟨c₂, h₁.trans h₂, hs'⟩

theorem MadeOfCalls.bind {m : CProg Lib α} {k : α → CProg Lib β} (hm : MadeOfCalls m)
    (hk : ∀ a, MadeOfCalls (k a)) : MadeOfCalls (m >>= k) := by
  intro env c hc
  rw [wlp, wp_bind]
  refine (hm env c hc).imp fun a s' hs' => hs'.wlp_next hc ?_
  rintro c' hc' rfl
  exact hk a env c' hc'

theorem MadeOfCalls.ite {p : Prop} [Decidable p] {m n : CProg Lib α} (hm : MadeOfCalls m)
    (hn : MadeOfCalls n) : MadeOfCalls (if p then m else n) := by
  intro env c hc
  rw [wlp, wp_ite]
  exact ⟨fun _ => hm env c hc, fun _ => hn env c hc⟩

theorem calls_stop (e : Stop) : MadeOfCalls (stop e : CProg Lib α) := fun _ _ _ => trivial

/-- Code that leaves entries and weights alone is a call of its own. -/
theorem calls_aside {m : CProg Lib α} (hm : LeavesAside (forEffect m)) : MadeOfCalls m := by
  intro env c _
  refine wlp_of_forall fun a s' hdone => ?_
  have heffect : forEffect m env c.lib = .done () s' := run_bind_done hdone
  refine byCalls_one env (.other _ hm) { c with lib := s' } trivial ?_
  show (forEffect m env c.lib).done?.map _ = _
  rw [heffect]
  rfl

end Composed

/-! ## Code beside -/

section Beside

variable {α β : Type} {s₀ s : Lib} {l₀ : ListState}

theorem Aside.refl (s : Lib) : Aside s s :=
  ⟨(SameList.refl s.list).sameLinks, fun _ => rfl, fun _ => Or.inl rfl⟩

theorem AsideList.refl (l : ListState) : AsideList l l :=
  ⟨(SameList.refl l).sameLinks, fun _ => rfl⟩

theorem calls_keeps {m : CProg Lib α} (hm : ∀ s₀, Keeps (Aside s₀) m) : MadeOfCalls m :=
  calls_aside fun env s _ _ => wlp_forEffect
    ((Keeps.iff_wp.mp (hm s) env s (Aside.refl s)).mono (fun _ _ h => h) fun _ _ _ => trivial)

theorem calls_onList {m : CProg ListState α}
    (hm : ∀ env l L, l.Rep L → wlp m env (fun _ l' => AsideList l l') l) :
    MadeOfCalls (onList m) := by
  refine calls_aside fun env s L hb => wlp_forEffect ?_
  rw [wlp, wp_onList]
  refine (hm env s.list L hb.rep).mono (fun _ l' h => ?_) fun _ _ _ => trivial
  exact ⟨h.links, h.weight, fun _ => Or.inl rfl⟩

theorem calls_onList_keeps {m : CProg ListState α} (hm : ∀ l₀, Keeps (AsideList l₀) m) :
    MadeOfCalls (onList m) :=
  calls_onList fun env l _ _ =>
    (Keeps.iff_wp.mp (hm l) env l (AsideList.refl l)).mono (fun _ _ h => h) fun _ _ _ => trivial

theorem AsideList.mutex {l : ListState} (h : AsideList l₀ l) (m : Option PlatMutex) :
    AsideList l₀ { l with mutex := m } :=
  ⟨h.links.trans (SameList.mutex l m).sameLinks, h.weight⟩

/-- A write to other fields than links and weights. -/
theorem asideList_store {a : Addr} {f : LinkedListEntry → LinkedListEntry}
    (hlinks : ∀ e, (f e).next = e.next ∧ (f e).previous = e.previous ∧ (f e).isHead = e.isHead ∧
      (f e).mutex = e.mutex) (hweight : ∀ e, (f e).weight = e.weight) :
    Keeps (AsideList l₀) (store a f) := by
  refine Keeps.iff_wp.mpr fun env l hl => ?_
  rw [store, wp_bind]
  refine wp_deref (fun hlive => ⟨?_, fun b => ?_⟩) fun _ => hl
  · exact hl.links.trans (SameLinks.updNode hlive f hlinks)
  · rw [← hl.weight b]
    by_cases hb : b = a
    · rw [hb, nodeAt_updNode_self, hweight]
    · rw [nodeAt_updNode_of_ne _ _ hb]

theorem calls_onHeap (m : CProg ClientHeap α) : MadeOfCalls (onHeap m) :=
  calls_keeps fun _ => .zoom_other fun _ _ hs => ⟨hs.links, hs.weight, hs.slot⟩

theorem calls_lockAlloc : MadeOfCalls lockAlloc :=
  calls_keeps fun _ => .zoom_other fun _ _ hs => ⟨hs.links, hs.weight, hs.slot⟩

theorem calls_unlockAlloc : MadeOfCalls unlockAlloc :=
  calls_keeps fun _ => .zoom_other fun _ _ hs => ⟨hs.links, hs.weight, hs.slot⟩

/-- Writing the manager's other fields, or emptying slots. -/
theorem calls_setManager {f : AllocManager → AllocManager}
    (hf : ∀ m i, (f m).cacheList i = m.cacheList i ∨ (f m).cacheList i = .empty) :
    MadeOfCalls (setManager f) := by
  refine calls_keeps fun s₀ => .modify fun s hs => ⟨hs.links, hs.weight, fun i => ?_⟩
  rcases hf s.manager i with h | h
  · rw [h]
    exact hs.slot i
  · exact Or.inr h

/-- Writing the fields of the library that the list and the manager do not have. -/
theorem calls_modify {f : Lib → Lib} (hlist : ∀ s, (f s).list = s.list)
    (hmanager : ∀ s, (f s).manager = s.manager) : MadeOfCalls (modify f : CProg Lib Unit) := by
  refine calls_keeps fun s₀ => .modify fun s hs => ?_
  refine ⟨?_, fun a => ?_, fun i => ?_⟩
  · rw [hlist]
    exact hs.links
  · rw [Lib.weightAt, hlist]
    exact hs.weight a
  · rw [hmanager]
    exact hs.slot i

theorem calls_linkedListHasPtr (key : Addr) : MadeOfCalls (onList (linkedListHasPtr key)) := by
  refine calls_onList fun env l L hrep => ?_
  refine wp_linkedListHasPtr hrep (fun _ => AsideList.refl l) (fun _ _ => trivial) fun _ _ => ?_
  have hmutex := SameList.mutex l (release l.mutex)
  exact ⟨(hmutex.trans (SameList.lastAccess _ _)).sameLinks, fun _ => rfl⟩

end Beside

/-! ## The calls -/

section Calls

variable {env : Env} {c : HitCount}

theorem calls_hit (q : HitCall) : MadeOfCalls q.exec := by
  intro env c _
  refine wlp_of_forall fun v s' hdone => ?_
  refine byCalls_one env (.hit q) (c.countHit v s') trivial ?_
  simp only [hitStep, hdone]

theorem calls_work : MadeOfCalls memmanWork := by
  intro env c _
  refine wlp_of_forall fun _ s' hdone => ?_
  refine byCalls_one env .work (c.restart s') trivial ?_
  show (memmanWork env c.lib).done?.map _ = _
  rw [hdone]
  rfl

theorem calls_list (op : ListOp) {s' : Lib} (hleg : ListOp.Legal (env, op) c.lib.list)
    (hdone : onList op.exec env c.lib = .done () s') : ByCalls c s' := by
  refine byCalls_one env (.list op) (c.changeList env op s') hleg ?_
  show (onList op.exec env c.lib).done?.map _ = _
  rw [hdone]
  rfl

theorem calls_put {entry : Addr} (hentry : entry ∈ c.lib.list.entries) :
    wlp (memmanTryCachePut entry) env (fun _ s' => ByCalls c s') c.lib := by
  refine wlp_of_forall fun _ s' hdone => ?_
  refine byCalls_one env (.tryCachePut entry) { c with lib := s' } hentry ?_
  show (memmanTryCachePut entry env c.lib).done?.map _ = _
  rw [hdone]
  rfl

/-- A push that returns got a fresh node. -/
theorem calls_linkedListPush (data : Addr) (size tid : UInt64) :
    MadeOfCalls (onList (linkedListPush data size tid)) := by
  rintro env c ⟨L, hb, -⟩
  have hfresh : wlp (onList (linkedListPush data size tid)) env
      (fun _ _ => c.lib.list.AdmitsNode env.node) c.lib := by
    rw [wlp, wp_onList]
    exact wp_linkedListPush hb.rep (fun _ => trivial) (fun _ _ => trivial) fun _ hadm _ _ => hadm
  exact wlp_of_forall fun _ _ hdone =>
    calls_list (.push data size tid) (hfresh.done hdone) hdone

theorem calls_linkedListRemoveEntryByPtr (key : Addr) :
    MadeOfCalls (onList (linkedListRemoveEntryByPtr key)) := fun _ _ _ =>
  wlp_of_forall fun _ _ hdone => calls_list (.removeEntryByPtr key) trivial hdone

end Calls

/-! ## The operations -/

theorem calls_code : CodeFrame @MadeOfCalls where
  pure a := calls_keeps fun _ => .pure a
  ask := calls_keeps fun _ => .ask
  bind := .bind
  ite := .ite
  lockAlloc := calls_lockAlloc
  unlockAlloc := calls_unlockAlloc
  getManager := calls_keeps fun _ => .bind .get fun _ => .pure _

/-- The primitives are calls, or leave entries and weights alone. -/
theorem calls : OpFrame @MadeOfCalls where
  toCodeFrame := calls_code
  setUsage f := calls_setManager fun _ _ => Or.inl rfl
  setError err := calls_modify (fun _ => rfl) fun _ => rfl
  fopenRead n path :=
    calls_keeps fun _ => .bind .ask fun _ => .ite (.bind .get fun _ => .pure _) (.pure _)
  setFile path content := calls_modify (fun _ => rfl) fun _ => rfl
  onHeap := calls_onHeap
  deref a := calls_onList_keeps fun _ => keeps_deref a
  entryGet a dflt get := calls_onList_keeps fun _ => keeps_entryGet
  entrySet a f hf := by
    refine calls_onList_keeps fun l₀ => keeps_linkedListEntrySet (fun _ m hl => hl.mutex m) ?_
    refine asideList_store (fun e => ?_) fun e => ?_ <;> obtain ⟨data, size, blockId, hfe⟩ := hf e
    · rw [hfe]
      exact ⟨rfl, rfl, rfl, rfl⟩
    · rw [hfe]
  tryCacheHit key := calls_hit (.tryCacheHit key)
  tryCacheHitById := calls_code.memmanTryCacheHitById fun self id =>
    calls_onList_keeps fun _ => keeps_memmanScanIds self id slots
  getByPtr key := calls_hit (.getByPtr key)
  getById id := calls_hit (.getById id)
  hasPtr := calls_linkedListHasPtr
  push := calls_linkedListPush
  scan f hworker arg := by
    refine calls_onList fun env l L hrep => ?_
    refine wp_linkedListForEach_read hrep hworker (fun _ => trivial) fun _ => ?_
    exact (AsideList.refl l).mutex _

section Operations

variable {cfg : Config} {l : Env × Op} {c : HitCount} {s s' : Lib}

theorem calls_mark (a : Addr) (cached : Bool) :
    MadeOfCalls (onList (store a fun e => { e with cached })) :=
  calls_onList_keeps fun _ => asideList_store (fun _ => ⟨rfl, rfl, rfl, rfl⟩) fun _ => rfl

theorem calls_emptySlot (i : Slot) : MadeOfCalls (setManager fun self =>
    { self.setSlot i .empty with availableCacheSlots := self.availableCacheSlots + 1 }) := by
  refine calls_setManager fun m j => ?_
  by_cases hj : j = i
  · exact Or.inr (hj ▸ Function.update_self i _ _)
  · exact Or.inl (Function.update_of_ne hj _ _)

theorem calls_snFree (ptr : Addr) : MadeOfCalls (snFree cfg ptr) :=
  calls.snFree (calls_code.memmanCacheInvalidate calls_mark calls_emptySlot ptr)
    (calls_linkedListRemoveEntryByPtr ptr)

theorem calls_snRequestToFastCache (ptr : Addr) : MadeOfCalls (snRequestToFastCache ptr) := by
  refine .ite (calls.snError _ _) fun env c hc => ?_
  obtain ⟨L, hb, hr⟩ := hc
  rw [wlp, wp_bind]
  have hget := calls_hit (.getByPtr ptr) env c ⟨L, hb, hr⟩
  refine (hget.and (wlp_hit hb (.getByPtr ptr))).mono (fun v s' h => ?_) fun _ _ _ => trivial
  obtain ⟨hcalls, hhit⟩ := h
  refine hcalls.wlp_next ⟨L, hb, hr⟩ ?_
  rintro c' hc' rfl
  rw [wlp, wp_ite]
  refine ⟨fun _ => calls.snError _ _ env c' hc', fun hv => calls_put ?_⟩
  rw [hhit.base.rep.entries_eq]
  exact hhit.mem hv

theorem calls_snMountFileToRam (file : Option FileName) :
    MadeOfCalls (snMountFileToRam cfg file) := by
  cases file with
  | none => exact calls.snError _ _
  | some path =>
    refine .bind (calls.fileExists path) fun _ => .ite (calls.snError _ _) ?_
    refine .bind (calls.fopenRead 1 path) fun content => ?_
    cases content with
    | none => exact calls.snError _ _
    | some content =>
      refine .ite (calls.snError _ _) (.bind (calls.snMalloc cfg _) fun buffer => ?_)
      refine .bind (calls_code.when (calls_stop _)) fun _ => .bind calls_code.ask fun env => ?_
      refine .bind (calls_onHeap _) fun _ => .ite ?_ (calls_code.pure _)
      exact .bind (calls_snFree buffer) fun _ => calls.snError _ _

theorem calls_execFrame : ExecFrame @MadeOfCalls where
  toOpFrame := calls
  work := calls_work
  requestToFastCache := calls_snRequestToFastCache
  cacheClear := calls_code.memmanCacheClear calls_mark calls_emptySlot
  getLastError := calls_keeps fun _ => .bind .get fun _ => .pure _
  setField _ hf := calls_modify (fun s => (hf s).1) fun s => (hf s).2
  setSetting _ hf := calls_setManager fun m i => Or.inl (congrFun (hf m) i)

/-- Every operation is made of calls of the list and of the manager. -/
theorem calls_exec (op : Op) : MadeOfCalls (op.exec cfg) :=
  calls_execFrame.exec op (fun ptr _ => calls_snFree ptr) fun file _ => calls_snMountFileToRam file

/-- **One operation** is a run of calls. -/
theorem libStep_byCalls (hc : c.Right) (h : libStep cfg l c.lib = some s') : ByCalls c s' := by
  obtain ⟨_, hdone⟩ := Outcome.done?_eq_some.mp h
  exact (calls_exec l.2 l.1 c hc).done hdone

/-- **Every reachable state** is the end of a run of calls from the start of the library. -/
theorem reachable_byCalls (h : Reachable cfg s) : ∃ s₀ c, Started s₀ ∧
    Reaches hitStep CacheCall.Legal { lib := s₀, hits := fun _ => 0 } c ∧ c.lib = s := by
  obtain ⟨s₀, ls, h₀, hrun⟩ := h
  have hall : Along (libStep cfg) (fun _ _ => True) ls s₀ :=
    Along.of_forall (fun _ _ _ => trivial) _
  have hcalls : ByCalls { lib := s₀, hits := fun _ => 0 } s := by
    refine run_invariant (I := ByCalls { lib := s₀, hits := fun _ => 0 }) ?_ ⟨_, .refl _, rfl⟩
      hall hrun
    rintro l _ s' ⟨c₁, h₁, rfl⟩ - hs
    obtain ⟨c₂, h₂, hs'⟩ := libStep_byCalls (right_of_reaches (right_of_started h₀) h₁) hs
    exact ⟨c₂, h₁.trans h₂, hs'⟩
  obtain ⟨c, hc, hs⟩ := hcalls
  exact ⟨s₀, c, h₀, hc, hs⟩

end Operations

end LibSafetynet
