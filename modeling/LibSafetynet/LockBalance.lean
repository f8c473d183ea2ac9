import LibSafetynet.Reachability

/-!
# Lock balance

Which calls return with a mutex still locked. Every call of the list, of the
manager and of the public interface is one `Call`; `Call.Leaks` names, from the
state before the call, the paths on which a lock of the list's mutex is not
undone: the early returns of `linked_list_pop` and `linked_list_forEach`, and the
lock that `linked_list_getById` takes before its search. The manager's mutex is
always released.
-/

namespace LibSafetynet

open Logic Prog PlatMutex ListState AllocManager

/-- Calls of the list. -/
inductive ListCall : Type 1 where
  | push (data : Addr) (size tid : UInt64)
  | pop
  | forEach {β : Type} (worker : LinkedListForEachWorker β) (genericArg : β)
  | hasPtr (key : Addr)
  | getByPtr (key : Addr)
  | getById (id : UInt16)
  | getByIndex (index : Nat)
  | removeEntry (entryRef : Addr)
  | removeEntryByPtr (key : Addr)

/-- Calls of the allocation manager. -/
inductive ManagerCall where
  | work
  | tryCacheHit (key : Addr)
  | tryCacheHitById (id : UInt16)
  | cacheInvalidate (key : Addr)
  | cacheClear
  | tryCachePut (entry : Addr)

/-- A call of the list, of the manager or of the public interface. -/
inductive Call : Type 1 where
  | list (c : ListCall)
  | manager (c : ManagerCall)
  | api (op : Op)

def ListCall.exec : ListCall → CProg Lib Unit
  | .push data size tid => onList (linkedListPush data size tid)
  | .pop => onList linkedListPop
  | .forEach worker genericArg => forEffect (onList (linkedListForEach worker genericArg))
  | .hasPtr key => forEffect (onList (linkedListHasPtr key))
  | .getByPtr key => forEffect (onList (linkedListGetByPtr key))
  | .getById id => forEffect (onList (linkedListGetById id))
  | .getByIndex index => forEffect (onList (linkedListGetByIndex index))
  | .removeEntry entryRef => forEffect (onList (linkedListRemoveEntry entryRef))
  | .removeEntryByPtr key => onList (linkedListRemoveEntryByPtr key)

def ManagerCall.exec : ManagerCall → CProg Lib Unit
  | .work => memmanWork
  | .tryCacheHit key => forEffect (memmanTryCacheHit key)
  | .tryCacheHitById id => forEffect (memmanTryCacheHitById id)
  | .cacheInvalidate key => memmanCacheInvalidate key
  | .cacheClear => memmanCacheClear
  | .tryCachePut entry => forEffect (memmanTryCachePut entry)

def Call.exec (cfg : Config) : Call → CProg Lib Unit
  | .list c => c.exec
  | .manager c => c.exec
  | .api op => op.exec cfg

/-- The path on which a call of the list leaves the mutex locked. -/
def ListCall.Leaks (s : ListState) : ListCall → Prop
  | .pop | .getById _ => s.entries = []
  | .forEach _ _ => Ghost s
  | .getByPtr key => key ≠ NULL ∧ Ghost s
  | .getByIndex index => index ≤ s.list.len ∧ Ghost s
  | .removeEntry entryRef => entryRef = s.list.lastEntry ∧ s.entries = []
  | .push .. | .hasPtr _ | .removeEntryByPtr _ => False

/-- The path on which a call of the manager leaves the list's mutex locked. -/
def ManagerCall.Leaks (s : Lib) : ManagerCall → Prop
  | .work => Ghost s.list
  | _ => False

/-- The path on which a call leaves the list's mutex locked. -/
def Call.Leaks (env : Env) (s : Lib) : Call → Prop
  | .list c => c.Leaks s.list
  | .manager c => c.Leaks s
  | .api op => LeakCase (env, op) s

/-- Both mutexes are free. -/
def BothFree (s : Lib) : Prop := IsFree s.list.mutex ∧ IsFree s.allocMutex

instance (s : Lib) : Decidable (BothFree s) := inferInstanceAs (Decidable (_ ∧ _))

/-! ## Calls of the list -/

section Lists

variable {env : Env} {l : ListState} {L : List Addr} {α : Type}

theorem wlp_trivial {σ : Type} (m : CProg σ α) (s : σ) : wlp m env (fun _ _ => True) s := by
  unfold wlp wp
  cases m env s <;> trivial

/-- The loop of `linked_list_forEach` returns after an unlock, whatever its worker does. -/
theorem wlp_forEachLoop_free {β : Type} (worker : LinkedListForEachWorker β) (fuel : Nat)
    (entry : Addr) (i : Nat) (arg : β) (l : ListState) :
    wlp (linkedListForEachLoop worker fuel entry i arg) env (fun _ l' => IsFree l'.mutex) l := by
  induction fuel generalizing entry i arg l with
  | zero => trivial
  | succ fuel ih =>
    rw [wlp, linkedListForEachLoop, wp_ite]
    constructor
    · intro _
      rw [wp_bind, wp_unlockList]
      exact isFree_release _
    · intro _
      rw [wp_bind]
      refine wp_deref (fun _ => ?_) fun _ => trivial
      rw [wp_bind]
      refine (wlp_trivial _ _).imp fun ret l₁ _ => ?_
      rw [wp_bind, wp_lockList]
      refine ⟨fun _ => ?_, fun _ => trivial⟩
      rw [wp_ite]
      constructor
      · intro _
        rw [wp_bind, wp_unlockList]
        exact isFree_release _
      · intro _
        exact ih _ _ _ _

theorem wlp_forEach_free {β : Type} {worker : LinkedListForEachWorker β} {arg : β} (h : l.Rep L)
    (hfree : IsFree l.mutex) : wlp (linkedListForEach worker arg) env
      (fun _ l' => IsFree l'.mutex ↔ ¬ (CanLeak env l ∧ Ghost l)) l := by
  have hghost := ghost_iff h
  rw [wlp, linkedListForEach, wp_bind, wp_getList, wp_ite]
  constructor
  · intro h0
    exact iff_of_true hfree fun hl => (hghost.mp hl.2).1 h0
  intro hlen
  rw [wp_bind, wp_getList, wp_bind, wp_lockList]
  refine ⟨fun _ => ?_, fun _ => trivial⟩
  rw [wp_bind]
  refine wp_isHead_live h.live_first ?_
  have hhead := h.isHead_first
  dsimp only
  rw [hhead, wp_ite]
  constructor
  · intro hempty
    have hL : L = [] := of_decide_eq_true hempty
    refine (isFree_acquire hfree).trans (not_congr ?_)
    exact ⟨fun hc => ⟨hc, hghost.mpr ⟨hlen, hL⟩⟩, fun hc => hc.1⟩
  · intro hne
    have hL : L ≠ [] := fun hL => hne (decide_eq_true hL)
    rw [wp_bind, wp_get]
    refine (wlp_forEachLoop_free _ _ _ _ _ _).imp fun _ l' hl' => iff_of_true hl' fun hl => ?_
    exact hL (hghost.mp hl.2).2

theorem wlp_pop_free (h : l.Rep L) (hfree : IsFree l.mutex) :
    wlp linkedListPop env (fun _ l' => IsFree l'.mutex ↔ ¬ (CanLeak env l ∧ L = [])) l := by
  refine wp_linkedListPop h (fun _ => trivial) (fun _ hL => ?_) fun _ A a hL l' hrem => ?_
  · refine (isFree_acquire hfree).trans (not_congr ?_)
    exact ⟨fun hc => ⟨hc, hL⟩, fun hc => hc.1⟩
  · rw [hrem.mutex]
    exact iff_of_true (isFree_release _) fun hl => by simp [hL] at hl

theorem wlp_removeEntry_free {entryRef : Addr} (h : l.Rep L) (hfree : IsFree l.mutex) :
    wlp (linkedListRemoveEntry entryRef) env
      (fun _ l' => IsFree l'.mutex ↔ ¬ (CanLeak env l ∧ entryRef = l.list.lastEntry ∧ L = []))
        l := by
  rw [wlp, linkedListRemoveEntry, wp_ite]
  constructor
  · intro h0
    refine iff_of_true hfree fun hl => ?_
    have hlast := (h.live _).mp h.live_last
    rw [← hl.2.1, h0] at hlast
    exact h.links.notNull hlast
  intro _
  rw [wp_bind, wp_lockList]
  refine ⟨fun _ => ?_, fun _ => trivial⟩
  rw [wp_bind, wp_getList, wp_ite]
  constructor
  · -- the last entry, or the dummy head of an empty list: unlock, then `linked_list_pop`
    intro hlast
    have hrep : ({ l with mutex := release l.mutex } : ListState).Rep L :=
      (SameList.mutex l _).rep h
    rw [wp_bind, wp_unlockList, release_acquire, wp_bind]
    refine (wlp_pop_free hrep (isFree_release _)).imp fun _ l' hl' => hl'.trans (not_congr ?_)
    have hleak : CanLeak env { l with mutex := release l.mutex } ↔ CanLeak env l := by
      cases hm : l.mutex <;> simp [CanLeak, release, hm]
    rw [hleak]
    exact and_congr_right fun _ => (and_iff_right hlast.symm).symm
  · -- every other path ends with an unlock
    intro hlast
    rw [wp_bind]
    refine (wlp_trivial _ _).imp fun pre l₁ _ => ?_
    rw [wp_bind]
    refine (wlp_trivial _ _).imp fun nxt l₂ _ => ?_
    rw [wp_bind]
    refine (wlp_trivial _ _).imp fun _ l₃ _ => ?_
    rw [wp_bind]
    refine (wlp_trivial _ _).imp fun _ l₄ _ => ?_
    rw [wp_bind]
    refine (wlp_trivial _ _).imp fun _ l₅ _ => ?_
    rw [wp_bind]
    refine (wlp_trivial _ _).imp fun _ l₆ _ => ?_
    rw [wp_bind]
    refine (wlp_trivial _ _).imp fun _ l₇ _ => ?_
    rw [wp_bind, wp_unlockList]
    exact iff_of_true (isFree_release _) fun hl => hlast hl.2.1.symm

/-- **Calls of the list**: from a free mutex, which ones end with it locked. -/
theorem ListCall.free_iff {s : Lib} {c : ListCall} (hb : Base s L) (hfree : IsFree s.list.mutex) :
    wlp c.exec env (fun _ s' => s'.allocMutex = s.allocMutex ∧
      (IsFree s'.list.mutex ↔ ¬ (CanLeak env s.list ∧ c.Leaks s.list))) s := by
  have hentries := hb.rep.entries_eq
  have hnot : ∀ m, ¬ (m ∧ False) := fun _ h => h.2
  cases c with
  | push data size tid =>
    show wlp (onList _) env _ s
    rw [wlp, wp_onList]
    refine wp_linkedListPush hb.rep (fun _ => trivial) (fun _ _ => trivial) fun _ _ l' hpush =>
      ⟨rfl, ?_⟩
    dsimp only
    rw [hpush.mutex]
    exact iff_of_true (isFree_release _) (hnot _)
  | pop =>
    show wlp (onList _) env _ s
    rw [wlp, wp_onList]
    refine (wlp_pop_free hb.rep hfree).imp fun _ l' hl' => ⟨rfl, ?_⟩
    rw [ListCall.Leaks, hentries]
    exact hl'
  | forEach worker arg =>
    refine wlp_forEffect ?_
    rw [wlp, wp_onList]
    exact (wlp_forEach_free hb.rep hfree).imp fun _ l' hl' => ⟨rfl, hl'⟩
  | hasPtr key =>
    refine wlp_forEffect ?_
    rw [wlp, wp_onList]
    refine wp_linkedListHasPtr hb.rep (fun _ => ⟨rfl, ?_⟩) (fun _ _ => trivial) fun _ _ => ⟨rfl, ?_⟩
    · exact iff_of_true hfree (hnot _)
    · exact iff_of_true (isFree_release _) (hnot _)
  | getByPtr key =>
    refine wlp_forEffect ?_
    rw [wlp, wp_onList]
    refine wp_linkedListGetByPtr hb.rep (fun h0 => ⟨rfl, ?_⟩) (fun _ _ => trivial)
      fun hkey _ => ⟨rfl, ?_⟩
    · exact iff_of_true hfree fun hl => hl.2.1 h0
    · refine (isFree_scanMutex hb.rep hfree).trans (not_congr (and_congr_right fun _ => ?_))
      exact (and_iff_right hkey).symm
  | getById id =>
    refine wlp_forEffect ?_
    rw [wlp, wp_onList]
    refine wp_linkedListGetById hb.rep (fun _ => trivial) fun _ => ⟨rfl, ?_⟩
    rw [ListCall.Leaks, hentries]
    exact isFree_byIdMutex hfree
  | getByIndex index =>
    refine wlp_forEffect ?_
    rw [wlp, wp_onList]
    refine wp_linkedListGetByIndex hb.rep (fun hlt => ⟨rfl, ?_⟩) (fun _ _ => trivial)
      fun hle _ => ⟨rfl, ?_⟩
    · exact iff_of_true hfree fun hl => Nat.not_le.mpr hlt hl.2.1
    · refine (isFree_scanMutex hb.rep hfree).trans (not_congr (and_congr_right fun _ => ?_))
      exact (and_iff_right hle).symm
  | removeEntry entryRef =>
    refine wlp_forEffect ?_
    rw [wlp, wp_onList]
    refine (wlp_removeEntry_free hb.rep hfree).imp fun _ l' hl' => ⟨rfl, ?_⟩
    rw [ListCall.Leaks, hentries]
    exact hl'
  | removeEntryByPtr key =>
    show wlp (onList _) env _ s
    rw [wlp, wp_onList]
    refine wp_linkedListRemoveEntryByPtr hb.rep (fun _ => ⟨rfl, ?_⟩) (fun _ _ => trivial)
      (fun _ _ _ => ⟨rfl, ?_⟩) fun _ _ A a B _ _ l' hrem => ⟨rfl, ?_⟩
    · exact iff_of_true hfree (hnot _)
    · exact iff_of_true (isFree_release _) (hnot _)
    · dsimp only
      rw [hrem.mutex]
      exact iff_of_true (isFree_release _) (hnot _)

end Lists

/-! ## Calls of the manager -/

section Managers

variable {env : Env} {s : Lib} {L : List Addr}

/-- A call that leaves the list's mutex alone. -/
theorem free_of_eq {s' : Lib} {P : Prop} (hfree : IsFree s.list.mutex)
    (hmu : s'.list.mutex = s.list.mutex) (hP : ¬ P) :
    IsFree s'.list.mutex ↔ ¬ (CanLeak env s.list ∧ P) := by
  rw [hmu]
  exact iff_of_true hfree fun hl => hP hl.2

/-- **Calls of the manager**: only the automatic pass can leave the list locked. -/
theorem ManagerCall.free_iff {c : ManagerCall} (hb : Base s L) (hfree : BothFree s) :
    wlp c.exec env (fun _ s' => IsFree s'.allocMutex ∧
      (IsFree s'.list.mutex ↔ ¬ (CanLeak env s.list ∧ c.Leaks s))) s := by
  obtain ⟨hlist, halloc⟩ := hfree
  have hdrop : ∀ (wanted : Addr → Bool) (cached : Bool),
      wlp (do lockAlloc; memmanDropSlots wanted cached slots; unlockAlloc) env
        (fun _ s' => IsFree s'.allocMutex ∧ s'.list.mutex = s.list.mutex) s := by
    intro wanted cached
    exact wp_memmanDrop (fun _ _ => trivial) (fun _ _ => trivial)
      fun _ _ _ _ _ => ⟨isFree_release _, rfl⟩
  cases c with
  | work => exact wlp_memmanWork hb ⟨isFree_release _, isFree_scanMutex hb.rep hlist⟩
  | tryCacheHit key =>
    refine wlp_forEffect (wp_memmanTryCacheHit (fun _ => ⟨halloc, ?_⟩) (fun _ _ _ => trivial)
      (fun _ _ => ⟨isFree_release _, ?_⟩) (fun _ _ _ _ _ => trivial)
      fun _ _ _ _ => ⟨isFree_release _, ?_⟩)
    · exact free_of_eq hlist rfl id
    · exact free_of_eq hlist rfl id
    · exact free_of_eq hlist rfl id
  | tryCacheHitById id =>
    refine wlp_forEffect (wp_memmanTryCacheHitById (fun _ => ⟨halloc, ?_⟩) (fun _ _ _ => trivial)
      (fun _ _ _ => trivial) fun _ _ _ => ⟨isFree_release _, ?_⟩)
    · exact free_of_eq hlist rfl fun h => h
    · exact free_of_eq hlist rfl fun h => h
  | cacheInvalidate key =>
    exact (hdrop _ _).imp fun _ s' h => ⟨h.1, free_of_eq hlist h.2 id⟩
  | cacheClear => exact (hdrop _ _).imp fun _ s' h => ⟨h.1, free_of_eq hlist h.2 id⟩
  | tryCachePut entry =>
    refine wlp_forEffect ?_
    rw [wlp, memmanTryCachePut, wp_bind, wp_getManager, wp_ite]
    refine ⟨fun _ => ⟨halloc, free_of_eq hlist rfl id⟩, fun _ => ?_⟩
    rw [wp_ite]
    refine ⟨fun _ => ⟨halloc, free_of_eq hlist rfl id⟩, fun _ => ?_⟩
    rw [wp_bind, wp_lockAlloc]
    refine ⟨fun _ => ?_, fun _ => trivial⟩
    cases hslot : s.manager.freeSlot with
    | none => trivial
    | some i =>
      dsimp only
      rw [wp_bind, wp_onList]
      refine wp_deref (fun hlive => ?_) fun _ => trivial
      rw [wp_bind, wp_setManager, wp_bind, wp_onList]
      refine wp_store_live hlive ?_
      rw [wp_bind, wp_unlockAlloc]
      exact ⟨isFree_release _, free_of_eq hlist rfl id⟩

end Managers

/-! ## Every call -/

/-- **Lock balance.** A call that returns from a reachable state with both mutexes
free leaves both free again exactly when it does not take one of the leaking
paths, or cannot lock at all: there is no mutex, or the thread's id is 0. -/
theorem both_free_iff_no_leak {cfg : Config} {env : Env} {s s' : Lib} {c : Call}
    (hs : Reachable cfg s) (hfree : BothFree s) (hrun : c.exec cfg env s = .done () s') :
    BothFree s' ↔ ¬ (CanLeak env s.list ∧ c.Leaks env s) := by
  obtain ⟨L, hb, -⟩ := hs.base
  have hiff : IsFree s'.allocMutex ∧
      (IsFree s'.list.mutex ↔ ¬ (CanLeak env s.list ∧ c.Leaks env s)) := by
    cases c with
    | list c =>
      obtain ⟨halloc, hiff⟩ := (wp_of_done hrun).mp (ListCall.free_iff hb hfree.1)
      exact ⟨halloc ▸ hfree.2, hiff⟩
    | manager c => exact (wp_of_done hrun).mp (ManagerCall.free_iff hb hfree)
    | api op =>
      obtain ⟨L', hspec⟩ := libStep_meets (l := (env, op)) hb (Outcome.done?_eq_some.mpr ⟨(), hrun⟩)
      exact ⟨hspec.alloc hfree.2, hspec.mutex.leak hb.rep hfree.1⟩
  constructor
  · exact fun h => hiff.2.mp h.1
  · exact fun h => ⟨hiff.2.mpr h, hiff.1⟩

theorem both_free_iff_no_leak_at :
    ∃ s s', Reachable ⟨false⟩ s ∧ BothFree s ∧
      (Call.api (.malloc 8)).exec ⟨false⟩ (Env.plain 1 128 4096) s = .done () s' ∧ BothFree s' := by
  have hsome : ((doinit (Env.plain 1 64 0) .blank).done?.map fun s =>
      (decide (BothFree s), (libStep ⟨false⟩ (Env.plain 1 128 4096, .malloc 8) s).isSome)) =
        some (true, true) := by
    decide +kernel
  obtain ⟨s, hs, hval⟩ := Option.map_eq_some_iff.mp hsome
  obtain ⟨hfree, hstep⟩ := Prod.mk.inj hval
  obtain ⟨s', hs'⟩ := Option.isSome_iff_exists.mp hstep
  obtain ⟨_, hdone⟩ := Outcome.done?_eq_some.mp hs'
  have hreach : Reachable ⟨false⟩ s := (started_of_done hs).reachable
  have hboth : BothFree s := of_decide_eq_true hfree
  have hcall : (Call.api (.malloc 8)).exec ⟨false⟩ (Env.plain 1 128 4096) s = .done () s' := hdone
  exact ⟨s, s', hreach, hboth, hcall, (both_free_iff_no_leak hreach hboth hcall).mpr fun h => h.2⟩

/-- On the empty list `linked_list_pop` and `sn_query_block_id` return with the
mutex of the list held by the caller. -/
theorem empty_list_left_locked :
    ((doinit (Env.plain 1 64 0) .blank).done?.map fun s =>
      (decide (BothFree s),
        ((Call.list .pop).exec ⟨false⟩ (Env.plain 1 0 0) s).done?.map (·.list.mutex),
        (libStep ⟨false⟩ (Env.plain 1 0 0, .queryBlockId 21) s).map (·.list.mutex)))
      = some (true, some (some ⟨some 1, 1⟩), some (some ⟨some 1, 1⟩)) := by
  decide +kernel

end LibSafetynet
