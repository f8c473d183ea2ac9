import LibSafetynet.Exit
import LibSafetynet.ListRefinement

/-!
# Destroying a list

`linked_list_destroy` frees the nodes it walks over. On every list the calls can build it
gives each node back once and reads no node it has freed, whatever `len` says. What it may
not survive is the mutex that `linked_list_pop` leaves locked on an empty list: with `len`
above 0 the walk takes that mutex first, and another thread waits for it forever.
-/

namespace LibSafetynet

open Logic Prog PlatMutex ListState

/-- What a client may pass: as `ListOp.Legal`, or no entry at all. -/
def ListOp.Callable (l : Env × ListOp) (s : ListState) : Prop :=
  ListOp.Legal l s ∨ l.2 = .removeEntry NULL

instance (l : Env × ListOp) (s : ListState) : Decidable (ListOp.Callable l s) :=
  inferInstanceAs (Decidable (_ ∨ _))

/-- `linked_list_destroy` completes; it frees each node still in the list and then the
dummy head, once each, and no node is left. -/
structure DestroysExactly (env : Env) (s : ListState) : Prop where
  nodup : (s.entries ++ [s.list.head]).Nodup
  completes : ∃ s', linkedListDestroy env s = .done () s' ∧
    s'.freed = s.freed ++ (s.entries ++ [s.list.head]) ∧ ∀ a, (s'.nodes.lookup a).isNone

section Destroys

variable {env : Env} {op : ListOp} {s s' : ListState} {L : List Addr}

theorem destroysExactly_of_not_scanBlocks (h : s.Rep L) (hopen : ¬ ScanBlocks env.tid s) :
    DestroysExactly env s := by
  have hnodup := h.links.nodup
  have hwp : wp linkedListDestroy env (fun _ s' => (∀ a, (s'.nodes.lookup a).isNone) ∧
      s'.freed = s.freed ++ L ++ [s.list.head]) (fun _ _ => False) s :=
    wp_linkedListDestroy h (fun hb => hopen hb) fun s' hdead hfreed => ⟨hdead, hfreed⟩
  obtain ⟨_, s', hrun, hdead, hfreed⟩ := hwp.exists_done
  refine ⟨?_, s', hrun, ?_, hdead⟩
  · rw [h.entries_eq]
    exact (List.perm_append_singleton _ _).nodup_iff.mpr hnodup
  · rw [hfreed, h.entries_eq, List.append_assoc]

/-- The walk waits for the list's mutex before it frees anything. -/
theorem linkedListDestroy_blocked (hb : ScanBlocks env.tid s) :
    linkedListDestroy env s = .stop .blocked s := by
  have hwp : wp linkedListDestroy env (fun _ _ => False) (fun e s' => e = .blocked ∧ s' = s) s := by
    rw [linkedListDestroy, wp_bind, linkedListForEach, wp_bind, wp_getList, wp_ite]
    refine ⟨fun hlen => absurd hlen hb.1, fun _ => ?_⟩
    rw [wp_bind, wp_getList, wp_bind, wp_lockList]
    exact ⟨fun hfree => absurd hb.2 hfree, fun _ => ⟨rfl, rfl⟩⟩
  cases hrun : linkedListDestroy env s with
  | done _ s' => exact (hwp.done hrun).elim
  | stop e s' =>
    obtain ⟨rfl, rfl⟩ := hwp.stop hrun
    rfl

theorem destroysExactly_iff (h : s.Rep L) : DestroysExactly env s ↔ ¬ ScanBlocks env.tid s := by
  refine ⟨fun hd hb => ?_, destroysExactly_of_not_scanBlocks h⟩
  obtain ⟨s', hrun, -⟩ := hd.completes
  rw [linkedListDestroy_blocked hb] at hrun
  cases hrun

end Destroys

/-! ## Runs of calls -/

section Runs

variable {env : Env} {op : ListOp} {s s' : ListState} {L : List Addr} {ls : List (Env × ListOp)}

/-- What a call leaves: the state as it was, or a free mutex, or the empty list that
`linked_list_pop` returned from at once, locked by the caller. -/
inductive Leaves (env : Env) (op : ListOp) (s : ListState) (L : List Addr) (s' : ListState) : Prop
  | same (heq : s' = s)
  | free {L' : List Addr} (rep : s'.Rep L') (hfree : IsFree s'.mutex)
  | locked (hop : op = .pop) (hL : L = []) (rep : s'.Rep []) (hown : ¬ Blocks env.tid s'.mutex)

theorem wp_callable (h : s.Rep L) (hcall : ListOp.Callable (env, op) s) :
    wp op.exec env (fun _ s' => Leaves env op s L s')
      (fun e _ => e = .blocked ∧ Blocks env.tid s.mutex) s := by
  have hremoved : ∀ A a B s', Removed s s' A a B → Leaves env op s L s' :=
    fun A a B s' hrem => .free hrem.rep (hrem.mutex ▸ isFree_release _)
  cases op with
  | push data size tid =>
    have hadm : s.AdmitsNode env.node := hcall.resolve_right (by simp)
    refine wp_linkedListPush h (fun hb => ⟨rfl, hb⟩) (fun _ hfull => absurd hadm hfull) ?_
    exact fun _ _ s' hpush => .free hpush.rep (hpush.mutex ▸ isFree_release _)
  | pop =>
    refine wp_linkedListPop h (fun hb => ⟨rfl, hb⟩) (fun hfree hL => ?_) ?_
    · exact .locked rfl hL (hL ▸ (SameList.mutex s _).rep h) (mine_acquire hfree).2
    · exact fun _ A a _ s' hrem => hremoved A a [] s' hrem
  | removeEntryByPtr key =>
    refine wp_linkedListRemoveEntryByPtr h (fun _ => .same rfl) (fun _ hb => ⟨rfl, hb⟩)
      (fun _ _ _ => ?_) fun _ _ A a B _ _ s' hrem => hremoved A a B s' hrem
    exact .free ((SameList.mutex s _).rep h) (isFree_release _)
  | removeEntry entryRef =>
    rw [ListOp.exec, wp_bind]
    by_cases hnull : entryRef = NULL
    · rw [linkedListRemoveEntry, if_pos hnull, wp_pure, wp_pure]
      exact .same rfl
    · have hmem : entryRef ∈ s.entries :=
        hcall.resolve_right fun heq => hnull (ListOp.removeEntry.inj heq)
      rw [h.entries_eq] at hmem
      obtain ⟨A, B, rfl⟩ := List.append_of_mem hmem
      refine wp_linkedListRemoveEntry h (fun hb => ⟨rfl, hb⟩) fun _ s' hrem => ?_
      exact hremoved A entryRef B s' hrem

theorem listStep_leaves (h : s.Rep L) (hcall : ListOp.Callable (env, op) s)
    (hstep : listStep (env, op) s = some s') : Leaves env op s L s' := by
  obtain ⟨_, hdone⟩ := Outcome.done?_eq_some.mp hstep
  exact (wp_callable h hcall).done hdone

/-- Only an empty list can be left locked. -/
def LockedOnlyEmpty (s : ListState) : Prop := ∃ L, s.Rep L ∧ (IsFree s.mutex ∨ L = [])

theorem listStep_lockedOnlyEmpty (h : LockedOnlyEmpty s) (hcall : ListOp.Callable (env, op) s)
    (hstep : listStep (env, op) s = some s') : LockedOnlyEmpty s' := by
  obtain ⟨L, hrep, hlock⟩ := h
  cases listStep_leaves hrep hcall hstep with
  | same heq => exact heq ▸ ⟨L, hrep, hlock⟩
  | free hrep' hfree => exact ⟨_, hrep', Or.inl hfree⟩
  | locked _ _ hrep' _ => exact ⟨[], hrep', Or.inr rfl⟩

/-- The call is `linked_list_pop` on an empty list. -/
def PopsEmpty (l : Env × ListOp) (s : ListState) : Prop := l.2 = .pop ∧ s.entries = []

instance (l : Env × ListOp) (s : ListState) : Decidable (PopsEmpty l s) :=
  inferInstanceAs (Decidable (_ ∧ _))

theorem listStep_free (h : s.Rep L) (hfree : IsFree s.mutex)
    (hcall : ListOp.Callable (env, op) s) (hpop : ¬ PopsEmpty (env, op) s)
    (hstep : listStep (env, op) s = some s') : ∃ L', s'.Rep L' ∧ IsFree s'.mutex := by
  cases listStep_leaves h hcall hstep with
  | same heq => exact heq ▸ ⟨L, h, hfree⟩
  | free hrep' hfree' => exact ⟨_, hrep', hfree'⟩
  | locked hop hL _ _ => exact absurd ⟨hop, h.entries_eq.trans hL⟩ hpop

/-- The calls of one thread all complete and do not lock it out. -/
theorem run_callable_one_thread {t : UInt64} (h : s.Rep L)
    (hcall : Along listStep ListOp.Callable ls s) (ht : ∀ l ∈ ls, l.1.tid = t)
    (hfree : ¬ Blocks t s.mutex) :
    ∃ s' L', run listStep ls s = some s' ∧ s'.Rep L' ∧ ¬ Blocks t s'.mutex := by
  induction ls generalizing s L with
  | nil => exact ⟨s, L, rfl, h, hfree⟩
  | cons l ls ih =>
    obtain rfl : l.1.tid = t := ht l List.mem_cons_self
    have hwp := wp_callable h hcall.1
    cases hexec : l.2.exec l.1 s with
    | stop e s' => exact absurd (hwp.stop hexec).2 hfree
    | done x s₁ =>
      have h₁ : listStep l s = some s₁ := by rw [listStep, hexec]; rfl
      have hrest : ∀ L₁, s₁.Rep L₁ → ¬ Blocks l.1.tid s₁.mutex →
          ∃ s' L', run listStep (l :: ls) s = some s' ∧ s'.Rep L' ∧ ¬ Blocks l.1.tid s'.mutex := by
        intro L₁ hrep₁ hfree₁
        obtain ⟨s', L', hrun, hend⟩ := ih hrep₁ (hcall.2 s₁ h₁)
          (fun l' hl' => ht l' (List.mem_cons_of_mem l hl')) hfree₁
        exact ⟨s', L', (run_cons_eq_some listStep).mpr ⟨s₁, h₁, hrun⟩, hend⟩
      cases hwp.done hexec with
      | same heq =>
        subst heq
        exact hrest L h hfree
      | free hrep' hfree' => exact hrest _ hrep' (hfree'.not_blocks _)
      | locked _ _ hrep' hown => exact hrest [] hrep' hown

end Runs

/-- **Destroying a list is exact, unless another thread left it locked.** After any calls on
a new list `linked_list_destroy` completes, and frees each node that is left once and the
dummy head last, exactly when it is not the case that the list is empty, its `len` is not 0
and its mutex is held by another thread. A run without a `linked_list_pop` on an empty list
never gets there, nor does the thread that made all the calls. -/
theorem linkedListDestroy_exact_iff {env₀ : Env} {s₀ : ListState}
    (hnew : (linkedListNew env₀ .blank).done? = some s₀) {ls : List (Env × ListOp)}
    (hcall : Along listStep ListOp.Callable ls s₀) :
    (∀ s, run listStep ls s₀ = some s → ∀ env, DestroysExactly env s ↔
      ¬ (s.entries = [] ∧ s.list.len ≠ 0 ∧ Blocks env.tid s.mutex)) ∧
    (Along listStep (fun l s => ¬ PopsEmpty l s) ls s₀ →
      ∀ s, run listStep ls s₀ = some s → ∀ env, DestroysExactly env s) ∧
    ∀ env, (∀ l ∈ ls, l.1.tid = env.tid) →
      ∃ s, run listStep ls s₀ = some s ∧ DestroysExactly env s := by
  have hfresh := freshList_of_new hnew
  refine ⟨fun s hrun env => ?_, fun hpop s hrun env => ?_, fun env ht => ?_⟩
  · have hstart : LockedOnlyEmpty s₀ := ⟨[], hfresh.rep, Or.inl hfresh.free⟩
    obtain ⟨L, hrep, hlock⟩ := run_invariant (I := LockedOnlyEmpty)
      (fun _ _ _ hI hok hstep => listStep_lockedOnlyEmpty hI hok hstep) hstart hcall hrun
    rw [destroysExactly_iff hrep, hrep.entries_eq, not_iff_not]
    refine ⟨fun hb => ⟨?_, hb⟩, And.right⟩
    exact hlock.resolve_left fun hfree => hfree.not_blocks env.tid hb.2
  · obtain ⟨L, hrep, hfree⟩ := run_invariant (I := fun s => ∃ L, s.Rep L ∧ IsFree s.mutex)
      (fun _ _ _ hI hok hstep => listStep_free hI.choose_spec.1 hI.choose_spec.2 hok.1 hok.2 hstep)
      ⟨[], hfresh.rep, hfresh.free⟩ (hcall.and hpop) hrun
    exact destroysExactly_of_not_scanBlocks hrep fun hb => hfree.not_blocks env.tid hb.2
  · obtain ⟨s, L, hrun, hrep, hopen⟩ :=
      run_callable_one_thread hfresh.rep hcall ht (hfresh.free.not_blocks env.tid)
    exact ⟨s, hrun, destroysExactly_of_not_scanBlocks hrep fun hb => hopen hb.2⟩

/-- Four pushes, the removal of the second entry, a pop, and the `linked_list_destroy` of
another thread: two entries are left, and `len` says three. -/
theorem linkedListDestroy_exact_iff_at :
    ∃ ls s₀ s, ls = [(Env.plain 1 128 0, .push 4096 8 1), (Env.plain 1 192 0, .push 8192 8 1),
        (Env.plain 1 256 0, .push 12288 8 1), (Env.plain 1 320 0, .push 16384 8 1),
        (Env.plain 1 0 0, .removeEntry 192), (Env.plain 1 0 0, .pop)] ∧
      (linkedListNew (Env.plain 1 64 0) .blank).done? = some s₀ ∧
      run listStep ls s₀ = some s ∧ s.entries = [128, 256] ∧ s.list.len = 3 ∧
      DestroysExactly (Env.plain 2 0 0) s := by
  generalize hls : [(Env.plain 1 128 0, ListOp.push 4096 8 1),
    (Env.plain 1 192 0, .push 8192 8 1), (Env.plain 1 256 0, .push 12288 8 1),
    (Env.plain 1 320 0, .push 16384 8 1), (Env.plain 1 0 0, .removeEntry 192),
    (Env.plain 1 0 0, .pop)] = ls
  have hsome : ((linkedListNew (Env.plain 1 64 0) .blank).done?.bind fun s₀ =>
      (run listStep ls s₀).map fun s => (s.entries, s.list.len,
        decide (Along listStep ListOp.Callable ls s₀),
        decide (Along listStep (fun l s => ¬ PopsEmpty l s) ls s₀))) =
          some ([128, 256], 3, true, true) := by
    rw [← hls]
    decide +kernel
  obtain ⟨s₀, h₀, hsome⟩ := Option.bind_eq_some_iff.mp hsome
  obtain ⟨s, hs, hval⟩ := Option.map_eq_some_iff.mp hsome
  obtain ⟨hentries, hval⟩ := Prod.mk.inj hval
  obtain ⟨hlen, hval⟩ := Prod.mk.inj hval
  obtain ⟨hcall, hpop⟩ := Prod.mk.inj hval
  obtain ⟨-, hruns, -⟩ := linkedListDestroy_exact_iff h₀ (of_decide_eq_true hcall)
  exact ⟨ls, s₀, s, rfl, h₀, hs, hentries, hlen, hruns (of_decide_eq_true hpop) s hs _⟩

/-- Thread 1 pushes two entries, removes the first, and pops twice. The list is empty, its
`len` is 1 and thread 1 holds the mutex: thread 2 cannot destroy the list. -/
theorem linkedListDestroy_waits_forever :
    ((linkedListNew (Env.plain 1 64 0) .blank).done?.bind
      (run listStep [(Env.plain 1 128 0, .push 4096 8 1), (Env.plain 1 192 0, .push 8192 8 1),
        (Env.plain 1 0 0, .removeEntry 128), (Env.plain 1 0 0, .pop),
        (Env.plain 1 0 0, .pop)])).map (fun s =>
          (s.entries, (linkedListDestroy (Env.plain 2 0 0) s).map id (·.list.len)))
      = some ([], .stop .blocked 1) := by
  decide

end LibSafetynet
