import LibSafetynet.OperationsSpec

/-!
# Invariants of every run

A run starts where `doinit` ends (`Loaded`), and each completed operation is a
sequence of changes. `run_keeps` puts the two together: an invariant that holds
of a loaded library and is kept by every change holds at the end of every run,
with the list well formed and the mutexes free up to the leaks of an empty list.
-/

namespace LibSafetynet

open Logic Prog PlatMutex ListState AllocManager

/-- The state in which `doinit` leaves the library. -/
structure Loaded (s : Lib) : Prop where
  rep : s.list.Rep []
  len : s.list.list.len = 0
  listFree : IsFree s.list.mutex
  allocFree : IsFree s.allocMutex
  manager : s.manager = memmanNew
  heap : s.heap = ⟨∅, []⟩
  doFree : s.doFree = true

theorem loaded_of_started {s : Lib} (h : Started s) : Loaded s := by
  obtain ⟨env, hrun⟩ := h
  have hspec : wlp doinit env (fun _ s => Loaded s) .blank := by
    rw [wlp, doinit, wp_bind, wp_onList]
    refine wp_linkedListNew (fun _ => trivial) fun _ l hl => ?_
    rw [wp_bind, platMutexNew, wp_bind, wp_ask, wp_pure, wp_bind, wp_modify, wp_setManager]
    refine ⟨hl.rep, hl.len, hl.free, ?_, rfl, rfl, rfl⟩
    cases env.mutexOk 1 <;> simp [IsFree]
  exact wp.done hspec hrun

theorem Loaded.base {s : Lib} (h : Loaded s) : Base s [] := by
  refine ⟨h.rep, fun i hhead => ?_⟩
  rw [h.manager] at hhead
  exact h.rep.links.notNull (List.mem_cons.mpr (Or.inl hhead))

theorem Loaded.unlocked {s : Lib} (h : Loaded s) : Unlocked s [] :=
  ⟨h.allocFree, fun hne => absurd rfl hne⟩

/-- The call waits for the list's mutex, which another thread left locked over an empty list. -/
def WaitsForEmpty (env : Env) (s : Lib) (e : Stop) : Prop :=
  e = .blocked ∧ s.list.entries = [] ∧ Blocks env.tid s.list.mutex

section Runs

variable {cfg : Config} {env : Env} {l : Env × Op} {s s' : Lib} {L : List Addr}

/-- A completed operation meets its specification. -/
theorem libStep_meets (hb : Base s L) (h : libStep cfg l s = some s') : Meets cfg l s L s' := by
  obtain ⟨_, hdone⟩ := Outcome.done?_eq_some.mp h
  have hspec : wlp (l.2.exec cfg) l.1 (fun _ s' => Meets cfg l s L s') s := op_spec l.2 hb
  exact (wp_of_done hdone).mp hspec

theorem libStep_base (hb : Base s L) (h : libStep cfg l s = some s') : ∃ L', Base s' L' := by
  obtain ⟨L', hspec⟩ := libStep_meets hb h
  exact ⟨L', (hspec.changes.invariant (I := fun _ _ => True) (fun _ _ _ => trivial) hb trivial).2⟩

theorem OpSpec.unlocked {L' : List Addr} (h : OpSpec cfg l s L L' s') (hb : Base s L)
    (hu : Unlocked s L) : Unlocked s' L' :=
  ⟨h.alloc hu.alloc, fun hne => h.mutex.unlocked hb.rep hu.list hne⟩

/-- **Invariant rule for runs**: what a loaded library has and every allowed
operation's changes keep holds after every allowed run. -/
theorem run_keeps {P : Env × Op → Lib → Prop} {I : List Addr → Lib → Prop}
    (hstart : ∀ s, Loaded s → I [] s)
    (hstep : ∀ (l : Env × Op) s₀ L₀, P l s₀ → Base s₀ L₀ → Unlocked s₀ L₀ → I L₀ s₀ →
      ∀ {L L' s s'}, Base s L → I L s → Trans cfg l.1 l.2 s₀ L s L' s' → I L' s')
    {ls : List (Env × Op)} (h₀ : Started s) (hok : Along (libStep cfg) P ls s)
    (hrun : run (libStep cfg) ls s = some s') : ∃ L, Base s' L ∧ Unlocked s' L ∧ I L s' := by
  have hl := loaded_of_started h₀
  refine run_invariant (I := fun s => ∃ L, Base s L ∧ Unlocked s L ∧ I L s) ?_
    ⟨[], hl.base, hl.unlocked, hstart s hl⟩ hok hrun
  rintro l s₀ s₁ ⟨L₀, hb, hu, hI⟩ hokl hs
  obtain ⟨L₁, hspec⟩ := libStep_meets hb hs
  obtain ⟨hI₁, hb₁⟩ := hspec.changes.invariant (hstep l s₀ L₀ hokl hb hu hI) hb hI
  exact ⟨L₁, hb₁, hspec.unlocked hb hu, hI₁⟩

/-- Every reachable state is well formed and unlocked up to the leaks of an empty list. -/
theorem Reachable.base (h : Reachable cfg s) : ∃ L, Base s L ∧ Unlocked s L := by
  obtain ⟨s₀, ls, h₀, hrun⟩ := h
  obtain ⟨L, hb, hu, -⟩ := run_keeps (P := fun _ _ => True) (I := fun _ _ => True)
    (fun _ _ => trivial) (fun _ _ _ _ _ _ _ _ _ _ _ _ _ _ => trivial) h₀
    (Along.of_forall (fun _ _ _ => trivial) _) hrun
  exact ⟨L, hb, hu⟩

/-- A scan waits only for another thread's lock on an empty list. -/
theorem Unlocked.waits (hu : Unlocked s L) (hb : Base s L) (h : ScanBlocks env.tid s.list) :
    WaitsForEmpty env s .blocked := by
  have hnil : L = [] := by
    by_contra hL
    exact (hu.list hL).not_blocks _ h.2
  refine ⟨rfl, ?_, h.2⟩
  rw [hb.rep.entries_eq]
  exact hnil

end Runs

end LibSafetynet
