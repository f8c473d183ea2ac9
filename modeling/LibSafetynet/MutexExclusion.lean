import LibSafetynet.Logic.Run
import LibSafetynet.Platform

/-!
# Threads sharing one mutex

Every thread issues its own nested sequence of `plat_mutex_lock` and
`plat_mutex_unlock` on one mutex; a schedule names the thread that moves next,
and a thread whose lock would wait cannot move. `depth` counts the locks of a
thread that are not unlocked yet: a thread is *inside* while its depth is
positive.

Locking again is a no-op, but every unlock releases fully. So a thread that
unlocks at depth two or more (`InnerUnlock`) stays inside without the mutex, and
any other thread can then enter. `exclusion_iff_no_innerUnlock` says that this is
the only way in.
-/

namespace LibSafetynet

open Logic Prog PlatMutex

/-- One call on the mutex. -/
inductive MutexCall where
  | lock
  | unlock
  deriving DecidableEq

namespace MutexCall

def exec : MutexCall → CProg (Option PlatMutex) Unit
  | .lock => platMutexLock
  | .unlock => platMutexUnlock

/-- The nesting depth after the call. -/
def depthAfter (d : Nat) : MutexCall → Nat
  | .lock => d + 1
  | .unlock => d - 1

/-- From depth `d`, every unlock has its lock. -/
def Nested : Nat → List MutexCall → Prop
  | _, [] => True
  | d, .lock :: calls => Nested (d + 1) calls
  | d, .unlock :: calls => 0 < d ∧ Nested (d - 1) calls

/-- From depth `d`, some unlock leaves its thread inside. -/
def InnerUnlock : Nat → List MutexCall → Prop
  | _, [] => False
  | d, .lock :: calls => InnerUnlock (d + 1) calls
  | d, .unlock :: calls => 2 ≤ d ∨ InnerUnlock (d - 1) calls

section Depth

variable {d : Nat} {calls : List MutexCall}

@[simp] theorem nested_lock : Nested d (.lock :: calls) ↔ Nested (d + 1) calls := Iff.rfl

@[simp] theorem nested_unlock :
    Nested d (.unlock :: calls) ↔ 0 < d ∧ Nested (d - 1) calls := Iff.rfl

@[simp] theorem innerUnlock_lock :
    InnerUnlock d (.lock :: calls) ↔ InnerUnlock (d + 1) calls := Iff.rfl

@[simp] theorem innerUnlock_unlock :
    InnerUnlock d (.unlock :: calls) ↔ 2 ≤ d ∨ InnerUnlock (d - 1) calls := Iff.rfl

end Depth

end MutexCall

open MutexCall

/-- The mutex, and for each thread the calls still to come and its nesting depth. -/
structure Threads where
  mutex : Option PlatMutex
  rest : UInt64 → List MutexCall
  depth : UInt64 → Nat

namespace Threads

/-- Nobody has moved yet. -/
def start (prog : UInt64 → List MutexCall) : Threads := ⟨some .free, prog, fun _ => 0⟩

/-- Thread `t` performs its next call, if it has one that does not wait. -/
def step (t : UInt64) (s : Threads) : Option Threads :=
  match s.rest t with
  | [] => none
  | call :: calls =>
    (call.exec (Env.plain t NULL NULL) s.mutex).done?.map fun m =>
      { mutex := m
        rest := Function.update s.rest t calls
        depth := Function.update s.depth t (call.depthAfter (s.depth t)) }

/-- No two threads are inside. -/
def Exclusive (s : Threads) : Prop := ∀ t u, 0 < s.depth t → 0 < s.depth u → t = u

section Step

variable {s s' : Threads} {t u : UInt64} {calls : List MutexCall}

theorem step_lock (hrest : s.rest t = .lock :: calls) (hfree : ¬ Blocks t s.mutex) :
    step t s = some
      { mutex := acquire t s.mutex
        rest := Function.update s.rest t calls
        depth := Function.update s.depth t (s.depth t + 1) } := by
  have hlock : wp platMutexLock (Env.plain t NULL NULL) (fun _ m => m = acquire t s.mutex)
      (fun _ _ => False) s.mutex := by
    rw [wp_platMutexLock]
    exact ⟨fun _ => rfl, hfree⟩
  obtain ⟨_, m, hrun, rfl⟩ := hlock.exists_done
  simp only [step, hrest, exec, hrun, Outcome.done?, Option.map_some, depthAfter]

theorem step_unlock (hrest : s.rest t = .unlock :: calls) :
    step t s = some
      { mutex := release s.mutex
        rest := Function.update s.rest t calls
        depth := Function.update s.depth t (s.depth t - 1) } := by
  simp only [step, hrest]
  rfl

/-- **Everything one step does.** -/
theorem step_cases (h : step t s = some s') :
    (∃ calls, s.rest t = .lock :: calls ∧ ¬ Blocks t s.mutex ∧
      s' = { mutex := acquire t s.mutex
             rest := Function.update s.rest t calls
             depth := Function.update s.depth t (s.depth t + 1) }) ∨
    ∃ calls, s.rest t = .unlock :: calls ∧
      s' = { mutex := release s.mutex
             rest := Function.update s.rest t calls
             depth := Function.update s.depth t (s.depth t - 1) } := by
  cases hrest : s.rest t with
  | nil =>
    simp only [step, hrest] at h
    cases h
  | cons call calls =>
    cases call with
    | lock =>
      by_cases hb : Blocks t s.mutex
      · exfalso
        have hwait : wp platMutexLock (Env.plain t NULL NULL) (fun _ _ => False)
            (fun _ _ => True) s.mutex := by
          rw [wp_platMutexLock]
          exact ⟨fun hfree => hfree hb, fun _ => trivial⟩
        simp only [step, hrest, exec] at h
        cases hrun : platMutexLock (Env.plain t NULL NULL) s.mutex with
        | done a m => exact hwait.done hrun
        | stop e m =>
          rw [hrun] at h
          cases h
      · rw [step_lock hrest hb] at h
        exact Or.inl ⟨calls, rfl, hb, (Option.some.inj h).symm⟩
    | unlock =>
      rw [step_unlock hrest] at h
      exact Or.inr ⟨calls, rfl, (Option.some.inj h).symm⟩

/-- What holds of each thread still does, if it holds of the one that moved. -/
theorem forall_moved {P : Nat → List MutexCall → Prop} {d : Nat} (ht : P d calls)
    (h : ∀ u, P (s.depth u) (s.rest u)) (u : UInt64) :
    P (Function.update s.depth t d u) (Function.update s.rest t calls u) := by
  by_cases hut : u = t
  · rw [hut, Function.update_self, Function.update_self]
    exact ht
  · rw [Function.update_of_ne hut, Function.update_of_ne hut]
    exact h u

/-- Whether `t` is outside or inside already, its lock makes it the holder. -/
theorem acquire_own {m : Option PlatMutex} {d : Nat} (ht : t ≠ 0) (hout : d = 0 → m = some .free)
    (hin : 0 < d → m = some ⟨some t, t⟩) : acquire t m = some ⟨some t, t⟩ := by
  rcases Nat.eq_zero_or_pos d with hd | hd
  · rw [hout hd, acquire, if_neg]
    exact ht
  · rw [hin hd, acquire, if_pos rfl]

end Step

/-! ## Without inner unlocks -/

/-- The mutex is held exactly by the thread inside, and no inner unlock lies ahead. -/
structure Held (s : Threads) : Prop where
  nested : ∀ t, Nested (s.depth t) (s.rest t)
  noInner : ∀ t, ¬ InnerUnlock (s.depth t) (s.rest t)
  idle : s.rest 0 = [] ∧ s.depth 0 = 0
  inside : ∀ t, 0 < s.depth t → s.mutex = some ⟨some t, t⟩
  outside : (∀ t, s.depth t = 0) → s.mutex = some .free

theorem Held.exclusive {s : Threads} (h : Held s) : Exclusive s := by
  intro t u ht hu
  have hmutex := (h.inside t ht).symm.trans (h.inside u hu)
  simpa using hmutex

theorem Held.step {t : UInt64} {s s' : Threads} (h : Held s) (hstep : step t s = some s') :
    Held s' := by
  have ht0 : t ≠ 0 := by
    rintro rfl
    rcases step_cases hstep with ⟨calls, hrest, -⟩ | ⟨calls, hrest, -⟩
    · exact absurd (h.idle.1.symm.trans hrest) (by simp)
    · exact absurd (h.idle.1.symm.trans hrest) (by simp)
  have hnested := h.nested t
  have hinner := h.noInner t
  rcases step_cases hstep with ⟨calls, hrest, hfree, rfl⟩ | ⟨calls, hrest, rfl⟩
  · rw [hrest] at hnested hinner
    -- whoever is inside holds the mutex, so it can only be `t` itself
    have halone : ∀ u, u ≠ t → s.depth u = 0 := by
      intro u hut
      by_contra hu
      have hm := h.inside u (Nat.pos_of_ne_zero hu)
      rw [hm] at hfree
      exact hfree ⟨fun heq => hut heq.symm, rfl⟩
    have hacq : acquire t s.mutex = some ⟨some t, t⟩ := by
      refine acquire_own ht0 (fun hd => h.outside fun u => ?_) (h.inside t)
      by_cases hut : u = t
      · rw [hut, hd]
      · exact halone u hut
    have hinner' : ¬ InnerUnlock (s.depth t + 1) calls := hinner
    refine ⟨forall_moved hnested h.nested,
      forall_moved (P := fun d calls => ¬ InnerUnlock d calls) hinner' h.noInner, ?_,
      fun u hu => ?_, fun hall => ?_⟩
    · simpa [ht0.symm] using h.idle
    · by_cases hut : u = t
      · rw [hut]
        exact hacq
      · have hzero : s.depth u = 0 := halone u hut
        simp [hut, hzero] at hu
    · have hzero := hall t
      simp at hzero
  · rw [hrest] at hnested hinner
    obtain ⟨hpos, hnested⟩ := hnested
    have hone : s.depth t = 1 := by
      have hlt : ¬ 2 ≤ s.depth t := fun h2 => hinner (Or.inl h2)
      omega
    have hmutex := h.inside t hpos
    have hrel : release s.mutex = some .free := by rw [hmutex]; rfl
    have halone : ∀ u, u ≠ t → s.depth u = 0 := by
      intro u hut
      by_contra hu
      exact hut (h.exclusive u t (Nat.pos_of_ne_zero hu) hpos)
    have hinner' : ¬ InnerUnlock (s.depth t - 1) calls := fun hin => hinner (Or.inr hin)
    refine ⟨forall_moved hnested h.nested,
      forall_moved (P := fun d calls => ¬ InnerUnlock d calls) hinner' h.noInner, ?_,
      fun u hu => ?_, fun _ => hrel⟩
    · simpa [ht0.symm] using h.idle
    · by_cases hut : u = t
      · simp [hut, hone] at hu
      · have hzero : s.depth u = 0 := halone u hut
        simp [hut, hzero] at hu

/-! ## One thread alone -/

/-- Every thread but `t` has nothing to do and is outside. -/
def Alone (t : UInt64) (s : Threads) : Prop := ∀ u, u ≠ t → s.rest u = [] ∧ s.depth u = 0

theorem Alone.exclusive {t : UInt64} {s : Threads} (h : Alone t s) : Exclusive s := by
  intro u v hu hv
  have honly : ∀ w, 0 < s.depth w → w = t := by
    intro w hw
    by_contra hwt
    rw [(h w hwt).2] at hw
    exact absurd hw (Nat.lt_irrefl 0)
  rw [honly u hu, honly v hv]

theorem Alone.step {t u : UInt64} {s s' : Threads} (h : Alone t s) (hstep : step u s = some s') :
    Alone t s' := by
  intro v hvt
  have hut : u = t := by
    by_contra hut
    have hnil := (h u hut).1
    rcases step_cases hstep with ⟨calls, hrest, -⟩ | ⟨calls, hrest, -⟩
    · exact absurd (hnil.symm.trans hrest) (by simp)
    · exact absurd (hnil.symm.trans hrest) (by simp)
  subst hut
  rcases step_cases hstep with ⟨calls, -, -, rfl⟩ | ⟨calls, -, rfl⟩
  · simpa [hvt] using h v hvt
  · simpa [hvt] using h v hvt

/-! ## An inner unlock lets another thread in -/

/-- Run alone up to its first inner unlock, `t` is inside and the mutex is free. -/
theorem run_to_innerUnlock {t : UInt64} (ht : t ≠ 0) {calls : List MutexCall} :
    ∀ {s : Threads}, s.rest t = calls → Nested (s.depth t) calls →
      InnerUnlock (s.depth t) calls →
      (s.depth t = 0 → s.mutex = some .free) → (0 < s.depth t → s.mutex = some ⟨some t, t⟩) →
      ∃ n s', run step (List.replicate n t) s = some s' ∧ s'.mutex = some .free ∧
        0 < s'.depth t ∧ ∀ u, u ≠ t → s'.rest u = s.rest u ∧ s'.depth u = s.depth u := by
  induction calls with
  | nil => exact fun _ _ hinner => hinner.elim
  | cons call calls ih =>
    intro s hrest hnested hinner hout hin
    cases call with
    | lock =>
      have hfree : ¬ Blocks t s.mutex := by
        by_cases hd : s.depth t = 0
        · rw [hout hd]
          exact fun hb => absurd hb.2 (by simp [PlatMutex.free])
        · rw [hin (Nat.pos_of_ne_zero hd)]
          exact fun hb => hb.1 rfl
      have hacq : acquire t s.mutex = some ⟨some t, t⟩ := acquire_own ht hout hin
      have hstep := step_lock hrest hfree
      obtain ⟨n, s', hrun, hm, hd, hframe⟩ := ih (s :=
          { mutex := acquire t s.mutex
            rest := Function.update s.rest t calls
            depth := Function.update s.depth t (s.depth t + 1) })
        (by simp) (by simpa using hnested) (by simpa using hinner) (by simp) (fun _ => hacq)
      refine ⟨n + 1, s', ?_, hm, hd, fun u hut => ?_⟩
      · rw [List.replicate_succ, run_cons, hstep]
        exact hrun
      · simpa [hut] using hframe u hut
    | unlock =>
      obtain ⟨hpos, hnested⟩ := hnested
      have hstep := step_unlock hrest
      have hrel : release s.mutex = some .free := by rw [hin hpos]; rfl
      by_cases h2 : 2 ≤ s.depth t
      · refine ⟨1, _, (run_cons _ t [] s).trans (by rw [hstep]; rfl), hrel, ?_, fun u hut => ?_⟩
        · simp only [Function.update_self]
          omega
        · simp [hut]
      · have hone : s.depth t = 1 := by omega
        obtain ⟨n, s', hrun, hm, hd, hframe⟩ := ih (s :=
            { mutex := release s.mutex
              rest := Function.update s.rest t calls
              depth := Function.update s.depth t (s.depth t - 1) })
          (by simp) (by simpa using hnested) (by simpa using hinner.resolve_left h2)
          (fun _ => hrel) (by simp [hone])
        refine ⟨n + 1, s', ?_, hm, hd, fun u hut => ?_⟩
        · rw [List.replicate_succ, run_cons, hstep]
          exact hrun
        · simpa [hut] using hframe u hut

/-- **Exclusion holds exactly without inner unlocks.** For any nested programs of
threads with non-zero ids: every schedule keeps all but one thread outside if and
only if a program with an inner unlock is the only program there is. -/
theorem exclusion_iff_no_innerUnlock {prog : UInt64 → List MutexCall} (h0 : prog 0 = [])
    (hnested : ∀ t, Nested 0 (prog t)) :
    (∀ sched s, run step sched (start prog) = some s → Exclusive s) ↔
      ∀ t, InnerUnlock 0 (prog t) → ∀ u, u ≠ t → prog u = [] := by
  constructor
  · intro hexcl t hinner u hut
    have ht : t ≠ 0 := by
      rintro rfl
      rw [h0] at hinner
      exact hinner
    by_contra hu
    obtain ⟨n, s, hrun, hmutex, hdepth, hframe⟩ := run_to_innerUnlock ht
      (s := start prog) rfl (hnested t) hinner (fun _ => rfl)
        (fun hpos => absurd hpos (by simp [start]))
    -- the first call of `u` is a lock, and the mutex is free
    obtain ⟨calls, hcalls⟩ : ∃ calls, prog u = .lock :: calls := by
      have hn := hnested u
      cases hp : prog u with
      | nil => exact absurd hp hu
      | cons call calls =>
        rw [hp] at hn
        cases call with
        | lock => exact ⟨calls, rfl⟩
        | unlock => exact absurd hn.1 (Nat.lt_irrefl 0)
    have hfree : ¬ Blocks u s.mutex := by
      rw [hmutex]
      exact fun hb => absurd hb.2 (by simp [PlatMutex.free])
    have hstep := step_lock ((hframe u hut).1.trans hcalls) hfree
    have hrun' : run step (List.replicate n t ++ [u]) (start prog) = some
        { mutex := acquire u s.mutex
          rest := Function.update s.rest u calls
          depth := Function.update s.depth u (s.depth u + 1) } := by
      rw [run_append, hrun]
      show run step [u] s = _
      rw [run_cons, hstep]
      rfl
    refine hut (hexcl _ _ hrun' u t ?_ ?_)
    · simp
    · simpa [hut.symm] using hdepth
  · intro hcond sched s hrun
    by_cases hany : ∃ t, InnerUnlock 0 (prog t)
    · obtain ⟨t, ht⟩ := hany
      have halone : Alone t (start prog) := fun u hut => ⟨hcond t ht u hut, rfl⟩
      have hall := run_invariant (P := fun _ _ => True)
        (fun u s s' h _ hstep => Alone.step (t := t) h hstep) halone
        (Along.of_forall (fun _ _ _ => trivial) _) hrun
      exact hall.exclusive
    · have hheld : Held (start prog) := by
        refine ⟨hnested, fun t ht => hany ⟨t, ht⟩, ⟨h0, rfl⟩, fun t ht => ?_, fun _ => rfl⟩
        exact absurd ht (Nat.lt_irrefl 0)
      have hall := run_invariant (P := fun _ _ => True)
        (fun u s s' h _ hstep => Held.step h hstep) hheld
        (Along.of_forall (fun _ _ _ => trivial) _) hrun
      exact hall.exclusive

theorem exclusion_iff_no_innerUnlock_at :
    (∀ t : UInt64, Nested 0 (if t = 0 then [] else [.lock, .unlock])) ∧
      ∀ sched s, run step sched (start fun t => if t = 0 then [] else [.lock, .unlock]) = some s →
        Exclusive s := by
  have hnested : ∀ t : UInt64, Nested 0 (if t = 0 then [] else [.lock, .unlock]) := by
    intro t
    by_cases h0 : t = 0
    · rw [if_pos h0]
      trivial
    · rw [if_neg h0]
      exact ⟨Nat.one_pos, trivial⟩
  refine ⟨hnested, (exclusion_iff_no_innerUnlock rfl hnested).mpr fun t ht => ?_⟩
  by_cases h0 : t = 0
  · rw [if_pos h0] at ht
    exact ht.elim
  · rw [if_neg h0] at ht
    rcases ht with h2 | hnil
    · omega
    · exact hnil.elim

/-- Thread 1 locks twice and unlocks once, then thread 2 locks: both are inside. -/
theorem innerUnlock_admits_second :
    (run step [1, 1, 1, 2] (start fun t =>
        if t = 1 then [.lock, .lock, .unlock, .unlock]
        else if t = 2 then [.lock, .unlock] else [])).map (fun s => (s.depth 1, s.depth 2))
      = some (1, 1) := by
  decide

end Threads

end LibSafetynet
