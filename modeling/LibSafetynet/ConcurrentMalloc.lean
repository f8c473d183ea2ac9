import LibSafetynet.Logic.Pool
import LibSafetynet.RegistryRuns

/-!
# Concurrent calls of `sn_malloc`

Any number of threads call `sn_malloc`, each for a size of its own. Each of the calls that
one `sn_malloc` is made of (`mallocNext`) is one atomic step, and its `+=` on the usage is
two, a load and a store. Blocks and entries come out as if the threads had taken turns. The
usage and the limit do not: what one thread adds is lost if another loads before and stores
after, and the limit is checked before the usage is counted, so what is granted may pass it by
what the callers between the two ask for together (`concurrent_mallocs`).
-/

namespace LibSafetynet

open Logic Prog PlatMutex ListState AllocManager

/-! ## `sn_malloc`, call by call -/

/-- Between which of its calls a caller of `sn_malloc` stands. -/
inductive AllocPhase where
  | start
  | failing (err : SnErrorCodes)
  /-- The limit lets the size through. -/
  | admitted
  | granted (pr : Addr)
  | wiped (pr : Addr)
  /-- `global_memory_usage` was read, and the sum is still to be stored. -/
  | loaded (pr : Addr) (usage : UInt64)
  | counted (pr : Addr)
  /-- `sn_malloc` has returned. -/
  | finished (ret : Addr)
  deriving DecidableEq

namespace AllocPhase

/-- The block that the caller was given. -/
def block : AllocPhase → Addr
  | .granted pr | .wiped pr | .loaded pr _ | .counted pr | .finished pr => pr
  | _ => NULL

/-- The usage that the caller has read and not yet written. -/
def inHand : AllocPhase → Option UInt64
  | .loaded _ usage => some usage
  | _ => none

/-- The caller is through and has a block. -/
def Returned : AllocPhase → Prop
  | .finished ret => ret ≠ NULL
  | _ => False

/-- The caller reads the usage next. -/
def Reads : AllocPhase → Prop
  | .wiped _ => True
  | _ => False

/-- The caller has written the usage. -/
def Counted : AllocPhase → Prop
  | .counted _ => True
  | .finished ret => ret ≠ NULL
  | _ => False

/-- The caller passed the limit and has not failed since. -/
def Admitted : AllocPhase → Prop
  | .admitted | .granted _ | .wiped _ | .loaded _ _ | .counted _ => True
  | .finished ret => ret ≠ NULL
  | _ => False

/-- A block that is still to be recorded is not null. -/
def Proper : AllocPhase → Prop
  | .granted pr | .wiped pr | .loaded pr _ | .counted pr => pr ≠ NULL
  | _ => True

instance : DecidablePred Reads
  | .wiped _ => inferInstanceAs (Decidable True)
  | .start | .failing _ | .admitted | .granted _ | .loaded _ _ | .counted _ | .finished _ =>
    inferInstanceAs (Decidable False)

instance : DecidablePred Counted
  | .counted _ => inferInstanceAs (Decidable True)
  | .finished ret => inferInstanceAs (Decidable (ret ≠ NULL))
  | .start | .failing _ | .admitted | .granted _ | .wiped _ | .loaded _ _ =>
    inferInstanceAs (Decidable False)

instance : DecidablePred Admitted
  | .admitted | .granted _ | .wiped _ | .loaded _ _ | .counted _ =>
    inferInstanceAs (Decidable True)
  | .finished ret => inferInstanceAs (Decidable (ret ≠ NULL))
  | .start | .failing _ => inferInstanceAs (Decidable False)

end AllocPhase

/-- The next call of `sn_malloc(size)`. -/
def mallocNext (cfg : Config) (size : UInt64) : AllocPhase → Option (CProg Lib AllocPhase)
  | .start => some do
    if size = 0 then return .failing .snErrBadSize
    else if ¬ memmanCanAllocateBasedOnLimitAndSize (← getManager) size then
      return .failing .snErrAllocLimitHit
    else return .admitted
  | .failing err => some do
    snSetLastError err
    return .finished NULL
  | .admitted => some do
    let pr ← onHeap (platMalloc size)
    if pr = NULL then return .failing .snErrBadAlloc else return .granted pr
  | .granted pr => some do
    when cfg.sanitizeMemoryOnFree (onHeap (memset pr 0 size.toNat))
    return .wiped pr
  -- `global_memory_usage += size`, outside every lock
  | .wiped pr => some do
    return .loaded pr (← getManager).globalMemoryUsage
  | .loaded pr usage => some do
    setManager fun m => { m with globalMemoryUsage := usage + size }
    return .counted pr
  | .counted pr => some do
    onList (linkedListPush pr size (← platGetTid))
    return .finished pr
  | .finished _ => none

/-- Thread `t` calls `sn_malloc(size t)`. -/
def mallocs (cfg : Config) (size : UInt64 → UInt64) : Schedule UInt64 Env Stop Lib AllocPhase :=
  { next := fun t => mallocNext cfg (size t), who := Env.tid, waits := (· == .blocked) }

/-- Each thread is about to call. -/
def allCalling (s : Lib) : Pool UInt64 Stop Lib AllocPhase := ⟨s, fun _ => .start, none⟩

/-- **The calls make up `sn_malloc`.** -/
theorem snMalloc_eq_calls (cfg : Config) (size : UInt64 → UInt64) (t : UInt64) :
    snMalloc cfg (size t) = do return ((← (mallocs cfg size).calls t 6 .start).block) := by
  -- a failing caller sets its error and is through
  have hfailing : ∀ n err, ((mallocs cfg size).calls t (n + 1) (.failing err) >>= fun ph =>
      pure ph.block) = snError err NULL := by
    intro n err
    have hdone : (mallocs cfg size).calls t n (.finished NULL) = pure (.finished NULL) := by
      cases n <;> rfl
    simp only [Schedule.calls, mallocs, mallocNext, bind_assoc, pure_bind] at hdone ⊢
    simp only [hdone, pure_bind]
    rfl
  rw [snMalloc]
  rw [Schedule.calls]
  simp only [mallocs, mallocNext]
  by_cases hzero : size t = 0
  · rw [if_pos hzero, if_pos hzero, pure_bind]
    exact (hfailing 4 _).symm
  rw [if_neg hzero, if_neg hzero]
  simp only [bind_assoc]
  refine congrArg (getManager >>= ·) (funext fun m => ?_)
  by_cases hlimit : memmanCanAllocateBasedOnLimitAndSize m (size t) = true
  swap
  · rw [if_pos hlimit, if_pos hlimit, pure_bind]
    exact (hfailing 4 _).symm
  rw [if_neg (not_not.mpr hlimit), if_neg (not_not.mpr hlimit), pure_bind, Schedule.calls]
  simp only [mallocNext, bind_assoc]
  refine congrArg (onHeap (platMalloc (size t)) >>= ·) (funext fun pr => ?_)
  by_cases hnull : pr = NULL
  · rw [if_pos hnull, if_pos hnull, pure_bind]
    exact (hfailing 3 _).symm
  rw [if_neg hnull, if_neg hnull, pure_bind]
  simp only [Schedule.calls, mallocNext, bind_assoc, pure_bind]
  rfl

/-! ## What the callers keep -/

/-- The usage that counts the callers `S`. -/
def counting (s₀ : Lib) (size : UInt64 → UInt64) (S : Finset UInt64) : UInt64 :=
  UInt64.ofNat (s₀.manager.globalMemoryUsage.toNat + ∑ t ∈ S, (size t).toNat)

/-- The callers that have written the usage. -/
def writers (T : Finset UInt64) (ph : UInt64 → AllocPhase) : Finset UInt64 :=
  {t ∈ T | (ph t).Counted}

/-- What the limit has let through for a caller. -/
def promise (size : UInt64 → UInt64) (t : UInt64) (ph : AllocPhase) : Nat :=
  if ph.Admitted then (size t).toNat else 0

/-- The entry that a caller leaves behind. -/
def leaves (size : UInt64 → UInt64) (ph : UInt64 → AllocPhase) (t : UInt64) : TrackedBlock :=
  ⟨(ph t).block, size t, t, 0⟩

section Callers

variable {cfg : Config} {s₀ s s' : Lib} {T : Finset UInt64} {size : UInt64 → UInt64}
variable {ph : UInt64 → AllocPhase} {p : AllocPhase} {t : UInt64} {env : Env} {pr : Addr}

/-- The callers `T`, started in `s₀`, at the points `ph`. -/
structure Mallocs (s₀ : Lib) (T : Finset UInt64) (size : UInt64 → UInt64)
    (ph : UInt64 → AllocPhase) (s : Lib) : Prop where
  idle : ∀ t, t ∉ T → ph t = .start
  proper : ∀ t, (ph t).Proper
  sized : ∀ t, (ph t).Admitted → size t ≠ 0
  list : ∃ (L : List Addr) (order : List UInt64), s.list.Rep L ∧ order.Nodup ∧
    (∀ t, t ∈ order ↔ (ph t).Returned) ∧
    L.map (tracking s.list) = s₀.registry.entries ++ order.map (leaves size ph)
  manager : s.manager =
    { s₀.manager with globalMemoryUsage := s.manager.globalMemoryUsage }
  live : ∀ q, s.heap.Live q ↔ s₀.heap.Live q ∨ q ≠ NULL ∧ ∃ t, (ph t).block = q
  old : ∀ q, s₀.heap.Live q → s.heap.bytes q = s₀.heap.bytes q
  new : ∀ t, (ph t).block ≠ NULL → ¬ s₀.heap.Live (ph t).block ∧
    (s.heap.bytes (ph t).block).length = (size t).toNat
  apart : ∀ t u, (ph t).block ≠ NULL → (ph t).block = (ph u).block → t = u

theorem Mallocs.start {L : List Addr} (hrep : s₀.list.Rep L) :
    Mallocs s₀ T size (fun _ => .start) s₀ := by
  constructor
  · exact fun _ _ => rfl
  · exact fun _ => trivial
  · exact fun _ h => h.elim
  · refine ⟨L, [], hrep, List.nodup_nil, fun t => ?_, ?_⟩
    · exact iff_of_false List.not_mem_nil id
    · rw [registry_eq hrep]
      simp [Lib.viewAt]
  · rfl
  · intro q
    simp [AllocPhase.block, eq_comm]
  · exact fun _ _ => rfl
  · exact fun _ h => absurd rfl h
  · exact fun _ _ h => absurd rfl h

/-- The sum over the callers, when `t` moves. -/
theorem sum_promise (size : UInt64 → UInt64) (ph : UInt64 → AllocPhase) (p : AllocPhase)
    (ht : t ∈ T) :
    ∑ u ∈ T, promise size u (Function.update ph t p u) + promise size t (ph t) =
      ∑ u ∈ T, promise size u (ph u) + promise size t p := sum_phase_update ht _ ph p

theorem Mallocs.idle_update (h : Mallocs s₀ T size ph s) (ht : t ∈ T) (u : UInt64) (hu : u ∉ T) :
    Function.update ph t p u = .start := by
  have hut : u ≠ t := by
    rintro rfl
    exact hu ht
  rw [Function.update_of_ne hut]
  exact h.idle u hu

/-- The step gives the caller no block; what it does to the entries is to be shown. -/
theorem Mallocs.move (h : Mallocs s₀ T size ph s) (ht : t ∈ T) (hblock : p.block = (ph t).block)
    (hproper : p.Proper) (hsized : p.Admitted → size t ≠ 0)
    (hlive : ∀ q, s'.heap.Live q ↔ s.heap.Live q)
    (hlen : ∀ q, (s'.heap.bytes q).length = (s.heap.bytes q).length)
    (hold : ∀ q, s₀.heap.Live q → s'.heap.bytes q = s.heap.bytes q)
    (hlist : ∃ (L : List Addr) (order : List UInt64), s'.list.Rep L ∧ order.Nodup ∧
      (∀ u, u ∈ order ↔ (Function.update ph t p u).Returned) ∧
      L.map (tracking s'.list) = s₀.registry.entries ++ order.map (leaves size ph))
    (hmanager : s'.manager =
      { s₀.manager with globalMemoryUsage := s'.manager.globalMemoryUsage }) :
    Mallocs s₀ T size (Function.update ph t p) s' := by
  have hblocks : ∀ u, (Function.update ph t p u).block = (ph u).block :=
    (Function.forall_update_iff ph fun u p => p.block = (ph u).block).mpr ⟨hblock, fun _ _ => rfl⟩
  have hleaves : leaves size (Function.update ph t p) = leaves size ph := by
    funext u
    rw [leaves, leaves, hblocks]
  constructor
  · exact h.idle_update ht
  · exact (Function.forall_update_iff ph fun _ p => p.Proper).mpr ⟨hproper, fun u _ => h.proper u⟩
  · exact (Function.forall_update_iff ph fun u p => p.Admitted → size u ≠ 0).mpr
      ⟨hsized, fun u _ => h.sized u⟩
  · rw [hleaves]
    exact hlist
  · exact hmanager
  · intro q
    rw [hlive, h.live]
    simp only [hblocks]
  · exact fun q hq => (hold q hq).trans (h.old q hq)
  · intro u
    rw [hblocks, hlen]
    exact h.new u
  · intro u v
    rw [hblocks, hblocks]
    exact h.apart u v

/-- The step does not change the entries. -/
theorem Mallocs.stay (h : Mallocs s₀ T size ph s) (ht : t ∈ T) (hblock : p.block = (ph t).block)
    (hret : p.Returned ↔ (ph t).Returned) (hproper : p.Proper)
    (hsized : p.Admitted → size t ≠ 0) (hlist : s'.list = s.list)
    (hmanager : s'.manager =
      { s.manager with globalMemoryUsage := s'.manager.globalMemoryUsage })
    (hlive : ∀ q, s'.heap.Live q ↔ s.heap.Live q)
    (hlen : ∀ q, (s'.heap.bytes q).length = (s.heap.bytes q).length)
    (hold : ∀ q, s₀.heap.Live q → s'.heap.bytes q = s.heap.bytes q) :
    Mallocs s₀ T size (Function.update ph t p) s' := by
  refine h.move ht hblock hproper hsized hlive hlen hold ?_ ?_
  · obtain ⟨L, order, hrep, hnodup, hmem, hmap⟩ := h.list
    refine ⟨L, order, hlist ▸ hrep, hnodup, ?_, hlist ▸ hmap⟩
    refine (Function.forall_update_iff ph fun u p => u ∈ order ↔ p.Returned).mpr
      ⟨?_, fun u _ => hmem u⟩
    rw [hmem, hret]
  · rw [hmanager, h.manager]

/-- `plat_malloc` gave the caller a block. -/
theorem Mallocs.grant (h : Mallocs s₀ T size ph s) (ht : t ∈ T) (hph : ph t = .admitted)
    {bytes : List UInt8} (hadm : s.heap.Admits pr bytes.length)
    (hlen : bytes.length = (size t).toNat) :
    Mallocs s₀ T size (Function.update ph t (.granted pr))
      { s with heap := s.heap.place pr bytes } := by
  have hnull : (ph t).block = NULL := by rw [hph]; rfl
  have hdead : ¬ s.heap.Live pr := hadm.not_live
  have hblock : ∀ u, u ≠ t → (Function.update ph t (.granted pr) u).block = (ph u).block :=
    fun u hu => by rw [Function.update_of_ne hu]
  have hself : (Function.update ph t (.granted pr) t).block = pr := by
    rw [Function.update_self]
    rfl
  have hother : ∀ u, (ph u).block ≠ NULL → (ph u).block ≠ pr := fun u hu heq =>
    hdead ((h.live pr).mpr (Or.inr ⟨hadm.ne_null, u, heq⟩))
  constructor
  · exact h.idle_update ht
  · exact (Function.forall_update_iff ph fun _ p => p.Proper).mpr
      ⟨hadm.ne_null, fun u _ => h.proper u⟩
  · refine (Function.forall_update_iff ph fun u p => p.Admitted → size u ≠ 0).mpr
      ⟨fun _ => ?_, fun u _ => h.sized u⟩
    exact h.sized t (by rw [hph]; trivial)
  · obtain ⟨L, order, hrep, hnodup, hmem, hmap⟩ := h.list
    have hnot : t ∉ order := fun hin => by
      have hret := (hmem t).mp hin
      rw [hph] at hret
      exact hret
    refine ⟨L, order, hrep, hnodup, ?_, ?_⟩
    · refine (Function.forall_update_iff ph fun u p => u ∈ order ↔ p.Returned).mpr
        ⟨?_, fun u _ => hmem u⟩
      exact iff_of_false hnot id
    · rw [hmap]
      refine congrArg _ (List.map_congr_left fun u hu => ?_)
      have hut : u ≠ t := by
        rintro rfl
        exact hnot hu
      rw [leaves, leaves, hblock u hut]
  · exact h.manager
  · intro q
    show (s.heap.place pr bytes).Live q ↔ _
    rw [ClientHeap.live_place, h.live]
    -- the new block is the caller's, who had none before
    constructor
    · rintro (rfl | hold | ⟨hq, u, hu⟩)
      · exact Or.inr ⟨hadm.ne_null, t, hself⟩
      · exact Or.inl hold
      · refine Or.inr ⟨hq, u, ?_⟩
        have hut : u ≠ t := by
          rintro rfl
          exact hq (hu.symm.trans hnull)
        rw [hblock u hut, hu]
    · rintro (hold | ⟨hq, u, hu⟩)
      · exact Or.inr (Or.inl hold)
      · by_cases hut : u = t
        · rw [hut, hself] at hu
          exact Or.inl hu.symm
        · rw [hblock u hut] at hu
          exact Or.inr (Or.inr ⟨hq, u, hu⟩)
  · intro q hq
    have hne : q ≠ pr := by
      rintro rfl
      exact hdead ((h.live q).mpr (Or.inl hq))
    exact (ClientHeap.bytes_place_of_ne hne).trans (h.old q hq)
  · intro u hu
    by_cases hut : u = t
    · subst hut
      rw [hself]
      refine ⟨fun hold => hdead ((h.live pr).mpr (Or.inl hold)), ?_⟩
      show ((s.heap.place pr bytes).bytes pr).length = _
      rw [ClientHeap.bytes_place_self, hlen]
    · rw [hblock u hut] at hu ⊢
      refine ⟨(h.new u hu).1, ?_⟩
      show ((s.heap.place pr bytes).bytes _).length = _
      rw [ClientHeap.bytes_place_of_ne (hother u hu)]
      exact (h.new u hu).2
  · intro u v hu huv
    -- the address was free, so no other caller has it
    by_cases hut : u = t
    · by_cases hvt : v = t
      · rw [hut, hvt]
      · rw [hut, hself, hblock v hvt] at huv
        exact absurd huv.symm (hother v (huv ▸ hadm.ne_null))
    · by_cases hvt : v = t
      · rw [hvt, hself, hblock u hut] at huv
        rw [hblock u hut] at hu
        exact absurd huv (hother u hu)
      · rw [hblock u hut, hblock v hvt] at huv
        rw [hblock u hut] at hu
        exact h.apart u v hu huv

/-- `linked_list_push` records the caller's block. -/
theorem Mallocs.push (h : Mallocs s₀ T size ph s) (ht : t ∈ T) (hph : ph t = .counted pr)
    {L : List Addr} {l : ListState} {a : Addr} (hrep : s.list.Rep L)
    (hpush : Pushed s.list l L a pr (size t) t) :
    Mallocs s₀ T size (Function.update ph t (.finished pr)) { s with list := l } := by
  have hproper : pr ≠ NULL := by
    have hp := h.proper t
    rwa [hph] at hp
  refine h.move ht (by rw [hph]; rfl) trivial (fun _ => h.sized t (by rw [hph]; trivial))
    (fun _ => Iff.rfl) (fun _ => rfl) (fun _ _ => rfl) ?_ ?_
  · obtain ⟨L', order, hrep', hnodup, hmem, hmap⟩ := h.list
    obtain rfl := hrep'.unique hrep
    have hnot : t ∉ order := fun hin => by
      have hret := (hmem t).mp hin
      rw [hph] at hret
      exact hret
    refine ⟨L' ++ [a], order ++ [t], hpush.rep, ?_, ?_, ?_⟩
    · exact (List.nodup_append_comm.mp (List.nodup_cons.mpr ⟨hnot, hnodup⟩))
    · refine (Function.forall_update_iff ph fun u p => u ∈ order ++ [t] ↔ p.Returned).mpr
        ⟨?_, fun u hu => ?_⟩
      · exact iff_of_true (by simp) hproper
      · simp [hu, hmem]
    · have hblock : (ph t).block = pr := by rw [hph]; rfl
      rw [hpush.trackings hrep, hmap, List.map_append, List.append_assoc]
      simp [leaves, hblock]
  · exact h.manager

/-! ## The counter -/

/-- What a step does to the usage: nothing, or it reads it, or it writes it. -/
inductive CounterStep (size : UInt64) (q p : AllocPhase) (usage usage' : UInt64) : Prop
  | keeps : q.inHand = none → p.inHand = none → (p.Counted ↔ q.Counted) → usage' = usage →
      CounterStep size q p usage usage'
  | loads {pr : Addr} : q = .wiped pr → p = .loaded pr usage → usage' = usage →
      CounterStep size q p usage usage'
  | stores {pr v : _} : q = .loaded pr v → p = .counted pr → usage' = v + size →
      CounterStep size q p usage usage'

/-- The usage, and what a caller has read of it, counts some of those who wrote it: of their
additions some may be lost, but not all, and nothing else is added. -/
structure Counter (s₀ : Lib) (T : Finset UInt64) (size : UInt64 → UInt64)
    (ph : UInt64 → AllocPhase) (s : Lib) : Prop where
  usage : ∃ S ⊆ writers T ph, ((writers T ph).Nonempty → S.Nonempty) ∧
    s.manager.globalMemoryUsage = counting s₀ size S
  inHand : ∀ t ∈ T, ∀ v, (ph t).inHand = some v → ∃ S ⊆ writers T ph, v = counting s₀ size S

/-- The usage counts all who wrote it, and what a caller has read is what it still is. -/
structure NoneLost (s₀ : Lib) (T : Finset UInt64) (size : UInt64 → UInt64)
    (ph : UInt64 → AllocPhase) (s : Lib) : Prop where
  usage : s.manager.globalMemoryUsage = counting s₀ size (writers T ph)
  inHand : ∀ t ∈ T, ∀ v, (ph t).inHand = some v → v = s.manager.globalMemoryUsage ∧
    ∀ u ∈ T, u ≠ t → (ph u).inHand = none

/-- No caller reads the usage while another is about to write it. -/
def LoadsAlone (T : Finset UInt64) (env : Env) (ph : UInt64 → AllocPhase) : Prop :=
  (ph env.tid).Reads → ∀ u ∈ T, u ≠ env.tid → (ph u).inHand = none

instance (T : Finset UInt64) (env : Env) (ph : UInt64 → AllocPhase) :
    Decidable (LoadsAlone T env ph) :=
  -- over the callers, not over all thread ids
  have : Decidable (∀ u ∈ T, u ≠ env.tid → (ph u).inHand = none) := Finset.decidableDforallFinset
  inferInstanceAs (Decidable (_ → _))

theorem writers_start : writers T (fun _ => .start) = ∅ :=
  Finset.filter_false_of_mem fun _ _ => id

theorem counting_empty : s₀.manager.globalMemoryUsage = counting s₀ size ∅ := by
  simp [counting]

theorem counting_insert {S : Finset UInt64} (ht : t ∉ S) :
    counting s₀ size (insert t S) = counting s₀ size S + size t := by
  rw [counting, counting, Finset.sum_insert ht, Nat.add_comm (size t).toNat, ← Nat.add_assoc,
    UInt64.ofNat_add, UInt64.ofNat_toNat]

theorem Counter.start : Counter s₀ T size (fun _ => .start) s₀ := by
  constructor
  · refine ⟨∅, Finset.empty_subset _, fun hne => ?_, counting_empty⟩
    rwa [writers_start] at hne
  · exact fun _ _ _ h => nomatch h

theorem NoneLost.start : NoneLost s₀ T size (fun _ => .start) s₀ := by
  constructor
  · rw [writers_start]
    exact counting_empty
  · exact fun _ _ _ h => nomatch h

/-- Who does not write stays what it was. -/
theorem writers_update (hcount : p.Counted ↔ (ph t).Counted) :
    writers T (Function.update ph t p) = writers T ph := by
  refine Finset.filter_congr fun u _ => ?_
  by_cases hu : u = t
  · subst hu
    rw [Function.update_self, hcount]
  · rw [Function.update_of_ne hu]

/-- Who writes is one more. -/
theorem writers_insert (ht : t ∈ T) (hcount : p.Counted) :
    writers T (Function.update ph t p) = insert t (writers T ph) := by
  ext u
  rw [Finset.mem_insert, writers, writers, Finset.mem_filter, Finset.mem_filter]
  by_cases hu : u = t
  · subst hu
    rw [Function.update_self]
    exact iff_of_true ⟨ht, hcount⟩ (Or.inl rfl)
  · rw [Function.update_of_ne hu]
    exact (or_iff_right hu).symm

theorem not_mem_writers (hcount : ¬ (ph t).Counted) : t ∉ writers T ph :=
  fun ht => hcount (Finset.mem_filter.mp ht).2

/-- The others keep what they have read. -/
theorem Counter.others (h : Counter s₀ T size ph s) {W : Finset UInt64}
    (hsub : writers T ph ⊆ W) {u : UInt64} (hu : u ∈ T) (hut : u ≠ t) {v : UInt64}
    (hv : (Function.update ph t p u).inHand = some v) : ∃ S ⊆ W, v = counting s₀ size S := by
  rw [Function.update_of_ne hut] at hv
  obtain ⟨S, hS, hval⟩ := h.inHand u hu v hv
  exact ⟨S, hS.trans hsub, hval⟩

/-- **One step** adds to the usage for the caller, or not at all. -/
theorem Counter.step (h : Counter s₀ T size ph s) (ht : t ∈ T)
    (hstep : CounterStep (size t) (ph t) p s.manager.globalMemoryUsage
      s'.manager.globalMemoryUsage) : Counter s₀ T size (Function.update ph t p) s' := by
  obtain ⟨S, hS, hne, husage⟩ := h.usage
  cases hstep with
  | keeps hq hp hcount hkept =>
    have hsame : writers T (Function.update ph t p) = writers T ph := writers_update hcount
    refine ⟨⟨S, hsame ▸ hS, hsame ▸ hne, hkept.trans husage⟩, fun u hu v hv => ?_⟩
    by_cases hut : u = t
    · subst hut
      rw [Function.update_self, hp] at hv
      cases hv
    · exact h.others hsame.symm.subset hu hut hv
  | loads hq hp hkept =>
    have hcount : p.Counted ↔ (ph t).Counted := by rw [hp, hq]; exact Iff.rfl
    have hsame : writers T (Function.update ph t p) = writers T ph := writers_update hcount
    refine ⟨⟨S, hsame ▸ hS, hsame ▸ hne, hkept.trans husage⟩, fun u hu v hv => ?_⟩
    by_cases hut : u = t
    · subst hut
      rw [Function.update_self, hp] at hv
      obtain rfl := Option.some.inj hv
      exact ⟨S, hsame ▸ hS, husage⟩
    · exact h.others hsame.symm.subset hu hut hv
  | @stores pr v hq hp hsum =>
    have hmore : writers T (Function.update ph t p) = insert t (writers T ph) :=
      writers_insert ht (by rw [hp]; trivial)
    -- what is stored counts those that were counted when `t` read, and `t`
    obtain ⟨R, hR, hread⟩ := h.inHand t ht v (by rw [hq]; rfl)
    have hnew : t ∉ R := fun hmem => not_mem_writers (by rw [hq]; exact id) (hR hmem)
    refine ⟨⟨insert t R, ?_, fun _ => Finset.insert_nonempty t R, ?_⟩, fun u hu w hw => ?_⟩
    · rw [hmore]
      exact Finset.insert_subset_insert t hR
    · rw [counting_insert hnew, ← hread]
      exact hsum
    · by_cases hut : u = t
      · subst hut
        rw [Function.update_self, hp] at hw
        cases hw
      · rw [hmore]
        exact h.others (Finset.subset_insert t _) hu hut hw

/-- **One step** loses nothing, if it does not read what another is about to write. -/
theorem NoneLost.step (h : NoneLost s₀ T size ph s) (ht : env.tid ∈ T)
    (halone : LoadsAlone T env ph)
    (hstep : CounterStep (size env.tid) (ph env.tid) p s.manager.globalMemoryUsage
      s'.manager.globalMemoryUsage) : NoneLost s₀ T size (Function.update ph env.tid p) s' := by
  cases hstep with
  | keeps hq hp hcount hkept =>
    have hsame : writers T (Function.update ph env.tid p) = writers T ph := writers_update hcount
    refine ⟨by rw [hsame, hkept, h.usage], fun u hu v hv => ?_⟩
    by_cases hut : u = env.tid
    · subst hut
      rw [Function.update_self, hp] at hv
      cases hv
    · rw [Function.update_of_ne hut] at hv
      obtain ⟨hval, hnone⟩ := h.inHand u hu v hv
      refine ⟨hval.trans hkept.symm, fun w hw hwu => ?_⟩
      by_cases hwt : w = env.tid
      · rw [hwt, Function.update_self, hp]
      · rw [Function.update_of_ne hwt]
        exact hnone w hw hwu
  | @loads pr hq hp hkept =>
    have hcount : p.Counted ↔ (ph env.tid).Counted := by rw [hp, hq]; exact Iff.rfl
    have hsame : writers T (Function.update ph env.tid p) = writers T ph := writers_update hcount
    -- what is read stays up to date, as nobody else is about to write
    have hnone := halone (by rw [hq]; trivial)
    refine ⟨by rw [hsame, hkept, h.usage], fun u hu v hv => ?_⟩
    by_cases hut : u = env.tid
    · subst hut
      rw [Function.update_self, hp] at hv
      obtain rfl := Option.some.inj hv
      refine ⟨hkept.symm, fun w hw hwu => ?_⟩
      rw [Function.update_of_ne hwu]
      exact hnone w hw hwu
    · rw [Function.update_of_ne hut, hnone u hu hut] at hv
      cases hv
  | @stores pr v hq hp hsum =>
    -- what was read still is the usage, and only this caller has read it
    obtain ⟨hval, hnone⟩ := h.inHand env.tid ht v (by rw [hq]; rfl)
    have hmore : writers T (Function.update ph env.tid p) = insert env.tid (writers T ph) :=
      writers_insert ht (by rw [hp]; trivial)
    have hnew : env.tid ∉ writers T ph := not_mem_writers (by rw [hq]; exact id)
    refine ⟨?_, fun u hu w hw => ?_⟩
    · rw [hmore, counting_insert hnew, ← h.usage, ← hval]
      exact hsum
    · by_cases hut : u = env.tid
      · subst hut
        rw [Function.update_self, hp] at hw
        cases hw
      · rw [Function.update_of_ne hut, hnone u hu hut] at hw
        cases hw

/-! ## The limit -/

/-- What the limit let through passes it by no more than the other callers ask for. -/
def LimitKept (s₀ : Lib) (T : Finset UInt64) (size : UInt64 → UInt64) (ph : UInt64 → AllocPhase) :
    Prop :=
  s₀.manager.allocLimit ≠ memmanNoAllocLimit →
    s₀.manager.globalMemoryUsage.toNat + ∑ t ∈ T, (size t).toNat < addressSpace →
    ∑ t ∈ T, promise size t (ph t) = 0 ∨ ∃ t ∈ T,
      s₀.manager.globalMemoryUsage.toNat + ∑ t ∈ T, promise size t (ph t) <
        s₀.manager.allocLimit.toNat + ∑ u ∈ T.erase t, (size u).toNat

theorem LimitKept.start : LimitKept s₀ T size fun _ => .start :=
  fun _ _ => Or.inl (Finset.sum_eq_zero fun _ _ => rfl)

/-- A step that is no check promises nothing new. -/
theorem LimitKept.stay (h : LimitKept s₀ T size ph) (ht : t ∈ T)
    (hle : promise size t p ≤ promise size t (ph t)) :
    LimitKept s₀ T size (Function.update ph t p) := by
  intro hlimit hfit
  have hexchange := sum_promise size ph p ht
  rcases h hlimit hfit with hzero | ⟨u, hu, hlt⟩
  · exact Or.inl (by omega)
  · exact Or.inr ⟨u, hu, by omega⟩

theorem canAllocate_iff {m : AllocManager} {n : UInt64} :
    memmanCanAllocateBasedOnLimitAndSize m n = true ↔
      m.allocLimit = memmanNoAllocLimit ∨ m.globalMemoryUsage + n < m.allocLimit := by
  unfold memmanCanAllocateBasedOnLimitAndSize
  split_ifs with hno hle
  · simp [hno]
  · simp [hno, hle]
  · simpa [hno] using hle

/-- The check sees no less than there was at the start. -/
theorem LimitKept.admit (h : Mallocs s₀ T size ph s) (hc : Counter s₀ T size ph s) (ht : t ∈ T)
    (hph : ph t = .start)
    (hcan : memmanCanAllocateBasedOnLimitAndSize s.manager (size t) = true) :
    LimitKept s₀ T size (Function.update ph t .admitted) := by
  intro hlimit hfit
  refine Or.inr ⟨t, ht, ?_⟩
  have hexchange := sum_promise size ph .admitted ht
  have hbefore : promise size t (ph t) = 0 := by rw [hph]; rfl
  have hafter : promise size t .admitted = (size t).toNat := rfl
  -- the sums without `t`
  have hpromises := Finset.add_sum_erase T (fun u => promise size u (ph u)) ht
  have hpromised : ∑ u ∈ T.erase t, promise size u (ph u) ≤ ∑ u ∈ T.erase t, (size u).toNat := by
    refine Finset.sum_le_sum fun u _ => ?_
    unfold promise
    split_ifs <;> omega
  have hadmitted : s.manager.globalMemoryUsage + size t < s.manager.allocLimit := by
    refine (canAllocate_iff.mp hcan).resolve_left ?_
    rw [h.manager]
    exact hlimit
  -- what is counted leaves room for `t`
  obtain ⟨S, hS, -, husage⟩ := hc.usage
  have hnew : t ∉ S := fun hmem => not_mem_writers (by rw [hph]; exact id) (hS hmem)
  have hsub : insert t S ⊆ T :=
    Finset.insert_subset ht (hS.trans (Finset.filter_subset _ T))
  have hcounted : ∑ u ∈ insert t S, (size u).toNat ≤ ∑ u ∈ T, (size u).toNat :=
    Finset.sum_le_sum_of_subset hsub
  have hlim : s.manager.allocLimit = s₀.manager.allocLimit := by rw [h.manager]
  have hspace : UInt64.size = addressSpace := rfl
  rw [husage, ← counting_insert hnew, hlim, counting, UInt64.lt_iff_toNat_lt,
    UInt64.toNat_ofNat_of_lt' (by omega), Finset.sum_insert hnew] at hadmitted
  omega

/-! ## The calls, one by one -/

/-- What the callers keep from call to call. -/
structure CallersKept (s₀ : Lib) (T : Finset UInt64) (size : UInt64 → UInt64)
    (ph : UInt64 → AllocPhase) (s : Lib) : Prop where
  blocks : Mallocs s₀ T size ph s
  counter : Counter s₀ T size ph s
  limit : LimitKept s₀ T size ph

/-- One call of a caller that comes to the point `p` and leaves the state `s'`. -/
structure CallKept (s₀ : Lib) (T : Finset UInt64) (size : UInt64 → UInt64)
    (ph : UInt64 → AllocPhase) (s : Lib) (t : UInt64) (p : AllocPhase) (s' : Lib) : Prop where
  blocks : Mallocs s₀ T size (Function.update ph t p) s'
  counter : CounterStep (size t) (ph t) p s.manager.globalMemoryUsage s'.manager.globalMemoryUsage
  limit : LimitKept s₀ T size (Function.update ph t p)

/-- A call that does not wait stops by the one crash of `linked_list_push`. -/
def CrashesOnly (e : Stop) : Prop := (e == .blocked) = false → e = .crash .snErrCatastrophic

theorem crashesOnly_blocked : CrashesOnly .blocked := fun h => nomatch h

/-- The caller fails: it has no block and is promised none. -/
theorem CallersKept.fail (h : CallersKept s₀ T size ph s) (ht : t ∈ T)
    (hblock : (ph t).block = NULL) (hret : ¬ (ph t).Returned) (hcount : ¬ (ph t).Counted)
    (hhand : (ph t).inHand = none)
    (hp : p.block = NULL ∧ ¬ p.Returned ∧ ¬ p.Counted ∧ p.inHand = none ∧ p.Proper ∧
      ¬ p.Admitted) :
    CallKept s₀ T size ph s t p s := by
  obtain ⟨hnull, hnoRet, hnoCount, hnoHand, hproper, hnot⟩ := hp
  refine ⟨?_, .keeps hhand hnoHand (iff_of_false hnoCount hcount) rfl, ?_⟩
  · exact h.blocks.stay ht (hnull.trans hblock.symm) (iff_of_false hnoRet hret) hproper
      (fun hadm => absurd hadm hnot) rfl rfl (fun _ => Iff.rfl) (fun _ => rfl) fun _ _ => rfl
  · refine h.limit.stay ht ?_
    rw [promise, if_neg hnot]
    exact Nat.zero_le _

/-- `size == 0` and the limit, checked. -/
theorem wp_mallocNext_start (h : CallersKept s₀ T size ph s) (ht : t ∈ T) (hph : ph t = .start)
    {m : CProg Lib AllocPhase} (hm : mallocNext cfg (size t) .start = some m) :
    wp m env (CallKept s₀ T size ph s t) (fun e _ => CrashesOnly e) s := by
  have hfail : ∀ err, CallKept s₀ T size ph s t (.failing err) s := by
    intro err
    refine h.fail ht ?_ ?_ ?_ ?_ ⟨rfl, id, id, rfl, trivial, id⟩
    · rw [hph]; rfl
    · rw [hph]; exact id
    · rw [hph]; exact id
    · rw [hph]; rfl
  obtain rfl := Option.some.inj hm
  rw [wp_ite]
  refine ⟨fun _ => hfail _, fun hsize => ?_⟩
  rw [wp_bind, wp_getManager, wp_ite]
  refine ⟨fun _ => hfail _, fun hcan => ?_⟩
  rw [wp_pure]
  refine ⟨?_, .keeps ?_ rfl ?_ rfl, ?_⟩
  · refine h.blocks.stay ht ?_ ?_ trivial (fun _ => hsize) rfl rfl (fun _ => Iff.rfl)
      (fun _ => rfl) fun _ _ => rfl
    · rw [hph]; rfl
    · rw [hph]; exact Iff.rfl
  · rw [hph]; rfl
  · rw [hph]; exact Iff.rfl
  · exact LimitKept.admit h.blocks h.counter ht hph (not_not.mp hcan)

/-- The error is set. -/
theorem wp_mallocNext_failing (h : CallersKept s₀ T size ph s) (ht : t ∈ T) {err : SnErrorCodes}
    (hph : ph t = .failing err) {m : CProg Lib AllocPhase}
    (hm : mallocNext cfg (size t) (.failing err) = some m) :
    wp m env (CallKept s₀ T size ph s t) (fun e _ => CrashesOnly e) s := by
  obtain rfl := Option.some.inj hm
  rw [wp_bind]
  refine wp_snSetLastError (fun _ => crashesOnly_blocked) ?_
  rw [wp_pure]
  refine ⟨?_, .keeps ?_ rfl ?_ rfl, ?_⟩
  · refine h.blocks.stay ht ?_ ?_ trivial (fun hadm => absurd rfl hadm) rfl rfl (fun _ => Iff.rfl)
      (fun _ => rfl) fun _ _ => rfl
    · rw [hph]; rfl
    · rw [hph]; exact iff_of_false (fun hret => hret rfl) id
  · rw [hph]; rfl
  · rw [hph]; exact iff_of_false (fun hcount => hcount rfl) id
  · refine h.limit.stay ht ?_
    rw [promise, if_neg fun hadm => hadm rfl]
    exact Nat.zero_le _

/-- `plat_malloc`. -/
theorem wp_mallocNext_admitted (h : CallersKept s₀ T size ph s) (ht : t ∈ T)
    (hph : ph t = .admitted) {m : CProg Lib AllocPhase}
    (hm : mallocNext cfg (size t) .admitted = some m) :
    wp m env (CallKept s₀ T size ph s t) (fun e _ => CrashesOnly e) s := by
  have hhand : (ph t).inHand = none := by rw [hph]; rfl
  have hfail : CallKept s₀ T size ph s t (.failing .snErrBadAlloc) s := by
    refine h.fail ht ?_ ?_ ?_ hhand ⟨rfl, id, id, rfl, trivial, id⟩
    · rw [hph]; rfl
    · rw [hph]; exact id
    · rw [hph]; exact id
  obtain rfl := Option.some.inj hm
  rw [wp_bind, wp_onHeap]
  refine wp_platMalloc (fun _ => ?_) fun hadm => ?_
  · rw [wp_ite]
    exact ⟨fun _ => hfail, fun hne => absurd rfl hne⟩
  · rw [wp_ite]
    refine ⟨fun hnull => absurd hnull hadm.ne_null, fun _ => ?_⟩
    have hlen : (env.junkBytes (size t).toNat).length = (size t).toNat := by simp
    refine ⟨h.blocks.grant ht hph (hlen.symm ▸ hadm) hlen, .keeps hhand rfl ?_ rfl,
      h.limit.stay ht ?_⟩
    · rw [hph]; exact Iff.rfl
    · rw [hph]
      exact Nat.le_refl _

/-- The wipe stays within the caller's own block. -/
theorem wp_mallocNext_granted (h : CallersKept s₀ T size ph s) (ht : t ∈ T)
    (hph : ph t = .granted pr) {m : CProg Lib AllocPhase}
    (hm : mallocNext cfg (size t) (.granted pr) = some m) :
    wp m env (CallKept s₀ T size ph s t) (fun e _ => CrashesOnly e) s := by
  have hblock : (ph t).block = pr := by rw [hph]; rfl
  have hnull : pr ≠ NULL := by
    have hp := h.blocks.proper t
    rwa [hph] at hp
  have hnew := h.blocks.new t (hblock.symm ▸ hnull)
  rw [hblock] at hnew
  have hlive : s.heap.Live pr := (h.blocks.live pr).mpr (Or.inr ⟨hnull, t, hblock⟩)
  have hkept : ∀ h' : ClientHeap, (∀ q, h'.Live q ↔ s.heap.Live q) →
      (∀ q, (h'.bytes q).length = (s.heap.bytes q).length) →
      (∀ q, s₀.heap.Live q → h'.bytes q = s.heap.bytes q) →
      CallKept s₀ T size ph s t (.wiped pr) { s with heap := h' } := by
    intro h' hlive' hlen hold
    refine ⟨?_, .keeps ?_ rfl ?_ rfl, ?_⟩
    · refine h.blocks.stay ht ?_ ?_ hnull (fun _ => h.blocks.sized t ?_) rfl rfl hlive' hlen hold
      · rw [hblock]; rfl
      · rw [hph]; exact Iff.rfl
      · rw [hph]; trivial
    · rw [hph]; rfl
    · rw [hph]; exact Iff.rfl
    · refine h.limit.stay ht ?_
      rw [hph]
      exact Nat.le_refl _
  have hsame : CallKept s₀ T size ph s t (.wiped pr) s :=
    hkept s.heap (fun _ => Iff.rfl) (fun _ => rfl) fun _ _ => rfl
  obtain rfl := Option.some.inj hm
  rw [wp_bind, wp_when]
  -- without sanitising nothing is written
  refine ⟨fun _ => ?_, fun _ => hsame⟩
  rw [wp_onHeap]
  refine wp_memset ⟨hlive, hnew.2.symm.le⟩ (fun _ => hsame) fun _ => ?_
  refine hkept _ (fun q => ?_) (fun q => ?_) fun q hq => ?_
  · rw [ClientHeap.live_place]
    exact or_iff_right_of_imp fun heq => heq ▸ hlive
  · by_cases hq : q = pr
    · rw [hq, ClientHeap.bytes_place_self]
      simp [hnew.2]
    · rw [ClientHeap.bytes_place_of_ne hq]
  · have hne : q ≠ pr := by
      rintro rfl
      exact hnew.1 hq
    exact ClientHeap.bytes_place_of_ne hne

/-- A step on the usage gives nobody a block. -/
theorem CallersKept.account (h : CallersKept s₀ T size ph s) (ht : t ∈ T)
    (hblock : p.block = (ph t).block) (hret : p.Returned ↔ (ph t).Returned)
    (hproper : (ph t).Proper → p.Proper) (hadm : (ph t).Admitted) {usage : UInt64}
    (hcounter : CounterStep (size t) (ph t) p s.manager.globalMemoryUsage usage) :
    CallKept s₀ T size ph s t p
      { s with manager := { s.manager with globalMemoryUsage := usage } } := by
  refine ⟨?_, hcounter, ?_⟩
  · exact h.blocks.stay ht hblock hret (hproper (h.blocks.proper t))
      (fun _ => h.blocks.sized t hadm) rfl rfl (fun _ => Iff.rfl) (fun _ => rfl) fun _ _ => rfl
  · refine h.limit.stay ht ?_
    rw [promise, promise, if_pos hadm]
    split_ifs <;> omega

/-- The usage is read. -/
theorem wp_mallocNext_wiped (h : CallersKept s₀ T size ph s) (ht : t ∈ T) (hph : ph t = .wiped pr)
    {m : CProg Lib AllocPhase} (hm : mallocNext cfg (size t) (.wiped pr) = some m) :
    wp m env (CallKept s₀ T size ph s t) (fun e _ => CrashesOnly e) s := by
  obtain rfl := Option.some.inj hm
  rw [wp_bind, wp_getManager, wp_pure]
  refine h.account (p := .loaded pr s.manager.globalMemoryUsage) ht ?_ ?_ ?_ ?_
    (.loads hph rfl rfl)
  · rw [hph]; rfl
  · rw [hph]; exact Iff.rfl
  · rw [hph]; exact id
  · rw [hph]; trivial

/-- The usage is written. -/
theorem wp_mallocNext_loaded (h : CallersKept s₀ T size ph s) (ht : t ∈ T) {v : UInt64}
    (hph : ph t = .loaded pr v) {m : CProg Lib AllocPhase}
    (hm : mallocNext cfg (size t) (.loaded pr v) = some m) :
    wp m env (CallKept s₀ T size ph s t) (fun e _ => CrashesOnly e) s := by
  obtain rfl := Option.some.inj hm
  rw [wp_bind, wp_setManager, wp_pure]
  refine h.account ht ?_ ?_ ?_ ?_ (.stores hph rfl rfl)
  · rw [hph]; rfl
  · rw [hph]; exact Iff.rfl
  · rw [hph]; exact id
  · rw [hph]; trivial

/-- `linked_list_push` under its own lock. -/
theorem wp_mallocNext_counted (h : CallersKept s₀ T size ph s) (ht : env.tid ∈ T)
    (hph : ph env.tid = .counted pr) {m : CProg Lib AllocPhase}
    (hm : mallocNext cfg (size env.tid) (.counted pr) = some m) :
    wp m env (CallKept s₀ T size ph s env.tid) (fun e _ => CrashesOnly e) s := by
  obtain ⟨L, -, hrep, -⟩ := h.blocks.list
  have hproper : pr ≠ NULL := by
    have hp := h.blocks.proper env.tid
    rwa [hph] at hp
  obtain rfl := Option.some.inj hm
  rw [wp_bind, wp_platGetTid, wp_bind, wp_onList]
  refine wp_linkedListPush hrep (fun _ => crashesOnly_blocked) (fun _ _ _ => rfl) ?_
  intro _ _ l hpush
  refine ⟨h.blocks.push ht hph hrep hpush, .keeps ?_ rfl ?_ rfl, h.limit.stay ht ?_⟩
  · rw [hph]; rfl
  · rw [hph]; exact iff_of_true hproper trivial
  · rw [hph, promise, promise]
    split_ifs with hret
    · exact Nat.le_refl _
    · exact absurd trivial ‹_›
    · exact Nat.zero_le _
    · exact Nat.zero_le _

/-- **What each call does to the callers.** -/
theorem wp_mallocNext (h : CallersKept s₀ T size ph s) (ht : env.tid ∈ T)
    {m : CProg Lib AllocPhase} (hm : mallocNext cfg (size env.tid) (ph env.tid) = some m) :
    wp m env (CallKept s₀ T size ph s env.tid) (fun e _ => CrashesOnly e) s := by
  cases hph : ph env.tid with
  | start => exact wp_mallocNext_start h ht hph (hph ▸ hm)
  | failing err => exact wp_mallocNext_failing h ht hph (hph ▸ hm)
  | admitted => exact wp_mallocNext_admitted h ht hph (hph ▸ hm)
  | granted pr => exact wp_mallocNext_granted h ht hph (hph ▸ hm)
  | wiped pr => exact wp_mallocNext_wiped h ht hph (hph ▸ hm)
  | loaded pr v => exact wp_mallocNext_loaded h ht hph (hph ▸ hm)
  | counted pr => exact wp_mallocNext_counted h ht hph (hph ▸ hm)
  | finished ret =>
    rw [hph] at hm
    exact nomatch hm

theorem CallersKept.next (h : CallersKept s₀ T size ph s) (ht : t ∈ T)
    (hcall : CallKept s₀ T size ph s t p s') : CallersKept s₀ T size (Function.update ph t p) s' :=
  ⟨hcall.blocks, h.counter.step ht hcall.counter, hcall.limit⟩

end Callers

/-! ## All through -/

/-- What the callers `T` leave behind when `ret` is what they were given. -/
structure Served (s₀ : Lib) (T : Finset UInt64) (size : UInt64 → UInt64) (ret : UInt64 → Addr)
    (s : Lib) : Prop where
  /-- The new blocks are the callers', fresh and as long as they asked. -/
  live : ∀ q, s.heap.Live q ↔ s₀.heap.Live q ∨ q ≠ NULL ∧ ∃ t ∈ T, ret t = q
  fresh : ∀ t ∈ T, ret t ≠ NULL → ¬ s₀.heap.Live (ret t) ∧
    (s.heap.bytes (ret t)).length = (size t).toNat
  apart : ∀ t ∈ T, ∀ u ∈ T, ret t ≠ NULL → ret t = ret u → t = u
  old : ∀ q, s₀.heap.Live q → s.heap.bytes q = s₀.heap.bytes q
  /-- One entry for each, in the order of the pushes. -/
  entries : ∃ order : List UInt64, order.Nodup ∧ (∀ t, t ∈ order ↔ t ∈ T ∧ ret t ≠ NULL) ∧
    s.registry.entries = s₀.registry.entries ++ order.map fun t => ⟨ret t, size t, t, 0⟩
  manager : s.manager = { s₀.manager with globalMemoryUsage := s.manager.globalMemoryUsage }
  /-- Of what was granted some is added to the usage, and nothing else. -/
  usage : ∃ S ⊆ T.filter (ret · ≠ NULL), ((T.filter (ret · ≠ NULL)).Nonempty → S.Nonempty) ∧
    s.manager.globalMemoryUsage = counting s₀ size S
  /-- What was granted passes the limit by less than one caller's rivals ask for. -/
  limit : s₀.manager.allocLimit ≠ memmanNoAllocLimit →
    s₀.manager.globalMemoryUsage.toNat + ∑ t ∈ T, (size t).toNat < addressSpace →
    (∃ t ∈ T, ret t ≠ NULL) → ∃ t ∈ T,
      s₀.manager.globalMemoryUsage.toNat + ∑ t ∈ T with ret t ≠ NULL, (size t).toNat <
        s₀.manager.allocLimit.toNat + ∑ u ∈ T.erase t, (size u).toNat

/-- Through is who has written the usage and recorded the block. -/
theorem writers_finished {T : Finset UInt64} {ph : UInt64 → AllocPhase} {ret : UInt64 → Addr}
    (hend : ∀ t ∈ T, ph t = .finished (ret t)) : writers T ph = T.filter (ret · ≠ NULL) := by
  refine Finset.filter_congr fun t ht => ?_
  rw [hend t ht]
  exact Iff.rfl

theorem CallersKept.served {s₀ s : Lib} {T : Finset UInt64} {size : UInt64 → UInt64}
    {ret : UInt64 → Addr} {ph : UInt64 → AllocPhase} (h : CallersKept s₀ T size ph s)
    (hend : ∀ t ∈ T, ph t = .finished (ret t)) : Served s₀ T size ret s := by
  obtain ⟨hm, hcounter, hlim⟩ := h
  have hblock : ∀ t ∈ T, (ph t).block = ret t := fun t ht => by
    rw [hend t ht]
    rfl
  have hmember : ∀ t, (ph t).block ≠ NULL → t ∈ T := by
    intro t hne
    by_contra hnot
    rw [hm.idle t hnot] at hne
    exact hne rfl
  constructor
  · intro q
    rw [hm.live]
    refine or_congr_right (and_congr_right fun hq => ?_)
    constructor
    · rintro ⟨t, rfl⟩
      exact ⟨t, hmember t hq, (hblock t (hmember t hq)).symm⟩
    · rintro ⟨t, ht, rfl⟩
      exact ⟨t, hblock t ht⟩
  · intro t ht hne
    have hnew := hm.new t
    rw [hblock t ht] at hnew
    exact hnew hne
  · intro t ht u hu hne heq
    refine hm.apart t u ?_ ?_
    · rwa [hblock t ht]
    · rw [hblock t ht, hblock u hu, heq]
  · exact hm.old
  · obtain ⟨L, order, hrep, hnodup, hmem, hmap⟩ := hm.list
    have hin : ∀ t, t ∈ order ↔ t ∈ T ∧ ret t ≠ NULL := by
      intro t
      rw [hmem]
      by_cases ht : t ∈ T
      · rw [hend t ht]
        exact ⟨fun hne => ⟨ht, hne⟩, And.right⟩
      · rw [hm.idle t ht]
        exact iff_of_false id fun hand => ht hand.1
    refine ⟨order, hnodup, hin, ?_⟩
    rw [registry_eq hrep]
    refine hmap.trans (congrArg _ (List.map_congr_left fun t ht => ?_))
    rw [leaves, hblock t ((hin t).mp ht).1]
  · exact hm.manager
  · rw [← writers_finished hend]
    exact hcounter.usage
  · rintro hlimit hfit ⟨t, ht, hne⟩
    -- what was promised is what was granted, as all are through
    have hpromise : ∑ t ∈ T, promise size t (ph t) = ∑ t ∈ T with ret t ≠ NULL, (size t).toNat := by
      rw [Finset.sum_filter]
      refine Finset.sum_congr rfl fun t ht => ?_
      rw [hend t ht]
      rfl
    rw [← hpromise]
    refine (hlim hlimit hfit).resolve_left fun hzero => ?_
    have hnone := (Finset.sum_eq_zero_iff.mp hzero) t ht
    have hadm : (AllocPhase.finished (ret t)).Admitted := hne
    rw [hend t ht, promise, if_pos hadm] at hnone
    refine hm.sized t ?_ (UInt64.toNat_inj.mp hnone)
    rwa [hend t ht]

/-- **Concurrent calls of `sn_malloc`**, in any interleaving from any state a client can
reach: a caller may wait for the mutex of the list or of the errors, and the only stop is the
crash of `linked_list_push`. Once all callers are through, the blocks and the entries are those
of calls made one at a time. The usage has grown by what some of them were granted, and by all
of it if nobody read it while another was about to write it; what was granted may have passed
the limit, by less than what the rivals of one caller ask for. -/
theorem concurrent_mallocs {cfg : Config} {s₀ : Lib} {T : Finset UInt64}
    {size : UInt64 → UInt64} {ret : UInt64 → Addr} {ls : List Env}
    {c : Pool UInt64 Stop Lib AllocPhase}
    (hr : Reachable cfg s₀) (hthreads : ∀ env ∈ ls, env.tid ∈ T)
    (hrun : run (mallocs cfg size).step ls (allCalling s₀) = some c) :
    (∀ e ∈ c.stopped, e = .crash .snErrCatastrophic) ∧
      (c.stopped = none → (∀ t ∈ T, c.phase t = .finished (ret t)) →
        Served s₀ T size ret c.shared ∧
          (Along (mallocs cfg size).step (fun env c => LoadsAlone T env c.phase) ls
              (allCalling s₀) →
            c.shared.manager.globalMemoryUsage =
              counting s₀ size (T.filter (ret · ≠ NULL)))) := by
  obtain ⟨L, hb, -⟩ := hr.base
  have hstart : CallersKept s₀ T size (fun _ => .start) s₀ :=
    ⟨Mallocs.start hb.rep, Counter.start, LimitKept.start⟩
  have hin : Along (mallocs cfg size).step (fun env _ => env.tid ∈ T) ls (allCalling s₀) :=
    Along.of_forall (fun env henv _ => hthreads env henv) _
  obtain ⟨hkept, hstops⟩ := Schedule.pool_invariant (A := fun env _ => env.tid ∈ T)
    (I := CallersKept s₀ T size) (E := fun _ e => e = .crash .snErrCatastrophic)
    (fun _ _ _ _ ht h hm => (wp_mallocNext h ht hm).mono (fun _ _ => h.next ht) fun _ _ => id)
    hin rfl hstart hrun
  refine ⟨hstops, fun hgo hend => ⟨(hkept hgo).served hend, fun halone => ?_⟩⟩
  have hexact := (Schedule.pool_invariant (A := fun env ph => env.tid ∈ T ∧ LoadsAlone T env ph)
    (I := fun ph s => CallersKept s₀ T size ph s ∧ NoneLost s₀ T size ph s)
    (E := fun _ e => e = .crash .snErrCatastrophic)
    (fun _ _ _ _ ht h hm => (wp_mallocNext h.1 ht.1 hm).mono
      (fun _ _ hcall => ⟨h.1.next ht.1 hcall, h.2.step ht.1 ht.2 hcall.counter⟩) fun _ _ => id)
    (hin.and halone) rfl ⟨hstart, NoneLost.start⟩ hrun).1 hgo
  rw [← writers_finished hend]
  exact hexact.2.usage

/-- Two threads ask for 8 bytes each under a limit of 10, and both pass the check before either
is counted. If both then read the usage before either writes it, one of the two is lost. -/
theorem concurrent_mallocs_at :
    ∃ lost alone s₀ c c', Reachable ⟨false⟩ s₀ ∧ s₀.manager.allocLimit = 10 ∧
      (run (mallocs ⟨false⟩ fun _ => 8).step lost (allCalling s₀) = some c ∧
        c.shared.manager.globalMemoryUsage = 8 ∧
        Served s₀ {1, 2} (fun _ => 8) (fun t => if t = 1 then 4096 else 8192) c.shared) ∧
      run (mallocs ⟨false⟩ fun _ => 8).step alone (allCalling s₀) = some c' ∧
        c'.shared.manager.globalMemoryUsage = counting s₀ (fun _ => 8) {1, 2} ∧
        Served s₀ {1, 2} (fun _ => 8) (fun t => if t = 1 then 4096 else 8192) c'.shared := by
  let one := Env.plain 1 128 4096
  let two := Env.plain 2 192 8192
  let lost : List Env := [one, two, one, two, one, two, one, two, one, two, two, one]
  let alone : List Env := [one, two, one, two, one, two, one, one, two, two, two, one]
  have hsome : ((doinit (Env.plain 1 64 0) .blank).done?.bind fun s =>
      (run (libStep ⟨false⟩) [(Env.plain 1 0 0, .setAllocLimit 10)] s).bind fun s₀ =>
        (run (mallocs ⟨false⟩ fun _ => 8).step lost (allCalling s₀)).bind fun c =>
          (run (mallocs ⟨false⟩ fun _ => 8).step alone (allCalling s₀)).map fun c' =>
            ((s₀.manager.allocLimit, c.shared.manager.globalMemoryUsage,
              decide (Along (mallocs ⟨false⟩ fun _ => 8).step
                (fun env c => LoadsAlone {1, 2} env c.phase) alone (allCalling s₀))),
              (c.stopped, c.phase 1, c.phase 2), c'.stopped, c'.phase 1, c'.phase 2)) =
      some ((10, 8, true), (none, .finished 4096, .finished 8192), none, .finished 4096,
        .finished 8192) := by
    decide +kernel
  obtain ⟨s, h₀, hsome⟩ := Option.bind_eq_some_iff.mp hsome
  obtain ⟨s₀, hs₀, hsome⟩ := Option.bind_eq_some_iff.mp hsome
  obtain ⟨c, hrun, hsome⟩ := Option.bind_eq_some_iff.mp hsome
  obtain ⟨c', hrun', hval⟩ := Option.map_eq_some_iff.mp hsome
  obtain ⟨hstart, hval⟩ := Prod.mk.inj hval
  obtain ⟨hlimit, hstart⟩ := Prod.mk.inj hstart
  obtain ⟨husage, halone⟩ := Prod.mk.inj hstart
  obtain ⟨hlost, hval⟩ := Prod.mk.inj hval
  have hreach : Reachable ⟨false⟩ s₀ := ⟨s, _, started_of_done h₀, hs₀⟩
  have hend : ∀ c : Pool UInt64 Stop Lib AllocPhase,
      (c.stopped, c.phase 1, c.phase 2) = (none, .finished 4096, .finished 8192) →
        c.stopped = none ∧ ∀ t ∈ ({1, 2} : Finset UInt64),
          c.phase t = .finished (if t = 1 then 4096 else 8192) := by
    intro c hc
    obtain ⟨hgo, hc⟩ := Prod.mk.inj hc
    obtain ⟨hone, htwo⟩ := Prod.mk.inj hc
    refine ⟨hgo, fun t ht => ?_⟩
    obtain rfl | rfl : t = 1 ∨ t = 2 := by simpa using ht
    · exact hone
    · exact htwo
  have hthreads : ∀ ls : List Env, (∀ env ∈ ls, env = one ∨ env = two) →
      ∀ env ∈ ls, env.tid ∈ ({1, 2} : Finset UInt64) := by
    intro ls hls env henv
    rcases hls env henv with rfl | rfl <;> decide
  obtain ⟨-, hserved⟩ := @concurrent_mallocs ⟨false⟩ s₀ {1, 2} (fun _ => 8)
    (fun t => if t = 1 then 4096 else 8192) lost c hreach (hthreads lost (by simp [lost])) hrun
  obtain ⟨-, hserved'⟩ := @concurrent_mallocs ⟨false⟩ s₀ {1, 2} (fun _ => 8)
    (fun t => if t = 1 then 4096 else 8192) alone c' hreach (hthreads alone (by simp [alone])) hrun'
  obtain ⟨hserved', hexact⟩ := hserved' (hend c' hval).1 (hend c' hval).2
  refine ⟨lost, alone, s₀, c, c', hreach, hlimit,
    ⟨hrun, husage, (hserved (hend c hlost).1 (hend c hlost).2).1⟩, hrun', ?_, hserved'⟩
  exact hexact (of_decide_eq_true halone)

end LibSafetynet
