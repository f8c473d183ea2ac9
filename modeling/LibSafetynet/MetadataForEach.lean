import LibSafetynet.FastPath

/-!
# `sn_mem_metadata_for_each`

Between the client's worker and the list stand a wrapper worker, which should hand
the client's argument on and store what the worker returns, and the break sentinel.
The wrapper hands on itself, and `linked_list_forEach` turns the sentinel into null
before the result is read. So the worker gets its argument and the caller the result
only where there is nothing to visit (`for_each_right_iff_empty`).

The calls are read off a run with a log beside the state; `snMemMetadataForEach_logged`
says that the log changes nothing.
-/

namespace LibSafetynet

open Logic Prog PlatMutex ListState AllocManager

/-- One call of a client worker: the metadata, the index and the last argument. -/
abbrev WorkerCall := SnMemMetadata × Nat × WorkerArg

/-- The calls of a worker over the metadata `ms`, up to the first non-null answer. -/
def workerCalls (worker : SnMetadataForEachWorker) (arg : WorkerArg) :
    Nat → List SnMemMetadata → List WorkerCall
  | _, [] => []
  | i, m :: ms =>
    (m, i, arg) :: if worker m i arg = NULL then workerCalls worker arg (i + 1) ms else []

/-- The first non-null answer, null if there is none. -/
def workerResult (worker : SnMetadataForEachWorker) (arg : WorkerArg) :
    Nat → List SnMemMetadata → Addr
  | _, [] => NULL
  | i, m :: ms =>
    if worker m i arg = NULL then workerResult worker arg (i + 1) ms else worker m i arg

/-- The metadata of the entries, in list order. -/
def Lib.metadata (s : Lib) : List SnMemMetadata :=
  s.list.entries.map fun a => (nodeAt s.list.nodes a).metadata

/-! ## The run with a log -/

/-- `mem_metadata_for_each`, with the calls it makes. -/
def memMetadataForEachLogged (worker : SnMetadataForEachWorker) (realGenericArg : Addr) :
    LinkedListForEachWorker (Addr × List WorkerCall) := fun ctx index out => do
  let e ← deref ctx
  let log := out.2 ++ [(e.metadata, index, .wrapper realGenericArg)]
  let rt := worker e.metadata index (.wrapper realGenericArg)
  if rt ≠ NULL then return (listForEachLoopBrake, (rt, log))
  return (NULL, (out.1, log))

/-- `sn_mem_metadata_for_each`, with the calls it makes. -/
def snMemMetadataForEachLogged (worker : SnMetadataForEachWorker) (genericArg : Addr) :
    CProg Lib (Addr × List WorkerCall) := do
  let ret ← onList (linkedListForEach (memMetadataForEachLogged worker genericArg) (NULL, []))
  if ret.1 = listForEachLoopBrake then return ret.2
  return (NULL, ret.2.2)

section Logged

variable {env : Env} {s : Lib} {L : List Addr} {worker : SnMetadataForEachWorker} {arg : Addr}

theorem memMetadataForEach_logged (a : Addr) (i : Nat) (out : Addr × List WorkerCall) (env : Env)
    (l : ListState) : memMetadataForEach worker arg a i out.1 env l
      = (memMetadataForEachLogged worker arg a i out env l).map (Prod.map id Prod.fst) id := by
  refine bind_map (f := id) (g := id) (Outcome.map_id_id _).symm fun e l₁ _ => ?_
  dsimp only [id]
  split_ifs
  · rfl
  · rfl

/-- **The log is a ghost**: without it the run is the run of the source. -/
theorem snMemMetadataForEach_logged : snMemMetadataForEach worker arg env s
    = (snMemMetadataForEachLogged worker arg env s).map Prod.fst id := by
  refine bind_map (f := Prod.map id Prod.fst) (g := id) ?_ fun ret s₁ _ => ?_
  · refine zoom_map ?_ rfl fun _ => rfl
    exact linkedListForEach_map memMetadataForEach_logged (NULL, []) s.list
  · show (if ret.1 = listForEachLoopBrake then _ else _ : CProg Lib Addr) env s₁ = _
    split_ifs
    · rfl
    · rfl

/-- What the wrapper does at one entry, as a function of the entry. -/
def logStep (worker : SnMetadataForEachWorker) (arg : Addr) (_ : Addr) (e : LinkedListEntry)
    (i : Nat) (out : Addr × List WorkerCall) : Addr × Addr × List WorkerCall :=
  let log := out.2 ++ [(e.metadata, i, .wrapper arg)]
  if worker e.metadata i (.wrapper arg) ≠ NULL then
    (listForEachLoopBrake, (worker e.metadata i (.wrapper arg), log))
  else (NULL, (out.1, log))

theorem memMetadataForEachLogged_eq (a : Addr) (i : Nat) (out : Addr × List WorkerCall) :
    memMetadataForEachLogged worker arg a i out = do
      let e ← deref a
      return logStep worker arg a e i out := by
  unfold memMetadataForEachLogged logStep
  congr 1
  funext e
  dsimp only
  split_ifs <;> rfl

/-- The whole scan: null is returned either way, and the log holds the wrapper's calls. -/
theorem readLoop_logStep (h : NodeHeap) (i : Nat) (out : Addr) (log : List WorkerCall)
    (L : List Addr) :
    (readLoop (logStep worker arg) h i (out, log) L).1 = NULL ∧
      (readLoop (logStep worker arg) h i (out, log) L).2.2
        = log ++ workerCalls worker (.wrapper arg) i (L.map fun a => (nodeAt h a).metadata) := by
  induction L generalizing i out log with
  | nil => exact ⟨rfl, (List.append_nil log).symm⟩
  | cons a L ih =>
    rw [readLoop, List.map_cons, workerCalls]
    by_cases hnull : worker (nodeAt h a).metadata i (.wrapper arg) = NULL
    · -- the scan goes on
      have hstep : logStep worker arg a (nodeAt h a) i (out, log)
          = (NULL, (out, log ++ [((nodeAt h a).metadata, i, .wrapper arg)])) :=
        if_neg (not_not.mpr hnull)
      rw [hstep, if_pos rfl, if_pos hnull]
      obtain ⟨hres, hlog⟩ := ih (i + 1) out (log ++ [((nodeAt h a).metadata, i, .wrapper arg)])
      refine ⟨hres, hlog.trans ?_⟩
      rw [List.append_assoc]
      rfl
    · -- the sentinel ends it, and is turned into null
      have hstep : logStep worker arg a (nodeAt h a) i (out, log)
          = (listForEachLoopBrake, (worker (nodeAt h a).metadata i (.wrapper arg),
              log ++ [((nodeAt h a).metadata, i, .wrapper arg)])) := if_pos hnull
      rw [hstep, if_neg hnull]
      dsimp only
      rw [if_neg (show listForEachLoopBrake ≠ NULL by decide), if_pos rfl]
      exact ⟨rfl, rfl⟩

theorem wp_snMemMetadataForEachLogged {E : Stop → Lib → Prop}
    {Q : Addr × List WorkerCall → Lib → Prop} (hb : Base s L)
    (hblock : ScanBlocks env.tid s.list → E .blocked s)
    (hQ : ¬ ScanBlocks env.tid s.list →
      Q (NULL, workerCalls worker (.wrapper arg) 0 s.metadata)
        { s with list := { s.list with mutex := scanMutex env.tid s.list L } }) :
    wp (snMemMetadataForEachLogged worker arg) env Q E s := by
  have hmeta : s.metadata = L.map fun a => (nodeAt s.list.nodes a).metadata := by
    rw [Lib.metadata, hb.rep.entries_eq]
  have hloop : (readLoop (logStep worker arg) s.list.nodes 0 (NULL, []) L).1 = NULL ∧ _ :=
    readLoop_logStep s.list.nodes 0 NULL [] L
  obtain ⟨hres, hlog⟩ := hloop
  rw [List.nil_append, ← hmeta] at hlog
  rw [snMemMetadataForEachLogged, wp_bind, wp_onList]
  refine wp_linkedListForEach_read hb.rep memMetadataForEachLogged_eq hblock fun hscan => ?_
  rw [wp_ite]
  constructor
  · intro hbrake
    rw [hres] at hbrake
    exact absurd hbrake (by decide)
  · intro _
    rw [wp_pure, hlog]
    exact hQ hscan

end Logged

/-! ## What the function promises -/

/-- The worker is called on the entries in order with the client's own argument, and
the first non-null answer is returned. -/
structure ForEachRight (env : Env) (s : Lib) (worker : SnMetadataForEachWorker) (arg : Addr) :
    Prop where
  result : ∃ s', snMemMetadataForEach worker arg env s
    = .done (workerResult worker (.client arg) 0 s.metadata) s'
  calls : ∃ r s', snMemMetadataForEachLogged worker arg env s
    = .done (r, workerCalls worker (.client arg) 0 s.metadata) s'

/-- **For-each is right on nothing only.** For every worker and argument: the calls
and the result are as promised exactly when no entry is tracked (and the caller does
not wait for a lock that was leaked over the empty list). -/
theorem for_each_right_iff_empty {cfg : Config} {s : Lib} (hs : Reachable cfg s) (env : Env)
    (worker : SnMetadataForEachWorker) (arg : Addr) :
    ForEachRight env s worker arg ↔ s.list.entries = [] ∧ ¬ ScanBlocks env.tid s.list := by
  obtain ⟨L, hb, hu⟩ := hs.base
  have hspec : wp (snMemMetadataForEachLogged worker arg) env
      (fun r _ => r = (NULL, workerCalls worker (.wrapper arg) 0 s.metadata) ∧
        ¬ ScanBlocks env.tid s.list) (fun _ _ => ScanBlocks env.tid s.list) s :=
    wp_snMemMetadataForEachLogged hb id fun hscan => ⟨rfl, hscan⟩
  constructor
  · intro hright
    obtain ⟨r, s', hdone⟩ := hright.calls
    obtain ⟨hlog, hscan⟩ := hspec.done hdone
    refine ⟨?_, hscan⟩
    -- the first call would have been made with the wrapper
    cases hentries : s.list.entries with
    | nil => rfl
    | cons a L' =>
      have hcalls := congrArg Prod.snd hlog
      unfold Lib.metadata at hcalls
      rw [hentries, List.map_cons, workerCalls, workerCalls] at hcalls
      cases (Prod.mk.inj (Prod.mk.inj (List.cons.inj hcalls).1).2).2
  · rintro ⟨hnil, hscan⟩
    have hmeta : s.metadata = [] := by
      rw [Lib.metadata, hnil]
      rfl
    have hlogged : ∃ s', snMemMetadataForEachLogged worker arg env s = .done (NULL, []) s' := by
      rw [hmeta] at hspec
      have htotal := hspec.mono (fun _ _ h => h.1) fun _ _ hbl => hscan hbl
      obtain ⟨r, s', hdone, rfl⟩ := htotal.exists_done
      exact ⟨s', hdone⟩
    obtain ⟨s', hdone⟩ := hlogged
    refine ⟨⟨s', ?_⟩, ⟨NULL, s', ?_⟩⟩
    · rw [hmeta, snMemMetadataForEach_logged, hdone]
      rfl
    · rw [hmeta]
      exact hdone

theorem for_each_right_iff_empty_at :
    ∃ s, Reachable ⟨false⟩ s ∧ ForEachRight (Env.plain 1 0 0) s (fun m _ _ => m.data) 4096 := by
  have hsome : ((doinit (Env.plain 1 64 0) .blank).done?).map
      (fun s => (s.list.entries, s.list.list.len)) = some ([], 0) := by decide +kernel
  obtain ⟨s, hs, hstate⟩ := Option.map_eq_some_iff.mp hsome
  obtain ⟨hentries, hlen⟩ := Prod.mk.inj hstate
  have hreach : Reachable ⟨false⟩ s := (started_of_done hs).reachable
  exact ⟨s, hreach, (for_each_right_iff_empty hreach _ _ _).mpr
    ⟨hentries, fun hscan => hscan.1 hlen⟩⟩

/-- One block, and a worker that answers with the block's address: it is handed the
wrapper instead of the client's argument, and the caller gets null. -/
theorem worker_handed_wrapper :
    ((doinit (Env.plain 1 64 0) .blank).done?.bind (run (libStep ⟨false⟩)
      [(Env.plain 1 128 4096, .malloc 8)])).bind (fun s =>
        (snMemMetadataForEachLogged (fun m _ _ => m.data) 77 (Env.plain 1 0 0) s).value?.map
          fun r => (r.1, workerResult (fun m _ _ => m.data) (.client 77) 0 s.metadata, r.2))
      = some (NULL, 4096, [(⟨4096, 8, 1, false, 0⟩, 0, .wrapper 77)]) := by
  decide +kernel

end LibSafetynet
