import LibSafetynet.BlockQueries
import LibSafetynet.OpFrame

/-!
# Failed operations change nothing

A call reports an error when the last error code after it does not depend on what it
was before (`ReportsError`). No operation reads the error code, so one lemma for each
of the eight operations is enough: a call that returns either left the error code
alone, or put an error into it and left entries, usage, limit and the client's memory
as they were. `failed_calls_atomic` collects them.
-/

namespace LibSafetynet

open Logic Prog PlatMutex ListState AllocManager

/-- The library with another last error code. -/
def Lib.withError (err : SnErrorCodes) (s : Lib) : Lib := { s with errorCode := err }

/-- The call sets the last error code: it ends with the same code whatever it was before. -/
def ReportsError {α : Type} (m : CProg Lib α) (env : Env) (s : Lib) : Prop :=
  Sets Lib.withError (·.errorCode) m env s

/-- What a failed call leaves as it was. -/
structure Unchanged (s s' : Lib) : Prop where
  items : s'.items = s.items
  usage : s'.manager.globalMemoryUsage = s.manager.globalMemoryUsage
  limit : s'.manager.allocLimit = s.manager.allocLimit
  heap : s'.heap = s.heap

/-- A call that reports an error has changed nothing. -/
def Atomic {α : Type} (m : CProg Lib α) (env : Env) (s : Lib) : Prop :=
  ∀ v s', m env s = .done v s' → ReportsError m env s → Unchanged s s'

/-- A call that reports an error has changed nothing, and returns null; no other call does. -/
structure AtomicAlloc (m : CProg Lib Addr) (env : Env) (s : Lib) : Prop where
  atomic : Atomic m env s
  null : ∀ v s', m env s = .done v s' → (v = NULL ↔ ReportsError m env s)

/-- What is asked of the eight operations. -/
structure FailureAtomic (cfg : Config) (env : Env) (s : Lib) : Prop where
  malloc : ∀ size, AtomicAlloc (snMalloc cfg size) env s
  calloc : ∀ num size, AtomicAlloc (snCalloc num size) env s
  realloc : ∀ ptr newSize, AtomicAlloc (snRealloc ptr newSize) env s
  mallocPreInitialized : ∀ size v, Atomic (snMallocPreInitialized cfg size v) env s
  free : ∀ ptr, Atomic (snFree cfg ptr) env s
  registerSize : ∀ ptr size, Atomic (snRegisterSize ptr size) env s
  setBlockId : ∀ block id, Atomic (snSetBlockId block id) env s
  queryStaticMetadata : ∀ ptr, Atomic (snQueryStaticMetadata cfg ptr) env s

/-! ## The error code is never read -/

section WriteOnly

/-- Code that does not read the last error code. -/
abbrev ErrorBlind {α : Type} (m : CProg Lib α) : Prop := WriteOnly Lib.withError m

theorem errorBlind_onList {α : Type} (m : CProg ListState α) : ErrorBlind (onList m) :=
  .zoom (fun _ _ => rfl) fun _ _ _ => rfl

theorem errorBlind_onHeap {α : Type} (m : CProg ClientHeap α) : ErrorBlind (onHeap m) :=
  .zoom (fun _ _ => rfl) fun _ _ _ => rfl

theorem errorBlind_lockAlloc : ErrorBlind lockAlloc := .zoom (fun _ _ => rfl) fun _ _ _ => rfl

theorem errorBlind_unlockAlloc : ErrorBlind unlockAlloc := .zoom (fun _ _ => rfl) fun _ _ _ => rfl

theorem errorBlind_setManager (f : AllocManager → AllocManager) : ErrorBlind (setManager f) :=
  .of_blind fun _ _ _ => rfl

theorem errorBlind_code : CodeFrame @ErrorBlind where
  pure := .pure
  ask := .ask
  bind := .bind
  ite := .ite
  lockAlloc := errorBlind_lockAlloc
  unlockAlloc := errorBlind_unlockAlloc
  getManager := .of_blind fun _ _ _ => rfl

/-- The primitives do not read the error code. -/
theorem errorBlind : OpFrame @ErrorBlind where
  toCodeFrame := errorBlind_code
  setUsage f := errorBlind_setManager _
  setError err := .write fun _ _ => rfl
  fopenRead n path := by
    refine .of_blind fun env s err => ?_
    simp only [fopenRead, run_bind, Prog.ask]
    split_ifs <;> rfl
  setFile path content := .of_blind fun _ _ _ => rfl
  onHeap := errorBlind_onHeap
  deref a := errorBlind_onList _
  entryGet a dflt get := errorBlind_onList _
  entrySet a f hf := errorBlind_onList _
  tryCacheHit := errorBlind_code.memmanTryCacheHit fun _ => errorBlind_onList _
  tryCacheHitById := errorBlind_code.memmanTryCacheHitById fun _ _ => errorBlind_onList _
  getByPtr key := errorBlind_onList _
  getById id := errorBlind_onList _
  hasPtr key := errorBlind_onList _
  push data size tid := errorBlind_onList _
  scan f hworker arg := errorBlind_onList _

theorem errorBlind_memmanWork : ErrorBlind memmanWork :=
  .bind errorBlind_lockAlloc fun _ => .bind errorBlind.getManager fun _ =>
    .bind (errorBlind_onList _) fun _ => .bind (errorBlind_setManager _) fun _ =>
      errorBlind_unlockAlloc

theorem errorBlind_memmanCacheInvalidate (key : Addr) : ErrorBlind (memmanCacheInvalidate key) :=
  errorBlind_code.memmanCacheInvalidate (fun _ _ => errorBlind_onList _)
    (fun _ => errorBlind_setManager _) key

end WriteOnly

/-! ## How a call ends -/

section Ends

variable {cfg : Config} {env : Env} {s s' : Lib} {L : List Addr}

/-- The call left the error code alone, or put an error into it and changed nothing else. -/
structure Failed (s s' : Lib) : Prop where
  error : s'.errorCode ≠ .snErrOk
  unchanged : Unchanged s s'

/-- What one of the operations guarantees at its return. -/
def Ends (s s' : Lib) : Prop := s'.errorCode = s.errorCode ∨ Failed s s'

/-- The same for an operation that returns a block. -/
def EndsAlloc (s : Lib) (v : Addr) (s' : Lib) : Prop :=
  v ≠ NULL ∧ s'.errorCode = s.errorCode ∨ v = NULL ∧ Failed s s'

theorem withError_base (hb : Base s L) (err : SnErrorCodes) : Base (s.withError err) L :=
  ⟨hb.rep, hb.slot⟩

theorem exists_ne_error (err : SnErrorCodes) : ∃ err' : SnErrorCodes, err' ≠ err := by
  by_cases h : err = .snErrOk
  · exact ⟨.snErrDebug, by rw [h]; decide⟩
  · exact ⟨.snErrOk, fun h' => h h'.symm⟩

theorem ErrorBlind.cases {α : Type} {m : CProg Lib α} (hm : ErrorBlind m) (env : Env) (s : Lib) :
    ¬ ReportsError m env s ∧
      (∀ err, m env (s.withError err) = (m env s).map id (Lib.withError err)) ∨
      ReportsError m env s ∧ ∀ err, m env (s.withError err) = m env s :=
  hm.blind_or_sets (fun _ => rfl) (fun _ _ => rfl) exists_ne_error env s

/-- A call that changes the error code reports an error. -/
theorem ErrorBlind.reports {α : Type} {m : CProg Lib α} (hm : ErrorBlind m) {v : α}
    (hdone : m env s = .done v s') (hne : s'.errorCode ≠ s.errorCode) : ReportsError m env s := by
  rcases hm.cases env s with ⟨-, hblind⟩ | ⟨hreports, -⟩
  · have hkept : m env s = (m env s).map id (Lib.withError s.errorCode) := hblind s.errorCode
    rw [hdone] at hkept
    exact absurd (congrArg Lib.errorCode (Outcome.done.inj hkept).2) hne
  · exact hreports

/-- A call that reports an error ends alike from another error code, where it shows. -/
theorem atomic_of_ends {α : Type} {m : CProg Lib α} (hm : ErrorBlind m)
    (hends : ∀ err, wlp m env (fun _ s' => Ends (s.withError err) s') (s.withError err)) :
    Atomic m env s := by
  intro v s' hdone hreports
  rcases hm.cases env s with ⟨hquiet, -⟩ | ⟨-, hsame⟩
  · exact absurd hreports hquiet
  · obtain ⟨err, hne⟩ := exists_ne_error s'.errorCode
    rw [← hsame err] at hdone
    rcases (hends err).done hdone with hkept | hfailed
    · exact absurd hkept.symm hne
    · exact ⟨hfailed.unchanged.items, hfailed.unchanged.usage, hfailed.unchanged.limit,
        hfailed.unchanged.heap⟩

theorem atomicAlloc_of_ends {m : CProg Lib Addr} (hm : ErrorBlind m)
    (hends : ∀ err, wlp m env (EndsAlloc (s.withError err)) (s.withError err)) :
    AtomicAlloc m env s := by
  constructor
  · refine atomic_of_ends hm fun err => (hends err).imp fun v s' h => ?_
    rcases h with ⟨-, hkept⟩ | ⟨-, hfailed⟩
    · exact Or.inl hkept
    · exact Or.inr hfailed
  intro v s' hdone
  rcases hm.cases env s with ⟨hquiet, hblind⟩ | ⟨hreports, hsame⟩
  · -- from `ok` the call ends with `ok`, which no failure does
    refine iff_of_false (fun hnull => ?_) hquiet
    have hdone' : m env (s.withError .snErrOk) = .done v (s'.withError .snErrOk) := by
      rw [hblind, hdone]
      rfl
    rcases (hends .snErrOk).done hdone' with ⟨hne, -⟩ | ⟨-, hfailed⟩
    · exact hne hnull
    · exact hfailed.error rfl
  · refine iff_of_true ?_ hreports
    obtain ⟨err, hne⟩ := exists_ne_error s'.errorCode
    rw [← hsame err] at hdone
    rcases (hends err).done hdone with ⟨-, hkept⟩ | ⟨hnull, -⟩
    · exact absurd hkept.symm hne
    · exact hnull

/-! ### The eight operations -/

theorem Unchanged.trans {s'' : Lib} (h : Unchanged s s') (h' : Unchanged s' s'') :
    Unchanged s s'' :=
  ⟨h'.items.trans h.items, h'.usage.trans h.usage, h'.limit.trans h.limit, h'.heap.trans h.heap⟩

theorem Quiet.unchanged (h : Quiet s s') (hb : Base s L) (hman : s'.manager = s.manager) :
    Unchanged s s' := ⟨h.items_eq hb, h.usage, by rw [hman], h.heap⟩

theorem unchanged_worked (hb : Base s L) : Unchanged s (s.worked env L) := by
  have hrefill : Refilled s.list.nodes L s.manager (s.worked env L).manager :=
    refilled_worked hb.rep
  refine ⟨items_worked hb, ?_, ?_, rfl⟩
  · rw [hrefill.rest]
  · rw [hrefill.rest]

/-- An error report after changes that do not count. -/
theorem failed_error {s₁ : Lib} {err : SnErrorCodes} (h : Unchanged s s₁) (herr : err ≠ .snErrOk) :
    Failed s { s₁ with errorCode := err, allocMutex := release s₁.allocMutex } :=
  ⟨herr, h.items, h.usage, h.limit, h.heap⟩

theorem Unchanged.refl (s : Lib) : Unchanged s s := ⟨rfl, rfl, rfl, rfl⟩

theorem ends_snMalloc {size : UInt64} (hb : Base s L) :
    wlp (snMalloc cfg size) env (EndsAlloc s) s := by
  refine wlp_snMalloc hb (fun err herr => ?_) fun s' bytes _ hgr hkept => ?_
  · exact Or.inr ⟨rfl, failed_error (Unchanged.refl s) herr⟩
  · exact Or.inl ⟨hgr.admits.ne_null, hkept⟩

theorem ends_snCalloc {num size : UInt64} (hb : Base s L) :
    wlp (snCalloc num size) env (EndsAlloc s) s := by
  have hfail : ∀ err : SnErrorCodes, err ≠ .snErrOk →
      wlp (snError err NULL) env (EndsAlloc s) s := fun err herr =>
    wlp_snError_exact (Or.inr ⟨rfl, failed_error (Unchanged.refl s) herr⟩)
  rw [wlp, snCalloc, wp_ite]
  refine ⟨fun _ => hfail _ (by decide), fun _ => ?_⟩
  rw [wp_bind, wp_getManager, wp_ite]
  refine ⟨fun _ => hfail _ (by decide), fun _ => ?_⟩
  rw [wp_bind, wp_onHeap]
  refine wp_platCalloc (fun _ => ?_) fun hadm => ?_
  · rw [wp_ite]
    exact ⟨fun _ => hfail _ (by decide), fun hne => absurd rfl hne⟩
  rw [wp_ite]
  refine ⟨fun hnull => absurd hnull hadm.ne_null, fun _ => ?_⟩
  rw [wp_bind, wp_setManager, wp_bind, wp_platGetTid, wp_bind, wp_onList]
  refine wp_linkedListPush hb.rep (fun _ => trivial) (fun _ _ => trivial) fun _ _ l _ => ?_
  exact Or.inl ⟨hadm.ne_null, rfl⟩

theorem ends_snRealloc {ptr : Addr} {newSize : UInt64} (hb : Base s L) :
    wlp (snRealloc ptr newSize) env (EndsAlloc s) s := by
  rw [wlp, snRealloc, wp_ite]
  constructor
  · intro _
    exact wlp_snError_exact (Or.inr ⟨rfl, failed_error (Unchanged.refl s) (by decide)⟩)
  intro hptr
  rw [wp_bind]
  refine wp_getByPtr hb hptr (fun _ _ => trivial) fun s₁ heq h₁ => ?_
  have hsame : Unchanged s s₁ := h₁.quiet.unchanged hb (by rw [heq])
  have hkept : s₁.errorCode = s.errorCode := by rw [heq]
  have hfail : ∀ err : SnErrorCodes, err ≠ .snErrOk →
      wlp (snError err NULL) env (EndsAlloc s) s₁ := fun err herr =>
    wlp_snError_exact (Or.inr ⟨rfl, failed_error hsame herr⟩)
  rw [wp_ite]
  refine ⟨fun _ => hfail _ (by decide), fun hfound => ?_⟩
  rw [wp_ite]
  refine ⟨fun _ => hfail _ (by decide), fun _ => ?_⟩
  have hmem := (findPtr_mem hfound).1
  have hb₁ := h₁.base hb
  rw [wp_bind, wp_onList]
  refine wp_deref_live (hb₁.rep.live_of_mem hmem) ?_
  rw [wp_bind, wp_getManager, wp_ite]
  refine ⟨fun _ => hfail _ (by decide), fun _ => ?_⟩
  rw [wp_bind, wp_onHeap]
  refine wp_platRealloc (fun _ => trivial) (fun _ _ => ?_) fun _ hadm bytes _ => ?_
  · rw [wp_ite]
    exact ⟨fun _ => hfail _ (by decide), fun hne => absurd rfl hne⟩
  rw [wp_ite]
  refine ⟨fun hnull => absurd hnull hadm.ne_null, fun _ => ?_⟩
  rw [wp_bind, wp_setManager, wp_bind, wp_setManager, wp_bind, wp_onList]
  refine wp_linkedListEntrySet hb₁.rep hmem (fun _ => ⟨rfl, rfl, rfl, rfl⟩) (fun _ => trivial)
    fun _ l₁ hset _ => ?_
  rw [wp_bind, wp_onList]
  refine wp_linkedListEntrySet (hset.links.rep hb₁.rep) hmem (fun _ => ⟨rfl, rfl, rfl, rfl⟩)
    (fun _ => trivial) fun _ l₂ _ _ => ?_
  exact Or.inl ⟨hadm.ne_null, hkept⟩

theorem ends_snMallocPreInitialized {size : UInt64} {v : UInt8} (hb : Base s L) :
    wlp (snMallocPreInitialized cfg size v) env (fun _ s' => Ends s s') s := by
  rw [wlp, snMallocPreInitialized, wp_bind]
  refine (ends_snMalloc hb).imp fun ptr s₁ hends => ?_
  rw [wp_ite]
  rcases hends with ⟨hne, hkept⟩ | ⟨hnull, hfailed⟩
  · refine ⟨fun hnull => absurd hnull hne, fun _ => ?_⟩
    rw [wp_bind, wp_onHeap]
    exact wp_memset_at (fun _ => Or.inl hkept) (fun _ _ => trivial) fun _ _ => Or.inl hkept
  · exact ⟨fun _ => Or.inr hfailed, fun hne => absurd hnull hne⟩

theorem ends_snFree {p : Addr} (hb : Base s L) :
    wlp (snFree cfg p) env (fun _ s' => Ends s s') s := by
  refine wp_snFree hb (fun _ _ => trivial) (fun _ _ => trivial) (fun _ => Or.inr ?_)
    (fun _ _ _ => Or.inr ?_) fun _ s' _ h => Or.inl h.errorCode
  · exact failed_error (Unchanged.refl s) (by decide)
  · exact ⟨(fun herr => SnErrorCodes.noConfusion herr), rfl, rfl, rfl, rfl⟩

theorem ends_snRegisterSize {ptr : Addr} {size : UInt64} (hb : Base s L) :
    wlp (snRegisterSize ptr size) env (fun _ s' => Ends s s') s := by
  have hb₁ : Base (s.worked env L) L := base_worked hb
  have hsame : Unchanged s (s.worked env L) := unchanged_worked hb
  rw [wlp, snRegisterSize, wp_bind]
  refine wlp_memmanWork hb ?_
  rw [wp_ite]
  refine ⟨fun _ => wlp_snError_exact (Or.inr (failed_error hsame (by decide))), fun hp => ?_⟩
  rw [wp_ite]
  refine ⟨fun _ => wlp_snError_exact (Or.inr (failed_error hsame (by decide))), fun _ => ?_⟩
  rw [wp_bind, wp_onList]
  refine wp_linkedListHasPtr hb₁.rep (fun h0 => absurd h0 hp) (fun _ _ => trivial) fun _ _ => ?_
  rw [wp_ite]
  refine ⟨fun _ => Or.inl rfl, fun _ => ?_⟩
  rw [wp_bind, wp_platGetTid, wp_bind, wp_onList]
  exact wlp_of_forall fun _ _ _ => Or.inl rfl

/-- The shared lookup by address: a miss is reported as an error only if the list has
no entry either. -/
theorem ends_cacheOrListByPtr {α : Type} {ptr : Addr} {ret : α} {body : Addr → CProg Lib α}
    {Q : α → Lib → Prop} (hb : Base s L) (hptr : ptr ≠ NULL) (hmiss : ∀ s', Ends s s' → Q ret s')
    (hhit : ∀ v s', v ∈ L → Base s' L → Unchanged s s' → s'.errorCode = s.errorCode →
      wlp (body v) env Q s') : wlp (cacheOrListByPtr ptr ret body) env Q s := by
  refine wp_cacheOrListByPtr hb hptr (fun _ _ => trivial) (fun _ _ _ _ _ => trivial)
    (fun _ s₁ h => hmiss s₁ ?_) fun i _ _ hmem hq =>
      hhit _ _ hmem (hq.base hb) (hq.quiet.unchanged hb rfl) rfl
  have hsame : Unchanged s s₁ := h.quiet.quiet.unchanged hb (by rw [h.manager])
  by_cases hnone : findPtr s.list L ptr = NULL
  · exact Or.inr ⟨by rw [h.errorCode, if_pos hnone]; decide, hsame⟩
  · exact Or.inl (h.errorCode.trans (if_neg hnone))

theorem Ends.of_unchanged {s₁ : Lib} (h : Ends s₁ s') (hsame : Unchanged s s₁)
    (hkept : s₁.errorCode = s.errorCode) : Ends s s' := by
  rcases h with hkept' | hfailed
  · exact Or.inl (hkept'.trans hkept)
  · exact Or.inr ⟨hfailed.error, hsame.trans hfailed.unchanged⟩

theorem ends_snSetBlockId {block : Addr} {id : UInt16} (hb : Base s L) :
    wlp (snSetBlockId block id) env (fun _ s' => Ends s s') s := by
  have hsame : Unchanged s (s.worked env L) := unchanged_worked hb
  rw [wlp, snSetBlockId, wp_bind]
  refine wlp_memmanWork hb ?_
  rw [wp_ite]
  refine ⟨fun _ => wlp_snError_exact (Or.inr (failed_error hsame (by decide))), fun hp => ?_⟩
  rw [wp_ite]
  refine ⟨fun _ => wlp_snError_exact (Or.inr (failed_error hsame (by decide))), fun _ => ?_⟩
  refine ends_cacheOrListByPtr (base_worked hb) hp (fun s₁ h₁ => h₁.of_unchanged hsame rfl)
    fun v s₁ _ _ _ hkept => ?_
  rw [wlp, wp_onList]
  exact wlp_of_forall fun _ _ _ => Or.inl hkept

/-- `sn_query_metadata` returns null in error, or an entry without one. -/
theorem ends_snQueryMetadata {ptr : Addr} {Q : Addr → Lib → Prop} (hb : Base s L)
    (hnull : ∀ s', Ends s s' → Q NULL s')
    (hhit : ∀ v s', v ∈ L → Base s' L → Unchanged s s' → s'.errorCode = s.errorCode →
      Q (v + offsetofData) s') : wlp (snQueryMetadata ptr) env Q s := by
  have hsame : Unchanged s (s.worked env L) := unchanged_worked hb
  rw [wlp, snQueryMetadata, wp_bind]
  refine wlp_memmanWork hb ?_
  rw [wp_ite]
  refine ⟨fun _ => wlp_snError_exact (hnull _ (Or.inr (failed_error hsame (by decide)))), fun hp =>
    ?_⟩
  refine ends_cacheOrListByPtr (base_worked hb) hp
    (fun s₁ h₁ => hnull _ (h₁.of_unchanged hsame rfl))
    fun v s₁ hv hb₁ h₁ hkept => ?_
  exact hhit v s₁ hv hb₁ (hsame.trans h₁) hkept

theorem ends_snQueryStaticMetadata {ptr : Addr} (hb : Base s L) :
    wlp (snQueryStaticMetadata cfg ptr) env (fun _ s' => Ends s s') s := by
  have hsame : Unchanged s (s.worked env L) := unchanged_worked hb
  rw [wlp, snQueryStaticMetadata, wp_bind]
  refine wlp_memmanWork hb ?_
  rw [wp_bind]
  refine ends_snQueryMetadata (base_worked hb) (fun s₁ h₁ => ?_) fun v s₁ hv hb₁ h₁ hkept => ?_
  · rw [wp_ite]
    exact ⟨fun _ => h₁.of_unchanged hsame rfl, fun hne => absurd rfl hne⟩
  rw [wp_ite]
  refine ⟨fun hnull => absurd hnull (Nat.succ_ne_zero _), fun _ => ?_⟩
  -- the allocation may still fail, over an entry that was found
  rw [wp_bind]
  refine (ends_snMalloc hb₁).imp fun copy s₂ hends => ?_
  rw [wp_ite]
  rcases hends with ⟨hne, hkept'⟩ | ⟨hnull, hfailed⟩
  · refine ⟨fun hnull => absurd hnull hne, fun _ => ?_⟩
    rw [wp_bind, wp_onList]
    refine wlp_of_forall fun e l _ => ?_
    rw [wp_bind, wp_onHeap]
    exact wlp_of_forall fun _ _ _ => Or.inl (hkept'.trans hkept)
  · refine ⟨fun _ => Or.inr ⟨hfailed.error, ?_⟩, fun hne => absurd hnull hne⟩
    exact (hsame.trans h₁).trans hfailed.unchanged

end Ends

/-- **Failed calls are atomic.** For every reachable state, all arguments and every
answer of the platform: each of the eight operations that returns with an error set
leaves the entries, the usage, the limit and the client's memory as they were, and
the three allocators return null exactly then. -/
theorem failed_calls_atomic {cfg : Config} {s : Lib} (hs : Reachable cfg s) (env : Env) :
    FailureAtomic cfg env s := by
  obtain ⟨L, hb, -⟩ := hs.base
  have hb' : ∀ err, Base (s.withError err) L := withError_base hb
  constructor
  · intro size
    exact atomicAlloc_of_ends (errorBlind.snMalloc cfg size) fun err => ends_snMalloc (hb' err)
  · intro num size
    exact atomicAlloc_of_ends (errorBlind.snCalloc num size) fun err => ends_snCalloc (hb' err)
  · intro ptr newSize
    exact atomicAlloc_of_ends (errorBlind.snRealloc ptr newSize) fun err => ends_snRealloc (hb' err)
  · intro size v
    exact atomic_of_ends (errorBlind.snMallocPreInitialized cfg size v)
      fun err => ends_snMallocPreInitialized (hb' err)
  · intro ptr
    exact atomic_of_ends
      (errorBlind.snFree (errorBlind_memmanCacheInvalidate ptr) (errorBlind_onList _)) fun err =>
        ends_snFree (hb' err)
  · intro ptr size
    exact atomic_of_ends (errorBlind.of_afterPass (errorBlind.snRegisterSize ptr size)
      errorBlind_memmanWork) fun err =>
      ends_snRegisterSize (hb' err)
  · intro block id
    exact atomic_of_ends (errorBlind.of_afterPass (errorBlind.snSetBlockId block id)
      errorBlind_memmanWork) fun err => ends_snSetBlockId (hb' err)
  · intro ptr
    exact atomic_of_ends (errorBlind.snQueryStaticMetadata errorBlind_memmanWork)
      fun err => ends_snQueryStaticMetadata (hb' err)

/-- With two blocks tracked and one of them cached, the platform refuses to move the cached one,
and to allocate the copy that `sn_query_static_metadata` makes of the other one after its passes
and its hit. -/
theorem failed_calls_atomic_at : ∃ s s' s'' : Lib, Reachable ⟨true⟩ s ∧ s.items.length = 2 ∧
    (snRealloc 4096 16 (Env.plain 1 0 0) s = .done NULL s' ∧
      s'.errorCode = .snErrBadAlloc ∧ Unchanged s s') ∧
    (snQueryStaticMetadata ⟨true⟩ 8192 (Env.plain 1 0 0) s = .done NULL s'' ∧
      s''.errorCode = .snErrBadAlloc ∧ s''.manager.cacheList 0 = ⟨8192, 192⟩ ∧
      Unchanged s s'') := by
  have hsome : ((doinit (Env.plain 1 64 0) .blank).done?.bind fun s₀ =>
      (run (libStep ⟨true⟩) [(Env.plain 1 128 4096, .malloc 8),
        (Env.plain 2 192 8192, .calloc 2 3), (Env.plain 1 0 0, .requestToFastCache 4096)]
          s₀).bind fun s =>
        (snRealloc 4096 16 (Env.plain 1 0 0) s).done?.bind fun s' =>
          (snQueryStaticMetadata ⟨true⟩ 8192 (Env.plain 1 0 0) s).done?.map fun s'' =>
            ((s.items.length, s.errorCode, s'.errorCode, s''.errorCode, s''.manager.cacheList 0),
              (snRealloc 4096 16 (Env.plain 1 0 0) s).value?,
              (snQueryStaticMetadata ⟨true⟩ 8192 (Env.plain 1 0 0) s).value?)) =
      some ((2, .snErrOk, .snErrBadAlloc, .snErrBadAlloc, ⟨8192, 192⟩), some NULL, some NULL) := by
    decide +kernel
  obtain ⟨s₀, h₀, hrest⟩ := Option.bind_eq_some_iff.mp hsome
  obtain ⟨s, hrun, hrest⟩ := Option.bind_eq_some_iff.mp hrest
  obtain ⟨s', hs', hrest⟩ := Option.bind_eq_some_iff.mp hrest
  obtain ⟨s'', hs'', hval⟩ := Option.map_eq_some_iff.mp hrest
  obtain ⟨hstates, hvalues⟩ := Prod.mk.inj hval
  obtain ⟨hlen, hstates⟩ := Prod.mk.inj hstates
  obtain ⟨hok, hstates⟩ := Prod.mk.inj hstates
  obtain ⟨herr', hstates⟩ := Prod.mk.inj hstates
  obtain ⟨herr'', hslot⟩ := Prod.mk.inj hstates
  obtain ⟨hvalue', hvalue''⟩ := Prod.mk.inj hvalues
  obtain ⟨v', hrealloc⟩ := Outcome.done?_eq_some.mp hs'
  obtain ⟨v'', hquery⟩ := Outcome.done?_eq_some.mp hs''
  rw [hrealloc] at hvalue'
  rw [hquery] at hvalue''
  obtain rfl := Option.some.inj hvalue'
  obtain rfl := Option.some.inj hvalue''
  have hreach : Reachable ⟨true⟩ s := ⟨s₀, _, started_of_done h₀, hrun⟩
  have hatomic := failed_calls_atomic hreach (Env.plain 1 0 0)
  obtain ⟨hkeeps, hnull⟩ := hatomic.realloc 4096 16
  have hreports : ReportsError (snQueryStaticMetadata ⟨true⟩ 8192) (Env.plain 1 0 0) s := by
    refine ErrorBlind.reports (errorBlind.snQueryStaticMetadata errorBlind_memmanWork) hquery ?_
    rw [hok, herr'']
    decide
  refine ⟨s, s', s'', hreach, hlen, ⟨hrealloc, herr', ?_⟩, hquery, herr'', hslot, ?_⟩
  · exact hkeeps _ _ hrealloc ((hnull _ _ hrealloc).mp rfl)
  · exact hatomic.queryStaticMetadata 8192 _ _ hquery hreports

end LibSafetynet
