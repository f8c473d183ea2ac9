import LibSafetynet.RegistryRuns

/-!
# The last error

Every function reports its failures in the one `error_code`, which a success leaves as it
is. So what `sn_get_last_error` answers after a run belongs to a call of that run: one that
returned its value for failure and changed nothing else, with no reset since
(`last_error_blames`).
-/

namespace LibSafetynet

open Logic

/-- The errors that an operation reports. -/
def Op.errors : Op → List SnErrorCodes
  | .malloc _ | .calloc _ _ | .mallocPreInitialized _ _ =>
    [.snErrBadSize, .snErrAllocLimitHit, .snErrBadAlloc]
  | .realloc _ _ =>
    [.snErrNullPtr, .snErrNoAdderFound, .snErrBadSize, .snErrAllocLimitHit, .snErrBadAlloc]
  | .free _ | .querySize _ | .queryTid _ | .getBlockId _ | .queryMetadata _
  | .requestToFastCache _ => [.snErrNullPtr, .snErrNoAdderFound]
  | .registerSize _ _ => [.snErrNullPtr, .snErrBadSize]
  | .isTrackedBlock _ => [.snErrNullPtr]
  | .setBlockId _ _ => [.snErrNullPtr, .snErrBadBlockId, .snErrNoAdderFound]
  | .queryBlockId _ => [.snErrBadBlockId, .snErrNoAdderFound]
  | .queryStaticMetadata _ =>
    [.snErrNullPtr, .snErrNoAdderFound, .snErrAllocLimitHit, .snErrBadAlloc]
  | .calculateChecksum _ => [.snErrNullPtr, .snErrNoAdderFound, .snErrBadSize]
  | .dumpToFile _ _ => [.snErrNullPtr, .snErrFilePreExist, .snErrNoAdderFound, .snErrFileIo]
  | .mountFileToRam _ =>
    [.snErrNullPtr, .snErrFileNotExist, .snErrFileIo, .snErrBadSize, .snErrAllocLimitHit,
      .snErrBadAlloc]
  | _ => []

/-- What an operation returns when it fails. -/
def Op.failure : Op → Reply
  | .malloc _ | .calloc _ _ | .realloc _ _ | .mallocPreInitialized _ _ | .registerSize _ _
  | .queryBlockId _ | .queryStaticMetadata _ | .mountFileToRam _ => .addr NULL
  | .querySize _ | .queryTid _ | .calculateChecksum _ => .size 0
  | .getBlockId _ => .blockId 0
  | .isTrackedBlock _ | .queryMetadata _ | .requestToFastCache _ | .dumpToFile _ _ => .flag false
  | _ => .none

theorem Op.ne_ok_of_mem_errors {op : Op} {err : SnErrorCodes} (h : err ∈ op.errors) :
    err ≠ .snErrOk := by
  rintro rfl
  cases op <;> simp [Op.errors] at h

namespace Registry

/-- `R'` is `R` with the error set; the allocator may have lent a block meanwhile. -/
structure Marked (R : Registry) (err : SnErrorCodes) (R' : Registry) : Prop where
  blocks : R'.heap.blocks = R.heap.blocks
  entries : R'.entries = R.entries
  usage : R'.usage = R.usage
  limit : R'.limit = R.limit
  error : R'.error = err

/-- The operation reports the error `err`. -/
structure Reports (R : Registry) (op : Op) (err : SnErrorCodes) (r : Reply) (R' : Registry) :
    Prop where
  member : err ∈ op.errors
  reply : r = op.failure
  marked : R.Marked err R'

/-- The operation leaves the error alone, resets it, or reports one. -/
def Honest (R : Registry) (op : Op) (p : Reply × Registry) : Prop :=
  p.2.error = R.error ∨ op = .resetLastError ∧ p.2.error = .snErrOk ∨
    ∃ err, R.Reports op err p.1 p.2

section Step

variable {R : Registry} {op : Op} {cfg : Config} {env : Env} {o : Oracle} {err : SnErrorCodes}
variable {r : Reply} {f : TrackedBlock → Reply × Registry} {p : Addr}

theorem honest_fail (hmem : err ∈ op.errors) (hr : r = op.failure) : Honest R op (R.fail err r) :=
  Or.inr (Or.inr ⟨err, hmem, hr, rfl, rfl, rfl, rfl, rfl⟩)

theorem honest_same {R' : Registry} (h : R'.error = R.error) : Honest R op (r, R') := Or.inl h

theorem honest_ite {c : Prop} [Decidable c] {a b : Reply × Registry} (ha : Honest R op a)
    (hb : Honest R op b) : Honest R op (if c then a else b) := by
  split_ifs
  · exact ha
  · exact hb

/-- The lookup of a block. -/
theorem honest_find {a : Reply × Registry} (ha : Honest R op a) (hf : ∀ t, Honest R op (f t)) :
    Honest R op (match R.find? p with | none => a | some t => f t) := by
  cases R.find? p with
  | none => exact ha
  | some t => exact hf t

/-- The lookup that asks the cache first. -/
theorem honest_answer (hnull : .snErrNullPtr ∈ op.errors) (hnone : .snErrNoAdderFound ∈ op.errors)
    (hr : r = op.failure) (hf : ∀ t, Honest R op (f t)) : Honest R op (R.answer o p r f) := by
  rw [answer]
  refine honest_ite (honest_fail hnull hr) (honest_find (honest_fail hnone hr) fun t => ?_)
  exact honest_ite (hf t) (honest_same rfl)

theorem honest_allocate {size charge : UInt64} {bytes : List UInt8}
    (hlimit : .snErrAllocLimitHit ∈ op.errors) (halloc : .snErrBadAlloc ∈ op.errors)
    (hr : .addr NULL = op.failure) : Honest R op (R.allocate env size charge bytes) := by
  rw [allocate]
  refine honest_ite (honest_fail hlimit hr) ?_
  exact honest_ite (honest_same rfl) (honest_fail halloc hr)

theorem honest_malloc {size : UInt64} {bytes : List UInt8} (hsize : .snErrBadSize ∈ op.errors)
    (hlimit : .snErrAllocLimitHit ∈ op.errors) (halloc : .snErrBadAlloc ∈ op.errors)
    (hr : .addr NULL = op.failure) : Honest R op (R.malloc env bytes size) := by
  rw [malloc]
  exact honest_ite (honest_fail hsize hr) (honest_allocate hlimit halloc hr)

theorem honest_realloc {q : Addr} {newSize : UInt64} :
    Honest R (.realloc q newSize) (R.realloc env o q newSize) := by
  rw [realloc]
  refine honest_ite (honest_fail (by simp [Op.errors]) rfl) ?_
  refine honest_find (honest_fail (by simp [Op.errors]) rfl) fun t => ?_
  refine honest_ite (honest_fail (by simp [Op.errors]) rfl) ?_
  refine honest_ite (honest_fail (by simp [Op.errors]) rfl) ?_
  exact honest_ite (honest_same rfl) (honest_fail (by simp [Op.errors]) rfl)

theorem honest_queryBlockId {id : UInt16} :
    Honest R (.queryBlockId id) (R.queryBlockId o id) := by
  rw [queryBlockId]
  refine honest_ite (honest_fail (by simp [Op.errors]) rfl) ?_
  cases R.entries.find? fun t => o.cached = some t.data ∧ t.blockId = id with
  | some t => exact honest_same rfl
  | none => exact honest_ite (honest_same rfl) (honest_fail (by simp [Op.errors]) rfl)

theorem honest_dumpToFile {file : Option FileName} {q : Addr} :
    Honest R (.dumpToFile file q) (R.dumpToFile env o file q) := by
  cases file with
  | none => exact honest_fail (by simp [Op.errors]) rfl
  | some path =>
    refine honest_ite (honest_fail (by simp [Op.errors]) rfl) ?_
    refine honest_answer (by simp [Op.errors]) (by simp [Op.errors]) rfl fun t => ?_
    exact honest_ite (honest_same rfl) (honest_fail (by simp [Op.errors]) rfl)

theorem honest_mountFileToRam {file : Option FileName} :
    Honest R (.mountFileToRam file) (R.mountFileToRam cfg env o file) := by
  cases file with
  | none => exact honest_fail (by simp [Op.errors]) rfl
  | some path =>
    rw [mountFileToRam]
    cases (if env.fopenOk 0 = true then o.files path else none) with
    | none => exact honest_fail (by simp [Op.errors]) rfl
    | some content =>
      refine honest_ite (honest_fail (by simp [Op.errors]) rfl) ?_
      refine honest_ite (honest_fail (by simp [Op.errors]) rfl) (honest_ite ?_ ?_)
      · -- the buffer was allocated and freed again
        refine Or.inr (Or.inr ⟨.snErrFileIo, by simp [Op.errors], rfl, ?_⟩)
        exact ⟨rfl, rfl, rfl, rfl, rfl⟩
      · exact honest_allocate (by simp [Op.errors]) (by simp [Op.errors]) rfl

/-- **Every operation is honest** about its failures. -/
theorem step_honest (op : Op) : Honest R op (R.step cfg env o op) := by
  cases op with
  | malloc size =>
    exact honest_malloc (by simp [Op.errors]) (by simp [Op.errors]) (by simp [Op.errors]) rfl
  | mallocPreInitialized size v =>
    exact honest_malloc (by simp [Op.errors]) (by simp [Op.errors]) (by simp [Op.errors]) rfl
  | calloc num size =>
    refine honest_ite (honest_fail (by simp [Op.errors]) rfl) ?_
    exact honest_allocate (by simp [Op.errors]) (by simp [Op.errors]) rfl
  | realloc q newSize => exact honest_realloc
  | free q =>
    refine honest_ite (honest_fail (by simp [Op.errors]) rfl) ?_
    exact honest_find (honest_fail (by simp [Op.errors]) rfl) fun t => honest_same rfl
  | registerSize q size =>
    refine honest_ite (honest_fail (by simp [Op.errors]) rfl) ?_
    refine honest_ite (honest_fail (by simp [Op.errors]) rfl) ?_
    exact honest_ite (honest_same rfl) (honest_same rfl)
  | querySize q | requestToFastCache q =>
    refine honest_ite (honest_fail (by simp [Op.errors]) rfl) ?_
    exact honest_find (honest_fail (by simp [Op.errors]) rfl) fun t => honest_same rfl
  | queryTid q | getBlockId q | queryMetadata q =>
    exact honest_answer (by simp [Op.errors]) (by simp [Op.errors]) rfl fun t => honest_same rfl
  | isTrackedBlock q =>
    exact honest_ite (honest_fail (by simp [Op.errors]) rfl) (honest_same rfl)
  | setBlockId q id =>
    refine honest_ite (honest_fail (by simp [Op.errors]) rfl) ?_
    exact honest_answer (by simp [Op.errors]) (by simp [Op.errors]) rfl fun t => honest_same rfl
  | queryBlockId id => exact honest_queryBlockId
  | queryStaticMetadata q =>
    refine honest_answer (by simp [Op.errors]) (by simp [Op.errors]) rfl fun t => ?_
    rw [malloc, if_neg (by decide)]
    exact honest_allocate (by simp [Op.errors]) (by simp [Op.errors]) rfl
  | calculateChecksum q =>
    refine honest_answer (by simp [Op.errors]) (by simp [Op.errors]) rfl fun t => ?_
    exact honest_ite (honest_fail (by simp [Op.errors]) rfl) (honest_same rfl)
  | dumpToFile file q => exact honest_dumpToFile
  | mountFileToRam file => exact honest_mountFileToRam
  | resetLastError => exact Or.inr (Or.inl ⟨rfl, rfl⟩)
  | clientMalloc size => exact honest_ite (honest_same rfl) (honest_same rfl)
  | clientFree q => exact honest_ite (honest_same rfl) (honest_same rfl)
  | clientWrite q bytes => exact honest_ite (honest_same rfl) (honest_same rfl)
  | _ => exact honest_same rfl

end Step

end Registry

/-! ## Over a run -/

/-- The call does not touch the error: it succeeds, or fails with the error that is set. -/
def LeavesError (cfg : Config) (l : Env × Op) (s : Lib) : Prop :=
  l.2 ≠ .resetLastError ∧ ∀ s', libStep cfg l s = some s' → s'.errorCode = s.errorCode

/-- The error that is set after the run is that of one of its calls, which failed and changed
nothing else, and no call since has touched it. -/
inductive Blames (cfg : Config) : Lib → List (Env × Op) → List Reply → Lib → Prop
  | call {pre post : List (Env × Op)} {l : Env × Op} {os₁ os₂ : List Reply} {r : Reply}
      {s s₁ s₂ s' : Lib} : history (replyStep cfg) pre s = some (os₁, s₁) →
      replyStep cfg l s₁ = some (r, s₂) →
      s₁.registry.Reports l.2 s'.errorCode r s₂.registry →
      Along (libStep cfg) (LeavesError cfg) post s₂ →
      history (replyStep cfg) post s₂ = some (os₂, s') →
      Blames cfg s (pre ++ l :: post) (os₁ ++ r :: os₂) s'

section Runs

variable {cfg : Config} {s s₁ s' : Lib} {L : List Addr} {l : Env × Op} {ls : List (Env × Op)}
variable {r : Reply} {os : List Reply}

theorem Blames.cons (h : Blames cfg s₁ ls os s') (hstep : replyStep cfg l s = some (r, s₁)) :
    Blames cfg s (l :: ls) (r :: os) s' := by
  cases h with
  | call hpre hcall hreports hpost hrest =>
    have hpre' := history_cons_eq_some.mpr ⟨_, _, _, hstep, hpre, rfl⟩
    exact .call hpre' hcall hreports hpost hrest

/-- After the calls the error is untouched, reset, or to be blamed on one of them. -/
theorem Orderly.last_error (hL : Orderly L s) (hok : Along (libStep cfg) Respects ls s)
    (hrun : history (replyStep cfg) ls s = some (os, s')) :
    Along (libStep cfg) (LeavesError cfg) ls s ∧ s'.errorCode = s.errorCode ∨
      s'.errorCode = .snErrOk ∨ Blames cfg s ls os s' := by
  induction ls generalizing s os L with
  | nil =>
    obtain ⟨-, rfl⟩ := Prod.mk.inj (Option.some.inj hrun)
    exact Or.inl ⟨trivial, rfl⟩
  | cons l ls ih =>
    obtain ⟨r, s₁, os', hstep, hrest, rfl⟩ := history_cons_eq_some.mp hrun
    have hlib : libStep cfg l s = some s₁ := libStep_of_reply hstep
    obtain ⟨⟨o, hreg⟩, L₁, hL₁⟩ := hL.step hok.1 hstep
    have hhonest : s.registry.Honest l.2 (s.registry.step cfg l.1 o l.2) :=
      Registry.step_honest l.2
    rw [hreg] at hhonest
    rcases ih hL₁ (hok.2 s₁ hlib) hrest with ⟨hleaves, hend⟩ | hreset | hblames
    · -- this call is the last one that can have touched it
      rcases hhonest with hsame | ⟨-, hnone⟩ | ⟨err, hreports⟩
      · by_cases hop : l.2 = .resetLastError
        · rw [hop] at hreg
          have hnone : .snErrOk = s₁.errorCode := congrArg (·.2.error) hreg
          exact Or.inr (Or.inl (hend.trans hnone.symm))
        · have hsame' : s₁.errorCode = s.errorCode := hsame
          have hone : ∀ s₂, libStep cfg l s = some s₂ → s₂ = s₁ := fun s₂ h₂ =>
            Option.some.inj (h₂.symm.trans hlib)
          refine Or.inl ⟨⟨⟨hop, fun s₂ h₂ => ?_⟩, fun s₂ h₂ => ?_⟩, hend.trans hsame'⟩
          · rw [hone s₂ h₂, hsame']
          · rw [hone s₂ h₂]
            exact hleaves
      · exact Or.inr (Or.inl (hend.trans hnone))
      · obtain rfl : s'.errorCode = err := hend.trans hreports.marked.error
        have hnil : history (replyStep cfg) [] s = some ([], s) := rfl
        have hblames := Blames.call hnil hstep hreports hleaves hrest
        exact Or.inr (Or.inr hblames)
    · exact Or.inr (Or.inl hreset)
    · exact Or.inr (Or.inr (hblames.cons hstep))

end Runs

theorem Blames.ne_ok {cfg : Config} {s s' : Lib} {ls : List (Env × Op)} {os : List Reply}
    (h : Blames cfg s ls os s') : s'.errorCode ≠ .snErrOk := by
  cases h with
  | call _ _ hreports _ _ => exact Op.ne_ok_of_mem_errors hreports.member

/-- **The last error is that of a call that failed.** After any run of a client that respects
the library an error is set exactly if a call of the run is to blame for it: a call that
reported this error, one of those of its function, with its value for failure, that left
blocks, entries, usage and limit as they were, and after which no call touched the error. -/
theorem last_error_blames {cfg : Config} {s₀ s : Lib} {ls : List (Env × Op)} {os : List Reply}
    (h₀ : Started s₀) (hok : Along (libStep cfg) Respects ls s₀)
    (hrun : history (replyStep cfg) ls s₀ = some (os, s)) :
    s.errorCode ≠ .snErrOk ↔ Blames cfg s₀ ls os s := by
  refine ⟨fun hset => ?_, Blames.ne_ok⟩
  have hstart : s₀.errorCode = .snErrOk := congrArg Registry.error (started_registry h₀)
  rcases (loaded_of_started h₀).orderly.last_error hok hrun with ⟨-, hend⟩ | hreset | hblames
  · exact absurd (hend.trans hstart) hset
  · exact absurd hreset hset
  · exact hblames

/-- An allocation of nothing fails, and the one after it succeeds. -/
theorem last_error_blames_at :
    ∃ ls os s₀ s, ls = [(Env.plain 1 0 0, .malloc 0), (Env.plain 1 128 4096, .malloc 8)] ∧
      os = [.addr NULL, .addr 4096] ∧ Started s₀ ∧
      history (replyStep ⟨true⟩) ls s₀ = some (os, s) ∧ s.errorCode = .snErrBadSize ∧
      Blames ⟨true⟩ s₀ ls os s := by
  have hsome : ((doinit (Env.plain 1 64 0) .blank).done?.bind fun s₀ =>
      (history (replyStep ⟨true⟩)
        [(Env.plain 1 0 0, .malloc 0), (Env.plain 1 128 4096, .malloc 8)] s₀).map fun q =>
          (q.1, q.2.errorCode)) = some ([.addr NULL, .addr 4096], .snErrBadSize) := by
    decide +kernel
  obtain ⟨s₀, h₀, hrest⟩ := Option.bind_eq_some_iff.mp hsome
  obtain ⟨⟨os, s⟩, hrun, hval⟩ := Option.map_eq_some_iff.mp hrest
  obtain ⟨rfl, herr⟩ := Prod.mk.inj hval
  have hok : Along (libStep ⟨true⟩) Respects
      [(Env.plain 1 0 0, .malloc 0), (Env.plain 1 128 4096, .malloc 8)] s₀ :=
    ⟨⟨trivial, id⟩, fun _ _ => ⟨⟨trivial, id⟩, fun _ _ => trivial⟩⟩
  have hset : s.errorCode ≠ .snErrOk := by
    rw [herr]
    decide
  exact ⟨_, _, s₀, s, rfl, rfl, started_of_done h₀, hrun, herr,
    (last_error_blames (started_of_done h₀) hok hrun).mp hset⟩

end LibSafetynet
