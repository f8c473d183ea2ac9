import LibSafetynet.Reachability

/-!
# The allocation limit

`memman_canAllocateBasedOnLimitAndSize` adds in `size_t`, and `sn_calloc` multiplies
in it. A call that must be turned away is let through exactly when the sum wraps
around 2^64 and lands below the limit, and a size of 0 is refused with another error before
the limit is looked at (`limit_kept_iff_no_wrap`); the usage and the limit are arbitrary, on
top of any reachable state.
-/

namespace LibSafetynet

open Logic Prog PlatMutex ListState AllocManager

/-- The calls that ask for the limit. -/
inductive LimitedCall where
  | malloc (size : UInt64)
  | calloc (num size : UInt64)
  | realloc (ptr : Addr) (newSize : UInt64)

namespace LimitedCall

/-- The call itself. -/
def exec (cfg : Config) : LimitedCall → CProg Lib Addr
  | .malloc size => snMalloc cfg size
  | .calloc num size => snCalloc num size
  | .realloc ptr newSize => snRealloc ptr newSize

/-- The size that the first entry for `p` records. -/
def sizeOf (s : Lib) (p : Addr) : UInt64 :=
  (nodeAt s.list.nodes (findPtr s.list s.list.entries p)).size

/-- What the call asks for, without wrapping. -/
def requested (s : Lib) : LimitedCall → Nat
  | .malloc size => size.toNat
  | .calloc num size => num.toNat * size.toNat
  | .realloc ptr newSize => newSize.toNat - (sizeOf s ptr).toNat

/-- A `sn_realloc` is of a tracked block, and to a larger size. -/
def Grows (s : Lib) : LimitedCall → Prop
  | .realloc ptr newSize =>
    ptr ≠ NULL ∧ findPtr s.list s.list.entries ptr ≠ NULL ∧ sizeOf s ptr < newSize
  | _ => True

/-- A size of zero is refused before the limit is looked at. -/
def Sized : LimitedCall → Prop
  | .malloc size => size ≠ 0
  | .calloc num size => size ≠ 0 ∧ num ≠ 0
  | .realloc _ _ => True

end LimitedCall

/-- The library with another usage and limit. -/
def Lib.withLimit (s : Lib) (usage limit : UInt64) : Lib :=
  { s with manager := { s.manager with allocLimit := limit, globalMemoryUsage := usage } }

/-- The limit stops the call: whatever the platform would answer, it returns null,
no allocator was called, and the error is the limit's. -/
def StopsAtLimit (cfg : Config) (call : LimitedCall) (s : Lib) : Prop :=
  ∀ env, ∃ s', call.exec cfg env s = .done NULL s' ∧ s'.heap = s.heap ∧
    s'.errorCode = .snErrAllocLimitHit

section Limit

variable {cfg : Config} {env : Env} {s : Lib} {L : List Addr} {usage limit : UInt64}
variable {call : LimitedCall}

theorem withLimit_base (hb : Base s L) : Base (s.withLimit usage limit) L := ⟨hb.rep, hb.slot⟩

/-- The check, in the numbers the code compares. -/
theorem canAllocate_withLimit (hlimit : limit ≠ 0) (size : UInt64) :
    memmanCanAllocateBasedOnLimitAndSize (s.withLimit usage limit).manager size = true ↔
      usage + size < limit := by
  show (if limit = memmanNoAllocLimit then true
    else if limit ≤ usage + size then false else true) = true ↔ _
  rw [if_neg hlimit]
  by_cases hle : limit ≤ usage + size
  · simp [hle]
  · simpa [hle] using UInt64.not_le.mp hle

/-- The sum that the code compares, when what it adds is right up to wrapping. -/
theorem lt_limit_iff {size : UInt64} {n : Nat} (hn : size.toNat = n % addressSpace) :
    usage + size < limit ↔ (usage.toNat + n) % addressSpace < limit.toNat := by
  rw [UInt64.lt_iff_toNat_lt, UInt64.toNat_add, hn, Nat.add_mod_mod]

/-- An error report, when the manager's mutex is free. -/
theorem wp_snError_free {α : Type} {E : Stop → Lib → Prop} {Q : α → Lib → Prop}
    {err : SnErrorCodes} {ret : α} (hfree : IsFree s.allocMutex)
    (hQ : Q ret { s with errorCode := err, allocMutex := release s.allocMutex }) :
    wp (snError err ret) env Q E s := by
  rw [snError, wp_bind]
  exact wp_snSetLastError (fun hbl => absurd hbl (hfree.not_blocks _)) hQ

/-! ## The three callers -/

/-- How a call ends: with the error for a size of zero, the limit's error, or on to an
allocator that has no room. -/
structure LimitSpec (cfg : Config) (call : LimitedCall) (s : Lib) (passes : Prop) : Prop where
  refuses : ¬ call.Sized → ∀ env,
    wlp (call.exec cfg) env (fun _ s' => s'.errorCode = .snErrBadSize) s
  stops : call.Sized → ¬ passes → StopsAtLimit cfg call s
  goesOn : call.Sized → passes → ∀ env, env.block = NULL →
    wlp (call.exec cfg) env (fun _ s' => s'.errorCode = .snErrBadAlloc) s

theorem not_admits_null {h : ClientHeap} {n : Nat} (hnull : env.block = NULL) :
    ¬ h.Admits env.block n :=
  fun hadm => hadm.ne_null hnull

/-- How `sn_malloc` and `sn_calloc` begin. -/
def checkedAlloc (zero : Prop) [Decidable zero] (needed : UInt64)
    (alloc : CProg ClientHeap Addr) (rest : Addr → CProg Lib Addr) : CProg Lib Addr := do
  if zero then snError .snErrBadSize NULL
  else if ¬ memmanCanAllocateBasedOnLimitAndSize (← getManager) needed then
    snError .snErrAllocLimitHit NULL
  else
    let pr ← onHeap alloc
    if pr = NULL then snError .snErrBadAlloc NULL else rest pr

theorem checkedAlloc_limitSpec {zero : Prop} [Decidable zero] {needed : UInt64}
    {alloc : CProg ClientHeap Addr} {rest : Addr → CProg Lib Addr}
    (hexec : call.exec cfg = checkedAlloc zero needed alloc rest) (hsized : call.Sized ↔ ¬ zero)
    (hfree : IsFree s.allocMutex)
    (hfull : ∀ env, env.block = NULL → ∀ h, wlp alloc env (fun pr _ => pr = NULL) h) :
    LimitSpec cfg call s (memmanCanAllocateBasedOnLimitAndSize s.manager needed = true) := by
  constructor
  · intro hsize env
    rw [hexec, wlp, checkedAlloc, wp_ite]
    exact ⟨fun _ => wlp_snError fun _ _ herr => herr,
      fun hne => absurd (hsized.mpr hne) hsize⟩
  · intro hsize hno env
    have hspec : wp (checkedAlloc zero needed alloc rest) env (fun v s' => v = NULL ∧
        s'.heap = s.heap ∧ s'.errorCode = .snErrAllocLimitHit) (fun _ _ => False) s := by
      rw [checkedAlloc, wp_ite]
      refine ⟨fun hzero => absurd hzero (hsized.mp hsize), fun _ => ?_⟩
      rw [wp_bind, wp_getManager, wp_ite]
      exact ⟨fun _ => wp_snError_free hfree ⟨rfl, rfl, rfl⟩, fun hyes => absurd hno hyes⟩
    rw [← hexec] at hspec
    obtain ⟨v, s', hdone, rfl, hheap, herr⟩ := hspec.exists_done
    exact ⟨s', hdone, hheap, herr⟩
  · intro hsize hyes env hnull
    rw [hexec, wlp, checkedAlloc, wp_ite]
    refine ⟨fun hzero => absurd hzero (hsized.mp hsize), fun _ => ?_⟩
    rw [wp_bind, wp_getManager, wp_ite]
    refine ⟨fun hno => absurd hyes hno, fun _ => ?_⟩
    rw [wp_bind, wp_onHeap]
    refine (hfull env hnull s.heap).imp fun pr h hpr => ?_
    rw [wp_ite]
    exact ⟨fun _ => wlp_snError fun _ _ herr => herr, fun hne => absurd hpr hne⟩

theorem malloc_limitSpec {size : UInt64} (hfree : IsFree s.allocMutex) :
    LimitSpec cfg (.malloc size) s
      (memmanCanAllocateBasedOnLimitAndSize s.manager size = true) := by
  have hexec : LimitedCall.exec cfg (.malloc size)
      = checkedAlloc (size = 0) size (platMalloc size) _ := rfl
  refine checkedAlloc_limitSpec hexec Iff.rfl hfree fun env hnull h => ?_
  exact wp_platMalloc (fun _ => rfl) fun hadm => absurd hadm (not_admits_null hnull)

theorem calloc_limitSpec {num size : UInt64} (hfree : IsFree s.allocMutex) :
    LimitSpec cfg (.calloc num size) s
      (memmanCanAllocateBasedOnLimitAndSize s.manager (size * num) = true) := by
  have hexec : LimitedCall.exec cfg (.calloc num size)
      = checkedAlloc (size = 0 ∨ num = 0) (size * num) (platCalloc num size) _ := rfl
  refine checkedAlloc_limitSpec hexec not_or.symm hfree fun env hnull h => ?_
  exact wp_platCalloc (fun _ => rfl) fun hadm => absurd hadm (not_admits_null hnull)

theorem realloc_limitSpec {ptr : Addr} {newSize : UInt64} (hb : Base s L)
    (hfree : IsFree s.allocMutex) (hlist : L ≠ [] → IsFree s.list.mutex)
    (hgrows : LimitedCall.Grows s (.realloc ptr newSize)) :
    LimitSpec cfg (.realloc ptr newSize) s (memmanCanAllocateBasedOnLimitAndSize s.manager
      (newSize - LimitedCall.sizeOf s ptr) = true) := by
  obtain ⟨hptr, hfound, hlt⟩ := hgrows
  unfold LimitedCall.sizeOf at *
  rw [hb.rep.entries_eq] at *
  have hmem := (findPtr_mem hfound).1
  have hnz : newSize ≠ 0 := by
    rintro rfl
    exact absurd hlt (UInt64.not_lt_zero)
  constructor
  · exact fun hsize => absurd trivial hsize
  · intro _ hno env
    have hspec : wp (snRealloc ptr newSize) env (fun v s' => v = NULL ∧ s'.heap = s.heap ∧
        s'.errorCode = .snErrAllocLimitHit) (fun _ _ => False) s := by
      rw [snRealloc, wp_ite]
      refine ⟨fun hnull => absurd hnull hptr, fun _ => ?_⟩
      rw [wp_bind]
      refine wp_getByPtr hb hptr (fun hbl => ?_) fun s₁ heq h₁ => ?_
      · exact absurd hbl.2 ((hlist (List.ne_nil_of_mem hmem)).not_blocks _)
      have hman : s₁.manager = s.manager := by rw [heq]
      rw [wp_ite]
      refine ⟨fun hnull => absurd hnull hfound, fun _ => ?_⟩
      rw [wp_ite]
      refine ⟨fun hzero => absurd hzero hnz, fun _ => ?_⟩
      rw [wp_bind, wp_onList]
      refine wp_deref_live ((h₁.base hb).rep.live_of_mem hmem) ?_
      dsimp only
      rw [h₁.quiet.list.size, wp_bind, wp_getManager, wp_ite]
      -- the lookup before it changed neither the usage nor the limit
      refine ⟨fun _ => ?_, fun hyes => absurd ⟨hlt, hman ▸ hno⟩ hyes⟩
      exact wp_snError_free (h₁.alloc hfree) ⟨rfl, h₁.quiet.heap, rfl⟩
    obtain ⟨v, s', hdone, rfl, hheap, herr⟩ := hspec.exists_done
    exact ⟨s', hdone, hheap, herr⟩
  · intro _ hyes env hnull
    show wlp (snRealloc ptr newSize) env _ s
    rw [wlp, snRealloc, wp_ite]
    refine ⟨fun hnull => absurd hnull hptr, fun _ => ?_⟩
    rw [wp_bind]
    refine wlp_getByPtr hb hptr fun s₁ h₁ hman => ?_
    rw [wp_ite]
    refine ⟨fun hnull => absurd hnull hfound, fun _ => ?_⟩
    rw [wp_ite]
    refine ⟨fun hzero => absurd hzero hnz, fun _ => ?_⟩
    rw [wp_bind, wp_onList]
    refine wp_deref_live ((h₁.base hb).rep.live_of_mem hmem) ?_
    dsimp only
    rw [h₁.quiet.list.size, wp_bind, wp_getManager, wp_ite]
    refine ⟨fun hno => absurd (hman ▸ hyes) hno.2, fun _ => ?_⟩
    rw [wp_bind, wp_onHeap]
    refine wp_platRealloc (fun _ => trivial) (fun _ _ => ?_) fun _ hadm =>
      absurd hadm (not_admits_null hnull)
    rw [wp_ite]
    exact ⟨fun _ => wlp_snError fun _ _ herr => herr, fun hne => absurd rfl hne⟩

/-! ## The law -/

theorem toNat_mul_wraps (num size : UInt64) :
    (size * num).toNat = (num.toNat * size.toNat) % addressSpace := by
  rw [UInt64.toNat_mul, Nat.mul_comm]

/-- Each caller compares the sum of the usage and of what it asks for, up to wrapping. -/
theorem limitSpec (hb : Base s L) (hu : Unlocked s L) (hlimit : limit ≠ 0)
    (hgrows : call.Grows s) : LimitSpec cfg call (s.withLimit usage limit)
      ((usage.toNat + call.requested s) % addressSpace < limit.toNat) := by
  have hfree : IsFree (s.withLimit usage limit).allocMutex := hu.alloc
  cases call with
  | malloc size =>
    have hn : size.toNat = size.toNat % addressSpace := (Nat.mod_eq_of_lt size.toNat_lt).symm
    show LimitSpec _ _ _ ((usage.toNat + size.toNat) % addressSpace < limit.toNat)
    rw [← lt_limit_iff hn, ← canAllocate_withLimit (s := s) hlimit]
    exact malloc_limitSpec hfree
  | calloc num size =>
    show LimitSpec _ _ _ ((usage.toNat + num.toNat * size.toNat) % addressSpace < limit.toNat)
    rw [← lt_limit_iff (toNat_mul_wraps num size), ← canAllocate_withLimit (s := s) hlimit]
    exact calloc_limitSpec hfree
  | realloc ptr newSize =>
    have hle : LimitedCall.sizeOf s ptr ≤ newSize := UInt64.le_of_lt hgrows.2.2
    have hn : (newSize - LimitedCall.sizeOf s ptr).toNat
        = (newSize.toNat - (LimitedCall.sizeOf s ptr).toNat) % addressSpace := by
      rw [UInt64.toNat_sub_of_le _ _ hle, Nat.mod_eq_of_lt]
      exact Nat.lt_of_le_of_lt (Nat.sub_le _ _) newSize.toNat_lt
    show LimitSpec _ _ _ ((usage.toNat + (newSize.toNat - (LimitedCall.sizeOf s ptr).toNat)) %
      addressSpace < limit.toNat)
    rw [← lt_limit_iff hn, ← canAllocate_withLimit (s := s) hlimit]
    exact realloc_limitSpec (withLimit_base hb) hfree hu.list hgrows

end Limit

/-- **The limit, up to wrapping.** For every usage, limit and size, a call that would
bring the usage to the limit or over it is stopped by the limit, unless its size is zero or
the sum of usage and request wraps around 2^64 to a number below the limit. -/
theorem limit_kept_iff_no_wrap {cfg : Config} {s : Lib} {usage limit : UInt64}
    {call : LimitedCall} (hs : Reachable cfg s) (hlimit : limit ≠ 0) (hgrows : call.Grows s) :
    (¬ usage.toNat + call.requested s < limit.toNat →
        StopsAtLimit cfg call (s.withLimit usage limit)) ↔
      usage.toNat + call.requested s < limit.toNat ∨
        call.Sized ∧ limit.toNat ≤ (usage.toNat + call.requested s) % addressSpace := by
  obtain ⟨L, hb, hu⟩ := hs.base
  have hspec : LimitSpec cfg call (s.withLimit usage limit) _ := limitSpec hb hu hlimit hgrows
  constructor
  · intro hkept
    by_contra hbad
    obtain ⟨hover, hwrap⟩ := not_or.mp hbad
    -- an allocator without room shows that the call got there
    obtain ⟨s', hdone, -, herr⟩ := hkept hover (Env.plain 0 0 NULL)
    by_cases hsized : call.Sized
    · have hpasses := Nat.not_le.mp fun hle => hwrap ⟨hsized, hle⟩
      have hbadAlloc := (hspec.goesOn hsized hpasses (Env.plain 0 0 NULL) rfl).done hdone
      rw [herr] at hbadAlloc
      cases hbadAlloc
    · have hbadSize := (hspec.refuses hsized (Env.plain 0 0 NULL)).done hdone
      rw [herr] at hbadSize
      cases hbadSize
  · rintro (hunder | ⟨hsized, hnowrap⟩) hover
    · exact absurd hunder hover
    · exact hspec.stops hsized (Nat.not_lt.mpr hnowrap)

/-- With 96 bytes counted and a limit of 100, neither a new block of 4 bytes is granted nor
4 bytes more for a block of 8. -/
theorem limit_kept_iff_no_wrap_at : ∃ s, Reachable ⟨false⟩ s ∧ LimitedCall.sizeOf s 4096 = 8 ∧
    StopsAtLimit ⟨false⟩ (.malloc 4) (s.withLimit 96 100) ∧
    StopsAtLimit ⟨false⟩ (.realloc 4096 12) (s.withLimit 96 100) := by
  have hsome : ((doinit (Env.plain 1 64 0) .blank).done?.bind fun s₀ =>
      (run (libStep ⟨false⟩) [(Env.plain 1 128 4096, .malloc 8)] s₀).map fun s =>
        (findPtr s.list s.list.entries 4096, LimitedCall.sizeOf s 4096)) = some (128, 8) := by
    decide +kernel
  obtain ⟨s₀, h₀, hrest⟩ := Option.bind_eq_some_iff.mp hsome
  obtain ⟨s, hrun, hval⟩ := Option.map_eq_some_iff.mp hrest
  obtain ⟨hfound, hsize⟩ := Prod.mk.inj hval
  have hreach : Reachable ⟨false⟩ s := ⟨s₀, _, started_of_done h₀, hrun⟩
  have hlimit : (100 : UInt64) ≠ 0 := by decide
  have hgrows : LimitedCall.Grows s (.realloc 4096 12) := by
    refine ⟨by decide, ?_, ?_⟩
    · rw [hfound]; decide
    · rw [hsize]; decide
  have hmore : LimitedCall.requested s (.realloc 4096 12) = 4 := by
    rw [LimitedCall.requested, hsize]
    decide
  refine ⟨s, hreach, hsize, ?_, ?_⟩
  · have hany : LimitedCall.Grows s (.malloc 4) := trivial
    refine (limit_kept_iff_no_wrap hreach hlimit hany).mpr (Or.inr ⟨?_, ?_⟩) ?_
    · show (4 : UInt64) ≠ 0
      decide
    · show 100 ≤ (96 + 4) % addressSpace
      decide
    · show ¬ 96 + 4 < 100
      decide
  · refine (limit_kept_iff_no_wrap hreach hlimit hgrows).mpr (Or.inr ⟨trivial, ?_⟩) ?_
    · rw [hmore]; decide
    · rw [hmore]; decide

/-- With a limit of 100 and 8 bytes in use, a request for all but 8 bytes of the
address space wraps to zero: it passes the check and fails in the allocator. -/
theorem wrapped_sum_passes_limit :
    ((doinit (Env.plain 1 64 0) .blank).done?.bind (run (libStep ⟨false⟩)
      [(Env.plain 1 0 0, .setAllocLimit 100), (Env.plain 1 128 4096, .malloc 8),
        (Env.plain 1 192 8192, .malloc 0xFFFFFFFFFFFFFFF8)])).map (fun s =>
          (s.manager.globalMemoryUsage, s.manager.allocLimit, s.errorCode))
      = some (8, 100, .snErrBadAlloc) := by
  decide +kernel

end LibSafetynet
