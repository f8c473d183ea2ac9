import LibSafetynet.CacheCoherence
import LibSafetynet.Logic.Frame

/-!
# Concurrent calls of `sn_free`

Any number of threads call `sn_free` of the same pointer, and each of the calls that one
`sn_free` is made of (`freeStep`) is one atomic step. Between its lookup and its removal a
caller holds on to the entry it found, and nothing keeps a second one from finding the
entry as well: both give the block back (`two_callers_free_twice`). Without that step the
callers take turns in effect (`free_safe_of_alone`).

- `Reached`: the library after the caller that holds the entry got to a phase.
- `Situation`: no caller holds the entry yet, one does, or one is through.
-/

namespace LibSafetynet

open Logic Prog PlatMutex ListState AllocManager

/-! ## `sn_free`, call by call -/

/-- Between which of its calls a caller of `sn_free` stands. -/
inductive Phase where
  | start
  /-- The cache missed. -/
  | searching
  /-- The list has no entry either. -/
  | missing
  | found (entry : Addr)
  | wiped (entry : Addr)
  | counted (entry : Addr)
  | invalidated (entry : Addr)
  /-- `plat_free` has returned. -/
  | released
  | done
  | failed (err : SnErrorCodes)
  deriving DecidableEq

/-- The caller is through. -/
def Phase.over : Phase → Bool
  | .done | .failed _ => true
  | _ => false

/-- The caller found the entry and has not removed it. -/
def Phase.Holding : Phase → Prop
  | .found _ | .wiped _ | .counted _ | .invalidated _ | .released => True
  | _ => False

/-- How many calls may follow. -/
def Phase.callsLeft : Phase → Nat
  | .start => 7
  | .searching => 6
  | .found _ => 5
  | .wiped _ => 4
  | .counted _ => 3
  | .invalidated _ => 2
  | .released | .missing => 1
  | .done | .failed _ => 0

/-- The next call of `sn_free(ptr)`. -/
def freeStep (cfg : Config) (ptr : Addr) : Phase → CProg Lib Phase
  | .start => do
    if ptr = NULL then
      snSetLastError .snErrNullPtr
      return .failed .snErrNullPtr
    else
      let entry ← memmanTryCacheHit ptr
      if entry = memmanCacheMiss then return .searching else return .found entry
  | .searching => do
    let entry ← onList (linkedListGetByPtr ptr)
    if entry = NULL then return .missing else return .found entry
  | .missing => do
    snSetLastError .snErrNoAdderFound
    return .failed .snErrNoAdderFound
  | .found entry => do
    when cfg.sanitizeMemoryOnFree do
      let e ← onList (deref entry)
      onHeap (memset e.data 0 e.size.toNat)
    return .wiped entry
  | .wiped entry => do
    let size := (← onList (deref entry)).size
    setManager fun m => { m with globalMemoryUsage := m.globalMemoryUsage - size }
    return .counted entry
  | .counted entry => do
    memmanCacheInvalidate ptr
    return .invalidated entry
  | .invalidated entry => do
    let data ← onList (linkedListEntryGetData entry)
    onHeap (platFree data)
    return .released
  | .released => do
    onList (linkedListRemoveEntryByPtr ptr)
    return .done
  | .done => return .done
  | .failed err => return .failed err

/-- Calls one after the other. -/
def freeCalls (cfg : Config) (ptr : Addr) : Nat → Phase → CProg Lib Phase
  | 0, ph => return ph
  | n + 1, ph => do freeCalls cfg ptr n (← freeStep cfg ptr ph)

/-- A caller that is through stays so. -/
theorem freeCalls_over {cfg : Config} {ptr : Addr} {ph : Phase} (h : ph.over = true) (n : Nat) :
    freeCalls cfg ptr n ph = pure ph := by
  induction n with
  | zero => rfl
  | succ n ih =>
    have hstep : freeStep cfg ptr ph = pure ph := by
      cases ph with
      | done => rfl
      | failed err => rfl
      | _ => cases h
    rw [freeCalls, hstep, pure_bind, ih]

/-- From the lookup on. -/
theorem freeCalls_found {cfg : Config} {ptr entry : Addr} (n : Nat) :
    (freeCalls cfg ptr (n + 5) (.found entry) >>= fun _ => pure ()) = (do
      when cfg.sanitizeMemoryOnFree do
        let e ← onList (deref entry)
        onHeap (memset e.data 0 e.size.toNat)
      let size := (← onList (deref entry)).size
      setManager fun m => { m with globalMemoryUsage := m.globalMemoryUsage - size }
      memmanCacheInvalidate ptr
      let data ← onList (linkedListEntryGetData entry)
      onHeap (platFree data)
      onList (linkedListRemoveEntryByPtr ptr)) := by
  have hover : freeCalls cfg ptr n .done = pure .done := freeCalls_over rfl n
  simp only [freeCalls, freeStep, bind_assoc, pure_bind, hover, bind_pure_unit]

/-- **The calls make up `sn_free`.** -/
theorem snFree_eq_freeCalls (cfg : Config) (ptr : Addr) :
    snFree cfg ptr = freeCalls cfg ptr 7 .start >>= fun _ => pure () := by
  have hover : ∀ n err, freeCalls cfg ptr n (.failed err) = pure (.failed err) :=
    fun n err => freeCalls_over rfl n
  rw [snFree, freeCalls, freeStep]
  by_cases hp : ptr = NULL
  · rw [if_pos hp, if_pos hp, snError]
    simp only [bind_assoc, pure_bind, hover]
  · rw [if_neg hp, if_neg hp, lookupEntry, bind_assoc, bind_assoc, bind_assoc]
    refine congrArg (memmanTryCacheHit ptr >>= ·) (funext fun entry => ?_)
    by_cases hmiss : entry = memmanCacheMiss
    · rw [if_pos hmiss, if_pos hmiss, pure_bind, freeCalls, freeStep, bind_assoc, bind_assoc]
      refine congrArg (onList (linkedListGetByPtr ptr) >>= ·) (funext fun entry => ?_)
      by_cases hnone : entry = NULL
      · rw [if_pos hnone, if_pos hnone, pure_bind, freeCalls, freeStep, snError]
        simp only [bind_assoc, pure_bind, hover]
      · rw [if_neg hnone, if_neg hnone, pure_bind, freeCalls_found 0]
    · rw [if_neg hmiss, if_neg hmiss, pure_bind, pure_bind, if_neg (fun h => hmiss h)]
      exact (freeCalls_found 1).symm

/-! ## Any number of callers -/

/-- The library with every thread's call of `sn_free(ptr)`. Undefined behaviour of one
call stops them all. -/
structure Callers where
  lib : Lib
  phase : UInt64 → Phase
  stopped : Option Stop

/-- Each thread is about to call. -/
def Callers.all (s : Lib) : Callers := ⟨s, fun _ => .start, none⟩

/-- Thread `t` gets to `ph`, and leaves the library as `l`. -/
def Callers.move (c : Callers) (t : UInt64) (ph : Phase) (l : Lib) : Callers :=
  { c with lib := l, phase := Function.update c.phase t ph }

theorem Callers.phase_move_self {c : Callers} {t : UInt64} {ph : Phase} {l : Lib} :
    (c.move t ph l).phase t = ph := Function.update_self _ _ _

theorem Callers.phase_move_of_ne {c : Callers} {t u : UInt64} {ph : Phase} {l : Lib} (h : u ≠ t) :
    (c.move t ph l).phase u = c.phase u := Function.update_of_ne h _ _

theorem Callers.forall_move {c : Callers} {t : UInt64} {ph : Phase} {l : Lib}
    {P : UInt64 → Phase → Prop} (hself : P t ph) (hothers : ∀ u, u ≠ t → P u (c.phase u))
    (u : UInt64) : P u ((c.move t ph l).phase u) := by
  by_cases hu : u = t
  · rw [hu, phase_move_self]
    exact hself
  · rw [phase_move_of_ne hu]
    exact hothers u hu

/-- The next call of the thread `env.tid`; a thread that waits for a lock takes no step. -/
def callStep (cfg : Config) (ptr : Addr) (env : Env) (c : Callers) : Option Callers :=
  if c.stopped.isSome ∨ (c.phase env.tid).over then none
  else
    match freeStep cfg ptr (c.phase env.tid) env c.lib with
    | .done ph s => some (c.move env.tid ph s)
    | .stop .blocked _ => none
    | .stop e s => some { c with lib := s, stopped := some e }

/-- A step is a call of a thread that is not through. -/
theorem callStep_cases {cfg : Config} {ptr : Addr} {env : Env} {c c' : Callers}
    (h : callStep cfg ptr env c = some c') :
    c.stopped = none ∧ (c.phase env.tid).over = false ∧
      ((∃ ph l, freeStep cfg ptr (c.phase env.tid) env c.lib = .done ph l ∧
        c' = c.move env.tid ph l) ∨
      ∃ x l, freeStep cfg ptr (c.phase env.tid) env c.lib = .stop x l ∧ x ≠ .blocked ∧
        c' = { c with lib := l, stopped := some x }) := by
  rw [callStep] at h
  split_ifs at h with hend
  obtain ⟨hstop, hover⟩ := not_or.mp hend
  refine ⟨Option.not_isSome_iff_eq_none.mp hstop, Bool.eq_false_of_not_eq_true hover, ?_⟩
  cases hrun : freeStep cfg ptr (c.phase env.tid) env c.lib with
  | done ph l =>
    rw [hrun] at h
    exact Or.inl ⟨ph, l, rfl, (Option.some.inj h).symm⟩
  | stop x l =>
    rw [hrun] at h
    cases x with
    | blocked => cases h
    | _ => exact Or.inr ⟨_, l, rfl, Stop.noConfusion, (Option.some.inj h).symm⟩

/-- The thread's next call is a lookup, and it finds an entry. -/
def Finds (ptr : Addr) (env : Env) (c : Callers) : Prop :=
  match c.phase env.tid with
  | .start => c.lib.Hits ptr
  | .searching => ∃ a ∈ c.lib.list.entries, (nodeAt c.lib.list.nodes a).data = ptr
  | _ => False

/-- No lookup finds the entry while another thread holds it. -/
def FindsAlone (ptr : Addr) (env : Env) (c : Callers) : Prop :=
  Finds ptr env c → ∀ t, t ≠ env.tid → ¬ (c.phase t).Holding

/-- No lookup leaves the list's mutex locked. -/
def SearchUnlocks (env : Env) (c : Callers) : Prop :=
  c.phase env.tid = .searching → ¬ (CanLeak env c.lib.list ∧ Ghost c.lib.list)

/-- One entry is for `ptr`. -/
def TrackedOnce (s : Lib) (ptr : Addr) : Prop :=
  ∃! a, a ∈ s.list.entries ∧ (nodeAt s.list.nodes a).data = ptr

/-- What is to hold of the callers who began in `s`, where their lookup finds `e`. -/
structure FreedSafely (s : Lib) (e : Addr) (c : Callers) : Prop where
  /-- `plat_free` is applied once at most. -/
  freed : c.lib.heap.freed = s.heap.freed ∨
    ∃ bytes, c.lib.heap.freed = s.heap.freed ++ [((nodeAt s.list.nodes e).data, bytes)]
  /-- The counter goes down by the size once at most. -/
  usage : c.lib.manager.globalMemoryUsage = s.manager.globalMemoryUsage ∨
    c.lib.manager.globalMemoryUsage
      = s.manager.globalMemoryUsage - (nodeAt s.list.nodes e).size
  /-- One caller frees the block. -/
  once : ∀ t t', c.phase t = .done → c.phase t' = .done → t = t'
  /-- Every other one reports that there is none. -/
  others : ∀ t err, c.phase t = .failed err → err = .snErrNoAdderFound ∧
    c.lib.errorCode = .snErrNoAdderFound ∧ ∃ w, c.phase w = .done
  sound : Sound s s.list.entries → c.stopped = none

/-- Every caller that is not through can make its next call, and comes nearer to its end. -/
def CanGoOn (cfg : Config) (ptr : Addr) (c : Callers) : Prop :=
  c.stopped = none → ∀ env, (c.phase env.tid).over = false →
    ∃ c', callStep cfg ptr env c = some c' ∧
      (c'.stopped ≠ none ∨ (c'.phase env.tid).callsLeft < (c.phase env.tid).callsLeft)

/-! ## What one call does -/

/-- A lookup changes no entry, no slot, no block and no error code. -/
structure Still (l l' : Lib) : Prop where
  list : SameList l.list l'.list
  manager : l'.manager = l.manager
  heap : l'.heap = l.heap
  errorCode : l'.errorCode = l.errorCode
  alloc : IsFree l.allocMutex → IsFree l'.allocMutex

/-- At most one block was passed to `plat_free`, and it was `data`. -/
def ReleasedOnce (h h' : ClientHeap) (data : Addr) : Prop :=
  h'.freed = h.freed ∨ ∃ bytes, h'.freed = h.freed ++ [(data, bytes)]

/-- The manager once the size of `e` is off the counter. -/
def Lib.charged (s : Lib) (e : Addr) : AllocManager :=
  { s.manager with
    globalMemoryUsage := s.manager.globalMemoryUsage - (nodeAt s.list.nodes e).size }

/-- The call after `ph` leads to `ph'`. -/
inductive Called (cfg : Config) (env : Env) (l : Lib) (L : List Addr) (p : Addr) :
    Phase → Phase → Lib → Prop
  | missed {l' : Lib} : ¬ l.Hits p → Still l l' → l'.list.mutex = l.list.mutex →
      Called cfg env l L p .start .searching l'
  | hit {i : Slot} {l' : Lib} : l.manager.useCache = true → l.manager.keySlot p = some i →
      (l.manager.cacheList i).value ∈ L → Still l l' → l'.list.mutex = l.list.mutex →
      Called cfg env l L p .start (.found (l.manager.cacheList i).value) l'
  | unlisted {l' : Lib} : findPtr l.list L p = NULL → Still l l' →
      l'.list.mutex = scanMutex env.tid l.list L → Called cfg env l L p .searching .missing l'
  | listed {l' : Lib} : findPtr l.list L p ≠ NULL → Still l l' →
      l'.list.mutex = scanMutex env.tid l.list L →
      Called cfg env l L p .searching (.found (findPtr l.list L p)) l'
  | reported : Called cfg env l L p .missing (.failed .snErrNoAdderFound)
      { l with errorCode := .snErrNoAdderFound, allocMutex := release l.allocMutex }
  | wiped {e : Addr} {h : ClientHeap} :
      Sanitized cfg l.heap h (nodeAt l.list.nodes e).data (nodeAt l.list.nodes e).size →
      Called cfg env l L p (.found e) (.wiped e) { l with heap := h }
  | counted {e : Addr} :
    Called cfg env l L p (.wiped e) (.counted e) { l with manager := l.charged e }
  | invalidated {e : Addr} {nodes : NodeHeap} {m : AllocManager} :
      SameList l.list { l.list with nodes := nodes } → Dropped (· = p) slots l.manager m →
      Called cfg env l L p (.counted e) (.invalidated e)
        { l with
          list := { l.list with nodes := nodes }, manager := m
          allocMutex := release l.allocMutex }
  | released {e : Addr} {h : ClientHeap} : ReleasedOnce l.heap h (nodeAt l.list.nodes e).data →
      Called cfg env l L p (.invalidated e) .released { l with heap := h }
  | removed {L' : List Addr} {ls : ListState} : RemovedByPtr l.list ls L p L' →
      ls.mutex = release l.list.mutex → Called cfg env l L p .released .done { l with list := ls }

/-- What keeps the call after `ph` from undefined behaviour. -/
def Phase.Fit (l : Lib) (p : Addr) : Phase → Prop
  | .start => l.Hits p → l.manager.SlotsLive l.list.nodes
  | .counted _ => l.manager.SlotsLive l.list.nodes
  | .found e => l.heap.Live (nodeAt l.list.nodes e).data ∧ (nodeAt l.list.nodes e).size.toNat ≤
      (l.heap.bytes (nodeAt l.list.nodes e).data).length
  | .invalidated e => l.heap.Live (nodeAt l.list.nodes e).data
  | _ => True

/-- The entry that the caller works on. -/
def Phase.entry : Phase → Option Addr
  | .found e | .wiped e | .counted e | .invalidated e => some e
  | _ => none

section Calls

variable {cfg : Config} {env : Env} {l l' : Lib} {L : List Addr} {p : Addr} {ph ph' : Phase}

theorem wp_platFree_freed {h : ClientHeap} {data : Addr} {E : Stop → ClientHeap → Prop}
    {Q : Unit → ClientHeap → Prop} (hdead : data ≠ NULL → ¬ h.Live data → ∀ h', E .undefined h')
    (hQ : ∀ h', ReleasedOnce h h' data → Q () h') : wp (platFree data) env Q E h := by
  refine wp_platFree (fun _ => hQ h (Or.inl rfl)) hdead fun _ _ => hQ _ (Or.inr ⟨_, rfl⟩)

/-- **One call.** It waits for a mutex only, and is undefined only where `Fit` fails. -/
theorem wp_freeStep (hb : Base l L) (hp : p ≠ NULL) (hover : ph.over = false)
    (hentry : ∀ e, ph.entry = some e → e ∈ L) :
    wp (freeStep cfg p ph) env (Called cfg env l L p ph)
      (fun e _ => e = .blocked ∧ (Blocks env.tid l.allocMutex ∨ Blocks env.tid l.list.mutex) ∨
        e ≠ .blocked ∧ ¬ ph.Fit l p) l := by
  have hundef : ∀ {c : Prop}, ¬ ph.Fit l p → (Stop.undefined = .blocked ∧ c ∨
      Stop.undefined ≠ .blocked ∧ ¬ ph.Fit l p) := fun h => Or.inr ⟨Stop.noConfusion, h⟩
  cases ph with
  | start =>
    rw [freeStep, wp_ite]
    refine ⟨fun h0 => absurd h0 hp, fun _ => ?_⟩
    rw [wp_bind]
    have hmiss : ∀ m, Unlocks l.allocMutex m → ¬ l.Hits p →
        Called cfg env l L p .start .searching { l with allocMutex := m } := fun m hm hmiss =>
      .missed hmiss ⟨SameList.refl _, rfl, rfl, rfl, hm.isFree⟩ rfl
    refine wp_memmanTryCacheHit (fun hoff => ?_) (fun _ hbl _ => Or.inl ⟨rfl, Or.inl hbl⟩)
      (fun _ hnone => ?_) (fun huse i hslot hd _ => hundef fun hfit => hd ?_)
        fun huse i hslot hlive => ?_
    · exact hmiss l.allocMutex (Or.inl rfl) fun h => Bool.false_ne_true (hoff.symm.trans h.1)
    · exact hmiss _ (Or.inr rfl) fun h => h.2 hnone
    · exact hfit (hits_of_keySlot huse hslot) i (ne_empty_of_keySlot hslot)
    · have hmem := hb.mem_of_slot hlive
      rw [wp_ite]
      refine ⟨fun hnull => absurd hnull (hb.rep.ne_null hmem), fun _ => ?_⟩
      exact .hit huse hslot hmem ⟨sameList_hit hlive, rfl, rfl, rfl, fun _ => isFree_release _⟩ rfl
  | searching =>
    rw [freeStep, wp_bind]
    refine wp_getByPtr hb hp (fun hsb _ => Or.inl ⟨rfl, Or.inr hsb.2⟩) fun l' heq hq => ?_
    have hstill : Still l l' := ⟨hq.quiet.list, by rw [heq], by rw [heq], by rw [heq], hq.alloc⟩
    rw [wp_ite]
    exact ⟨fun hnull => .unlisted hnull hstill hq.mutex, fun hne => .listed hne hstill hq.mutex⟩
  | missing =>
    rw [freeStep, wp_bind]
    exact wp_snSetLastError (fun hbl => Or.inl ⟨rfl, Or.inl hbl⟩) .reported
  | found e =>
    rw [freeStep, wp_bind]
    exact wp_sanitize (hb.rep.live_of_mem (hentry e rfl)) (fun hbad _ => hundef hbad) fun h hsan =>
      .wiped hsan
  | wiped e =>
    rw [freeStep, wp_bind, wp_onList]
    refine wp_deref_live (hb.rep.live_of_mem (hentry e rfl)) ?_
    rw [wp_bind, wp_setManager, wp_pure]
    exact .counted
  | counted e =>
    rw [freeStep, wp_bind, memmanCacheInvalidate]
    exact wp_memmanDrop (fun hbl _ => Or.inl ⟨rfl, Or.inl hbl⟩)
      (fun hd _ => hundef fun hs => hd (hs.dropsLive _ _))
      fun _ nodes m hsame hdrop => .invalidated hsame hdrop
  | invalidated e =>
    have hmem := hentry e rfl
    rw [freeStep, wp_bind, wp_onList, linkedListEntryGetData, wp_ite]
    refine ⟨fun h0 => absurd h0 (hb.rep.ne_null hmem), fun _ => ?_⟩
    rw [wp_bind]
    refine wp_deref_live (hb.rep.live_of_mem hmem) ?_
    rw [wp_pure, wp_bind, wp_onHeap]
    exact wp_platFree_freed (fun _ hd _ => hundef hd) fun h hfreed => .released hfreed
  | released =>
    rw [freeStep, wp_bind]
    exact wp_removeEntryByPtr hb.rep hp (fun hbl _ => Or.inl ⟨rfl, Or.inr hbl⟩)
      fun L' ls hrem hmu _ =>
      .removed hrem hmu
  | done => cases hover
  | failed err => cases hover

/-- The list stays well formed. -/
theorem Called.base (h : Called cfg env l L p ph ph' l') (hb : Base l L) (hph : ph ≠ .released) :
    Base l' L := by
  have hstill : Still l l' → Base l' L := fun hs =>
    hb.of_slots (hs.list.rep hb.rep) hs.list.head fun i => Or.inl (by rw [hs.manager])
  cases h with
  | missed _ hs _ => exact hstill hs
  | hit _ _ _ hs _ => exact hstill hs
  | unlisted _ hs _ => exact hstill hs
  | listed _ hs _ => exact hstill hs
  | reported => exact ⟨hb.rep, hb.slot⟩
  | wiped _ => exact ⟨hb.rep, hb.slot⟩
  | counted => exact ⟨hb.rep, hb.slot⟩
  | invalidated hsame hdrop =>
    exact hb.of_slots (hsame.rep hb.rep) hsame.head fun i => (hdrop.slot_or i).symm.imp_right Or.inl
  | released _ => exact ⟨hb.rep, hb.slot⟩
  | removed _ _ => exact absurd rfl hph

/-- The mutexes come free again, but for a search of an empty list. -/
theorem Called.free (h : Called cfg env l L p ph ph' l') (hb : Base l L) :
    (IsFree l.allocMutex → IsFree l'.allocMutex) ∧ (IsFree l.list.mutex →
      (ph = .searching → ¬ (CanLeak env l.list ∧ Ghost l.list)) → IsFree l'.list.mutex) := by
  have hsearch : l'.list.mutex = scanMutex env.tid l.list L → IsFree l.list.mutex →
      (Phase.searching = .searching → ¬ (CanLeak env l.list ∧ Ghost l.list)) →
        IsFree l'.list.mutex := by
    intro hmu hfree hok
    rw [hmu]
    exact (isFree_scanMutex hb.rep hfree).mpr (hok rfl)
  have hkeep : l'.list.mutex = l.list.mutex → IsFree l.list.mutex → IsFree l'.list.mutex :=
    fun hmu hfree => hmu ▸ hfree
  cases h with
  | missed _ hs hmu => exact ⟨hs.alloc, fun hfree _ => hkeep hmu hfree⟩
  | hit _ _ _ hs hmu => exact ⟨hs.alloc, fun hfree _ => hkeep hmu hfree⟩
  | unlisted _ hs hmu => exact ⟨hs.alloc, hsearch hmu⟩
  | listed _ hs hmu => exact ⟨hs.alloc, hsearch hmu⟩
  | reported => exact ⟨fun _ => isFree_release _, fun hfree _ => hfree⟩
  | wiped _ => exact ⟨id, fun hfree _ => hfree⟩
  | counted => exact ⟨id, fun hfree _ => hfree⟩
  | invalidated _ _ => exact ⟨fun _ => isFree_release _, fun hfree _ => hfree⟩
  | released _ => exact ⟨id, fun hfree _ => hfree⟩
  | removed _ hmu =>
    refine ⟨id, fun _ _ => ?_⟩
    show IsFree _
    rw [hmu]
    exact isFree_release _

/-! ## A call that stops -/

/-- The counter and the blocks passed to `plat_free`. -/
def Lib.ledger (l : Lib) : UInt64 × List (Addr × List UInt8) :=
  (l.manager.globalMemoryUsage, l.heap.freed)

/-- `m` takes nothing off the counter and frees nothing. -/
abbrev KeepsLedger {α : Type} (m : CProg Lib α) : Prop := ∀ b, Keeps (fun l : Lib => l.ledger = b) m

theorem keepsLedger_onList {α : Type} (m : CProg ListState α) : KeepsLedger (onList m) :=
  fun _ => .zoom_other fun _ _ hl => hl

theorem keepsLedger_lockAlloc : KeepsLedger lockAlloc := fun _ => .zoom_other fun _ _ hl => hl

theorem keepsLedger_unlockAlloc : KeepsLedger unlockAlloc := fun _ => .zoom_other fun _ _ hl => hl

theorem keepsLedger_getManager : KeepsLedger getManager := fun _ => .bind .get fun _ => .pure _

theorem keepsLedger_snSetLastError (err : SnErrorCodes) : KeepsLedger (snSetLastError err) :=
    fun b =>
  .bind (keepsLedger_lockAlloc b) fun _ => .bind (.modify fun _ hl => hl) fun _ =>
    keepsLedger_unlockAlloc b

theorem keepsLedger_memmanTryCacheHit (key : Addr) : KeepsLedger (memmanTryCacheHit key) := by
  intro b
  refine .bind (keepsLedger_getManager b) fun _ => .ite (.pure _) ?_
  refine .bind (keepsLedger_lockAlloc b) fun _ => .bind (keepsLedger_getManager b) fun self => ?_
  cases self.keySlot key with
  | none => exact .bind (keepsLedger_unlockAlloc b) fun _ => .pure _
  | some i =>
    exact .bind (keepsLedger_onList _ b) fun _ => .bind (keepsLedger_unlockAlloc b) fun _ => .pure _

theorem keepsLedger_memmanCacheInvalidate (key : Addr) :
    KeepsLedger (memmanCacheInvalidate key) := by
  intro b
  have hdrop : ∀ rest, Keeps (fun l : Lib => l.ledger = b)
      (memmanDropSlots (· = key) false rest) := by
    intro rest
    induction rest with
    | nil => exact .pure _
    | cons i rest ih =>
      refine .bind (keepsLedger_getManager b) fun _ => .bind (.when ?_) fun _ => ih
      exact .bind (keepsLedger_onList _ b) fun _ => .modify fun _ hl => hl
  exact .bind (keepsLedger_lockAlloc b) fun _ => .bind (hdrop slots) fun _ =>
    keepsLedger_unlockAlloc b

theorem keepsLedger_memset (ptr : Addr) (value : UInt8) (n : Nat) :
    KeepsLedger (onHeap (memset ptr value n)) := by
  intro b
  have hmemset : Keeps (fun h : ClientHeap => h.freed = b.2) (memset ptr value n) :=
    .bind .get fun h => .ite (.pure _) (.bind (.when (.stop _)) fun _ => .modify fun _ hh => hh)
  refine .zoom hmemset (fun l hl => ?_) fun l h hl hh => ?_
  · rw [← hl]
    rfl
  · rw [← hl] at hh ⊢
    exact Prod.ext rfl hh

/-- A call that stops has done nothing to the ledger, or it is the call of `plat_free`. -/
theorem freeStep_stop {e : Stop} (h : freeStep cfg p ph env l = .stop e l') :
    l'.manager.globalMemoryUsage = l.manager.globalMemoryUsage ∧
      (l'.heap.freed = l.heap.freed ∨
        ∃ a, ph = .invalidated a ∧ ReleasedOnce l.heap l'.heap (nodeAt l.list.nodes a).data) := by
  have hkeeps : KeepsLedger (freeStep cfg p ph) → l'.manager.globalMemoryUsage =
      l.manager.globalMemoryUsage ∧ (l'.heap.freed = l.heap.freed ∨
        ∃ a, ph = .invalidated a ∧ ReleasedOnce l.heap l'.heap (nodeAt l.list.nodes a).data) := by
    intro hk
    have hend := hk l.ledger env l rfl
    rw [h] at hend
    exact ⟨congrArg Prod.fst hend, Or.inl (congrArg Prod.snd hend)⟩
  cases ph with
  | start =>
    refine hkeeps fun b => .ite (.bind (keepsLedger_snSetLastError _ b) fun _ => .pure _) ?_
    exact .bind (keepsLedger_memmanTryCacheHit p b) fun _ => .ite (.pure _) (.pure _)
  | searching =>
    exact hkeeps fun b => .bind (keepsLedger_onList _ b) fun _ => .ite (.pure _) (.pure _)
  | missing => exact hkeeps fun b => .bind (keepsLedger_snSetLastError _ b) fun _ => .pure _
  | found a =>
    refine hkeeps fun b => .bind (.when ?_) fun _ => .pure _
    exact .bind (keepsLedger_onList _ b) fun _ => keepsLedger_memset _ _ _ b
  | wiped a =>
    refine wp.stop (E := fun _ l' => l'.manager.globalMemoryUsage = l.manager.globalMemoryUsage ∧
      (l'.heap.freed = l.heap.freed ∨ _)) (Q := fun _ _ => True) ?_ h
    rw [freeStep, wp_bind, wp_onList]
    exact wp_deref (fun _ => trivial) fun _ => ⟨rfl, Or.inl rfl⟩
  | counted a =>
    exact hkeeps fun b => .bind (keepsLedger_memmanCacheInvalidate p b) fun _ => .pure _
  | invalidated a =>
    refine wp.stop (E := fun _ l' => l'.manager.globalMemoryUsage = l.manager.globalMemoryUsage ∧
      (l'.heap.freed = l.heap.freed ∨ ∃ b, Phase.invalidated a = .invalidated b ∧
        ReleasedOnce l.heap l'.heap (nodeAt l.list.nodes b).data)) (Q := fun _ _ => True) ?_ h
    rw [freeStep, wp_bind, wp_onList, linkedListEntryGetData, wp_ite]
    constructor
    · intro _
      rw [wp_pure, wp_bind, wp_onHeap]
      exact wp_platFree (fun _ => trivial) (fun hne => absurd rfl hne) fun _ _ => trivial
    · intro _
      rw [wp_bind]
      refine wp_deref (fun _ => ?_) fun _ => ⟨rfl, Or.inl rfl⟩
      rw [wp_pure, wp_bind, wp_onHeap, platFree, wp_ite]
      refine ⟨fun _ => trivial, fun _ => ?_⟩
      rw [wp_bind, wp_modify, wp_bind, wp_get, wp_bind, wp_when]
      -- the block is in the ledger before the platform finds it dead
      refine ⟨fun _ => ⟨rfl, Or.inr ⟨a, rfl, Or.inr ⟨_, rfl⟩⟩⟩, fun _ => trivial⟩
  | released => exact hkeeps fun b => .bind (keepsLedger_onList _ b) fun _ => .pure _
  | done => cases h
  | failed err => cases h

end Calls

/-! ## Interleavings -/

/-- A caller that has found nothing yet. -/
def Phase.Looking (ph : Phase) : Prop := ph = .start ∨ ph = .searching

/-- The library once the caller that holds `e` stands at the phase. -/
inductive Reached (cfg : Config) (s : Lib) (p e : Addr) : Phase → Lib → Prop
  | found {l : Lib} : l.manager = s.manager → l.heap = s.heap → Reached cfg s p e (.found e) l
  | wiped {l : Lib} : l.manager = s.manager →
      Sanitized cfg s.heap l.heap (nodeAt s.list.nodes e).data (nodeAt s.list.nodes e).size →
      Reached cfg s p e (.wiped e) l
  | counted {l : Lib} : l.manager = s.charged e →
      Sanitized cfg s.heap l.heap (nodeAt s.list.nodes e).data (nodeAt s.list.nodes e).size →
      Reached cfg s p e (.counted e) l
  | invalidated {l : Lib} : Dropped (· = p) slots (s.charged e) l.manager →
      Sanitized cfg s.heap l.heap (nodeAt s.list.nodes e).data (nodeAt s.list.nodes e).size →
      Reached cfg s p e (.invalidated e) l
  | released {l : Lib} : Dropped (· = p) slots (s.charged e) l.manager →
      ReleasedOnce s.heap l.heap (nodeAt s.list.nodes e).data → Reached cfg s p e .released l

/-- Where the callers of `sn_free(p)` stand, who began in `s`. -/
inductive Situation (cfg : Config) (s : Lib) (L : List Addr) (p e : Addr) (c : Callers) : Prop
  | untouched : c.stopped = none → Base c.lib L → SameList s.list c.lib.list →
      c.lib.manager = s.manager → c.lib.heap = s.heap →
      (∀ t, c.phase t = .start ∨ c.phase t = .searching ∧ ¬ s.Hits p) → Situation cfg s L p e c
  /-- The caller `w` holds the entry. -/
  | held {w : UInt64} : c.stopped = none → Base c.lib L → SameList s.list c.lib.list → e ∈ L →
      Reached cfg s p e (c.phase w) c.lib → (∀ t, t ≠ w → (c.phase t).Looking) →
        Situation cfg s L p e c
  /-- The caller `w` is through. -/
  | removed {w : UInt64} {L' : List Addr} : c.stopped = none → Base c.lib L' →
      (∀ a ∈ L', (nodeAt c.lib.list.nodes a).data ≠ p) →
      Dropped (· = p) slots (s.charged e) c.lib.manager →
      ReleasedOnce s.heap c.lib.heap (nodeAt s.list.nodes e).data → c.phase w = .done →
      (∀ t, t ≠ w → (c.phase t).Looking ∨ c.phase t = .missing ∨
        c.phase t = .failed .snErrNoAdderFound ∧ c.lib.errorCode = .snErrNoAdderFound) →
      Situation cfg s L p e c
  /-- One call was undefined, the first that was made for the entry. -/
  | stopped : c.stopped ≠ none → ¬ Sound s L →
      ReleasedOnce s.heap c.lib.heap (nodeAt s.list.nodes e).data →
      (c.lib.manager.globalMemoryUsage = s.manager.globalMemoryUsage ∨
        c.lib.manager.globalMemoryUsage = (s.charged e).globalMemoryUsage) →
      (∀ t, (c.phase t).over = false) → Situation cfg s L p e c

section Steps

variable {cfg : Config} {env : Env} {s l l' : Lib} {L : List Addr} {p e e' : Addr} {c c' : Callers}
  {ph : Phase} {w : UInt64}

/-- The lookup has one result. -/
theorem Lookup.unique (h : Lookup s L p e) (h' : Lookup s L p e') : e = e' := by
  cases h with
  | cached i huse hslot hval =>
    cases h' with
    | cached i' _ hslot' hval' =>
      obtain rfl := Option.some.inj (hslot.symm.trans hslot')
      exact hval.symm.trans hval'
    | listed hno _ => exact absurd (hits_of_keySlot huse hslot) hno
  | listed hno hfind =>
    cases h' with
    | cached i huse hslot _ => exact absurd (hits_of_keySlot huse hslot) hno
    | listed _ hfind' => exact hfind.symm.trans hfind'

/-- **One step of the callers.** -/
theorem call_cases (hp : p ≠ NULL) (hb : Base c.lib L)
    (hentry : ∀ a, (c.phase env.tid).entry = some a → a ∈ L) (h : callStep cfg p env c = some c') :
    (∃ ph l, Called cfg env c.lib L p (c.phase env.tid) ph l ∧
      c' = c.move env.tid ph l) ∨
    ∃ x l, ¬ (c.phase env.tid).Fit c.lib p ∧
      l.manager.globalMemoryUsage = c.lib.manager.globalMemoryUsage ∧
      (l.heap.freed = c.lib.heap.freed ∨ ∃ a, c.phase env.tid = .invalidated a ∧
        ReleasedOnce c.lib.heap l.heap (nodeAt c.lib.list.nodes a).data) ∧
      c' = { c with lib := l, stopped := some x } := by
  obtain ⟨-, hover, ⟨ph, l, hrun, heq⟩ | ⟨x, l, hrun, hne, heq⟩⟩ := callStep_cases h
  · exact Or.inl ⟨ph, l, (wp_freeStep hb hp hover hentry).done hrun, heq⟩
  · obtain ⟨husage, hfreed⟩ := freeStep_stop hrun
    rcases (wp_freeStep hb hp hover hentry).stop hrun with ⟨hblocked, -⟩ | ⟨-, hfit⟩
    · exact absurd hblocked hne
    · exact Or.inr ⟨x, l, hfit, husage, hfreed, heq⟩

theorem Reached.holding (h : Reached cfg s p e ph l) : ph.Holding := by
  cases h <;> trivial

theorem Reached.not_over (h : Reached cfg s p e ph l) : ph.over = false := by
  cases h <;> rfl

theorem Reached.entry_eq (h : Reached cfg s p e ph l) {a : Addr} (ha : ph.entry = some a) :
    a = e := by
  cases h with
  | released _ _ => cases ha
  | _ => exact (Option.some.inj ha).symm

/-- A lookup of another caller. -/
theorem Reached.still (h : Reached cfg s p e ph l) (hs : Still l l') : Reached cfg s p e ph l' := by
  cases h with
  | found hm hh => exact .found (hs.manager.trans hm) (hs.heap.trans hh)
  | wiped hm hsan => exact .wiped (hs.manager.trans hm) (hs.heap ▸ hsan)
  | counted hm hsan => exact .counted (hs.manager.trans hm) (hs.heap ▸ hsan)
  | invalidated hd hsan => exact .invalidated (hs.manager ▸ hd) (hs.heap ▸ hsan)
  | released hd hfreed => exact .released (hs.manager ▸ hd) (hs.heap ▸ hfreed)

/-- The holder's next call. -/
theorem Reached.next (h : Reached cfg s p e ph l) (hsame : SameList s.list l.list) {ph' : Phase}
    (hc : Called cfg env l L p ph ph' l') (hph : ph ≠ .released) :
    Reached cfg s p e ph' l' ∧ SameList s.list l'.list := by
  have hdata := hsame.data e
  have hsize := hsame.size e
  cases h with
  | found hm hh =>
    cases hc with
    | wiped hsan =>
      rw [hdata, hsize, hh] at hsan
      exact ⟨.wiped hm hsan, hsame⟩
  | wiped hm hsan =>
    cases hc with
    | counted =>
      refine ⟨.counted ?_ hsan, hsame⟩
      show l.charged e = s.charged e
      rw [Lib.charged, Lib.charged, hm, hsize]
  | counted hm hsan =>
    cases hc with
    | invalidated hs hdrop =>
      rw [hm] at hdrop
      exact ⟨.invalidated hdrop hsan, hsame.trans hs⟩
  | invalidated hd hsan =>
    cases hc with
    | released hfreed =>
      rw [hdata] at hfreed
      refine ⟨.released hd ?_, hsame⟩
      unfold ReleasedOnce at hfreed ⊢
      rw [hsan.freed] at hfreed
      exact hfreed
  | released _ _ => exact absurd rfl hph

/-- Emptied slots hold no dead node. -/
theorem Dropped.slotsLive {wanted : Addr → Bool} {rest : List Slot} {m m' : AllocManager}
    {h : NodeHeap}
    (hd : Dropped wanted rest m m') (hm : m.SlotsLive h) : m'.SlotsLive h := by
  intro i hi
  rcases hd.slot_or i with hempty | heq
  · exact absurd hempty hi
  · rw [heq] at hi ⊢
    exact hm i hi

theorem not_hits_dropped {m : AllocManager} (hd : Dropped (· = p) slots m l.manager) :
    ¬ l.Hits p := by
  rintro ⟨-, hslot⟩
  refine hslot (keySlot_eq_none.mpr fun i hne heq => ?_)
  have hi := hd.slot i
  by_cases hdrop : DropsSlot (· = p) (m.cacheList i) = true
  · rw [if_pos ⟨mem_slots i, hdrop⟩] at hi
    rw [hi] at hne
    exact hne rfl
  · rw [if_neg fun h => hdrop h.2] at hi
    rw [hi] at hne heq
    exact hdrop (decide_eq_true ⟨hne, decide_eq_true heq⟩)

/-- In a sound library no call of the holder is undefined. -/
theorem Reached.fit (h : Reached cfg s p e ph l) (hsame : SameList s.list l.list) (he : e ∈ L)
    (hs : Sound s L) : ph.Fit l p := by
  have hlive : s.manager.SlotsLive l.list.nodes := (SlotsLive.congr hsame).mpr hs.slots
  cases h with
  | found _ hh =>
    show l.heap.Live _ ∧ _
    rw [hsame.data, hsame.size, hh]
    exact hs.block e he
  | wiped _ _ => trivial
  | counted hm _ =>
    show l.manager.SlotsLive _
    rw [hm]
    exact hlive
  | invalidated _ hsan =>
    show l.heap.Live _
    rw [hsame.data]
    exact hsan.live.mpr (hs.block e he).1
  | released _ _ => trivial

/-- The slots while the entry is held. -/
theorem Reached.slotsLive (h : Reached cfg s p e ph l) (hsame : SameList s.list l.list)
    (hs : Sound s L) : l.manager.SlotsLive l.list.nodes := by
  have hlive : s.manager.SlotsLive l.list.nodes := (SlotsLive.congr hsame).mpr hs.slots
  have hcharged : (s.charged e).SlotsLive l.list.nodes := hlive
  cases h with
  | found hm _ =>
    rw [hm]
    exact hlive
  | wiped hm _ =>
    rw [hm]
    exact hlive
  | counted hm _ =>
    rw [hm]
    exact hlive
  | invalidated hd _ => exact hd.slotsLive hcharged
  | released hd _ => exact hd.slotsLive hcharged

/-- The counter and the freed blocks while the entry is held. -/
theorem Reached.ledger (h : Reached cfg s p e ph l) :
    (l.manager.globalMemoryUsage = s.manager.globalMemoryUsage ∨
      l.manager.globalMemoryUsage = (s.charged e).globalMemoryUsage) ∧
    ReleasedOnce s.heap l.heap (nodeAt s.list.nodes e).data ∧
    (∀ a, ph = .invalidated a → l.heap.freed = s.heap.freed) := by
  cases h with
  | found hm hh => exact ⟨Or.inl (by rw [hm]), Or.inl (by rw [hh]), fun _ h => nomatch h⟩
  | wiped hm hsan => exact ⟨Or.inl (by rw [hm]), Or.inl hsan.freed, fun _ _ => hsan.freed⟩
  | counted hm hsan => exact ⟨Or.inr (by rw [hm]), Or.inl hsan.freed, fun _ _ => hsan.freed⟩
  | invalidated hd hsan =>
    exact ⟨Or.inr (by rw [hd.rest]), Or.inl hsan.freed, fun _ _ => hsan.freed⟩
  | released hd hfreed => exact ⟨Or.inr (by rw [hd.rest]), hfreed, fun _ h => nomatch h⟩

/-- After the removal of the one entry for `p` the list has none. -/
theorem RemovedByPtr.untracked {ls ls' : ListState} {L' : List Addr}
    (h : RemovedByPtr ls ls' L p L')
    (hrep : ls.Rep L) (honce : ∃! a, a ∈ L ∧ (nodeAt ls.nodes a).data = p) :
    ∀ b ∈ L', (nodeAt ls'.nodes b).data ≠ p := by
  obtain ⟨a₀, ⟨ha₀, hdata₀⟩, hunique⟩ := honce
  cases h with
  | none hnone _ =>
    exact absurd hdata₀ ((findPtr_eq_null fun h0 => hrep.ne_null h0 rfl).mp hnone a₀ ha₀)
  | @found l₁ A B a hL hfind hsame hrem =>
    intro b hb hdata
    have hnd := hrep.links.tail_nodup
    rw [hL, List.nodup_middle, List.nodup_cons] at hnd
    have hba : b ≠ a := fun heq => hnd.1 (heq ▸ hb)
    have hold : (nodeAt ls'.nodes b).data = (nodeAt ls.nodes b).data :=
      (congrArg Payload.data (hrem.old b hba)).trans (hsame.data b)
    have hbL : b ∈ L := by
      rw [hL]
      exact List.mem_append.mpr ((List.mem_append.mp hb).imp_right (List.mem_cons_of_mem a))
    have haL : a ∈ L := by simp [hL]
    have hadata := (findPtr_split hrep hL hfind).1
    exact hba ((hunique b ⟨hbL, hold.symm.trans hdata⟩).trans (hunique a ⟨haL, hadata⟩).symm)

/-- Only the cache decides what the lookup hits. -/
theorem hits_congr (hm : l'.manager = l.manager) : l'.Hits p ↔ l.Hits p := by
  rw [Lib.Hits, Lib.Hits, hm]

theorem looking_not_over (h : ph.Looking) : ph.over = false := by
  rcases h with rfl | rfl <;> rfl

theorem looking_ne_released (h : ph.Looking) : ph ≠ .released := by
  rcases h with rfl | rfl <;> exact Phase.noConfusion

theorem looking_entry (h : ph.Looking) {a : Addr} : ph.entry ≠ some a := by
  rcases h with rfl | rfl <;> exact fun h => nomatch h

/-- While `w` holds the entry nobody is through. -/
theorem held_not_over (hr : Reached cfg s p e (c.phase w) l)
    (hothers : ∀ t, t ≠ w → (c.phase t).Looking) (t : UInt64) : (c.phase t).over = false := by
  by_cases ht : t = w
  · rw [ht]
    exact hr.not_over
  · exact looking_not_over (hothers t ht)

/-- A caller looks while nobody holds the entry. -/
theorem Situation.step_untouched (hstop : c.stopped = none) (hb : Base c.lib L)
    (hsame : SameList s.list c.lib.list) (hm : c.lib.manager = s.manager)
    (hheap : c.lib.heap = s.heap)
    (hph : ∀ t, c.phase t = .start ∨ c.phase t = .searching ∧ ¬ s.Hits p)
    (hp : p ≠ NULL) (hlook : Lookup s L p e) (htracked : findPtr s.list L p ≠ NULL)
    (hstep : callStep cfg p env c = some c') : Situation cfg s L p e c' := by
  have hlooking : ∀ t, (c.phase t).Looking := fun t => (hph t).imp_right And.left
  rcases call_cases hp hb (fun a ha => absurd ha (looking_entry (hlooking env.tid))) hstep with
    ⟨ph, l, hcall, rfl⟩ | ⟨x, l, hfit, husage, hfreed, rfl⟩
  · have hbase := hcall.base hb (looking_ne_released (hlooking env.tid))
    have hholds : ∀ e', e' ∈ L → Lookup s L p e' → Still c.lib l → ph = .found e' →
        Situation cfg s L p e (c.move env.tid ph l) := by
      intro e' hmem hlook' hstill heq
      obtain rfl := hlook.unique hlook'
      refine .held (w := env.tid) hstop hbase (hsame.trans hstill.list) hmem ?_ fun t ht => ?_
      · rw [Callers.phase_move_self, heq]
        exact .found (hstill.manager.trans hm) (hstill.heap.trans hheap)
      · rw [Callers.phase_move_of_ne ht]
        exact hlooking t
    rcases hph env.tid with hstart | ⟨hsearch, hmiss⟩
    · rw [hstart] at hcall
      cases hcall with
      | missed hno hstill _ =>
        refine .untouched hstop hbase (hsame.trans hstill.list) (hstill.manager.trans hm)
          (hstill.heap.trans hheap) ?_
        have hno' : ¬ s.Hits p := fun h => hno ((hits_congr hm).mpr h)
        exact Callers.forall_move (P := fun _ ph => ph = .start ∨ ph = .searching ∧ ¬ s.Hits p)
          (Or.inr ⟨rfl, hno'⟩) fun t _ => hph t
      | @hit i _ huse hslot hmem hstill _ =>
        refine hholds _ hmem (.cached i ?_ ?_ ?_) hstill rfl
        · rw [← hm]
          exact huse
        · rw [← hm]
          exact hslot
        · rw [hm]
    · rw [hsearch] at hcall
      cases hcall with
      | unlisted hnone _ _ => exact absurd ((hsame.findPtr L p).symm.trans hnone) htracked
      | listed hne hstill _ =>
        have heq := hsame.findPtr L p
        exact hholds _ (findPtr_mem hne).1 (.listed hmiss heq.symm) hstill rfl
  · refine .stopped (fun h => nomatch h) (fun hs => hfit ?_) ?_ (Or.inl ?_) fun t =>
      looking_not_over (hlooking t)
    · have hlive : c.lib.manager.SlotsLive c.lib.list.nodes := by
        rw [hm]
        exact (SlotsLive.congr hsame).mpr hs.slots
      rcases hlooking env.tid with h | h
      · rw [h]
        exact fun _ => hlive
      · rw [h]
        trivial
    · rcases hfreed with hfreed | ⟨a, ha, -⟩
      · exact Or.inl (hfreed.trans (by rw [hheap]))
      · exact absurd (congrArg Phase.entry ha) (looking_entry (hlooking env.tid))
    · exact husage.trans (by rw [hm])

/-- While `w` holds the entry the others look in vain. -/
theorem Situation.step_held (hstop : c.stopped = none) (hb : Base c.lib L)
    (hsame : SameList s.list c.lib.list) (he : e ∈ L) (hr : Reached cfg s p e (c.phase w) c.lib)
    (hothers : ∀ t, t ≠ w → (c.phase t).Looking) (hp : p ≠ NULL)
    (honce : ∃! a, a ∈ L ∧ (nodeAt s.list.nodes a).data = p) (hok : FindsAlone p env c)
    (hstep : callStep cfg p env c = some c') : Situation cfg s L p e c' := by
  have hover : ∀ t, (c.phase t).over = false := held_not_over hr hothers
  have hentry : ∀ a, (c.phase env.tid).entry = some a → a ∈ L := by
    intro a ha
    by_cases ht : env.tid = w
    · rw [ht] at ha
      exact hr.entry_eq ha ▸ he
    · exact absurd ha (looking_entry (hothers _ ht))
  obtain ⟨husage, hfreed, hbefore⟩ := hr.ledger
  rcases call_cases hp hb hentry hstep
    with ⟨ph, l, hcall, rfl⟩ | ⟨x, l, hfit, husage', hfreed', rfl⟩
  · by_cases ht : env.tid = w
    · rw [ht] at hcall
      have hothers' : ∀ t, t ≠ w → ((c.move env.tid ph l).phase t).Looking := by
        intro t htw
        rw [Callers.phase_move_of_ne (ht ▸ htw)]
        exact hothers t htw
      by_cases hlast : c.phase w = .released
      · -- the holder's last call removes the entry
        rw [hlast] at hcall hr
        cases hr with
        | released hd hfreed =>
          cases hcall with
          | @removed L' ls hrem _ =>
            have hbase : Base { c.lib with list := ls } L' :=
              hb.of_slots (hrem.rep hb.rep) hrem.head fun i => Or.inl rfl
            have hgone : ∀ a ∈ L', (nodeAt ls.nodes a).data ≠ p := by
              refine hrem.untracked hb.rep ?_
              simpa only [hsame.data] using honce
            refine .removed (w := w) hstop hbase hgone hd hfreed ?_ fun t htw =>
              Or.inl (hothers' t htw)
            rw [← ht]
            exact Callers.phase_move_self
      · have hbase := hcall.base hb hlast
        obtain ⟨hr', hsame'⟩ := hr.next hsame hcall hlast
        refine .held (w := w) hstop hbase hsame' he ?_ hothers'
        rw [← ht, Callers.phase_move_self]
        exact hr'
    · -- another caller: its lookup must miss
      have hmiss : ¬ Finds p env c := fun hf => hok hf w (fun h => ht h.symm) hr.holding
      have hlooking := hothers _ ht
      have hbase := hcall.base hb (looking_ne_released hlooking)
      unfold Finds at hmiss
      rcases hlooking with hstart | hsearch
      · rw [hstart] at hcall hmiss
        cases hcall with
        | missed _ hstill _ =>
          refine .held (w := w) hstop hbase (hsame.trans hstill.list) he ?_ ?_
          · rw [Callers.phase_move_of_ne fun h => ht h.symm]
            exact hr.still hstill
          · exact Callers.forall_move (P := fun t ph => t ≠ w → ph.Looking) (fun _ => Or.inr rfl)
              fun t _ => hothers t
        | hit huse hslot _ _ _ => exact absurd (hits_of_keySlot huse hslot) hmiss
      · rw [hsearch] at hmiss
        obtain ⟨a, ⟨ha, hdata⟩, -⟩ := honce
        refine absurd ⟨a, ?_, (hsame.data a).trans hdata⟩ hmiss
        rw [hb.rep.entries_eq]
        exact ha
  · refine .stopped (fun h => nomatch h) (fun hs => hfit ?_) ?_ ?_ hover
    · by_cases ht : env.tid = w
      · rw [ht]
        exact hr.fit hsame he hs
      · rcases hothers _ ht with h | h
        · rw [h]
          exact fun _ => hr.slotsLive hsame hs
        · rw [h]
          trivial
    · rcases hfreed' with hfreed' | ⟨a, ha, hone⟩
      · unfold ReleasedOnce at hfreed ⊢
        rw [hfreed']
        exact hfreed
      · by_cases ht : env.tid = w
        · rw [ht] at ha
          obtain rfl : a = e := hr.entry_eq (by rw [ha]; rfl)
          unfold ReleasedOnce at hone ⊢
          rw [hbefore a ha, hsame.data] at hone
          exact hone
        · exact absurd (congrArg Phase.entry ha) (looking_entry (hothers _ ht))
    · show l.manager.globalMemoryUsage = _ ∨ l.manager.globalMemoryUsage = _
      rw [husage']
      exact husage

/-- Once the entry is removed the others fail. -/
theorem Situation.step_removed {L' : List Addr} (hstop : c.stopped = none) (hb : Base c.lib L')
    (hgone : ∀ a ∈ L', (nodeAt c.lib.list.nodes a).data ≠ p)
    (hd : Dropped (· = p) slots (s.charged e) c.lib.manager)
    (hfreed : ReleasedOnce s.heap c.lib.heap (nodeAt s.list.nodes e).data) (hw : c.phase w = .done)
    (hothers : ∀ t, t ≠ w → (c.phase t).Looking ∨ c.phase t = .missing ∨
      c.phase t = .failed .snErrNoAdderFound ∧ c.lib.errorCode = .snErrNoAdderFound)
    (hp : p ≠ NULL) (hstep : callStep cfg p env c = some c') : Situation cfg s L p e c' := by
  have hover : (c.phase env.tid).over = false := (callStep_cases hstep).2.1
  have ht : env.tid ≠ w := by
    intro ht
    rw [ht, hw] at hover
    cases hover
  have hphase : (c.phase env.tid).Looking ∨ c.phase env.tid = .missing := by
    rcases hothers _ ht with hl | hm | ⟨hf, -⟩
    · exact Or.inl hl
    · exact Or.inr hm
    · rw [hf] at hover
      cases hover
  have hnone : findPtr c.lib.list L' p = NULL :=
    (findPtr_eq_null fun h0 => hb.rep.ne_null h0 rfl).mpr hgone
  have hmiss := not_hits_dropped hd
  -- what every call of a loser keeps
  have hkeep : ∀ {ph l}, Still c.lib l → (ph.Looking ∨ ph = .missing) →
      Situation cfg s L p e (c.move env.tid ph l) := by
    intro ph l hstill hph
    have hb' : Base l L' := hb.of_slots (hstill.list.rep hb.rep) hstill.list.head fun i =>
      Or.inl (by rw [hstill.manager])
    refine .removed (w := w) hstop hb' (fun a ha => ?_) ?_ ?_ ?_ ?_
    · show (nodeAt l.list.nodes a).data ≠ p
      rw [hstill.list.data]
      exact hgone a ha
    · show Dropped _ _ _ l.manager
      rw [hstill.manager]
      exact hd
    · show ReleasedOnce _ l.heap _
      rw [hstill.heap]
      exact hfreed
    · rw [Callers.phase_move_of_ne fun h => ht h.symm]
      exact hw
    · refine Callers.forall_move (P := fun t ph => t ≠ w → ph.Looking ∨ ph = .missing ∨
        ph = .failed .snErrNoAdderFound ∧ l.errorCode = .snErrNoAdderFound)
        (fun _ => hph.imp_right Or.inl) fun t _ htw => ?_
      exact (hothers t htw).imp_right fun h =>
        h.imp_right fun h => ⟨h.1, hstill.errorCode.trans h.2⟩
  have hentry : ∀ a, (c.phase env.tid).entry = some a → a ∈ L' := by
    intro a ha
    rcases hphase with hl | hm
    · exact absurd ha (looking_entry hl)
    · rw [hm] at ha
      cases ha
  rcases call_cases hp hb hentry hstep with ⟨ph, l, hcall, rfl⟩ | ⟨x, l, hfit, -, -, -⟩
  · rcases hphase with (hstart | hsearch) | hmissing
    · rw [hstart] at hcall
      cases hcall with
      | missed _ hstill _ => exact hkeep hstill (Or.inl (Or.inr rfl))
      | hit huse hslot _ _ _ => exact absurd (hits_of_keySlot huse hslot) hmiss
    · rw [hsearch] at hcall
      cases hcall with
      | unlisted _ hstill _ => exact hkeep hstill (Or.inr rfl)
      | listed hne _ _ => exact absurd hnone hne
    · rw [hmissing] at hcall
      cases hcall with
      | reported =>
        refine .removed (w := w) hstop ⟨hb.rep, hb.slot⟩ hgone hd hfreed ?_ ?_
        · rw [Callers.phase_move_of_ne fun h => ht h.symm]
          exact hw
        · refine Callers.forall_move (P := fun t ph => t ≠ w → ph.Looking ∨ ph = .missing ∨
            ph = .failed .snErrNoAdderFound ∧
              SnErrorCodes.snErrNoAdderFound = .snErrNoAdderFound)
            (fun _ => Or.inr (Or.inr ⟨rfl, rfl⟩)) fun t _ htw => ?_
          exact (hothers t htw).imp_right fun h => h.imp_right fun h => ⟨h.1, rfl⟩
  · refine absurd ?_ hfit
    rcases hphase with (hstart | hsearch) | hmissing
    · rw [hstart]
      exact fun hhits => absurd hhits hmiss
    · rw [hsearch]
      trivial
    · rw [hmissing]
      trivial

/-- **Every step without a second finder** leads from one situation to another. -/
theorem Situation.step (h : Situation cfg s L p e c) (hp : p ≠ NULL) (hlook : Lookup s L p e)
    (honce : ∃! a, a ∈ L ∧ (nodeAt s.list.nodes a).data = p) (htracked : findPtr s.list L p ≠ NULL)
    (hok : FindsAlone p env c) (hstep : callStep cfg p env c = some c') :
      Situation cfg s L p e c' := by
  cases h with
  | untouched hstop hb hsame hm hheap hph =>
    exact .step_untouched hstop hb hsame hm hheap hph hp hlook htracked hstep
  | held hstop hb hsame he hr hothers =>
    exact .step_held hstop hb hsame he hr hothers hp honce hok hstep
  | removed hstop hb hgone hd hfreed hw hothers =>
    exact .step_removed hstop hb hgone hd hfreed hw hothers hp hstep
  | stopped hstop _ _ _ _ => exact absurd (callStep_cases hstep).1 hstop

/-- The entries that the callers work on are in the list. -/
theorem Situation.base (h : Situation cfg s L p e c) (hstop : c.stopped = none) :
    ∃ L', Base c.lib L' ∧ ∀ t a, (c.phase t).entry = some a → a ∈ L' := by
  cases h with
  | untouched _ hb _ _ _ hph =>
    exact ⟨L, hb, fun t a ha => absurd ha (looking_entry ((hph t).imp_right And.left))⟩
  | @held w _ hb _ he hr hothers =>
    refine ⟨L, hb, fun t a ha => ?_⟩
    by_cases ht : t = w
    · rw [ht] at ha
      exact hr.entry_eq ha ▸ he
    · exact absurd ha (looking_entry (hothers t ht))
  | @removed w L' _ hb _ _ _ hw hothers =>
    refine ⟨L', hb, fun t a ha => ?_⟩
    by_cases ht : t = w
    · rw [ht, hw] at ha
      cases ha
    · rcases hothers t ht with hl | hm | ⟨hf, -⟩
      · exact absurd ha (looking_entry hl)
      · rw [hm] at ha
        cases ha
      · rw [hf] at ha
        cases ha
  | stopped hs _ _ _ _ => exact absurd hstop hs

/-- Between the calls both mutexes are free. -/
def Idle (c : Callers) : Prop :=
  c.stopped = none → IsFree c.lib.allocMutex ∧ IsFree c.lib.list.mutex

theorem Idle.step (hi : Idle c) (h : Situation cfg s L p e c) (hp : p ≠ NULL)
    (hok : SearchUnlocks env c) (hstep : callStep cfg p env c = some c') : Idle c' := by
  have hstop : c.stopped = none := (callStep_cases hstep).1
  obtain ⟨L', hb, hentry⟩ := h.base hstop
  obtain ⟨halloc, hlist⟩ := hi hstop
  rcases call_cases hp hb (hentry env.tid) hstep with ⟨ph, l, hcall, rfl⟩ | ⟨x, l, -, -, -, rfl⟩
  · exact fun _ => ⟨(hcall.free hb).1 halloc, (hcall.free hb).2 hlist hok⟩
  · exact fun h => nomatch h

theorem Called.callsLeft {ph' : Phase} (h : Called cfg env l L p ph ph' l') :
    ph'.callsLeft < ph.callsLeft := by
  cases h <;> simp [Phase.callsLeft]

/-- No caller waits for a free mutex. -/
theorem Idle.canGoOn (hi : Idle c) (h : Situation cfg s L p e c) (hp : p ≠ NULL) :
    CanGoOn cfg p c := by
  intro hstop env hover
  obtain ⟨L', hb, hentry⟩ := h.base hstop
  obtain ⟨halloc, hlist⟩ := hi hstop
  have hspec : wp (freeStep cfg p (c.phase env.tid)) env _ _ c.lib :=
    wp_freeStep hb hp hover (hentry env.tid)
  have hgo : ¬ (c.stopped.isSome ∨ (c.phase env.tid).over) := by
    rw [hstop, hover]
    simp
  unfold callStep
  rw [if_neg hgo]
  cases hrun : freeStep cfg p (c.phase env.tid) env c.lib with
  | done ph l =>
    refine ⟨_, rfl, Or.inr ?_⟩
    rw [Callers.phase_move_self]
    exact (hspec.done hrun).callsLeft
  | stop x l =>
    rcases hspec.stop hrun with ⟨-, hbl⟩ | ⟨hne, -⟩
    · exact absurd hbl (not_or.mpr ⟨halloc.not_blocks _, hlist.not_blocks _⟩)
    · cases x with
      | blocked => exact absurd rfl hne
      | _ => exact ⟨_, rfl, Or.inl fun h => nomatch h⟩

/-- While nobody is through, only the ledger counts. -/
theorem freedSafely_of_not_over (hover : ∀ t, (c.phase t).over = false)
    (hfreed : ReleasedOnce s.heap c.lib.heap (nodeAt s.list.nodes e).data)
    (husage : c.lib.manager.globalMemoryUsage = s.manager.globalMemoryUsage ∨
      c.lib.manager.globalMemoryUsage = (s.charged e).globalMemoryUsage)
    (hsound : Sound s s.list.entries → c.stopped = none) : FreedSafely s e c := by
  constructor
  · exact hfreed
  · exact husage
  · intro t _ ht
    exact absurd (hover t) (by rw [ht]; exact Bool.noConfusion)
  · intro t err ht
    exact absurd (hover t) (by rw [ht]; exact Bool.noConfusion)
  · exact hsound

/-- What each situation says about the callers. -/
theorem Situation.safe (h : Situation cfg s L p e c) (hL : s.list.entries = L) :
    FreedSafely s e c := by
  cases h with
  | untouched hstop _ _ hm hheap hph =>
    have hover : ∀ t, (c.phase t).over = false := fun t =>
      looking_not_over ((hph t).imp_right And.left)
    refine freedSafely_of_not_over hover (Or.inl ?_) (Or.inl ?_) fun _ => hstop
    · rw [hheap]
    · rw [hm]
  | @held w hstop _ _ _ hr hothers =>
    obtain ⟨husage, hfreed, -⟩ := hr.ledger
    exact freedSafely_of_not_over (held_not_over hr hothers) hfreed husage fun _ => hstop
  | @removed w L' hstop _ _ hd hfreed hw hothers =>
    have hdone : ∀ t, c.phase t = .done → t = w := by
      intro t ht
      by_contra htw
      rcases hothers t htw with (h | h) | h | ⟨h, -⟩ <;>
        exact absurd (ht.symm.trans h) Phase.noConfusion
    constructor
    · exact hfreed
    · exact Or.inr (by rw [hd.rest]; rfl)
    · exact fun t t' ht ht' => (hdone t ht).trans (hdone t' ht').symm
    · intro t err ht
      have htw : t ≠ w := by
        rintro rfl
        exact absurd (hw.symm.trans ht) Phase.noConfusion
      rcases hothers t htw with (h | h) | h | ⟨h, herr⟩
      · exact absurd (ht.symm.trans h) Phase.noConfusion
      · exact absurd (ht.symm.trans h) Phase.noConfusion
      · exact absurd (ht.symm.trans h) Phase.noConfusion
      · exact ⟨Phase.failed.inj (ht.symm.trans h), herr, w, hw⟩
    · exact fun _ => hstop
  | stopped hstop hbad hfreed husage hover =>
    exact freedSafely_of_not_over hover hfreed husage fun hs => absurd (hL ▸ hs) hbad

theorem lookup_exists (s : Lib) (L : List Addr) (p : Addr) : ∃ e, Lookup s L p e := by
  by_cases hhits : s.Hits p
  · obtain ⟨i, hi⟩ := Option.ne_none_iff_exists'.mp hhits.2
    exact ⟨_, .cached i hhits.1 hi rfl⟩
  · exact ⟨_, .listed hhits rfl⟩

/-- In a coherent cache the lookup finds an entry for the pointer. -/
theorem Lookup.data (h : Lookup s L p e) (hd : Describes s.manager (L.map (item s.list)))
    (htracked : findPtr s.list L p ≠ NULL) : (nodeAt s.list.nodes e).data = p := by
  cases h with
  | cached i _ hslot hval =>
    have hown := (hd.slot (ne_empty_of_keySlot hslot)).2
    rw [hval] at hown
    exact hown.trans (keySlot_eq_some hslot).1
  | listed _ hfind =>
    rw [← hfind]
    exact (findPtr_mem htracked).2

/-- The other threads stay where they are. -/
theorem callStep_other (h : callStep cfg p env c = some c') {t : UInt64} (ht : t ≠ env.tid) :
    c'.phase t = c.phase t := by
  obtain ⟨-, -, ⟨ph, l, -, rfl⟩ | ⟨x, l, -, -, rfl⟩⟩ := callStep_cases h
  · exact Callers.phase_move_of_ne ht
  · rfl

theorem run_callStep_other {t₀ t : UInt64} {ls : List Env} (hls : ∀ l ∈ ls, l.tid = t₀)
    (ht : t ≠ t₀)
    (h : run (callStep cfg p) ls c = some c') : c'.phase t = c.phase t := by
  have hstep : ∀ l c₁ c₂, c₁.phase t = c.phase t → l ∈ ls → callStep cfg p l c₁ = some c₂ →
      c₂.phase t = c.phase t := by
    intro l c₁ c₂ hI hl hc
    rw [callStep_other hc (hls l hl ▸ ht)]
    exact hI
  exact run_invariant hstep rfl (Along.of_forall (fun _ hl _ => hl) c) h

/-- A caller on its own, while no other one holds the entry. -/
theorem alone_of_others {t₀ : UInt64} {ls : List Env} (hls : ∀ l ∈ ls, l.tid = t₀)
    (h : ∀ t, t ≠ t₀ → ¬ (c.phase t).Holding) : Along (callStep cfg p) (FindsAlone p) ls c := by
  induction ls generalizing c with
  | nil => trivial
  | cons l ls ih =>
    have htid := hls l List.mem_cons_self
    constructor
    · exact fun _ t ht => h t (htid ▸ ht)
    · intro c' hc'
      refine ih (fun l' hl' => hls l' (List.mem_cons_of_mem l hl')) fun t ht => ?_
      rw [callStep_other hc' (htid ▸ ht)]
      exact h t ht

end Steps

/-- **Concurrent calls of `sn_free(p)`**, of one tracked block and in any interleaving where
no lookup finds the entry while another caller holds it: the block is freed once at most and
comes off the counter once at most, one caller does it and every other one fails. No caller
waits, unless a search of the emptied list leaves its mutex locked. -/
theorem free_safe_of_alone {cfg : Config} {s : Lib} {p : Addr} {ls : List Env} {c : Callers}
    (hs : Reachable cfg s) (hp : p ≠ NULL) (honce : TrackedOnce s p)
    (hok : Along (callStep cfg p) (FindsAlone p) ls (Callers.all s))
    (hrun : run (callStep cfg p) ls (Callers.all s) = some c) :
    ∃ e, Lookup s s.list.entries p e ∧
      (Describes s.manager (s.list.entries.map (item s.list)) → (nodeAt s.list.nodes e).data = p) ∧
      FreedSafely s e c ∧
      (Along (callStep cfg p) SearchUnlocks ls (Callers.all s) → CanGoOn cfg p c) := by
  obtain ⟨L, hb, hu⟩ := hs.base
  have hentries := hb.rep.entries_eq
  obtain ⟨e, hlook⟩ := lookup_exists s L p
  unfold TrackedOnce at honce
  rw [hentries] at honce ⊢
  have htracked : findPtr s.list L p ≠ NULL := by
    obtain ⟨a, ⟨ha, hdata⟩, -⟩ := honce
    exact fun hnone => (findPtr_eq_null fun h0 => hb.rep.ne_null h0 rfl).mp hnone a ha hdata
  have hstart : Situation cfg s L p e (Callers.all s) :=
    .untouched rfl hb (SameList.refl _) rfl rfl fun _ => Or.inl rfl
  have hstep : ∀ l c c', Situation cfg s L p e c → FindsAlone p l c → callStep cfg p l c = some c' →
      Situation cfg s L p e c' := fun _ _ _ h hok hc => h.step hp hlook honce htracked hok hc
  refine ⟨e, hlook, fun hd => hlook.data hd htracked, ?_, fun hunlocks => ?_⟩
  · exact (run_invariant hstep hstart hok hrun).safe hentries
  · have hidle : Idle (Callers.all s) := by
      obtain ⟨a, ⟨ha, -⟩, -⟩ := honce
      exact fun _ => ⟨hu.alloc, hu.list (List.ne_nil_of_mem ha)⟩
    have hstep' : ∀ l c c', Situation cfg s L p e c ∧ Idle c →
        FindsAlone p l c ∧ SearchUnlocks l c →
        callStep cfg p l c = some c' → Situation cfg s L p e c' ∧ Idle c' :=
      fun l c c' hI hok hc => ⟨hstep l c c' hI.1 hok.1 hc, hI.2.step hI.1 hp hok.2 hc⟩
    obtain ⟨hsit, hidle'⟩ := run_invariant hstep' ⟨hstart, hidle⟩ (hok.and hunlocks) hrun
    exact hidle'.canGoOn hsit hp

/-- Thread 1 frees the block, and then thread 2 calls. -/
theorem free_safe_of_alone_at :
    ∃ s c, Reachable ⟨true⟩ s ∧
      run (callStep ⟨true⟩ 4096)
        (List.replicate 7 (Env.plain 1 0 0) ++ List.replicate 3 (Env.plain 2 0 0))
        (Callers.all s) = some c ∧
      c.phase 1 = .done ∧ c.phase 2 = .failed .snErrNoAdderFound ∧
      ∃ e, Lookup s s.list.entries 4096 e ∧
        (Describes s.manager (s.list.entries.map (item s.list)) →
          (nodeAt s.list.nodes e).data = 4096) ∧
        FreedSafely s e c ∧
        (Along (callStep ⟨true⟩ 4096) SearchUnlocks
            (List.replicate 7 (Env.plain 1 0 0) ++ List.replicate 3 (Env.plain 2 0 0))
              (Callers.all s) →
          CanGoOn ⟨true⟩ 4096 c) := by
  have hsome : ((doinit (Env.plain 1 64 0) .blank).done?.bind fun s₀ =>
      (run (libStep ⟨true⟩) [(Env.plain 1 128 4096, .malloc 8)] s₀).bind fun s =>
        (run (callStep ⟨true⟩ 4096) (List.replicate 7 (Env.plain 1 0 0)) (Callers.all s)).bind
          fun c₁ =>
          (run (callStep ⟨true⟩ 4096) (List.replicate 3 (Env.plain 2 0 0)) c₁).map fun c =>
            (s.list.entries, (nodeAt s.list.nodes 128).data, c₁.phase 1, c.phase 1, c.phase 2))
      = some ([128], 4096, .done, .done, .failed .snErrNoAdderFound) := by
    decide +kernel
  obtain ⟨s₀, h₀, hsome⟩ := Option.bind_eq_some_iff.mp hsome
  obtain ⟨s, hs, hsome⟩ := Option.bind_eq_some_iff.mp hsome
  obtain ⟨c₁, hc₁, hsome⟩ := Option.bind_eq_some_iff.mp hsome
  obtain ⟨c, hc, hval⟩ := Option.map_eq_some_iff.mp hsome
  obtain ⟨hentries, hval⟩ := Prod.mk.inj hval
  obtain ⟨hdata, hval⟩ := Prod.mk.inj hval
  obtain ⟨hdone, hval⟩ := Prod.mk.inj hval
  obtain ⟨hdone', hfailed⟩ := Prod.mk.inj hval
  have hreach : Reachable ⟨true⟩ s := ⟨s₀, _, started_of_done h₀, hs⟩
  have hrun : run (callStep ⟨true⟩ 4096) (List.replicate 7 (Env.plain 1 0 0) ++
      List.replicate 3 (Env.plain 2 0 0)) (Callers.all s) = some c := by
    rw [run_append, hc₁]
    exact hc
  have honce : TrackedOnce s 4096 := by
    refine ⟨128, ⟨?_, hdata⟩, fun b hb => ?_⟩
    · rw [hentries]
      exact List.mem_singleton_self 128
    · rw [hentries] at hb
      exact List.mem_singleton.mp hb.1
  refine ⟨s, c, hreach, hrun, hdone', hfailed, free_safe_of_alone hreach (by decide) honce ?_ hrun⟩
  have htid : ∀ {n t}, ∀ l ∈ List.replicate n (Env.plain t 0 0), l.tid = t := fun l hl => by
    rw [(List.mem_replicate.mp hl).2]
    rfl
  refine (alone_of_others htid fun _ _ => id).append fun c₁' hc₁' => ?_
  obtain rfl : c₁ = c₁' := Option.some.inj (hc₁.symm.trans hc₁')
  refine alone_of_others htid fun t _ => ?_
  by_cases ht : t = 1
  · rw [ht, hdone]
    exact id
  · rw [run_callStep_other htid ht hc₁]
    exact id

/-- Two callers search the list before either removes the entry: both take the 8 bytes
off the counter and pass the block to `plat_free`. -/
theorem two_callers_free_twice :
    ((doinit (Env.plain 1 64 0) .blank).done?.bind (run (libStep ⟨false⟩)
      [(Env.plain 1 128 4096, .malloc 8)])).bind (fun s =>
        (run (callStep ⟨false⟩ 4096)
          ([1, 1, 2, 2, 1, 1, 1, 1, 2, 2, 2, 2].map fun t => Env.plain t 0 0)
          (Callers.all s)).map fun c =>
            (s.manager.globalMemoryUsage, s.heap.freed.map (·.1), c.lib.manager.globalMemoryUsage,
              c.lib.heap.freed.map (·.1), c.stopped))
      = some (8, [], 0 - 8, [4096, 4096], some .undefined) := by
  decide +kernel

end LibSafetynet
