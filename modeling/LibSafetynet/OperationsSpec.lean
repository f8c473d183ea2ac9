import LibSafetynet.Transition

/-!
# Every operation is a sequence of changes

One lemma for each public function, in liberal form: if the call returns, it made
the changes listed for it (`Changes`), and the list's mutex is as it was, as a
scan leaves it, or released (`MutexEnd`). `op_spec` collects them for every
operation.
-/

namespace LibSafetynet

open Logic Prog PlatMutex ListState AllocManager

/-! ## The list's mutex after an operation -/

/-- `len` is not 0 although the list is empty. -/
def Ghost (l : ListState) : Prop := l.list.len ≠ 0 ∧ l.entries = []

instance (l : ListState) : Decidable (Ghost l) := inferInstanceAs (Decidable (_ ∧ _))

/-- The calling thread can leave the list's mutex locked. -/
def CanLeak (env : Env) (l : ListState) : Prop := l.mutex ≠ none ∧ env.tid ≠ 0

/-- The path of the operation on which a lock of the list is not undone. -/
def LeakCase (l : Env × Op) (s : Lib) : Prop :=
  match l.2 with
  | .realloc ptr _ | .free ptr | .requestToFastCache ptr => ptr ≠ NULL ∧ Ghost s.list
  | .registerSize ptr size => (ptr = NULL ∨ size = 0) ∧ Ghost s.list
  | .querySize _ | .queryTid _ | .isTrackedBlock _ | .setBlockId _ _ | .getBlockId _
  | .queryMetadata _ | .queryStaticMetadata _ | .calculateChecksum _
  | .queryThreadMemoryUsage _ | .memMetadataForEach _ _ => Ghost s.list
  | .queryBlockId id => Ghost s.list ∨ id ≠ 0 ∧ s.list.entries = []
  | .dumpToFile file block =>
    (∃ path ∈ file, ¬ (l.1.fopenOk 0 = true ∧ (s.files.lookup path).isSome)) ∧ block ≠ NULL ∧
      Ghost s.list
  | _ => False

/-- The list's mutex at the end of an operation on the list `L`. -/
inductive MutexEnd (l : Env × Op) (s : Lib) (L : List Addr) : List Addr → Option PlatMutex → Prop
  | kept : ¬ LeakCase l s → MutexEnd l s L L s.list.mutex
  | scanned : (LeakCase l s ↔ Ghost s.list) → MutexEnd l s L L (scanMutex l.1.tid s.list L)
  | byId : (LeakCase l s ↔ L = []) → MutexEnd l s L L (byIdMutex l.1.tid s.list L)
  | released {L' : List Addr} : ¬ LeakCase l s → MutexEnd l s L L' (release s.list.mutex)

/-- A quiet change that leaves the list's mutex as `m`. -/
structure QuietAt (s s' : Lib) (m : Option PlatMutex) : Prop where
  quiet : Quiet s s'
  mutex : s'.list.mutex = m
  alloc : IsFree s.allocMutex → IsFree s'.allocMutex

theorem QuietAt.refl (s : Lib) : QuietAt s s s.list.mutex := ⟨Quiet.refl s, rfl, id⟩

section Mutexes

variable {env : Env} {l : ListState} {L : List Addr} {m : Option PlatMutex}

theorem ghost_iff (h : l.Rep L) : Ghost l ↔ l.list.len ≠ 0 ∧ L = [] := by
  rw [Ghost, h.entries_eq]

theorem isFree_acquire (h : IsFree m) :
    IsFree (acquire env.tid m) ↔ ¬ (m ≠ none ∧ env.tid ≠ 0) := by
  cases m with
  | none => simp [acquire, IsFree]
  | some x =>
    obtain rfl : x = PlatMutex.free := h x rfl
    by_cases ht : env.tid = 0
    · have hacq : acquire env.tid (some PlatMutex.free) = some PlatMutex.free := by
        rw [acquire, if_pos]
        exact ht
      rw [hacq]
      simp [IsFree, ht]
    · have hacq : acquire env.tid (some PlatMutex.free) = some ⟨some env.tid, env.tid⟩ := by
        rw [acquire, if_neg]
        exact ht
      rw [hacq]
      simp [IsFree, PlatMutex.free, ht]

theorem isFree_scanMutex (h : l.Rep L) (hfree : IsFree l.mutex) :
    IsFree (scanMutex env.tid l L) ↔ ¬ (CanLeak env l ∧ Ghost l) := by
  rw [ghost_iff h, scanMutex]
  by_cases hlen : l.list.len = 0
  · rw [if_pos hlen]
    exact iff_of_true hfree fun hg => hg.2.1 hlen
  · rw [if_neg hlen]
    by_cases hL : L = []
    · rw [if_pos hL, isFree_acquire hfree]
      exact not_congr ⟨fun hc => ⟨hc, hlen, hL⟩, fun hc => hc.1⟩
    · rw [if_neg hL]
      exact iff_of_true (isFree_release _) fun hg => hL hg.2.2

theorem isFree_byIdMutex (hfree : IsFree l.mutex) :
    IsFree (byIdMutex env.tid l L) ↔ ¬ (CanLeak env l ∧ L = []) := by
  unfold byIdMutex
  by_cases hL : L = []
  · rw [if_pos hL, isFree_acquire hfree]
    exact not_congr ⟨fun hc => ⟨hc, hL⟩, fun hc => hc.1⟩
  · rw [if_neg hL]
    exact iff_of_true (isFree_release _) fun hg => hL hg.2

/-- A second scan changes nothing more. -/
theorem scanMutex_scanned {l' : ListState} (hlen : l'.list.len = l.list.len)
    (hm : l'.mutex = scanMutex env.tid l L) : scanMutex env.tid l' L = scanMutex env.tid l L := by
  unfold scanMutex at hm ⊢
  rw [hlen, hm]
  by_cases h0 : l.list.len = 0
  · rw [if_pos h0, if_pos h0]
  · by_cases hL : L = []
    · simp only [if_neg h0, if_pos hL]
      cases hmu : l.mutex with
      | none => rfl
      | some x =>
        by_cases ht : env.tid = x.lockerTid <;> simp [acquire, ht]
    · simp only [if_neg h0, if_neg hL, release_release]

/-- A scan of a list with entries releases the mutex. -/
theorem scanMutex_of_ne_nil (h : l.Rep L) (hL : L ≠ []) (tid : UInt64) :
    scanMutex tid l L = release l.mutex := by
  have hlen : l.list.len ≠ 0 := by
    intro h0
    exact hL (List.length_eq_zero_iff.mp (Nat.le_zero.mp (h0 ▸ h.len)))
  rw [scanMutex, if_neg hlen, if_neg hL]

/-- Whoever has scanned the list may scan it again. -/
theorem not_scanBlocks_scanned {l' : ListState} (h : ¬ ScanBlocks env.tid l)
    (hlen : l'.list.len = l.list.len) (hm : l'.mutex = scanMutex env.tid l L) :
    ¬ ScanBlocks env.tid l' := by
  rintro ⟨h0, hblocks⟩
  rw [hlen] at h0
  rw [hm, scanMutex, if_neg h0] at hblocks
  by_cases hL : L = []
  · rw [if_pos hL] at hblocks
    exact (mine_acquire fun hb => h ⟨h0, hb⟩).2 hblocks
  · rw [if_neg hL] at hblocks
    exact (isFree_release _).not_blocks _ hblocks

theorem release_scanMutex (tid : UInt64) : release (scanMutex tid l L) = release l.mutex := by
  unfold scanMutex
  split_ifs <;> simp

theorem not_ghost_of_ne_nil (h : l.Rep L) (hL : L ≠ []) : ¬ Ghost l :=
  fun hg => hL ((ghost_iff h).mp hg).2

end Mutexes

section Leak

variable {l : Env × Op} {s : Lib} {L L' : List Addr} {m : Option PlatMutex}

/-- **Which calls leave the mutex locked**, from a free one. -/
theorem MutexEnd.leak (h : MutexEnd l s L L' m) (hrep : s.list.Rep L)
    (hfree : IsFree s.list.mutex) :
    IsFree m ↔ ¬ (CanLeak l.1 s.list ∧ LeakCase l s) := by
  cases h with
  | kept hnot => exact iff_of_true hfree fun hl => hnot hl.2
  | scanned hiff =>
    rw [isFree_scanMutex hrep hfree, hiff]
  | byId hiff =>
    rw [isFree_byIdMutex hfree, hiff]
  | released hnot => exact iff_of_true (isFree_release _) fun hl => hnot hl.2

/-- A list with entries is unlocked at the end. -/
theorem MutexEnd.unlocked (h : MutexEnd l s L L' m) (hrep : s.list.Rep L)
    (hfree : L ≠ [] → IsFree s.list.mutex) (hL' : L' ≠ []) : IsFree m := by
  cases h with
  | kept _ => exact hfree hL'
  | scanned _ =>
    rw [scanMutex_of_ne_nil hrep hL']
    exact isFree_release _
  | byId _ =>
    rw [byIdMutex, if_neg hL']
    exact isFree_release _
  | released _ => exact isFree_release _

end Leak

/-! ## Lookups -/

section Lookups

variable {env : Env} {s : Lib} {L : List Addr}

theorem Quiet.of_list {l : ListState} {m : Option PlatMutex} (h : SameList s.list l) :
    Quiet s { s with list := l, allocMutex := m } := ⟨h, rfl, rfl, rfl, rfl⟩

theorem wp_snSetLastError {E : Stop → Lib → Prop} {Q : Unit → Lib → Prop} {err : SnErrorCodes}
    (hblock : Blocks env.tid s.allocMutex → E .blocked s)
    (hQ : Q () { s with errorCode := err, allocMutex := release s.allocMutex }) :
    wp (snSetLastError err) env Q E s := by
  rw [snSetLastError, wp_bind, wp_lockAlloc]
  refine ⟨fun _ => ?_, hblock⟩
  rw [wp_bind, wp_modify, wp_unlockAlloc]
  simpa using hQ

theorem wlp_snError_exact {α : Type} {Q : α → Lib → Prop} {err : SnErrorCodes} {ret : α}
    (hQ : Q ret { s with errorCode := err, allocMutex := release s.allocMutex }) :
    wlp (snError err ret) env Q s := by
  rw [wlp, snError, wp_bind]
  exact wp_snSetLastError (fun _ => trivial) hQ

theorem quietAt_error (err : SnErrorCodes) :
    QuietAt s { s with errorCode := err, allocMutex := release s.allocMutex } s.list.mutex :=
  ⟨⟨SameList.refl _, rfl, rfl, rfl, rfl⟩, rfl, fun _ => isFree_release _⟩

/-- Reporting an error changes nothing else. -/
theorem wlp_snError {α : Type} {Q : α → Lib → Prop} {err : SnErrorCodes} {ret : α}
    (hQ : ∀ s', QuietAt s s' s.list.mutex → s'.errorCode = err → Q ret s') :
    wlp (snError err ret) env Q s :=
  wlp_snError_exact (hQ _ (quietAt_error err) rfl)

/-- The slot for a key is among those that are emptied when the key is dropped. -/
theorem AllocManager.DropsLive.keySlot {m : AllocManager} {h : NodeHeap} {key : Addr} {i : Slot}
    (hs : m.DropsLive (· = key) slots h) (hslot : m.keySlot key = some i) :
    (h.lookup (m.cacheList i).value).isSome := by
  obtain ⟨hkey, hne⟩ := keySlot_eq_some hslot
  exact hs i (mem_slots i) (decide_eq_true ⟨hkey ▸ hne, decide_eq_true hkey⟩)

/-- `memman_TryCacheHit`: a hit is an entry. -/
theorem wp_tryCacheHit {E : Stop → Lib → Prop} {Q : Addr → Lib → Prop} {key : Addr}
    (hb : Base s L) (hblock : Blocks env.tid s.allocMutex → ∀ s', E .blocked s')
    (hdead : ∀ i, s.manager.useCache = true → s.manager.keySlot key = some i →
      ¬ (s.list.nodes.lookup (s.manager.cacheList i).value).isSome → ∀ s', E .undefined s')
    (hmiss : ¬ s.Hits key → ∀ m, Unlocks s.allocMutex m →
      Q NULL { s with allocMutex := m })
    (hhit : ∀ i, s.manager.useCache = true → s.manager.keySlot key = some i →
      (s.manager.cacheList i).value ∈ L →
        QuietAt s (s.hit (s.manager.cacheList i).value) s.list.mutex →
      Q (s.manager.cacheList i).value (s.hit (s.manager.cacheList i).value)) :
    wp (memmanTryCacheHit key) env Q E s := by
  refine wp_memmanTryCacheHit (fun hoff => ?_) (fun _ hbl => hblock hbl) (fun huse hnone => ?_)
    (fun huse i => hdead i huse) fun huse i hslot hlive => ?_
  · exact hmiss (fun h => Bool.false_ne_true (hoff.symm.trans h.1)) s.allocMutex (Or.inl rfl)
  · exact hmiss (fun h => h.2 hnone) _ (Or.inr rfl)
  · refine hhit i huse hslot (hb.mem_of_slot hlive) ?_
    exact ⟨⟨sameList_hit hlive, rfl, rfl, rfl, rfl⟩, rfl, fun _ => isFree_release _⟩

theorem quietAt_miss {m : Option PlatMutex} (hm : Unlocks s.allocMutex m) :
    QuietAt s { s with allocMutex := m } s.list.mutex :=
  ⟨Quiet.of_list (SameList.refl _), rfl, hm.isFree⟩

theorem wlp_memmanTryCacheHit {Q : Addr → Lib → Prop} {key : Addr} (hb : Base s L)
    (hmiss : ∀ s', QuietAt s s' s.list.mutex → s'.manager = s.manager → Q NULL s')
    (hhit : ∀ v s', v ∈ L → QuietAt s s' s.list.mutex → s'.manager = s.manager → Q v s') :
    wlp (memmanTryCacheHit key) env Q s := by
  refine wp_tryCacheHit hb (fun _ _ => trivial) (fun _ _ _ _ _ => trivial) (fun _ m hm => ?_)
    fun i _ _ hmem hq => ?_
  · exact hmiss _ (quietAt_miss hm) rfl
  · exact hhit _ _ hmem hq rfl

/-- `linked_list_getByPtr` of a non-null key. -/
theorem wp_getByPtr {E : Stop → Lib → Prop} {Q : Addr → Lib → Prop} {key : Addr} (hb : Base s L)
    (hkey : key ≠ NULL) (hblock : ScanBlocks env.tid s.list → ∀ s', E .blocked s')
    (hQ : ∀ s', s' = { s with list :=
        { s.list.access (findPtr s.list L key) with mutex := scanMutex env.tid s.list L } } →
      QuietAt s s' (scanMutex env.tid s.list L) → Q (findPtr s.list L key) s') :
    wp (onList (linkedListGetByPtr key)) env Q E s := by
  rw [wp_onList]
  refine wp_linkedListGetByPtr hb.rep (fun h0 => absurd h0 hkey) (fun _ hsb => hblock hsb _)
    fun _ _ => hQ _ rfl ⟨⟨(sameList_access fun hne => ?_).trans (SameList.mutex _ _),
      rfl, rfl, rfl, rfl⟩, rfl, id⟩
  exact hb.rep.live_of_mem (findPtr_mem hne).1

theorem wlp_getByPtr {Q : Addr → Lib → Prop} {key : Addr} (hb : Base s L) (hkey : key ≠ NULL)
    (hQ : ∀ s', QuietAt s s' (scanMutex env.tid s.list L) → s'.manager = s.manager →
      Q (findPtr s.list L key) s') :
    wlp (onList (linkedListGetByPtr key)) env Q s :=
  wp_getByPtr hb hkey (fun _ _ => trivial) fun _ heq hq => hQ _ hq (by rw [heq])

/-- The `sn_error` after an unbraced `if`. -/
theorem wlp_whenError {c : Prop} [Decidable c] {err : SnErrorCodes} {Q : Unit → Lib → Prop}
    (hQ : ∀ s', QuietAt s s' s.list.mutex → (¬ c → s' = s) → Q () s') :
    wlp (when c (snSetLastError err)) env Q s := by
  rw [wlp, wp_when]
  constructor
  · intro hc
    refine wp_snSetLastError (fun _ => trivial) ?_
    exact hQ _ ⟨⟨SameList.refl _, rfl, rfl, rfl, rfl⟩, rfl, fun _ => isFree_release _⟩
      fun hn => absurd hc hn
  · intro _
    exact hQ s (QuietAt.refl s) fun _ => rfl

theorem QuietAt.trans {s' s'' : Lib} {m m' : Option PlatMutex} (h : QuietAt s s' m)
    (h' : QuietAt s' s'' m') : QuietAt s s'' m' :=
  ⟨h.quiet.trans h'.quiet, h'.mutex, fun hf => h'.alloc (h.alloc hf)⟩

theorem QuietAt.base {s' : Lib} {m : Option PlatMutex} (h : QuietAt s s' m) (hb : Base s L) :
    Base s' L := h.quiet.base hb

/-- The state after the shared lookup found no slot: the list was scanned, for the error code
alone. -/
structure Missed (env : Env) (s : Lib) (L : List Addr) (p : Addr) (s' : Lib) : Prop where
  quiet : QuietAt s s' (scanMutex env.tid s.list L)
  manager : s'.manager = s.manager
  errorCode : s'.errorCode =
    if findPtr s.list L p = NULL then .snErrNoAdderFound else s.errorCode

/-- The common tail of the queries by address, with everything that can stop it. -/
theorem wp_cacheOrListByPtr {α : Type} {ptr : Addr} {ret : α} {body : Addr → CProg Lib α}
    {E : Stop → Lib → Prop} {Q : α → Lib → Prop} (hb : Base s L) (hptr : ptr ≠ NULL)
    (hblock : Blocks env.tid s.allocMutex ∨ ¬ s.Hits ptr ∧ ScanBlocks env.tid s.list →
      ∀ s', E .blocked s')
    (hdead : ∀ i, s.manager.useCache = true → s.manager.keySlot ptr = some i →
      ¬ (s.list.nodes.lookup (s.manager.cacheList i).value).isSome → ∀ s', E .undefined s')
    (hmiss : ¬ s.Hits ptr → ∀ s', Missed env s L ptr s' → Q ret s')
    (hhit : ∀ i, s.manager.useCache = true → s.manager.keySlot ptr = some i →
      (s.manager.cacheList i).value ∈ L →
      QuietAt s (s.hit (s.manager.cacheList i).value) s.list.mutex →
      wp (body (s.manager.cacheList i).value) env Q E (s.hit (s.manager.cacheList i).value)) :
    wp (cacheOrListByPtr ptr ret body) env Q E s := by
  rw [cacheOrListByPtr, cacheOrList, wp_bind]
  refine wp_tryCacheHit hb (fun hbl => hblock (Or.inl hbl)) hdead (fun hno m hm => ?_)
    fun i huse hslot hmem hq => ?_
  · have h₁ := quietAt_miss hm
    rw [wp_ite]
    refine ⟨fun _ => ?_, fun hne => absurd rfl hne⟩
    rw [wp_bind]
    refine wp_getByPtr (h₁.base hb) hptr (fun hbl => hblock (Or.inr ⟨hno, hbl⟩))
      fun s₂ heq h₂ => ?_
    have h₁₂ := h₁.trans h₂
    rw [wp_bind, wp_when, heq]
    constructor
    · intro hnone
      refine wp_snSetLastError (fun hbl => hblock (Or.inl (hm.blocks hbl)) _) ?_
      refine hmiss hno _ ⟨⟨?_, rfl, fun _ => isFree_release _⟩, rfl, (if_pos hnone).symm⟩
      exact (heq ▸ h₁₂.quiet).trans ⟨SameList.refl _, rfl, rfl, rfl, rfl⟩
    · intro hfound
      exact hmiss hno _ ⟨heq ▸ h₁₂, rfl, (if_neg hfound).symm⟩
  · rw [wp_ite]
    refine ⟨fun hnull => absurd hnull (hb.rep.ne_null hmem), fun _ => ?_⟩
    exact hhit i huse hslot hmem hq

theorem wlp_cacheOrListByPtr {α : Type} {ptr : Addr} {ret : α} {body : Addr → CProg Lib α}
    {Q : α → Lib → Prop} (hb : Base s L) (hptr : ptr ≠ NULL)
    (hmiss : ∀ s', QuietAt s s' (scanMutex env.tid s.list L) → Q ret s')
    (hhit : ∀ v s', v ∈ L → QuietAt s s' s.list.mutex → wlp (body v) env Q s') :
    wlp (cacheOrListByPtr ptr ret body) env Q s :=
  wp_cacheOrListByPtr hb hptr (fun _ _ => trivial) (fun _ _ _ _ _ => trivial)
    (fun _ s' h => hmiss s' h.quiet) fun _ _ _ hmem hq => hhit _ _ hmem hq

end Lookups

/-! ## One lemma for each operation -/

/-- What a completed operation did, and how it left the mutexes. -/
structure OpSpec (cfg : Config) (l : Env × Op) (s : Lib) (L : List Addr) (L' : List Addr)
    (s' : Lib) : Prop where
  changes : Changes cfg l.1 l.2 s L L' s'
  mutex : MutexEnd l s L L' s'.list.mutex
  alloc : IsFree s.allocMutex → IsFree s'.allocMutex

/-- `OpSpec` for some list afterwards. -/
def Meets (cfg : Config) (l : Env × Op) (s : Lib) (L : List Addr) (s' : Lib) : Prop :=
  ∃ L', OpSpec cfg l s L L' s'

section Meets

variable {cfg : Config} {env : Env} {op : Op} {s s' : Lib} {L : List Addr} {m : Option PlatMutex}

/-- An operation that is one quiet change. -/
theorem QuietAt.meets (h : QuietAt s s' m) (hm : MutexEnd (env, op) s L L m) :
    Meets cfg (env, op) s L s' :=
  ⟨L, .step .start (.quiet h.quiet), h.mutex ▸ hm, h.alloc⟩

theorem mutex_worked : (s.worked env L).list.mutex = scanMutex env.tid s.list L := rfl

theorem alloc_worked : IsFree (s.worked env L).allocMutex := isFree_release _

theorem scanMutex_worked (hb : Base s L) :
    scanMutex env.tid (s.worked env L).list L = scanMutex env.tid s.list L :=
  scanMutex_scanned (sameList_worked hb.rep).len rfl

/-- The pass, then one quiet change that at most scans the list again. -/
theorem QuietAt.meets_worked (h : QuietAt (s.worked env L) s' m) (hop : op.RunsPass)
    (hrep : s.list.Rep L) (hm : m = scanMutex env.tid s.list L)
    (hleak : LeakCase (env, op) s ↔ Ghost s.list) :
    Meets cfg (env, op) s L s' := by
  refine ⟨L, .step (.step .start (.pass hop hrep (Or.inl rfl))) (.quiet h.quiet), ?_,
    fun _ => h.alloc alloc_worked⟩
  rw [h.mutex, hm]
  exact .scanned hleak

theorem wlp_memmanWork {Q : Unit → Lib → Prop} (hb : Base s L) (hQ : Q () (s.worked env L)) :
    wlp memmanWork env Q s :=
  wp_memmanWork hb.rep (fun _ _ => trivial) (fun _ _ => trivial) fun _ _ => hQ

theorem wlp_forEffect {α : Type} {m : CProg Lib α} {Q : Lib → Prop}
    (h : wlp m env (fun _ s' => Q s') s) : wlp (forEffect m) env (fun _ s' => Q s') s := by
  rw [wlp, forEffect, wp_bind]
  exact h

/-- An error report is a quiet change. -/
theorem wlp_snError_meets {α : Type} {err : SnErrorCodes} {ret : α}
    (hleak : ¬ LeakCase (env, op) s) :
    wlp (snError err ret) env (fun _ s' => Meets cfg (env, op) s L s') s :=
  wlp_snError fun _ h _ => h.meets (.kept hleak)

/-- An error report after the pass. -/
theorem wlp_snError_worked {α : Type} {err : SnErrorCodes} {ret : α} (hb : Base s L)
    (hop : op.RunsPass) (hleak : LeakCase (env, op) s ↔ Ghost s.list) :
    wlp (snError err ret) env (fun _ s' => Meets cfg (env, op) s L s') (s.worked env L) :=
  wlp_snError fun _ h _ => h.meets_worked hop hb.rep mutex_worked hleak

/-! ### Queries -/

/-- A getter of an entry. -/
theorem wp_entryGet {α : Type} {v : Addr} {E : Stop → Lib → Prop} {Q : α → Lib → Prop} {dflt : α}
    {get : LinkedListEntry → α} (hb : Base s L) (hv : v ∈ L)
    (hQ : Q (get (nodeAt s.list.nodes v)) s) :
    wp (onList (if v = NULL then return dflt else do return get (← deref v))) env Q E s := by
  rw [wp_onList, wp_ite]
  refine ⟨fun h0 => absurd h0 (hb.rep.ne_null hv), fun _ => ?_⟩
  rw [wp_bind]
  exact wp_deref_live (hb.rep.live_of_mem hv) hQ

/-- A query whose tail is the shared lookup and a quiet body. -/
theorem wlp_query {α : Type} {ptr : Addr} {ret : α} {body : Addr → CProg Lib α} (hb : Base s L)
    (hptr : ptr ≠ NULL) (hop : op.RunsPass) (hleak : LeakCase (env, op) s ↔ Ghost s.list)
    (hbody : ∀ v s', v ∈ L → Base s' L →
      wlp (body v) env (fun _ s'' => QuietAt s' s'' s'.list.mutex) s') :
    wlp (cacheOrListByPtr ptr ret body) env (fun _ s' => Meets cfg (env, op) s L s')
      (s.worked env L) := by
  have hb₁ : Base (s.worked env L) L := base_worked hb
  refine wlp_cacheOrListByPtr hb₁ hptr (fun s' h => ?_) fun v s' hv h => ?_
  · exact h.meets_worked hop hb.rep (scanMutex_worked hb) hleak
  · refine (hbody v s' hv (h.base hb₁)).imp fun _ s'' h' => ?_
    exact (h.trans h').meets_worked hop hb.rep (h.mutex.trans mutex_worked) hleak

theorem spec_snQuerySize {ptr : Addr} (hb : Base s L) :
    wlp (snQuerySize ptr) env (fun _ s' => Meets cfg (env, .querySize ptr) s L s') s := by
  rw [wlp, snQuerySize, wp_bind]
  refine wlp_memmanWork hb ?_
  rw [wp_ite]
  refine ⟨fun _ => wlp_snError_worked hb trivial Iff.rfl, fun hptr => ?_⟩
  have hb₁ : Base (s.worked env L) L := base_worked hb
  rw [wp_bind]
  refine wlp_getByPtr hb₁ hptr fun s₂ h₂ _ => ?_
  have hm₂ := h₂.mutex.trans (scanMutex_worked hb)
  rw [wp_ite]
  refine ⟨fun _ => wlp_snError fun s₃ h₃ _ => ?_, fun hfound => ?_⟩
  · exact (h₂.trans h₃).meets_worked trivial hb.rep hm₂ Iff.rfl
  · exact wp_entryGet (h₂.base hb₁) (findPtr_mem hfound).1
      (h₂.meets_worked trivial hb.rep (scanMutex_worked hb) Iff.rfl)

theorem spec_snQueryTid {ptr : Addr} (hb : Base s L) :
    wlp (snQueryTid ptr) env (fun _ s' => Meets cfg (env, .queryTid ptr) s L s') s := by
  rw [wlp, snQueryTid, wp_bind]
  refine wlp_memmanWork hb ?_
  rw [wp_ite]
  refine ⟨fun _ => wlp_snError_worked hb trivial Iff.rfl, fun hptr =>
    wlp_query hb hptr trivial Iff.rfl ?_⟩
  exact fun v s' hv hb' => wp_entryGet hb' hv (QuietAt.refl s')

theorem spec_snGetBlockId {block : Addr} (hb : Base s L) :
    wlp (snGetBlockId block) env (fun _ s' => Meets cfg (env, .getBlockId block) s L s') s := by
  rw [wlp, snGetBlockId, wp_bind]
  refine wlp_memmanWork hb ?_
  rw [wp_ite]
  refine ⟨fun _ => wlp_snError_worked hb trivial Iff.rfl, fun hptr =>
    wlp_query hb hptr trivial Iff.rfl ?_⟩
  exact fun v s' hv hb' => wp_entryGet hb' hv (QuietAt.refl s')

/-- `sn_query_metadata` returns null, or the metadata view of an entry. -/
theorem wlp_snQueryMetadata {ptr : Addr} {Q : Addr → Lib → Prop} (hb : Base s L)
    (hnull : ∀ s', QuietAt (s.worked env L) s' (scanMutex env.tid s.list L) → Q NULL s')
    (hhit : ∀ v s', v ∈ L → QuietAt (s.worked env L) s' (scanMutex env.tid s.list L) →
      Q (v + offsetofData) s') : wlp (snQueryMetadata ptr) env Q s := by
  have hb₁ : Base (s.worked env L) L := base_worked hb
  rw [wlp, snQueryMetadata, wp_bind]
  refine wlp_memmanWork hb ?_
  rw [wp_ite]
  refine ⟨fun _ => wlp_snError fun s' h _ => hnull s' h, fun hptr => ?_⟩
  refine wlp_cacheOrListByPtr hb₁ hptr (fun s' h => hnull s' ?_) fun v s' hv h => hhit v s' hv h
  rwa [← scanMutex_worked hb]

theorem spec_snQueryMetadata {ptr : Addr} (hb : Base s L) :
    wlp (snQueryMetadata ptr) env (fun _ s' => Meets cfg (env, .queryMetadata ptr) s L s') s :=
  wlp_snQueryMetadata hb (fun _ h => h.meets_worked trivial hb.rep rfl Iff.rfl)
    fun _ _ _ h => h.meets_worked trivial hb.rep rfl Iff.rfl

theorem spec_snCalculateChecksum {block : Addr} (hb : Base s L) :
    wlp (snCalculateChecksum block) env
      (fun _ s' => Meets cfg (env, .calculateChecksum block) s L s') s := by
  rw [wlp, snCalculateChecksum, wp_bind]
  refine wlp_memmanWork hb ?_
  rw [wp_ite]
  refine ⟨fun _ => wlp_snError_worked hb trivial Iff.rfl, fun hptr =>
    wlp_query hb hptr trivial Iff.rfl ?_⟩
  intro v s' hv hb'
  rw [wlp, wp_bind]
  refine wp_entryGet hb' hv ?_
  rw [wp_ite]
  refine ⟨fun _ => wlp_snError fun s'' h _ => h, fun _ => ?_⟩
  rw [wp_bind, wp_onHeap]
  exact wp_memRead_at (fun _ => QuietAt.refl s') (fun _ _ => trivial) fun _ _ => QuietAt.refl s'

/-! ### Allocation -/

/-- Why `sn_malloc` refuses `size` bytes, if it does. -/
def mallocRefusal (env : Env) (s : Lib) (size : UInt64) : Option SnErrorCodes :=
  if size = 0 then some .snErrBadSize
  else if ¬ memmanCanAllocateBasedOnLimitAndSize s.manager size then some .snErrAllocLimitHit
  else if ¬ s.heap.Admits env.block size.toNat then some .snErrBadAlloc
  else none

theorem mallocRefusal_eq_none {size : UInt64} : mallocRefusal env s size = none ↔
    size ≠ 0 ∧ memmanCanAllocateBasedOnLimitAndSize s.manager size ∧
      s.heap.Admits env.block size.toNat := by
  unfold mallocRefusal
  split_ifs with hsize hlimit hadm <;> simp_all

theorem mallocRefusal_ne_ok {size : UInt64} {err : SnErrorCodes}
    (h : mallocRefusal env s size = some err) : err ≠ .snErrOk := by
  unfold mallocRefusal at h
  rintro rfl
  split_ifs at h <;> simp at h

/-- `sn_malloc`, with everything that can stop it. -/
theorem wp_snMalloc {E : Stop → Lib → Prop} {size : UInt64} {Q : Addr → Lib → Prop} (hb : Base s L)
    (hblock : Blocks env.tid s.allocMutex ∨
      mallocRefusal env s size = none ∧ Blocks env.tid s.list.mutex → ∀ s', E .blocked s')
    (hnode : mallocRefusal env s size = none → ¬ s.list.AdmitsNode env.node →
      ∀ s', E (.crash .snErrCatastrophic) s')
    (hfail : ∀ err, mallocRefusal env s size = some err →
      Q NULL { s with errorCode := err, allocMutex := release s.allocMutex })
    (hok : mallocRefusal env s size = none → s.list.AdmitsNode env.node →
      ¬ Blocks env.tid s.list.mutex → ∀ l bytes, bytes.length = size.toNat →
      Granted env s { s with
        list := l
        manager := { s.manager with globalMemoryUsage := s.manager.globalMemoryUsage + size }
        heap := s.heap.place env.block bytes } L size bytes →
      Q env.block { s with
        list := l
        manager := { s.manager with globalMemoryUsage := s.manager.globalMemoryUsage + size }
        heap := s.heap.place env.block bytes }) :
    wp (snMalloc cfg size) env Q E s := by
  have herror : ∀ err, mallocRefusal env s size = some err →
      wp (snError err NULL) env Q E s := by
    intro err hrefusal
    rw [snError, wp_bind]
    exact wp_snSetLastError (fun hbl => hblock (Or.inl hbl) s) (hfail err hrefusal)
  rw [snMalloc, wp_ite]
  refine ⟨fun hsize => herror _ (if_pos hsize), fun hsize => ?_⟩
  rw [wp_bind, wp_getManager, wp_ite]
  refine ⟨fun hlimit => herror _ ?_, fun hlimit => ?_⟩
  · rw [mallocRefusal, if_neg hsize, if_pos hlimit]
  rw [wp_bind, wp_onHeap]
  refine wp_platMalloc (fun hno => ?_) fun hadm => ?_
  · rw [wp_ite]
    refine ⟨fun _ => herror _ ?_, fun hne => absurd rfl hne⟩
    rw [mallocRefusal, if_neg hsize, if_neg hlimit, if_pos hno]
  have hnone : mallocRefusal env s size = none :=
    mallocRefusal_eq_none.mpr ⟨hsize, not_not.mp hlimit, hadm⟩
  rw [wp_ite]
  refine ⟨fun hnull => absurd hnull hadm.ne_null, fun _ => ?_⟩
  have hpos : size.toNat ≠ 0 := fun h0 => hsize (UInt64.toNat_inj.mp h0)
  -- with or without the first `memset`, the block at the proposal holds `size` bytes
  have hrest : ∀ bytes : List UInt8, bytes.length = size.toNat →
      wp (do
        setManager fun m => { m with globalMemoryUsage := m.globalMemoryUsage + size }
        onList (linkedListPush env.block size (← platGetTid))
        return env.block) env Q E { s with heap := s.heap.place env.block bytes } := by
    intro bytes hlen
    rw [wp_bind, wp_setManager, wp_bind, wp_platGetTid, wp_bind, wp_onList]
    refine wp_linkedListPush hb.rep (fun hbl => hblock (Or.inr ⟨hnone, hbl⟩) _)
      (fun _ hno => hnode hnone hno _) fun hmutex hnodeOk l hpush => ?_
    refine hok hnone hnodeOk hmutex l bytes hlen ⟨fun hnil => ?_, ?_, rfl, hpush, ?_, rfl⟩
    · exact hpos (by rw [← hlen, hnil, List.length_nil])
    · rw [hlen]
      exact hadm
    · rw [hlen, UInt64.ofNat_toNat]
  rw [wp_bind, wp_when]
  constructor
  · intro _
    rw [wp_onHeap]
    refine wp_memset ?_ (fun h0 => absurd h0 hpos) fun _ => ?_
    · rw [ClientHeap.bytes_place_self, Env.length_junkBytes, ClientHeap.live_place]
      exact ⟨Or.inl rfl, le_rfl⟩
    · rw [ClientHeap.place_place]
      refine hrest _ ?_
      simp
  · intro _
    exact hrest _ (Env.length_junkBytes _)

/-- `sn_malloc`: a refusal changes nothing but the error code. -/
theorem wlp_snMalloc {size : UInt64} {Q : Addr → Lib → Prop} (hb : Base s L)
    (hfail : ∀ err, err ≠ .snErrOk →
      Q NULL { s with errorCode := err, allocMutex := release s.allocMutex })
    (hok : ∀ s' bytes, bytes.length = size.toNat → Granted env s s' L size bytes →
      s'.errorCode = s.errorCode → Q env.block s') :
    wlp (snMalloc cfg size) env Q s :=
  wp_snMalloc hb (fun _ _ => trivial) (fun _ _ _ => trivial)
    (fun err hrefusal => hfail err (mallocRefusal_ne_ok hrefusal))
    fun _ _ _ _ bytes hlen hgr => hok _ bytes hlen hgr rfl

theorem QuietAt.keeps {s' : Lib} (h : QuietAt s s' s.list.mutex)
    (hleak : ¬ LeakCase (env, op) s) : Meets cfg (env, op) s L s' :=
  h.meets (.kept hleak)

theorem spec_snMalloc {size : UInt64} (hb : Base s L) :
    wlp (snMalloc cfg size) env (fun _ s' => Meets cfg (env, .malloc size) s L s') s := by
  refine wlp_snMalloc hb (fun err _ => (quietAt_error err).keeps id) fun s' bytes hlen hgr _ => ?_
  refine ⟨_, .step .start (.granted (Or.inl hlen) hgr), ?_, fun hf => ?_⟩
  · rw [hgr.pushed.mutex]
    exact .released id
  · rw [hgr.allocMutex]
    exact hf

theorem spec_snCalloc {num size : UInt64} (hb : Base s L) :
    wlp (snCalloc num size) env (fun _ s' => Meets cfg (env, .calloc num size) s L s') s := by
  have hfail : ∀ err : SnErrorCodes, wlp (snError err NULL) env
      (fun _ s' => Meets cfg (env, .calloc num size) s L s') s :=
    fun _ => wlp_snError_meets id
  rw [wlp, snCalloc, wp_ite]
  refine ⟨fun _ => hfail _, fun hsize => ?_⟩
  rw [not_or] at hsize
  rw [wp_bind, wp_getManager, wp_ite]
  refine ⟨fun _ => hfail _, fun hcan => ?_⟩
  rw [not_not] at hcan
  rw [wp_bind, wp_onHeap]
  refine wp_platCalloc (fun _ => ?_) fun hadm => ?_
  · rw [wp_ite]
    exact ⟨fun _ => hfail _, fun hne => absurd rfl hne⟩
  rw [wp_ite]
  refine ⟨fun hnull => absurd hnull hadm.ne_null, fun _ => ?_⟩
  rw [wp_bind, wp_setManager, wp_bind, wp_platGetTid, wp_bind, wp_onList]
  refine wp_linkedListPush hb.rep (fun _ => trivial) (fun _ _ => trivial) fun _ _ l hpush => ?_
  have hpos : num.toNat * size.toNat ≠ 0 := by
    refine Nat.mul_ne_zero (fun h0 => hsize.2 ?_) (fun h0 => hsize.1 ?_)
    · exact UInt64.toNat_inj.mp h0
    · exact UInt64.toNat_inj.mp h0
  -- the allocator took `num * size` without wrapping, so the counter's product is exact
  have hprod : UInt64.ofNat (num.toNat * size.toNat) = size * num := by
    rw [UInt64.ofNat_mul, UInt64.ofNat_toNat, UInt64.ofNat_toNat, UInt64.mul_comm]
  refine ⟨_, .step .start (.granted (Or.inr ⟨num, rfl, rfl, hsize.2, hcan, rfl⟩)
    ⟨fun hnil => hpos ?_, ?_, rfl, hpush, ?_, rfl⟩), ?_, id⟩
  · simpa using congrArg List.length hnil
  · rw [List.length_replicate]
    exact hadm
  · rw [List.length_replicate, hprod]
  · rw [hpush.mutex]
    exact .released id

theorem spec_snMallocPreInitialized {size : UInt64} {v : UInt8} (hb : Base s L) :
    wlp (snMallocPreInitialized cfg size v) env
      (fun _ s' => Meets cfg (env, .mallocPreInitialized size v) s L s') s := by
  rw [wlp, snMallocPreInitialized, wp_bind]
  refine wlp_snMalloc hb (fun err _ => ?_) fun s' bytes hlen hgr _ => ?_
  · rw [wp_ite]
    exact ⟨fun _ => (quietAt_error err).keeps id, fun hne => absurd rfl hne⟩
  rw [wp_ite]
  refine ⟨fun hnull => absurd hnull hgr.admits.ne_null, fun _ => ?_⟩
  have hend : MutexEnd (env, .mallocPreInitialized size v) s L (L ++ [env.node])
      s'.list.mutex := by
    rw [hgr.pushed.mutex]
    exact .released id
  have halloc : IsFree s.allocMutex → IsFree s'.allocMutex := fun hf => by
    rw [hgr.allocMutex]
    exact hf
  rw [wp_bind, wp_onHeap]
  refine wp_memset_at (fun h0 => ?_) (fun _ _ => trivial) fun _ hcovers => ?_
  · exact ⟨_, .step .start (.granted (Or.inl hlen) hgr), hend, halloc⟩
  · refine ⟨_, .step (.step .start (.granted (Or.inl hlen) hgr)) (trans_writeAt ?_), hend, halloc⟩
    rwa [List.length_replicate]

/-- What a granted `sn_realloc` leaves in its entry and in the slots. -/
structure ReallocDone (env : Env) (s : Lib) (L : List Addr) (ptr : Addr) (s' : Lib) : Prop where
  data : (nodeAt s'.list.nodes (findPtr s.list L ptr)).data = env.block
  cacheList : s'.manager.cacheList = s.manager.cacheList

theorem spec_snRealloc {ptr : Addr} {newSize : UInt64} (hb : Base s L) :
    wlp (snRealloc ptr newSize) env
      (fun _ s' => Meets cfg (env, .realloc ptr newSize) s L s' ∧
        (ReallocGranted env s L ptr newSize → ReallocDone env s L ptr s')) s := by
  rw [wlp, snRealloc, wp_ite]
  constructor
  · intro hnull
    refine wlp_snError fun s' h _ => ⟨h.keeps fun hl => hl.1 hnull, fun hg => ?_⟩
    exact absurd hnull hg.ptr_ne
  intro hptr
  have hleak : LeakCase (env, .realloc ptr newSize) s ↔ Ghost s.list := and_iff_right hptr
  rw [wp_bind]
  refine wlp_getByPtr hb hptr fun s₁ h₁ hman₁ => ?_
  have hb₁ := h₁.base hb
  -- every refusal comes after the scan and before any other change
  have hfail : ∀ err : SnErrorCodes, ¬ ReallocGranted env s L ptr newSize →
      wlp (snError err NULL) env (fun _ s' => Meets cfg (env, .realloc ptr newSize) s L s' ∧
        (ReallocGranted env s L ptr newSize → ReallocDone env s L ptr s')) s₁ :=
    fun _ hno => wlp_snError fun s₂ h₂ _ =>
      ⟨(h₁.trans h₂).meets (h₁.mutex ▸ .scanned hleak), fun hg => absurd hg hno⟩
  rw [wp_ite]
  refine ⟨fun hnull => hfail _ fun hg => hg.found hnull, fun hfound => ?_⟩
  rw [wp_ite]
  refine ⟨fun hzero => hfail _ fun hg => hg.size_ne hzero, fun hsize => ?_⟩
  obtain ⟨hmem, hdata⟩ := findPtr_mem hfound
  rw [wp_bind, wp_onList]
  refine wp_deref_live (hb₁.rep.live_of_mem hmem) ?_
  dsimp only
  rw [h₁.quiet.list.size, wp_bind, wp_getManager, wp_ite]
  refine ⟨fun hover => hfail _ fun hg => hover.2 ?_, fun hlimit => ?_⟩
  · rw [hman₁]
    exact hg.limit hover.1
  rw [wp_bind, wp_onHeap]
  have hheap := h₁.quiet.heap
  refine wp_platRealloc (fun _ => trivial) (fun _ hno => ?_) fun hlive hadm bytes hlen => ?_
  · rw [wp_ite]
    refine ⟨fun _ => hfail _ fun hg => hno ?_, fun hne => absurd rfl hne⟩
    rw [hheap]
    exact hg.admits
  rw [wp_ite]
  refine ⟨fun hnull => absurd hnull hadm.ne_null, fun _ => ?_⟩
  have hgranted : ReallocGranted env s L ptr newSize := by
    refine ⟨hptr, hfound, hsize, fun hlt => ?_, hheap ▸ hadm⟩
    exact not_not.mp fun hno => hlimit ⟨hlt, hman₁ ▸ hno⟩
  rw [wp_bind, wp_setManager, wp_bind, wp_setManager, wp_bind, wp_onList]
  refine wp_linkedListEntrySet hb₁.rep hmem (fun _ => ⟨rfl, rfl, rfl, rfl⟩) (fun _ => trivial)
    fun _ l₁ hset₁ hmu₁ => ?_
  rw [wp_bind, wp_onList]
  refine wp_linkedListEntrySet (hset₁.links.rep hb₁.rep) hmem (fun _ => ⟨rfl, rfl, rfl, rfl⟩)
    (fun _ => trivial) fun _ l₂ hset₂ hmu₂ => ?_
  have hset := hset₁.trans hset₂
  refine ⟨⟨L, .step (.step .start (.quiet h₁.quiet))
    (.realloced rfl h₁.quiet hgranted hlive hlen rfl hset ?_), ?_, h₁.alloc⟩,
    fun _ => ⟨?_, h₁.quiet.cacheList⟩⟩
  · dsimp only
    rw [h₁.quiet.list.size]
  · have hL : L ≠ [] := List.ne_nil_of_mem hmem
    have hmu : l₂.mutex = release s.list.mutex := by
      rw [hmu₂, hmu₁, release_release, h₁.mutex, release_scanMutex]
    rw [hmu]
    exact .released fun hl => not_ghost_of_ne_nil hb.rep hL hl.2
  · dsimp only
    rw [hset.node]
    rfl

/-! ### `sn_free` -/

/-- Every slot's node is alive, and every entry's block holds the bytes it records. -/
structure Sound (s : Lib) (L : List Addr) : Prop where
  slots : s.manager.SlotsLive s.list.nodes
  block : ∀ a ∈ L, s.heap.Live (nodeAt s.list.nodes a).data ∧
    (nodeAt s.list.nodes a).size.toNat ≤ (s.heap.bytes (nodeAt s.list.nodes a).data).length

theorem Quiet.sound (h : Quiet s s') (hs : Sound s L) : Sound s' L := by
  constructor
  · intro i hi
    rw [h.cacheList] at hi ⊢
    rw [h.list.live]
    exact hs.slots i hi
  · intro a ha
    rw [h.heap, h.list.data, h.list.size]
    exact hs.block a ha

/-- What `sn_free(p)` reads is there: the nodes of the slots for `p`, and the block that
the entry it finds records. -/
structure Freeable (s : Lib) (L : List Addr) (p : Addr) : Prop where
  slots : s.manager.DropsLive (· = p) slots s.list.nodes
  block : ∀ e ∈ L, Lookup s L p e → s.heap.Live (nodeAt s.list.nodes e).data ∧
    (nodeAt s.list.nodes e).size.toNat ≤ (s.heap.bytes (nodeAt s.list.nodes e).data).length

theorem Sound.freeable (hs : Sound s L) (p : Addr) : Freeable s L p :=
  ⟨hs.slots.dropsLive _ _, fun e he _ => hs.block e he⟩

/-- The state after the lookup of `sn_free` found the entry `e`. -/
structure LookedUp (s : Lib) (p e : Addr) (s' : Lib) : Prop where
  quiet : Quiet s s'
  manager : s'.manager = s.manager
  alloc : Unlocks s.allocMutex s'.allocMutex
  mutex : Unlocks s.list.mutex s'.list.mutex
  errorCode : s'.errorCode = s.errorCode
  hit : s.Hits p → s'.list.list.lastAccess = s.list.list.lastAccess
  miss : ¬ s.Hits p → s'.list.list.lastAccess = e

/-- The lookup of `sn_free`. -/
theorem wp_lookupEntry {E : Stop → Lib → Prop} {Q : Addr → Lib → Prop} {p : Addr} (hb : Base s L)
    (hp : p ≠ NULL)
    (hblock : Blocks env.tid s.allocMutex ∨ ScanBlocks env.tid s.list → ∀ s', E .blocked s')
    (hdead : ¬ s.manager.DropsLive (· = p) slots s.list.nodes → ∀ s', E .undefined s')
    (hnone : ¬ s.Hits p → findPtr s.list L p = NULL →
      ∀ m, Unlocks s.allocMutex m → Q NULL { s with
        list := { s.list with mutex := scanMutex env.tid s.list L }, allocMutex := m })
    (hfound : ∀ e s', Lookup s L p e → e ∈ L → LookedUp s p e s' → Q e s') :
    wp (lookupEntry p) env Q E s := by
  rw [lookupEntry, wp_bind]
  refine wp_tryCacheHit hb (fun h => hblock (Or.inl h))
    (fun i _ hslot hd => hdead fun hs => hd (hs.keySlot hslot)) (fun hmiss m hm => ?_)
    fun i huse hslot hmem hq => ?_
  · rw [wp_ite]
    refine ⟨fun _ => ?_, fun hne => absurd rfl hne⟩
    have hq := quietAt_miss hm
    refine wp_getByPtr (hq.base hb) hp (fun h => hblock (Or.inr h)) fun s₂ heq h₂ => ?_
    by_cases hnull : findPtr s.list L p = NULL
    · have hres := hnone hmiss hnull m hm
      dsimp only at heq ⊢
      rw [hnull] at heq ⊢
      rw [heq]
      simpa [ListState.access] using hres
    · have hL : L ≠ [] := List.ne_nil_of_mem (findPtr_mem hnull).1
      have hmu : s₂.list.mutex = release s.list.mutex := by
        rw [h₂.mutex]
        exact scanMutex_of_ne_nil hb.rep hL _
      refine hfound _ _ (.listed hmiss rfl) (findPtr_mem hnull).1 ⟨(hq.trans h₂).quiet, ?_, ?_,
        Or.inr hmu, ?_, fun hhit => absurd hhit hmiss, fun _ => ?_⟩
      · rw [heq]
      · rw [heq]
        exact hm
      · rw [heq]
      · rw [heq]
        dsimp only
        rw [ListState.access, if_neg hnull]
  · rw [wp_ite]
    refine ⟨fun hnull => absurd hnull (hb.rep.ne_null hmem), fun _ => ?_⟩
    exact hfound _ _ (.cached i huse hslot rfl) hmem ⟨hq.quiet, rfl, Or.inr rfl, Or.inl rfl, rfl,
      fun _ => rfl, fun hmiss => absurd (hits_of_keySlot huse hslot) hmiss⟩

/-- The client's memory after the `memset` of `sn_free`. -/
structure Sanitized (cfg : Config) (h h' : ClientHeap) (data : Addr) (size : UInt64) : Prop where
  null : data = NULL → ¬ h.Live NULL → h' = h
  live : h'.Live data ↔ h.Live data
  fits : cfg.sanitizeMemoryOnFree → h.Live data → size.toNat ≤ (h.bytes data).length
  bytes : h.Live data → h'.bytes data = sanitized cfg size (h.bytes data)
  blocks : h.Live data → h'.blocks.erase data = h.blocks.erase data
  freed : h'.freed = h.freed

theorem Sanitized.heapFreed {h h' : ClientHeap} {data : Addr} {size : UInt64}
    (hs : Sanitized cfg h h' data size) (hne : data ≠ NULL) (hlive : h'.Live data) :
    HeapFreed cfg h { blocks := h'.blocks.erase data, freed := h'.freed ++ [(data, h'.bytes data)] }
      data size := by
  have hlive₀ := hs.live.mp hlive
  refine ⟨fun h0 => absurd h0 hne, fun _ => ⟨hlive₀, fun hc => hs.fits hc hlive₀, ?_⟩⟩
  rw [hs.blocks hlive₀, hs.freed, hs.bytes hlive₀]

theorem sanitized_off {h : ClientHeap} {data : Addr} {size : UInt64}
    (hc : ¬ cfg.sanitizeMemoryOnFree) : Sanitized cfg h h data size := by
  refine ⟨fun _ _ => rfl, Iff.rfl, fun hon => absurd hon hc, fun _ => ?_, fun _ => rfl, rfl⟩
  rw [sanitized, if_neg hc]

/-- The `memset` itself. -/
theorem wp_wipe {h : ClientHeap} {E : Stop → ClientHeap → Prop} {Q : Unit → ClientHeap → Prop}
    {data : Addr} {size : UInt64} (hc : cfg.sanitizeMemoryOnFree)
    (hdead : ¬ (h.Live data ∧ size.toNat ≤ (h.bytes data).length) → E .undefined h)
    (hQ : ∀ h', Sanitized cfg h h' data size → Q () h') :
    wp (memset data 0 size.toNat) env Q E h := by
  refine wp_memset_at (fun h0 => ?_) (fun _ hbad => hdead fun hfits => ?_) fun hne hcovers => ?_
  · refine hQ h ⟨fun _ _ => rfl, Iff.rfl, fun _ _ => by omega, fun _ => ?_, fun _ => rfl, rfl⟩
    rw [sanitized, if_pos hc, h0]
    simp
  · exact hbad ((ClientHeap.covers_of_live hfits.1).mpr hfits.2)
  · have hwhole : h.Covers data (List.replicate size.toNat (0 : UInt8)).length := by
      rwa [List.length_replicate]
    obtain ⟨cs, hwrite, -⟩ := hwhole.writeAt
    refine hQ _ ⟨fun hnull hdead => ?_, ?_, fun _ hl => ?_, fun hl => ?_, fun hl => ?_, ?_⟩
    · -- a null pointer is in no block
      have hbase : h.baseOf data = NULL := Nat.le_zero.mp (hnull ▸ h.baseOf_le data)
      exact absurd (hbase ▸ hcovers.1) hdead
    · rw [hwrite, ClientHeap.live_place]
      exact or_iff_right_of_imp fun heq => heq ▸ hcovers.1
    · exact (ClientHeap.covers_of_live hl).mp hcovers
    · rw [ClientHeap.writeAt_of_live hl, ClientHeap.bytes_place_self, sanitized, if_pos hc,
        List.length_replicate]
    · rw [ClientHeap.writeAt_of_live hl]
      exact ClientHeap.erase_place
    · rw [hwrite]
      rfl

theorem wp_sanitize {E : Stop → Lib → Prop} {Q : Unit → Lib → Prop} {e : Addr}
    (hlive : (s.list.nodes.lookup e).isSome)
    (hdead : ¬ (s.heap.Live (nodeAt s.list.nodes e).data ∧ (nodeAt s.list.nodes e).size.toNat ≤
      (s.heap.bytes (nodeAt s.list.nodes e).data).length) → ∀ s', E .undefined s')
    (hQ : ∀ h, Sanitized cfg s.heap h (nodeAt s.list.nodes e).data (nodeAt s.list.nodes e).size →
      Q () { s with heap := h }) :
    wp (when cfg.sanitizeMemoryOnFree do
      let e ← onList (deref e)
      onHeap (memset e.data 0 e.size.toNat)) env Q E s := by
  rw [wp_when]
  refine ⟨fun hc => ?_, fun hc => hQ s.heap (sanitized_off hc)⟩
  rw [wp_bind, wp_onList]
  refine wp_deref_live hlive ?_
  rw [wp_onHeap]
  exact wp_wipe hc (fun hbad => hdead hbad _) hQ

/-- `linked_list_removeEntryByPtr` of a non-null key. -/
theorem wp_removeEntryByPtr {E : Stop → Lib → Prop} {Q : Unit → Lib → Prop} {p : Addr}
    (hrep : s.list.Rep L) (hp : p ≠ NULL)
    (hblock : Blocks env.tid s.list.mutex → ∀ s', E .blocked s')
    (hQ : ∀ L' l, RemovedByPtr s.list l L p L' → l.mutex = release s.list.mutex →
      l.list.lastAccess = s.list.list.lastAccess → Q () { s with list := l }) :
    wp (onList (linkedListRemoveEntryByPtr p)) env Q E s := by
  rw [wp_onList]
  refine wp_linkedListRemoveEntryByPtr hrep (fun h0 => absurd h0 hp) (fun _ hbl => hblock hbl _)
    (fun _ _ hnone => ?_) fun _ _ A a B hL hfind l hrem => ?_
  · exact hQ L _ (.none hnone (SameList.mutex _ _)) rfl rfl
  · exact hQ _ l (.found hL hfind (SameList.refl _) hrem) hrem.mutex hrem.lastAccess

/-- The state after `sn_free(p)` released the block of the entry `e`; the list is `L'`. -/
structure Released (cfg : Config) (s : Lib) (L : List Addr) (p e : Addr) (s' : Lib)
    (L' : List Addr) : Prop where
  ptr_ne : p ≠ NULL
  lookup : Lookup s L p e
  mem : e ∈ L
  heap : HeapFreed cfg s.heap s'.heap (nodeAt s.list.nodes e).data (nodeAt s.list.nodes e).size
  slotsLive : s.manager.DropsLive (· = p) slots s.list.nodes
  slots : Dropped (· = p) slots { s.manager with
    globalMemoryUsage := s.manager.globalMemoryUsage - (nodeAt s.list.nodes e).size } s'.manager
  list : RemovedByPtr s.list s'.list L p L'
  mutex : s'.list.mutex = release s.list.mutex
  alloc : IsFree s'.allocMutex
  errorCode : s'.errorCode = s.errorCode
  hit : s.Hits p → s'.list.list.lastAccess = s.list.list.lastAccess
  miss : ¬ s.Hits p → s'.list.list.lastAccess = e

/-- `sn_free`, with everything that can stop it. -/
theorem wp_snFree {E : Stop → Lib → Prop} {Q : Unit → Lib → Prop} {p : Addr} (hb : Base s L)
    (hblock : Blocks env.tid s.allocMutex ∨ ScanBlocks env.tid s.list → ∀ s', E .blocked s')
    (hdead : ¬ Freeable s L p → ∀ s', E .undefined s')
    (hnull : p = NULL →
      Q () { s with errorCode := .snErrNullPtr, allocMutex := release s.allocMutex })
    (hnone : p ≠ NULL → ¬ s.Hits p → findPtr s.list L p = NULL → Q () { s with
      list := { s.list with mutex := scanMutex env.tid s.list L }
      errorCode := .snErrNoAdderFound, allocMutex := release s.allocMutex })
    (hfreed : ∀ e s' L', Released cfg s L p e s' L' → Q () s') :
    wp (snFree cfg p) env Q E s := by
  have hblocked : Blocks env.tid s.allocMutex → ∀ s', E .blocked s' := fun h => hblock (Or.inl h)
  rw [snFree, wp_ite]
  constructor
  · intro h0
    rw [snError, wp_bind]
    exact wp_snSetLastError (fun h => hblocked h _) (hnull h0)
  intro hp
  rw [wp_bind]
  refine wp_lookupEntry hb hp hblock (fun hd => hdead fun hs => hd hs.slots)
    (fun hmiss hnot m hm => ?_) fun e s₁ hlook hmem h₁ => ?_
  · rw [wp_ite]
    refine ⟨fun _ => ?_, fun hne => absurd rfl hne⟩
    rw [snError, wp_bind]
    refine wp_snSetLastError (fun h => hblocked (hm.blocks h) _) ?_
    dsimp only
    rw [hm.release_eq]
    exact hnone hp hmiss hnot
  have hL : L ≠ [] := List.ne_nil_of_mem hmem
  have hq := h₁.quiet
  have hb₁ := hq.base hb
  have hlive₁ := hb₁.rep.live_of_mem hmem
  have hblock₁ : Freeable s L p → s₁.heap.Live (nodeAt s₁.list.nodes e).data ∧
      (nodeAt s₁.list.nodes e).size.toNat ≤
        (s₁.heap.bytes (nodeAt s₁.list.nodes e).data).length := by
    intro hs
    rw [hq.heap, hq.list.data, hq.list.size]
    exact hs.block e hmem hlook
  have hslots₁ : s₁.manager.DropsLive (· = p) slots s₁.list.nodes ↔
      s.manager.DropsLive (· = p) slots s.list.nodes := by
    unfold DropsLive
    rw [h₁.manager]
    simp only [hq.list.live]
  rw [wp_ite]
  refine ⟨fun h0 => absurd h0 (hb.rep.ne_null hmem), fun _ => ?_⟩
  rw [wp_bind]
  refine wp_sanitize hlive₁ (fun hbad => hdead fun hs => hbad (hblock₁ hs)) fun h₂ hsan => ?_
  rw [wp_bind, wp_onList]
  refine wp_deref_live hlive₁ ?_
  rw [wp_bind, wp_setManager, wp_bind, memmanCacheInvalidate]
  refine wp_memmanDrop (fun hbl => hblocked (h₁.alloc.blocks hbl))
    (fun hd => hdead fun hs => hd (hslots₁.mpr hs.slots)) fun hslots nodes m hsame hdrop => ?_
  dsimp only at hsame hdrop ⊢
  have hlive : (nodes.lookup e).isSome := by
    have := hsame.live e
    dsimp only at this
    rw [this]
    exact hlive₁
  have hdata : (nodeAt nodes e).data = (nodeAt s.list.nodes e).data :=
    (hsame.data e).trans (hq.list.data e)
  rw [hq.list.data, hq.list.size, hq.heap] at hsan
  rw [wp_bind, wp_onList, linkedListEntryGetData, wp_ite]
  refine ⟨fun h0 => absurd h0 (hb.rep.ne_null hmem), fun _ => ?_⟩
  rw [wp_bind]
  refine wp_deref_live hlive ?_
  rw [wp_pure, wp_bind, wp_onHeap]
  dsimp only
  rw [hdata]
  -- the entry's block is gone; what is left is to unlink the first entry for `p`
  have hrest : ∀ h, HeapFreed cfg s.heap h (nodeAt s.list.nodes e).data
    (nodeAt s.list.nodes e).size →
      wp (onList (linkedListRemoveEntryByPtr p)) env Q E { s₁ with
        list := { s₁.list with nodes := nodes }, manager := m, heap := h
        allocMutex := release s₁.allocMutex } := by
    intro h hfree
    refine wp_removeEntryByPtr ((hsame.rep hb₁.rep)) hp (fun hbl => hblock (Or.inr ?_))
      fun L' l hrem hl hacc => ?_
    · have hlen : s.list.list.len ≠ 0 := fun h0 =>
        hL (List.length_eq_zero_iff.mp (Nat.le_zero.mp (h0 ▸ hb.rep.len)))
      exact ⟨hlen, h₁.mutex.blocks hbl⟩
    · refine hfreed e _ L' ⟨hp, hlook, hmem, hfree, hslots₁.mp hslots, ?_, ?_, ?_,
        isFree_release _, h₁.errorCode, fun hhit => hacc.trans (h₁.hit hhit),
        fun hmiss => hacc.trans (h₁.miss hmiss)⟩
      · dsimp only
        rw [← h₁.manager, ← hq.list.size]
        exact hdrop
      · exact hrem.of_same (hq.list.trans hsame)
      · rw [hl]
        exact h₁.mutex.release_eq
  refine wp_platFree (fun hnull => ?_) (fun hne hdead' h' => hdead (fun hs => ?_) _)
    fun hne hlive' => ?_
  · exact hrest _ ⟨fun hn hd => hsan.null hn hd, fun hne => absurd hnull hne⟩
  · exact hdead' (hsan.live.mpr (hs.block e hmem hlook).1)
  · exact hrest _ (hsan.heapFreed hne hlive')

theorem Released.trans {s₀ : Lib} {L' : List Addr} {p e : Addr} (h : Released cfg s L p e s' L')
    (hop : op = .free p ∧ s = s₀ ∨ p = env.block ∧ ∃ file, op = .mountFileToRam file) :
    Trans cfg env op s₀ L s L' s' :=
  .freed h.ptr_ne h.lookup h.mem h.heap h.slots h.list hop

theorem spec_snFree {p : Addr} (hb : Base s L) :
    wlp (snFree cfg p) env (fun _ s' => Meets cfg (env, .free p) s L s') s := by
  refine wp_snFree hb (fun _ _ => trivial) (fun _ _ => trivial) (fun hnull => ?_)
    (fun hp hmiss hnone => ?_) fun e s' L' h => ?_
  · refine QuietAt.keeps ⟨⟨SameList.refl _, rfl, rfl, rfl, rfl⟩, rfl, fun _ => ?_⟩
      fun hl => hl.1 hnull
    exact isFree_release _
  · refine QuietAt.meets (m := scanMutex env.tid s.list L)
      ⟨⟨SameList.mutex _ _, rfl, rfl, rfl, rfl⟩, rfl, fun _ => isFree_release _⟩ (.scanned ?_)
    exact and_iff_right hp
  · refine ⟨L', .step .start (h.trans (Or.inl ⟨rfl, rfl⟩)), ?_, fun _ => h.alloc⟩
    rw [h.mutex]
    exact .released fun hl => not_ghost_of_ne_nil hb.rep (List.ne_nil_of_mem h.mem) hl.2

/-! ### Registration, block ids and the other queries -/

theorem spec_snRegister {ptr : Addr} (hb : Base s L) :
    wlp (snRegister ptr) env (fun _ s' => Meets cfg (env, .register ptr) s L s') s := by
  rw [wlp, snRegister, wp_bind]
  refine wlp_memmanWork hb ?_
  rw [wp_bind, wp_platGetTid, wp_bind, wp_onList]
  refine wp_linkedListPush (base_worked hb).rep (fun _ => trivial) (fun _ _ => trivial)
    fun _ _ l hpush => ?_
  refine ⟨_, .step (.step .start (.pass trivial hb.rep (Or.inl rfl)))
    (.registered hb.rep (Or.inl ⟨rfl, rfl⟩) hpush rfl rfl), ?_, fun _ => isFree_release _⟩
  rw [hpush.mutex, mutex_worked, release_scanMutex]
  exact .released id

/-- `linked_list_hasPtr` after the pass. -/
theorem wlp_hasPtr_worked {p : Addr} {Q : Bool → Lib → Prop} (hb : Base s L) (hp : p ≠ NULL)
    (hQ : ∀ s', QuietAt (s.worked env L) s' (release s.list.mutex) →
      s'.manager = (s.worked env L).manager →
      Q (decide (findPtr s.list L p ≠ NULL)) s') {s₁ : Lib}
    (h₁ : QuietAt (s.worked env L) s₁ (scanMutex env.tid s.list L))
    (hman : s₁.manager = (s.worked env L).manager) :
    wlp (onList (linkedListHasPtr p)) env Q s₁ := by
  have hb₁ : Base s₁ L := h₁.base (base_worked hb)
  rw [wlp, wp_onList]
  refine wp_linkedListHasPtr hb₁.rep (fun h0 => absurd h0 hp) (fun _ _ => trivial) fun _ _ => ?_
  rw [h₁.quiet.list.findPtr, (sameList_worked hb.rep).findPtr, h₁.mutex, release_scanMutex]
  refine hQ _ ?_ hman
  refine h₁.trans ⟨⟨(SameList.mutex s₁.list (release s.list.mutex)).trans ?_, rfl, rfl, rfl, rfl⟩,
    rfl, id⟩
  exact SameList.lastAccess { s₁.list with mutex := release s.list.mutex } _

theorem spec_snRegisterSize {ptr : Addr} {size : UInt64} (hb : Base s L) :
    wlp (snRegisterSize ptr size) env
      (fun _ s' => Meets cfg (env, .registerSize ptr size) s L s') s := by
  rw [wlp, snRegisterSize, wp_bind]
  refine wlp_memmanWork hb ?_
  rw [wp_ite]
  refine ⟨fun hp => wlp_snError_worked hb trivial (and_iff_right (Or.inl hp)), fun hp => ?_⟩
  rw [wp_ite]
  refine ⟨fun hz => wlp_snError_worked hb trivial (and_iff_right (Or.inr hz)), fun hz => ?_⟩
  have hleak : ¬ LeakCase (env, .registerSize ptr size) s := by
    rintro ⟨hbad, -⟩
    rcases hbad with h0 | h0
    · exact hp h0
    · exact hz h0
  rw [wp_bind]
  refine wlp_hasPtr_worked hb hp (fun s₁ h₁ hman => ?_) (QuietAt.refl _) rfl
  rw [wp_ite]
  constructor
  · intro _
    refine ⟨L, .step (.step .start (.pass trivial hb.rep (Or.inl rfl))) (.quiet h₁.quiet), ?_,
      fun _ => h₁.alloc alloc_worked⟩
    rw [h₁.mutex]
    exact .released hleak
  · intro hnot
    rw [wp_bind, wp_platGetTid, wp_bind, wp_onList]
    refine wp_linkedListPush (h₁.base (base_worked hb)).rep (fun _ => trivial) (fun _ _ => trivial)
      fun _ _ l hpush => ?_
    have hnone : findPtr s.list L ptr = NULL := by simpa using hnot
    refine ⟨_, .step (.step (.step .start (.pass trivial hb.rep (Or.inl rfl))) (.quiet h₁.quiet))
      (.registered hb.rep (Or.inr ⟨rfl, hp, hz, hnone⟩) hpush rfl rfl), ?_, fun _ =>
        h₁.alloc alloc_worked⟩
    rw [hpush.mutex, h₁.mutex, release_release]
    exact .released hleak

theorem spec_snIsTrackedBlock {ptr : Addr} (hb : Base s L) :
    wlp (snIsTrackedBlock ptr) env (fun _ s' => Meets cfg (env, .isTrackedBlock ptr) s L s') s := by
  have hb₁ : Base (s.worked env L) L := base_worked hb
  rw [wlp, snIsTrackedBlock, wp_bind]
  refine wlp_memmanWork hb ?_
  rw [wp_ite]
  refine ⟨fun _ => wlp_snError_worked hb trivial Iff.rfl, fun hp => ?_⟩
  rw [wp_bind]
  refine wlp_memmanTryCacheHit hb₁ (fun s₁ h₁ _ => ?_) fun v s₁ hv h₁ hman => ?_
  · rw [wp_ite]
    exact ⟨fun _ => h₁.meets_worked trivial hb.rep mutex_worked Iff.rfl, fun hne => absurd rfl hne⟩
  · rw [wp_ite]
    refine ⟨fun hnull => absurd hnull (hb.rep.ne_null hv), fun _ => ?_⟩
    refine wlp_hasPtr_worked hb hp (fun s₂ h₂ _ => ?_) h₁ hman
    refine ⟨L, .step (.step .start (.pass trivial hb.rep (Or.inl rfl))) (.quiet h₂.quiet), ?_,
      fun _ => h₂.alloc alloc_worked⟩
    rw [h₂.mutex]
    exact .released (not_ghost_of_ne_nil hb.rep (List.ne_nil_of_mem hv))

theorem spec_snSetBlockId {block : Addr} {id : UInt16} (hb : Base s L) :
    wlp (snSetBlockId block id) env
      (fun _ s' => Meets cfg (env, .setBlockId block id) s L s') s := by
  have hb₁ : Base (s.worked env L) L := base_worked hb
  rw [wlp, snSetBlockId, wp_bind]
  refine wlp_memmanWork hb ?_
  rw [wp_ite]
  refine ⟨fun _ => wlp_snError_worked hb trivial Iff.rfl, fun hp => ?_⟩
  rw [wp_ite]
  refine ⟨fun _ => wlp_snError_worked hb trivial Iff.rfl, fun _ => ?_⟩
  refine wlp_cacheOrListByPtr hb₁ hp (fun s' h => ?_) fun v s' hv h => ?_
  · exact h.meets_worked trivial hb.rep (scanMutex_worked hb) Iff.rfl
  · rw [wlp, wp_onList]
    refine wp_linkedListEntrySet (h.base hb₁).rep hv (fun _ => ⟨rfl, rfl, rfl, rfl⟩)
      (fun _ => trivial) fun _ l hset hmu => ?_
    refine ⟨L, .step (.step (.step .start (.pass trivial hb.rep (Or.inl rfl))) (.quiet h.quiet))
      (.tagged rfl hv hset rfl rfl), ?_, fun _ => h.alloc alloc_worked⟩
    rw [hmu, h.mutex, mutex_worked, release_scanMutex]
    exact .released (not_ghost_of_ne_nil hb.rep (List.ne_nil_of_mem hv))

theorem byIdMutex_worked :
    byIdMutex env.tid (s.worked env L).list L = byIdMutex env.tid s.list L := by
  unfold byIdMutex
  rw [mutex_worked]
  by_cases hL : L = []
  · rw [if_pos hL, if_pos hL]
    unfold scanMutex
    split_ifs <;> simp
  · rw [if_neg hL, if_neg hL, release_scanMutex]

theorem spec_snQueryBlockId {id : UInt16} (hb : Base s L) :
    wlp (snQueryBlockId id) env (fun _ s' => Meets cfg (env, .queryBlockId id) s L s') s := by
  have hb₁ : Base (s.worked env L) L := base_worked hb
  have hentries : s.list.entries = [] ↔ L = [] := by rw [hb.rep.entries_eq]
  rw [wlp, snQueryBlockId, wp_bind]
  refine wlp_memmanWork hb ?_
  rw [wp_ite]
  constructor
  · intro h0
    exact wlp_snError_worked hb trivial (or_iff_left fun h => h.1 h0)
  intro hid
  have hleak : LeakCase (env, .queryBlockId id) s ↔ L = [] := by
    constructor
    · rintro (hg | hg)
      · exact hentries.mp hg.2
      · exact hentries.mp hg.2
    · intro hL
      exact Or.inr ⟨hid, hentries.mpr hL⟩
  have hcache : ∀ v s₁, v ∈ L → QuietAt (s.worked env L) s₁ (s.worked env L).list.mutex →
      wlp (onList (linkedListEntryGetData v)) env
        (fun _ s' => Meets cfg (env, .queryBlockId id) s L s') s₁ := by
    intro v s₁ hv h₁
    have hL : L ≠ [] := List.ne_nil_of_mem hv
    refine wp_entryGet (h₁.base hb₁) hv (h₁.meets_worked trivial hb.rep mutex_worked ?_)
    exact iff_of_false (fun hl => hL (hleak.mp hl)) (not_ghost_of_ne_nil hb.rep hL)
  -- the search by id starts with a lock of its own
  have hlist : ∀ s₁, QuietAt (s.worked env L) s₁ (s.worked env L).list.mutex →
      wlp (onList (linkedListGetById id)) env
        (fun _ s₂ => QuietAt (s.worked env L) s₂ (byIdMutex env.tid s.list L)) s₁ := by
    intro s₁ h₁
    rw [wlp, wp_onList]
    refine wp_linkedListGetById (h₁.base hb₁).rep (fun _ => trivial) fun _ => ?_
    refine h₁.trans ⟨⟨(sameList_access fun hne => ?_).trans (SameList.mutex _ _), rfl, rfl, rfl,
      rfl⟩, ?_, fun hf => hf⟩
    · exact (h₁.base hb₁).rep.live_of_mem (findId_mem hne).1
    · have hmu : byIdMutex env.tid (s.worked env L).list L = byIdMutex env.tid s.list L :=
        byIdMutex_worked
      rw [← hmu]
      unfold byIdMutex
      rw [h₁.mutex]
  have hmiss : ∀ s₁, QuietAt (s.worked env L) s₁ (s.worked env L).list.mutex →
      wlp (do
        let entry ← onList (linkedListGetById id)
        when (entry = NULL) (snSetLastError .snErrNoAdderFound)
        return NULL : CProg Lib Addr) env
        (fun _ s' => Meets cfg (env, .queryBlockId id) s L s') s₁ := by
    intro s₁ h₁
    rw [wlp, wp_bind]
    refine (hlist s₁ h₁).imp fun entry s₂ h₂ => ?_
    rw [wp_bind]
    refine wlp_whenError fun s₃ h₃ _ => ?_
    have h₁₃ := h₂.trans h₃
    refine ⟨L, .step (.step .start (.pass trivial hb.rep (Or.inl rfl))) (.quiet h₁₃.quiet), ?_,
      fun _ => h₁₃.alloc (isFree_release _)⟩
    rw [h₃.mutex, h₂.mutex]
    exact .byId hleak
  rw [cacheOrList, wp_bind]
  refine wp_memmanTryCacheHitById (fun _ => ?_) (fun _ _ _ => trivial) (fun _ _ _ => trivial)
    fun _ _ hlive => ?_
  · rw [wp_ite]
    exact ⟨fun _ => hmiss _ (QuietAt.refl _), fun hne => absurd rfl hne⟩
  · have hq : QuietAt (s.worked env L)
        { s.worked env L with allocMutex := release (s.worked env L).allocMutex }
        (s.worked env L).list.mutex :=
      ⟨Quiet.of_list (SameList.refl _), rfl, fun _ => isFree_release _⟩
    rw [wp_ite]
    refine ⟨fun _ => hmiss _ hq, fun hne => hcache _ _ ?_ hq⟩
    obtain ⟨i, hi⟩ := idHit_ne_null hne
    rw [← hi]
    exact hb₁.mem_of_slot (by rw [hi]; exact hlive hne)

/-- A scan with a worker that only reads. -/
theorem wlp_forEach_read {β : Type} {worker : LinkedListForEachWorker β} {arg : β}
    {f : Addr → LinkedListEntry → Nat → β → Addr × β} {Q : Addr × β → Lib → Prop} (hb : Base s L)
    (hworker : ∀ a i arg, worker a i arg = do
      let e ← deref a
      return f a e i arg)
    (hQ : ∀ r s', QuietAt s s' (scanMutex env.tid s.list L) → Q r s') :
    wlp (onList (linkedListForEach worker arg)) env Q s := by
  rw [wlp, wp_onList]
  refine wp_linkedListForEach_read hb.rep hworker (fun _ => trivial) fun _ => ?_
  exact hQ _ _ ⟨Quiet.of_list (SameList.mutex _ _), rfl, fun h => h⟩

/-- The step of `search_for_tid`. -/
theorem searchForTid_eq (tid : UInt64) (a : Addr) (i : Nat) (siz : UInt64) :
    searchForTid tid a i siz = do
      let e ← deref a
      return (if e.tid = tid then (NULL, siz + e.size) else (NULL, siz)) := by
  unfold searchForTid
  congr 1
  funext e
  split_ifs <;> rfl

theorem spec_snQueryThreadMemoryUsage {tid : UInt64} (hb : Base s L) :
    wlp (snQueryThreadMemoryUsage tid) env
      (fun _ s' => Meets cfg (env, .queryThreadMemoryUsage tid) s L s') s := by
  rw [wlp, snQueryThreadMemoryUsage, wp_bind]
  refine wlp_memmanWork hb ?_
  rw [wp_bind]
  refine wlp_forEach_read (base_worked hb) (searchForTid_eq tid) fun _ s' h => ?_
  exact h.meets_worked trivial hb.rep (scanMutex_worked hb) Iff.rfl

theorem memMetadataForEach_eq (worker : SnMetadataForEachWorker) (g : Addr) (a : Addr) (i : Nat)
    (out : Addr) :
    memMetadataForEach worker g a i out = do
      let e ← deref a
      return (if worker e.metadata i (.wrapper g) ≠ NULL then
        (listForEachLoopBrake, worker e.metadata i (.wrapper g)) else (NULL, out)) := by
  unfold memMetadataForEach
  congr 1
  funext e
  dsimp only
  split_ifs <;> rfl

theorem spec_snMemMetadataForEach {worker : SnMetadataForEachWorker} {g : Addr} (hb : Base s L) :
    wlp (snMemMetadataForEach worker g) env
      (fun _ s' => Meets cfg (env, .memMetadataForEach worker g) s L s') s := by
  rw [wlp, snMemMetadataForEach, wp_bind]
  refine wlp_forEach_read hb (memMetadataForEach_eq worker g) fun r s' h => ?_
  have hmeets : Meets cfg (env, .memMetadataForEach worker g) s L s' :=
    h.meets (.scanned Iff.rfl)
  rw [wp_ite]
  exact ⟨fun _ => hmeets, fun _ => hmeets⟩

theorem spec_snQueryStaticMetadata {ptr : Addr} (hb : Base s L) :
    wlp (snQueryStaticMetadata cfg ptr) env
      (fun _ s' => Meets cfg (env, .queryStaticMetadata ptr) s L s') s := by
  have hb₁ : Base (s.worked env L) L := base_worked hb
  have hmu : scanMutex env.tid (s.worked env L).list L = scanMutex env.tid s.list L :=
    scanMutex_worked hb
  -- the second pass comes from the query inside
  have hquiet : ∀ s₂, QuietAt ((s.worked env L).worked env L) s₂ (scanMutex env.tid s.list L) →
      Meets cfg (env, .queryStaticMetadata ptr) s L s₂ := by
    intro s₂ h₂
    refine ⟨L, .step (.step (.step .start (.pass trivial hb.rep (Or.inl rfl)))
      (.pass trivial hb.rep (Or.inr rfl)))
      (.quiet h₂.quiet), ?_, fun _ => h₂.alloc (isFree_release _)⟩
    rw [h₂.mutex]
    exact .scanned Iff.rfl
  rw [wlp, snQueryStaticMetadata, wp_bind]
  refine wlp_memmanWork hb ?_
  rw [wp_bind]
  refine wlp_snQueryMetadata hb₁ (fun s₂ h₂ => ?_) fun v s₂ hv h₂ => ?_
  · rw [hmu] at h₂
    rw [wp_ite]
    exact ⟨fun _ => hquiet s₂ h₂, fun hne => absurd rfl hne⟩
  rw [hmu] at h₂
  rw [wp_ite]
  refine ⟨fun hnull => absurd hnull (Nat.succ_ne_zero _), fun _ => ?_⟩
  have hb₂ : Base s₂ L := h₂.base (base_worked hb₁)
  have hL : L ≠ [] := List.ne_nil_of_mem hv
  rw [wp_bind]
  refine wlp_snMalloc hb₂ (fun err _ => ?_) fun s₃ bytes hlen hgr _ => ?_
  · rw [wp_ite]
    refine ⟨fun _ => hquiet _ ?_, fun hne => absurd rfl hne⟩
    have := h₂.trans (quietAt_error err)
    rwa [h₂.mutex] at this
  rw [wp_ite]
  refine ⟨fun hnull => absurd hnull hgr.admits.ne_null, fun _ => ?_⟩
  have hend : MutexEnd (env, .queryStaticMetadata ptr) s L (L ++ [env.node]) s₃.list.mutex := by
    rw [hgr.pushed.mutex, h₂.mutex, release_scanMutex]
    exact .released (not_ghost_of_ne_nil hb.rep hL)
  have halloc : IsFree s.allocMutex → IsFree s₃.allocMutex := fun _ => by
    rw [hgr.allocMutex]
    exact h₂.alloc (isFree_release _)
  have hchanges : Changes cfg env (.queryStaticMetadata ptr) s L (L ++ [env.node]) s₃ :=
    .step (.step (.step (.step .start (.pass trivial hb.rep (Or.inl rfl)))
      (.pass trivial hb.rep (Or.inr rfl)))
      (.quiet h₂.quiet)) (.granted (Or.inl hlen) hgr)
  rw [wp_bind, wp_onList, Nat.add_sub_cancel]
  refine wp_deref_live (hgr.pushed.rep.live_of_mem (List.mem_append_left _ hv)) ?_
  rw [wp_bind, wp_onHeap]
  exact wp_memWrite_at (fun _ => ⟨_, hchanges, hend, halloc⟩) (fun _ _ => trivial)
    fun _ hcovers => ⟨_, .step hchanges (trans_writeAt hcovers), hend, halloc⟩

/-! ### The cache interface -/

theorem spec_snRequestToFastCache {ptr : Addr} (hb : Base s L) :
    wlp (snRequestToFastCache ptr) env
      (fun _ s' => Meets cfg (env, .requestToFastCache ptr) s L s') s := by
  rw [wlp, snRequestToFastCache, wp_ite]
  refine ⟨fun h0 => wlp_snError_meets fun hl => hl.1 h0, fun hp => ?_⟩
  have hleak : LeakCase (env, .requestToFastCache ptr) s ↔ Ghost s.list := and_iff_right hp
  rw [wp_bind]
  refine wlp_getByPtr hb hp fun s₁ h₁ _ => ?_
  have hquiet : ∀ s₂, QuietAt s₁ s₂ s₁.list.mutex →
      Meets cfg (env, .requestToFastCache ptr) s L s₂ := by
    intro s₂ h₂
    refine (h₁.trans h₂).meets ?_
    rw [h₁.mutex]
    exact .scanned hleak
  rw [wp_ite]
  refine ⟨fun _ => wlp_snError fun s₂ h₂ _ => hquiet s₂ h₂, fun hfound => ?_⟩
  have hmem := (findPtr_mem hfound).1
  refine wp_memmanTryCachePut ((h₁.base hb).rep.live_of_mem hmem) (fun _ _ => trivial)
    (fun _ => hquiet s₁ (QuietAt.refl s₁)) (fun _ _ _ => trivial) fun hacc i hslot => ?_
  have hfind := h₁.quiet.list.findPtr L ptr
  refine ⟨L, .step (.step .start (.quiet h₁.quiet)) ?_, ?_, fun _ => isFree_release _⟩
  · have hput : Trans cfg env (.requestToFastCache ptr) s L s₁ L
        (s₁.put i (findPtr s₁.list L ptr)) :=
      .put rfl hp (by rwa [hfind]) hacc hslot
    rwa [hfind] at hput
  · show MutexEnd _ _ _ _ s₁.list.mutex
    rw [h₁.mutex]
    exact .scanned hleak

theorem spec_snFastCacheClear :
    wlp snFastCacheClear env (fun _ s' => Meets cfg (env, .fastCacheClear) s L s') s := by
  rw [wlp, snFastCacheClear, memmanCacheClear]
  refine wp_memmanDrop (fun _ _ => trivial) (fun _ _ => trivial) fun _ nodes m hsame hdrop => ?_
  exact ⟨L, .step .start (.cleared hsame hdrop rfl), .kept id, fun _ => isFree_release _⟩

/-! ### Files -/

theorem wp_fopenRead {n : Nat} {path : FileName} {E : Stop → Lib → Prop}
    {Q : Option (List UInt8) → Lib → Prop}
    (hQ : Q (if env.fopenOk n then s.files.lookup path else none) s) :
    wp (fopenRead n path) env Q E s := by
  rw [fopenRead, wp_bind, wp_ask, wp_ite]
  constructor
  · intro hok
    rwa [if_pos hok] at hQ
  · intro hok
    rwa [if_neg hok] at hQ

theorem wp_fileExists {path : FileName} {E : Stop → Lib → Prop} {Q : Bool → Lib → Prop}
    (hQ : ∀ b, (b = true ↔ env.fopenOk 0 = true ∧ (s.files.lookup path).isSome) → Q b s) :
    wp (fileExists path) env Q E s := by
  rw [fileExists, wp_bind]
  refine wp_fopenRead (hQ _ ?_)
  by_cases hok : env.fopenOk 0 = true
  · simp [hok]
  · simp [hok]

theorem quietAt_files (s : Lib) (files : Finmap fun _ : FileName => List UInt8) :
    QuietAt s { s with files := files } s.list.mutex :=
  ⟨⟨SameList.refl _, rfl, rfl, rfl, rfl⟩, rfl, id⟩

/-- Why `sn_dump_to_file` gives up before it looks the block up, if it does. -/
def dumpRefusal (env : Env) (s : Lib) (block : Addr) : Option FileName → Option SnErrorCodes
  | none => some .snErrNullPtr
  | some path =>
    if block = NULL then some .snErrNullPtr
    else if env.fopenOk 0 = true ∧ (s.files.lookup path).isSome then some .snErrFilePreExist
    else none

/-- `sn_dump_to_file` gets to write the block, with the slot `i` for it. -/
structure DumpsFrom (env : Env) (s : Lib) (block : Addr) (file : Option FileName) (i : Slot) :
    Prop where
  refusal : dumpRefusal env s block file = none
  use : s.manager.useCache = true
  slot : s.manager.keySlot block = some i

/-- `n` bytes at `p` can be read. -/
def ClientHeap.Readable (h : ClientHeap) (p : Addr) (n : Nat) : Prop :=
  n = 0 ∨ h.Covers p n

instance (h : ClientHeap) (p : Addr) (n : Nat) : Decidable (h.Readable p n) :=
  inferInstanceAs (Decidable (_ ∨ _))

theorem ClientHeap.Readable.length_readAt {h : ClientHeap} {p : Addr} {n : Nat}
    (hr : h.Readable p n) : (h.readAt p n).length = n := by
  rcases hr with h0 | hcovers
  · rw [h0, ClientHeap.readAt, List.take_zero, List.length_nil]
  · exact hcovers.length_readAt

/-- The node of a slot, as `sn_dump_to_file` reads it. -/
abbrev Lib.slotNode (s : Lib) (i : Slot) : LinkedListEntry :=
  nodeAt s.list.nodes (s.manager.cacheList i).value

/-- `sn_dump_to_file`, with everything that can stop it. -/
theorem wp_snDumpToFile {E : Stop → Lib → Prop} {Q : Bool → Lib → Prop}
    {file : Option FileName} {block : Addr} (hb : Base s L)
    (hblock : Blocks env.tid s.allocMutex ∨ dumpRefusal env s block file = none ∧
      ¬ s.Hits block ∧ ScanBlocks env.tid s.list → ∀ s', E .blocked s')
    (hdead : ∀ i, DumpsFrom env s block file i →
      ¬ ((s.list.nodes.lookup (s.manager.cacheList i).value).isSome ∧
        (env.fopenOk 1 = true → s.heap.Readable block (s.slotNode i).size.toNat)) →
      ∀ s', E .undefined s')
    (hearly : ∀ err, dumpRefusal env s block file = some err →
      Q false { s with errorCode := err, allocMutex := release s.allocMutex })
    (hmiss : dumpRefusal env s block file = none → ¬ s.Hits block →
      ∀ s', Missed env s L block s' → Q false s')
    (hfail : ∀ i, DumpsFrom env s block file i → (s.manager.cacheList i).value ∈ L →
      ¬ (env.fopenOk 1 = true ∧ (s.slotNode i).size.toNat ≤ env.transferred) →
      ∀ s', QuietAt s s' s.list.mutex → Q false s')
    (hfull : ∀ i path, DumpsFrom env s block (some path) i → file = some path →
      (s.manager.cacheList i).value ∈ L → s.heap.Readable block (s.slotNode i).size.toNat →
      Q true { s.hit (s.manager.cacheList i).value with
        files := s.files.insert path
          ((s.heap.readAt block (s.slotNode i).size.toNat).take env.flushed) }) :
    wp (snDumpToFile file block) env Q E s := by
  have herror : ∀ err, dumpRefusal env s block file = some err →
      wp (snError err false) env Q E s := by
    intro err hrefusal
    rw [snError, wp_bind]
    exact wp_snSetLastError (fun hbl => hblock (Or.inl hbl) s) (hearly err hrefusal)
  cases file with
  | none => exact herror _ rfl
  | some path =>
    rw [snDumpToFile, wp_ite]
    refine ⟨fun h0 => herror _ (if_pos h0), fun hne => ?_⟩
    rw [wp_bind]
    refine wp_fileExists fun found hfile => ?_
    rw [wp_ite]
    refine ⟨fun hyes => herror _ ?_, fun hno => ?_⟩
    · rw [dumpRefusal, if_neg hne, if_pos (hfile.mp hyes)]
    have hrefusal : dumpRefusal env s block (some path) = none := by
      rw [dumpRefusal, if_neg hne, if_neg (hfile.not.mp hno)]
    refine wp_cacheOrListByPtr hb hne (fun hbl => hblock (hbl.imp_right fun h => ⟨hrefusal, h⟩))
      (fun i huse hslot hnode => hdead i ⟨hrefusal, huse, hslot⟩ fun h => hnode h.1)
      (hmiss hrefusal) fun i huse hslot hmem hq => ?_
    have hfrom : DumpsFrom env s block (some path) i := ⟨hrefusal, huse, hslot⟩
    have hb₁ := hq.base hb
    have hsize := hq.quiet.list.size (s.manager.cacheList i).value
    have hlive := hb.rep.live_of_mem hmem
    have herrorIo : ∀ files,
        ¬ (env.fopenOk 1 = true ∧ (s.slotNode i).size.toNat ≤ env.transferred) →
        wp (snError .snErrFileIo false) env Q E
          { s.hit (s.manager.cacheList i).value with files := files } := by
      intro files hno
      rw [snError, wp_bind]
      refine wp_snSetLastError (fun hbl => absurd hbl ((isFree_release _).not_blocks _)) ?_
      refine hfail i hfrom hmem hno _ ?_
      exact (hq.trans (quietAt_files _ files)).trans (quietAt_error _)
    rw [wp_bind, fopenWrite, wp_bind, wp_ask, wp_ite]
    refine ⟨fun hopen => ?_, fun hopen => ?_⟩
    swap
    · rw [wp_pure, wp_ite]
      exact ⟨fun _ => herrorIo s.files fun h => hopen h.1, fun hno => absurd Bool.false_ne_true hno⟩
    rw [wp_bind, wp_modify, wp_pure, wp_ite]
    refine ⟨fun hno => absurd rfl hno, fun _ => ?_⟩
    rw [wp_bind]
    refine wp_entryGet ((quietAt_files _ _).base hb₁) hmem ?_
    dsimp only
    rw [hsize, wp_bind, wp_onHeap]
    -- the count that `fwrite` returns decides, however much `fclose` brings into the file
    have hwritten : ∀ data : List UInt8, data = s.heap.readAt block (s.slotNode i).size.toNat →
        s.heap.Readable block (s.slotNode i).size.toNat → wp (do
          let env ← ask
          let written := data.take env.transferred
          modify fun s => { s with files := s.files.insert path (written.take env.flushed) }
          if written.length ≠ (s.slotNode i).size.toNat then snError .snErrFileIo false
          else return true) env Q E { s.hit (s.manager.cacheList i).value with
            files := s.files.insert path [] } := by
      intro data hdata hread
      have hlen : data.length = (s.slotNode i).size.toNat := hdata ▸ hread.length_readAt
      rw [wp_bind, wp_ask, wp_bind, wp_modify, wp_ite]
      have hmin : (data.take env.transferred).length
          = min env.transferred (s.slotNode i).size.toNat := by
        rw [List.length_take, hlen]
      constructor
      · intro hshort
        exact herrorIo _ fun h => hshort (hmin.trans (Nat.min_eq_right h.2))
      · intro hfullLen
        have hle : data.length ≤ env.transferred := by
          omega
        have hres := hfull i path hfrom rfl hmem hread
        rw [wp_pure, List.take_of_length_le hle, Finmap.insert_insert]
        rw [← hdata] at hres
        exact hres
    refine wp_memRead_at (fun h0 => ?_) (fun h0 hbad => ?_) fun h0 hcovers => ?_
    · refine hwritten [] ?_ (Or.inl h0)
      rw [h0, ClientHeap.readAt, List.take_zero]
    · exact hdead i hfrom (fun h => hbad ((h.2 hopen).resolve_left h0)) _
    · exact hwritten _ rfl (Or.inr hcovers)

theorem spec_snDumpToFile {file : Option FileName} {block : Addr} (hb : Base s L) :
    wlp (snDumpToFile file block) env
      (fun _ s' => Meets cfg (env, .dumpToFile file block) s L s') s := by
  have hleak : LeakCase (env, .dumpToFile file block) s ↔
      dumpRefusal env s block file = none ∧ Ghost s.list := by
    cases file with
    | none => simp [LeakCase, dumpRefusal]
    | some path =>
      unfold LeakCase dumpRefusal
      split_ifs <;> simp_all
  -- what the slot holds is an entry, so that the list is no ghost
  have hkept : ∀ i s', (s.manager.cacheList i).value ∈ L → QuietAt s s' s.list.mutex →
      Meets cfg (env, .dumpToFile file block) s L s' := fun i s' hmem h =>
    h.keeps fun hl => not_ghost_of_ne_nil hb.rep (List.ne_nil_of_mem hmem) (hleak.mp hl).2
  refine wp_snDumpToFile hb (fun _ _ => trivial) (fun _ _ _ _ => trivial) (fun err herr => ?_)
    (fun hnone _ s' h => ?_) (fun i _ hmem _ s' h => hkept i s' hmem h) fun i path _ _ hmem _ => ?_
  · refine (quietAt_error err).keeps fun hl => ?_
    rw [(hleak.mp hl).1] at herr
    cases herr
  · exact h.quiet.meets (.scanned (hleak.trans (and_iff_right hnone)))
  · refine hkept i _ hmem ⟨⟨sameList_hit (hb.rep.live_of_mem hmem), rfl, rfl, rfl, rfl⟩, rfl, ?_⟩
    exact fun _ => isFree_release _

/-- Why `sn_mount_file_to_ram` gives up before it allocates, if it does. -/
def mountRefusal (env : Env) (s : Lib) : Option FileName → Option SnErrorCodes
  | none => some .snErrNullPtr
  | some path =>
    if ¬ (env.fopenOk 0 = true ∧ (s.files.lookup path).isSome) then some .snErrFileNotExist
    else if ¬ env.fopenOk 1 then some .snErrFileIo
    else if UInt64.ofNat ((s.files.lookup path).getD []).length = 0 then some .snErrBadSize
    else none

/-- `sn_mount_file_to_ram` gets to allocate the `size` bytes of a file of these bytes. -/
structure Opens (env : Env) (s : Lib) (file : Option FileName) (content : List UInt8)
    (size : UInt64) : Prop where
  refusal : mountRefusal env s file = none
  exists_ok : env.fopenOk 0 = true
  open_ok : env.fopenOk 1 = true
  found : ∃ path, file = some path ∧ s.files.lookup path = some content
  size_eq : size = UInt64.ofNat content.length
  size_ne : size ≠ 0

theorem Opens.size_le {file : Option FileName} {content : List UInt8} {size : UInt64}
    (h : Opens env s file content size) : size.toNat ≤ content.length := by
  rw [h.size_eq, UInt64.toNat_ofNat']
  exact Nat.mod_le _ _

theorem Opens.size_unique {file : Option FileName} {content content' : List UInt8}
    {size size' : UInt64} (h : Opens env s file content size)
    (h' : Opens env s file content' size') : size = size' := by
  obtain ⟨path, rfl, hfound⟩ := h.found
  obtain ⟨path', hpath, hfound'⟩ := h'.found
  obtain rfl : path = path' := Option.some.inj hpath
  obtain rfl : content = content' := Option.some.inj (hfound.symm.trans hfound')
  rw [h.size_eq, h'.size_eq]

/-- The block that `fread` fills from the file, as far as the file is read. -/
structure Buffered (env : Env) (s : Lib) (L : List Addr) (content : List UInt8) (size : UInt64)
    (s' : Lib) (bytes : List UInt8) : Prop where
  granted : Granted env s s' L size bytes
  admitsNode : s.list.AdmitsNode env.node
  unblocked : ¬ Blocks env.tid s.list.mutex
  length : bytes.length = size.toNat
  read : bytes.take env.transferred = (content.take size.toNat).take env.transferred
  errorCode : s'.errorCode = s.errorCode
  files : s'.files = s.files

theorem Buffered.hits_iff {content : List UInt8} {size : UInt64} {bytes : List UInt8}
    (h : Buffered env s L content size s' bytes) (p : Addr) : s'.Hits p ↔ s.Hits p := by
  unfold Lib.Hits keySlot
  rw [h.granted.manager]

/-- `sn_mount_file_to_ram`, with everything that can stop it. -/
theorem wp_snMountFileToRam {E : Stop → Lib → Prop} {Q : Addr → Lib → Prop}
    {file : Option FileName} (hb : Base s L)
    (hblock : Blocks env.tid s.allocMutex ∨
      mountRefusal env s file = none ∧ Blocks env.tid s.list.mutex → ∀ s', E .blocked s')
    (hearly : ∀ err, mountRefusal env s file = some err →
      Q NULL { s with errorCode := err, allocMutex := release s.allocMutex })
    (hcrash : ∀ content size, Opens env s file content size →
      mallocRefusal env s size ≠ none → ∀ s', E (.crash .snErrBadAlloc) s')
    (hnode : ∀ content size, Opens env s file content size → mallocRefusal env s size = none →
      ¬ s.list.AdmitsNode env.node → ∀ s', E (.crash .snErrCatastrophic) s')
    (hfull : ∀ content size s' bytes, Opens env s file content size →
      mallocRefusal env s size = none → Buffered env s L content size s' bytes →
      size.toNat ≤ env.transferred → Q env.block s')
    (hshort : ∀ content size s' bytes, Opens env s file content size →
      mallocRefusal env s size = none → Buffered env s L content size s' bytes →
      env.transferred < size.toNat →
      wp (do
        snFree cfg env.block
        snError .snErrFileIo NULL) env Q E s') :
    wp (snMountFileToRam cfg file) env Q E s := by
  have herror : ∀ err, mountRefusal env s file = some err → wp (snError err NULL) env Q E s := by
    intro err hrefusal
    rw [snError, wp_bind]
    exact wp_snSetLastError (fun hbl => hblock (Or.inl hbl) s) (hearly err hrefusal)
  cases file with
  | none => exact herror _ rfl
  | some path =>
    rw [snMountFileToRam, wp_bind]
    refine wp_fileExists fun found hfile => ?_
    rw [wp_ite]
    refine ⟨fun hno => herror _ (if_pos (hfile.not.mp hno)), fun hyes => ?_⟩
    have hexists := hfile.mp (not_not.mp hyes)
    rw [wp_bind]
    refine wp_fopenRead ?_
    by_cases hok : env.fopenOk 1 = true
    swap
    · rw [if_neg hok]
      refine herror _ ?_
      rw [mountRefusal, if_neg (not_not.mpr hexists), if_pos hok]
    rw [if_pos hok]
    obtain ⟨content, hfound⟩ := Option.isSome_iff_exists.mp hexists.2
    rw [hfound]
    dsimp only
    rw [wp_ite]
    have hrefusal : mountRefusal env s (some path) =
        if UInt64.ofNat content.length = 0 then some .snErrBadSize else none := by
      rw [mountRefusal, if_neg (not_not.mpr hexists), if_neg (not_not.mpr hok), hfound]
      rfl
    refine ⟨fun hzero => herror _ (hrefusal.trans (if_pos hzero)), fun hsize => ?_⟩
    generalize hsz : UInt64.ofNat content.length = size at hrefusal hsize ⊢
    have hopens : Opens env s (some path) content size :=
      ⟨hrefusal.trans (if_neg hsize), hexists.1, hok, ⟨path, rfl, hfound⟩, hsz.symm, hsize⟩
    rw [wp_bind]
    refine wp_snMalloc hb (fun hbl s' => hblock (hbl.imp_right fun h => ⟨hopens.refusal, h.2⟩) s')
      (fun hnone hno => hnode _ _ hopens hnone hno) (fun err herr => ?_)
      fun hnone hnodeOk hmutex l bytes hlen hgr => ?_
    · rw [wp_bind, wp_when]
      refine ⟨fun _ => hcrash _ _ hopens ?_ _, fun hne => absurd rfl hne⟩
      rw [herr]
      exact Option.some_ne_none err
    have hadm : s.heap.Admits env.block size.toNat := (mallocRefusal_eq_none.mp hnone).2.2
    rw [wp_bind, wp_when]
    refine ⟨fun hnull => absurd hnull hadm.ne_null, fun _ => ?_⟩
    rw [wp_bind, wp_ask]
    -- what was read, and the bytes of the block behind it
    have hle := hopens.size_le
    generalize hread : (content.take size.toNat).take env.transferred = read
    have hreadLen : read.length = min env.transferred size.toNat := by
      rw [← hread, List.length_take, List.length_take, min_eq_left hle]
    have hrest : ∀ s₂ bytes₂, Granted env s s₂ L size bytes₂ → bytes₂.length = size.toNat →
        bytes₂.take env.transferred = read → s₂.errorCode = s.errorCode → s₂.files = s.files →
        wp (if read.length ≠ size.toNat then do
            snFree cfg env.block
            snError .snErrFileIo NULL
          else return env.block) env Q E s₂ := by
      intro s₂ bytes₂ hgr₂ hlen₂ hprefix herr hfiles
      have hfilled : Buffered env s L content size s₂ bytes₂ :=
        ⟨hgr₂, hnodeOk, hmutex, hlen₂, hprefix.trans hread.symm, herr, hfiles⟩
      rw [wp_ite]
      constructor
      · intro hne
        exact hshort _ _ _ _ hopens hnone hfilled (by omega)
      · intro heq
        exact hfull _ _ _ _ hopens hnone hfilled (by omega)
    rw [wp_bind, wp_onHeap]
    refine wp_memWrite ?_ (fun hnil => ?_) fun _ => ?_
    · rw [ClientHeap.bytes_place_self, ClientHeap.live_place]
      refine ⟨Or.inl rfl, ?_⟩
      omega
    · refine hrest _ bytes hgr hlen ?_ rfl rfl
      have hzero : env.transferred = 0 := by
        have hpos : size.toNat ≠ 0 := fun h0 => hsize (UInt64.toNat_inj.mp h0)
        rw [hnil, List.length_nil] at hreadLen
        omega
      rw [hzero, List.take_zero, hnil]
    · rw [ClientHeap.bytes_place_self, ClientHeap.place_place]
      have hlen₂ : (read ++ bytes.drop read.length).length = size.toNat := by
        rw [List.length_append, List.length_drop]
        omega
      refine hrest _ (read ++ bytes.drop read.length) ⟨fun hnil => ?_, ?_, rfl, hgr.pushed, ?_, rfl⟩
        hlen₂ ?_ rfl rfl
      · rw [hnil] at hlen₂
        exact hsize (UInt64.toNat_inj.mp hlen₂.symm)
      · rw [hlen₂]
        exact hadm
      · rw [hlen₂, UInt64.ofNat_toNat]
      · rcases Nat.le_total env.transferred size.toNat with hshorter | hall
        · rw [List.take_append_of_le_length (by omega), List.take_of_length_le (by omega)]
        · have hnone : bytes.drop read.length = [] := List.drop_eq_nil_of_le (by omega)
          rw [hnone, List.append_nil, List.take_of_length_le (by omega)]

theorem spec_snMountFileToRam {file : Option FileName} (hb : Base s L) :
    wlp (snMountFileToRam cfg file) env
      (fun _ s' => Meets cfg (env, .mountFileToRam file) s L s') s := by
  have hgranted : ∀ {content size s₁ bytes}, Buffered env s L content size s₁ bytes →
      Changes cfg env (.mountFileToRam file) s L (L ++ [env.node]) s₁ :=
    fun h => .step .start (.granted (Or.inl h.length) h.granted)
  have hmu : ∀ {content size s₁ bytes}, Buffered env s L content size s₁ bytes →
      s₁.list.mutex = release s.list.mutex := fun h => h.granted.pushed.mutex
  have halloc : ∀ {content size s₁ bytes}, Buffered env s L content size s₁ bytes →
      IsFree s.allocMutex → IsFree s₁.allocMutex := by
    intro content size s₁ bytes h hf
    rw [h.granted.allocMutex]
    exact hf
  refine wp_snMountFileToRam hb (fun _ _ => trivial) (fun err _ => (quietAt_error err).keeps id)
    (fun _ _ _ _ _ => trivial) (fun _ _ _ _ _ _ => trivial)
    (fun content size s₁ bytes _ _ h _ => ?_) fun content size s₁ bytes _ _ h _ => ?_
  · refine ⟨_, hgranted h, ?_, halloc h⟩
    rw [hmu h]
    exact .released id
  · -- the file was short: the block is freed again, or an error code is set
    have hb₁ : Base s₁ (L ++ [env.node]) := h.granted.base hb
    have hlast : ∀ L' s₂, Changes cfg env (.mountFileToRam file) s L L' s₂ →
        s₂.list.mutex = release s.list.mutex → (IsFree s.allocMutex → IsFree s₂.allocMutex) →
        wlp (snError .snErrFileIo NULL) env
          (fun _ s' => Meets cfg (env, .mountFileToRam file) s L s') s₂ := by
      intro L' s₂ hc hmu₂ hal
      refine wlp_snError fun s₃ h₃ _ =>
        ⟨L', .step hc (.quiet h₃.quiet), ?_, fun hf => h₃.alloc (hal hf)⟩
      rw [h₃.mutex, hmu₂]
      exact .released id
    rw [wp_bind]
    refine wp_snFree hb₁ (fun _ _ => trivial) (fun _ _ => trivial)
      (fun hnull => absurd hnull h.granted.admits.ne_null) (fun _ _ _ => ?_) fun e s₂ L' h₂ => ?_
    · refine hlast (L ++ [env.node]) _ (.step (hgranted h) (.quiet
        ⟨SameList.mutex _ _, rfl, rfl, rfl, rfl⟩)) ?_ fun _ => isFree_release _
      dsimp only
      rw [scanMutex_of_ne_nil hb₁.rep (by simp), hmu h, release_release]
    · refine hlast L' s₂ (.step (hgranted h) (h₂.trans (Or.inr ⟨rfl, _, rfl⟩))) ?_ fun _ => h₂.alloc
      rw [h₂.mutex, hmu h, release_release]

/-! ### The client's own memory -/

theorem spec_clientMalloc {size : UInt64} :
    wlp (onHeap (platMalloc size)) env
      (fun _ s' => Meets cfg (env, .clientMalloc size) s L s') s := by
  rw [wlp, wp_onHeap]
  refine wp_platMalloc (fun _ => (QuietAt.refl s).keeps id) fun hadm => ?_
  refine ⟨L, .step .start (.clientAlloc rfl ?_ rfl rfl rfl), .kept id, id⟩
  rw [Env.length_junkBytes]
  exact hadm

theorem spec_clientFree {p : Addr} :
    wlp (onHeap (clientReleases p)) env (fun _ s' => Meets cfg (env, .clientFree p) s L s') s := by
  rw [wlp, wp_onHeap, clientReleases, wp_ite]
  refine ⟨fun _ => (QuietAt.refl s).keeps id, fun _ => ?_⟩
  rw [wp_bind, wp_get, wp_bind, wp_when]
  refine ⟨fun _ => trivial, fun hlive => ?_⟩
  exact ⟨L, .step .start (.clientFree rfl (not_not.mp hlive) rfl rfl rfl), .kept id, id⟩

theorem spec_clientWrite {p : Addr} {bytes : List UInt8} :
    wlp (onHeap (memWrite p bytes)) env
      (fun _ s' => Meets cfg (env, .clientWrite p bytes) s L s') s := by
  rw [wlp, wp_onHeap]
  exact wp_memWrite_at (fun _ => (QuietAt.refl s).keeps id) (fun _ _ => trivial)
    fun _ hcovers => ⟨L, .step .start (trans_writeAt hcovers), .kept id, id⟩

/-- **Every completed operation** is a sequence of the changes listed for it. -/
theorem op_spec (op : Op) (hb : Base s L) :
    wlp (op.exec cfg) env (fun _ s' => Meets cfg (env, op) s L s') s := by
  cases op with
  | malloc size => exact wlp_forEffect (spec_snMalloc hb)
  | calloc num size => exact wlp_forEffect (spec_snCalloc hb)
  | realloc ptr newSize => exact wlp_forEffect ((spec_snRealloc hb).imp fun _ _ h => h.1)
  | mallocPreInitialized size v => exact wlp_forEffect (spec_snMallocPreInitialized hb)
  | free ptr => exact spec_snFree hb
  | doAutoFreeAtExit val =>
    show wlp (snDoAutoFreeAtExit val) env _ s
    rw [wlp, snDoAutoFreeAtExit, wp_bind, wp_lockAlloc]
    refine ⟨fun _ => ?_, fun _ => trivial⟩
    rw [wp_bind, wp_modify, wp_unlockAlloc]
    exact QuietAt.keeps ⟨⟨SameList.refl _, rfl, rfl, rfl, rfl⟩, rfl, fun _ => isFree_release _⟩ id
  | register ptr => exact wlp_forEffect (spec_snRegister hb)
  | registerSize ptr size => exact wlp_forEffect (spec_snRegisterSize hb)
  | querySize ptr => exact wlp_forEffect (spec_snQuerySize hb)
  | queryTid ptr => exact wlp_forEffect (spec_snQueryTid hb)
  | isTrackedBlock ptr => exact wlp_forEffect (spec_snIsTrackedBlock hb)
  | setBlockId block id => exact spec_snSetBlockId hb
  | getBlockId block => exact wlp_forEffect (spec_snGetBlockId hb)
  | queryBlockId id => exact wlp_forEffect (spec_snQueryBlockId hb)
  | queryMetadata ptr => exact wlp_forEffect (spec_snQueryMetadata hb)
  | queryStaticMetadata ptr => exact wlp_forEffect (spec_snQueryStaticMetadata hb)
  | setAllocLimit limit => exact QuietAt.keeps ⟨⟨SameList.refl _, rfl, rfl, rfl, rfl⟩, rfl, id⟩ id
  | queryThreadMemoryUsage tid => exact wlp_forEffect (spec_snQueryThreadMemoryUsage hb)
  | queryTotalMemoryUsage => exact (QuietAt.refl s).keeps id
  | calculateChecksum block => exact wlp_forEffect (spec_snCalculateChecksum hb)
  | memMetadataForEach worker g => exact wlp_forEffect (spec_snMemMetadataForEach hb)
  | requestToFastCache ptr => exact wlp_forEffect (spec_snRequestToFastCache hb)
  | lockFastCache => exact QuietAt.keeps ⟨⟨SameList.refl _, rfl, rfl, rfl, rfl⟩, rfl, id⟩ id
  | unlockFastCache => exact QuietAt.keeps ⟨⟨SameList.refl _, rfl, rfl, rfl, rfl⟩, rfl, id⟩ id
  | doFastCaching val => exact QuietAt.keeps ⟨⟨SameList.refl _, rfl, rfl, rfl, rfl⟩, rfl, id⟩ id
  | fastCacheClear => exact spec_snFastCacheClear
  | dumpToFile file block => exact wlp_forEffect (spec_snDumpToFile hb)
  | mountFileToRam file => exact wlp_forEffect (spec_snMountFileToRam hb)
  | getLastError => exact (QuietAt.refl s).keeps id
  | resetLastError => exact QuietAt.keeps ⟨⟨SameList.refl _, rfl, rfl, rfl, rfl⟩, rfl, id⟩ id
  | clientMalloc size => exact wlp_forEffect spec_clientMalloc
  | clientFree ptr => exact spec_clientFree
  | clientWrite ptr bytes => exact spec_clientWrite

end Meets

end LibSafetynet
