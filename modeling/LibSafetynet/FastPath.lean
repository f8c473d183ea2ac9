import LibSafetynet.CachePlaces

/-!
# The fast path against the slow path

Six operations answer from the cache when they can and from the list otherwise.
On the list path the expansion of `sn_error` after an unbraced `if` returns the
default even when the entry was found. So the two paths never agree on a block
the cache answers for, and they agree on a tracked block exactly when no slot is
for it, neither before the call nor after its automatic pass, and that pass reads
no node that is gone (`Unanswered`, `paths_agree_iff_no_hit`).
-/

namespace LibSafetynet

open Logic Prog PlatMutex ListState AllocManager

/-- The manager with the cache not in use. -/
def AllocManager.unused (m : AllocManager) : AllocManager := { m with useCache := false }

/-- The same state with the cache not in use. -/
def Lib.slowPath (s : Lib) : Lib := { s with manager := s.manager.unused }

/-- Some entry tracks the block at `p`. -/
def Tracked (s : Lib) (p : Addr) : Prop := ∃ a ∈ s.list.entries, (nodeAt s.list.nodes a).data = p

/-- What is compared of a call that returns: its result, the tracked entries and the last
error code. -/
def seen {α : Type} : Outcome Stop Lib α → Option (α × List Item × SnErrorCodes)
  | .done a s => some (a, s.list.entries.map (item s.list), s.errorCode)
  | .stop _ _ => none

/-- The call returns with the cache in use and not, and both look the same. -/
def Agrees {α : Type} (m : CProg Lib α) (s : Lib) : Prop :=
  ∀ env, ∃ v, seen (m env s) = some v ∧ seen (m env s.slowPath) = some v

/-- All six operations on the block `p` end alike. -/
structure PathsAgree (s : Lib) (p : Addr) : Prop where
  queryTid : Agrees (snQueryTid p) s
  getBlockId : Agrees (snGetBlockId p) s
  queryMetadata : Agrees (snQueryMetadata p) s
  calculateChecksum : Agrees (snCalculateChecksum p) s
  setBlockId : ∀ id, Agrees (snSetBlockId p id) s
  dumpToFile : ∀ file, Agrees (snDumpToFile file p) s

/-- The pass over the state leaves `a` in slot `i`. -/
def Lib.Leaves (s : Lib) (a : Addr) (i : Slot) : Prop :=
  LeftIn (s.list.nodes, s.manager) (lights (s.list.nodes, s.manager) s.list.entries) a i

/-- No slot is for `p`, and a pass over the state leaves none for it. -/
structure Unanswered (s : Lib) (p : Addr) : Prop where
  safe : PassSafe (s.list.nodes, s.manager) s.list.entries
  before : s.manager.useCache = true → p ≠ NULL → ∀ i, (s.manager.cacheList i).key ≠ p
  after : s.manager.useCache = true → p ≠ NULL → ∀ a ∈ s.list.entries, ∀ i, s.Leaves a i →
    (nodeAt s.list.nodes a).data ≠ p

instance (s : Lib) (p : Addr) : Decidable (Tracked s p) :=
  inferInstanceAs (Decidable (∃ a ∈ s.list.entries, _))

instance (s : Lib) (a : Addr) (i : Slot) : Decidable (s.Leaves a i) :=
  inferInstanceAs (Decidable (LeftIn _ _ a i))

instance (s : Lib) (p : Addr) : Decidable (Unanswered s p) :=
  decidable_of_iff (PassSafe (s.list.nodes, s.manager) s.list.entries ∧
    (s.manager.useCache = true → p ≠ NULL → ∀ i, (s.manager.cacheList i).key ≠ p) ∧
      (s.manager.useCache = true → p ≠ NULL → ∀ a ∈ s.list.entries, ∀ i, s.Leaves a i →
        (nodeAt s.list.nodes a).data ≠ p))
    ⟨fun h => ⟨h.1, h.2.1, h.2.2⟩, fun h => ⟨h.safe, h.before, h.after⟩⟩

/-! ## Calls that do not look at the switch -/

section Alike

variable {env : Env} {s : Lib} {α : Type}

theorem seen_map (o : Outcome Stop Lib α) : seen (o.map id Lib.slowPath) = seen o := by
  cases o <;> rfl

/-- A call that returns, and does not look at the switch. -/
theorem Agrees.of_alike {m : CProg Lib α}
    (hreturns : ∀ env, wp m env (fun _ _ => True) (fun _ _ => False) s)
    (halike : ∀ env, m env s.slowPath = (m env s).map id Lib.slowPath) : Agrees m s := by
  intro env
  obtain ⟨a, t, hdone, -⟩ := (hreturns env).exists_done
  refine ⟨(a, t.list.entries.map (item t.list), t.errorCode), ?_, ?_⟩
  · rw [hdone]
    rfl
  · rw [halike, seen_map, hdone]
    rfl

theorem onList_slow (m : CProg ListState α) :
    onList m env s.slowPath = (onList m env s).map id Lib.slowPath :=
  zoom_map (Outcome.map_id_id _).symm rfl fun _ => rfl

theorem lockAlloc_slow : lockAlloc env s.slowPath = (lockAlloc env s).map id Lib.slowPath :=
  zoom_map (Outcome.map_id_id _).symm rfl fun _ => rfl

theorem unlockAlloc_slow : unlockAlloc env s.slowPath = (unlockAlloc env s).map id Lib.slowPath :=
  zoom_map (Outcome.map_id_id _).symm rfl fun _ => rfl

theorem snSetLastError_slow (err : SnErrorCodes) :
    snSetLastError err env s.slowPath = (snSetLastError err env s).map id Lib.slowPath := by
  unfold snSetLastError
  refine bind_map lockAlloc_slow fun _ s₁ _ => ?_
  refine bind_map (f := id) rfl fun _ s₂ _ => unlockAlloc_slow

theorem snError_slow (err : SnErrorCodes) (ret : α) :
    snError err ret env s.slowPath = (snError err ret env s).map id Lib.slowPath :=
  bind_map (snSetLastError_slow err) fun _ _ _ => rfl

/-! ### The automatic pass -/

theorem memmanPickSlot_unused (m : AllocManager) (rest : List Slot) :
    memmanPickSlot m.unused rest = memmanPickSlot m rest := by
  induction rest with
  | nil => rfl
  | cons i rest ih =>
    rw [memmanPickSlot, memmanPickSlot, ih]
    rfl

section ForEach

variable {β γ : Type} {g : β → γ} {worker : LinkedListForEachWorker β}
  {worker' : LinkedListForEachWorker γ}

theorem linkedListForEachLoop_map
    (h : ∀ a i b env l, worker' a i (g b) env l = (worker a i b env l).map (Prod.map id g) id)
    (fuel : Nat) (entry : Addr) (i : Nat) (b : β) (l : ListState) :
    linkedListForEachLoop worker' fuel entry i (g b) env l
      = (linkedListForEachLoop worker fuel entry i b env l).map (Prod.map id g) id := by
  induction fuel generalizing entry i b l with
  | zero => rfl
  | succ fuel ih =>
    rw [linkedListForEachLoop, linkedListForEachLoop]
    by_cases hnull : entry = NULL
    · rw [if_pos hnull, if_pos hnull]
      exact bind_map (f := id) (g := id) (Outcome.map_id_id _).symm fun _ _ _ => rfl
    rw [if_neg hnull, if_neg hnull]
    refine bind_map (f := id) (g := id) (Outcome.map_id_id _).symm fun e l₁ _ => ?_
    refine bind_map (g := id) (h entry i b env l₁) fun ret l₂ _ => ?_
    refine bind_map (f := id) (g := id) (Outcome.map_id_id _).symm fun _ l₃ _ => ?_
    show (if ret.1 ≠ NULL then _ else _ : CProg ListState (Addr × γ)) env l₃ = _
    by_cases hret : ret.1 ≠ NULL
    · rw [if_pos hret, if_pos hret]
      exact bind_map (f := id) (g := id) (Outcome.map_id_id _).symm fun _ _ _ => rfl
    · rw [if_neg hret, if_neg hret]
      exact ih e.next (i + 1) ret.2 l₃

/-- A worker that treats `g b` as it treats `b` makes the scan do so. -/
theorem linkedListForEach_map
    (h : ∀ a i b env l, worker' a i (g b) env l = (worker a i b env l).map (Prod.map id g) id)
    (b : β) (l : ListState) :
    linkedListForEach worker' (g b) env l =
      (linkedListForEach worker b env l).map (Prod.map id g) id := by
  unfold linkedListForEach
  refine bind_map (f := id) (g := id) (Outcome.map_id_id _).symm fun list l₁ _ => ?_
  dsimp only [id]
  by_cases hlen : list.len = 0
  · rw [if_pos hlen, if_pos hlen]
    rfl
  rw [if_neg hlen, if_neg hlen]
  refine bind_map (f := id) (g := id) (Outcome.map_id_id _).symm fun _ l₂ _ => ?_
  refine bind_map (f := id) (g := id) (Outcome.map_id_id _).symm fun _ l₃ _ => ?_
  refine bind_map (f := id) (g := id) (Outcome.map_id_id _).symm fun isHead l₄ _ => ?_
  dsimp only [id]
  by_cases hhead : isHead = true
  · rw [if_pos hhead, if_pos hhead]
    rfl
  rw [if_neg hhead, if_neg hhead]
  refine bind_map (f := id) (g := id) (Outcome.map_id_id _).symm fun _ l₅ _ => ?_
  exact linkedListForEachLoop_map h _ _ _ _ _

end ForEach

theorem memmanCacheAlgorithmWorker_unused (a : Addr) (i : Nat) (m : AllocManager) (env : Env)
    (l : ListState) : memmanCacheAlgorithmWorker a i m.unused env l
      = (memmanCacheAlgorithmWorker a i m env l).map (Prod.map id AllocManager.unused) id := by
  unfold memmanCacheAlgorithmWorker
  refine bind_map (f := id) (g := id) (Outcome.map_id_id _).symm fun e l₁ _ => ?_
  dsimp only [id]
  by_cases hw : e.weight ≤ 10
  · rw [if_pos hw, if_pos hw]
    refine bind_map (f := id) (g := id) (Outcome.map_id_id _).symm fun _ l₂ _ => ?_
    rw [memmanPickSlot_unused]
    refine bind_map (f := id) (g := id) (Outcome.map_id_id _).symm fun slot l₃ _ => ?_
    cases slot with
    | none => rfl
    | some j =>
      refine bind_map (f := id) (g := id) (Outcome.map_id_id _).symm fun _ l₄ _ => ?_
      exact bind_map (f := id) (g := id) (Outcome.map_id_id _).symm fun _ _ _ => rfl
  · rw [if_neg hw, if_neg hw]
    rfl

theorem memmanWork_slow : memmanWork env s.slowPath = (memmanWork env s).map id Lib.slowPath := by
  unfold memmanWork
  refine bind_map lockAlloc_slow fun _ s₁ _ => ?_
  refine bind_map (f := AllocManager.unused) rfl fun m s₂ _ => ?_
  refine bind_map (f := Prod.map id AllocManager.unused) ?_ fun ret s₃ _ => ?_
  · refine zoom_map ?_ rfl fun _ => rfl
    exact linkedListForEach_map memmanCacheAlgorithmWorker_unused m s₂.list
  · refine bind_map (f := id) rfl fun _ s₄ _ => ?_
    exact unlockAlloc_slow

/-! ### The shared lookup without a hit -/

variable {p : Addr} {L : List Addr}

/-- Without a hit the cache lookup changes nothing. -/
theorem memmanTryCacheHit_miss (hmiss : ¬ s.Hits p) (hfree : IsFree s.allocMutex) :
    memmanTryCacheHit p env s = .done memmanCacheMiss s := by
  have hspec : wp (memmanTryCacheHit p) env (fun v s' => v = memmanCacheMiss ∧ s' = s)
      (fun _ _ => False) s := by
    refine wp_memmanTryCacheHit (fun _ => ⟨rfl, rfl⟩) (fun _ hb => ?_) (fun _ _ => ⟨rfl, ?_⟩)
      (fun huse i hslot => ?_) fun huse i hslot => ?_
    · exact absurd hb (hfree.not_blocks _)
    · rw [hfree.release_eq]
    · exact absurd (hits_of_keySlot huse hslot) hmiss
    · exact absurd (hits_of_keySlot huse hslot) hmiss
  obtain ⟨v, s', hdone, rfl, rfl⟩ := hspec.exists_done
  exact hdone

theorem not_hits_slow : ¬ s.slowPath.Hits p := fun h => Bool.false_ne_true h.1

theorem cacheOrListByPtr_slow {ret : α} {body : Addr → CProg Lib α} (hmiss : ¬ s.Hits p)
    (hfree : IsFree s.allocMutex) :
    cacheOrListByPtr p ret body env s.slowPath
      = (cacheOrListByPtr p ret body env s).map id Lib.slowPath := by
  unfold cacheOrListByPtr cacheOrList
  have hfast : memmanTryCacheHit p env s = .done memmanCacheMiss s :=
    memmanTryCacheHit_miss hmiss hfree
  have hslow : memmanTryCacheHit p env s.slowPath = .done memmanCacheMiss s.slowPath :=
    memmanTryCacheHit_miss not_hits_slow hfree
  refine bind_map (f := id) ?_ fun entry s₁ h₁ => ?_
  · rw [hfast, hslow]
    rfl
  · rw [hfast] at h₁
    obtain ⟨rfl, rfl⟩ := Outcome.done.inj h₁
    rw [if_pos rfl]
    dsimp only [id]
    rw [if_pos rfl]
    refine bind_map (onList_slow _) fun found s₂ _ => ?_
    refine bind_map (f := id) ?_ fun _ _ _ => rfl
    dsimp only [id]
    unfold when
    split_ifs
    · exact snSetLastError_slow _
    · rfl

/-- After the pass, which ends in the same way on both paths. -/
theorem memmanWork_then_slow {rest : CProg Lib α}
    (h : ∀ w, memmanWork env s = .done () w →
      rest env w.slowPath = (rest env w).map id Lib.slowPath) :
    (do memmanWork; rest) env s.slowPath = ((do memmanWork; rest) env s).map id Lib.slowPath :=
  bind_map memmanWork_slow fun _ w hw => h w hw

theorem memmanWork_done {w : Lib} (hb : Base s L) (h : memmanWork env s = .done () w) :
    w = s.worked env L := by
  have hspec : wlp memmanWork env (fun _ w => w = s.worked env L) s := wlp_memmanWork hb rfl
  exact (wp_of_done h).mp hspec

theorem fileExists_slow (path : FileName) :
    fileExists path env s.slowPath = (fileExists path env s).map id Lib.slowPath := by
  refine bind_map (f := id) ?_ fun _ _ _ => rfl
  refine bind_map (f := id) rfl fun e _ _ => ?_
  dsimp only [id]
  split_ifs
  · rfl
  · rfl

/-! ### The six operations on a block the cache does not answer for -/

theorem isFree_worked (hb : Base s L) (hL : L ≠ []) : IsFree (s.worked env L).list.mutex := by
  rw [mutex_worked, scanMutex_of_ne_nil hb.rep hL]
  exact isFree_release _

/-- A pass that reads no node that is gone returns, with an entry in the list. -/
theorem wp_work_returns {rest : CProg Lib α} {E : Stop → Lib → Prop} {Q : α → Lib → Prop}
    (hb : Base s L) (hu : Unlocked s L) (hL : L ≠ [])
    (hsafe : PassSafe (s.list.nodes, s.manager) L) (hrest : wp rest env Q E (s.worked env L)) :
    wp (do memmanWork; rest) env Q E s := by
  rw [wp_bind]
  refine wp_memmanWork_exact hb.rep (fun hbl _ => ?_) (fun h => absurd hsafe h) fun _ _ _ => hrest
  rcases hbl with halloc | hlist
  · exact absurd halloc (hu.alloc.not_blocks _)
  · exact absurd hlist.2 ((hu.list hL).not_blocks _)

theorem snError_returns (err : SnErrorCodes) (ret : α) (hfree : IsFree s.allocMutex) :
    wp (snError err ret) env (fun _ _ => True) (fun _ _ => False) s := by
  rw [snError, wp_bind]
  exact wp_snSetLastError (fun hbl => absurd hbl (hfree.not_blocks _)) trivial

/-- The shared lookup returns from the list. -/
theorem cacheOrListByPtr_returns {ret : α} {body : Addr → CProg Lib α} (hb : Base s L)
    (hp : p ≠ NULL) (hmiss : ¬ s.Hits p) (hfree : IsFree s.allocMutex)
    (hlist : IsFree s.list.mutex) :
    wp (cacheOrListByPtr p ret body) env (fun _ _ => True) (fun _ _ => False) s := by
  refine wp_cacheOrListByPtr hb hp (fun hbl => ?_)
    (fun i huse hslot => absurd (hits_of_keySlot huse hslot) hmiss) (fun _ _ _ => trivial)
    fun i huse hslot => absurd (hits_of_keySlot huse hslot) hmiss
  rcases hbl with halloc | ⟨-, -, hblocks⟩
  · exact absurd halloc (hfree.not_blocks _)
  · exact absurd hblocks (hlist.not_blocks _)

/-- After the pass, a block that the cache does not answer for. -/
structure PassMisses (s : Lib) (L : List Addr) (p : Addr) : Prop where
  base : Base s L
  unlocked : Unlocked s L
  ne_nil : L ≠ []
  safe : PassSafe (s.list.nodes, s.manager) L
  misses : ∀ env, ¬ (s.worked env L).Hits p

/-- Four of the operations look the block up right after the null check. -/
theorem PassMisses.agrees (h : PassMisses s L p) {ret ret' : α} {body : Addr → CProg Lib α} :
    Agrees (do
      memmanWork
      if p = NULL then snError .snErrNullPtr ret else cacheOrListByPtr p ret' body) s := by
  refine .of_alike (fun env => ?_) fun env => ?_
  · refine wp_work_returns h.base h.unlocked h.ne_nil h.safe ?_
    split_ifs with hp
    · exact snError_returns _ _ (isFree_release _)
    · exact cacheOrListByPtr_returns (base_worked h.base) hp (h.misses env) (isFree_release _)
        (isFree_worked h.base h.ne_nil)
  · refine memmanWork_then_slow fun w hw => ?_
    split_ifs
    · exact snError_slow _ _
    · obtain rfl := memmanWork_done h.base hw
      exact cacheOrListByPtr_slow (h.misses env) (isFree_release _)

theorem PassMisses.agrees_setBlockId (h : PassMisses s L p) (id : UInt16) :
    Agrees (snSetBlockId p id) s := by
  refine .of_alike (fun env => ?_) fun env => ?_
  · refine wp_work_returns h.base h.unlocked h.ne_nil h.safe ?_
    split_ifs with hp
    · exact snError_returns _ _ (isFree_release _)
    · exact snError_returns _ _ (isFree_release _)
    · exact cacheOrListByPtr_returns (base_worked h.base) hp (h.misses env) (isFree_release _)
        (isFree_worked h.base h.ne_nil)
  · refine memmanWork_then_slow fun w hw => ?_
    split_ifs
    · exact snError_slow _ _
    · exact snError_slow _ _
    · obtain rfl := memmanWork_done h.base hw
      exact cacheOrListByPtr_slow (h.misses env) (isFree_release _)

/-- `sn_dump_to_file` looks the block up without a pass. -/
theorem agrees_dumpToFile (hb : Base s L) (hu : Unlocked s L) (hL : L ≠ []) (hmiss : ¬ s.Hits p)
    (file : Option FileName) : Agrees (snDumpToFile file p) s := by
  have hno : ∀ {env i}, DumpsFrom env s p file i → ¬ s.Hits p → False := fun h hmiss =>
    hmiss (hits_of_keySlot h.use h.slot)
  refine .of_alike (fun env => ?_) fun env => ?_
  · refine wp_snDumpToFile hb (fun hbl => ?_) (fun i h => absurd hmiss fun hm => hno h hm)
      (fun _ _ => trivial) (fun _ _ _ _ => trivial) (fun _ _ _ _ _ _ => trivial)
      fun _ _ _ _ _ _ => trivial
    -- with an entry in the list both mutexes are free
    rcases hbl with halloc | ⟨-, -, -, hblocks⟩
    · exact absurd halloc (hu.alloc.not_blocks _)
    · exact absurd hblocks ((hu.list hL).not_blocks _)
  · unfold snDumpToFile
    cases file with
    | none => exact snError_slow _ _
    | some path =>
      dsimp only
      split_ifs
      · exact snError_slow _ _
      refine bind_map (fileExists_slow path) fun found s₁ h₁ => ?_
      have hsame : wlp (fileExists path) env (fun _ s' => s' = s) s := wp_fileExists fun _ _ => rfl
      obtain rfl : s₁ = s := (wp_of_done h₁).mp hsame
      dsimp only [id]
      split_ifs
      · exact snError_slow _ _
      · exact cacheOrListByPtr_slow hmiss hu.alloc

theorem pathsAgree_of_misses (h : PassMisses s L p) (hmiss : ¬ s.Hits p) : PathsAgree s p where
  queryTid := h.agrees
  getBlockId := h.agrees
  queryMetadata := h.agrees
  calculateChecksum := h.agrees
  setBlockId := h.agrees_setBlockId
  dumpToFile := agrees_dumpToFile h.base h.unlocked h.ne_nil hmiss

end Alike

/-! ## The two paths apart -/

section Apart

variable {env : Env} {s : Lib} {L : List Addr} {p : Addr}

/-- With the cache not in use the shared lookup only ever returns the default. -/
theorem wlp_cacheOrListByPtr_unused {α : Type} {ret : α} {body : Addr → CProg Lib α}
    (hb : Base s L) (hp : p ≠ NULL) (hoff : s.manager.useCache = false) :
    wlp (cacheOrListByPtr p ret body) env (fun a _ => a = ret) s := by
  have hmiss : ¬ s.Hits p := fun hhit => Bool.false_ne_true (hoff.symm.trans hhit.1)
  exact wp_cacheOrListByPtr hb hp (fun _ _ => trivial) (fun _ _ _ _ _ => trivial) (fun _ _ _ => rfl)
    fun i huse hslot => absurd (hits_of_keySlot huse hslot) hmiss

/-- On a hit the shared lookup runs the body on an entry. -/
theorem wlp_cacheOrListByPtr_hit {α : Type} {ret : α} {body : Addr → CProg Lib α}
    {Q : α → Lib → Prop} (hb : Base s L) (hhit : s.Hits p)
    (hbody : ∀ v s', v ∈ L → wlp (body v) env Q s') : wlp (cacheOrListByPtr p ret body) env Q s :=
  wp_cacheOrListByPtr hb hhit.ne_null (fun _ _ => trivial) (fun _ _ _ _ _ => trivial)
    (fun hmiss => absurd hhit hmiss) fun _ _ _ hmem _ => hbody _ _ hmem

/-- Two calls that return alike have a common result. -/
theorem Agrees.clash {α : Type} {m : CProg Lib α} {V W : α → Prop} (env : Env) (h : Agrees m s)
    (hs : wlp m env (fun a _ => V a) s) (hs' : wlp m env (fun a _ => W a) s.slowPath)
    (hVW : ∀ a, V a → ¬ W a) : False := by
  obtain ⟨v, hv, hv'⟩ := h env
  cases hm : m env s with
  | stop e t =>
    rw [hm] at hv
    cases hv
  | done a t =>
    cases hm' : m env s.slowPath with
    | stop e t =>
      rw [hm'] at hv'
      cases hv'
    | done a' t' =>
      rw [hm] at hv
      rw [hm', ← hv] at hv'
      obtain rfl : a' = a := congrArg Prod.fst (Option.some.inj hv')
      exact hVW a' ((wp_of_done hm).mp hs) ((wp_of_done hm').mp hs')

theorem Base.slow (hb : Base s L) : Base s.slowPath L := ⟨hb.rep, hb.slot⟩

/-- A call that begins with the pass returns only if the pass does. -/
theorem Agrees.worked {α : Type} {k : Unit → CProg Lib α} (hb : Base s L)
    (h : Agrees (memmanWork >>= k) s) (env : Env) :
    memmanWork env s = .done () (s.worked env L) ∧ PassSafe (s.list.nodes, s.manager) L := by
  obtain ⟨v, hv, -⟩ := h env
  have hpass : wlp memmanWork env
      (fun _ w => w = s.worked env L ∧ PassSafe (s.list.nodes, s.manager) L) s :=
    wp_memmanWork_exact hb.rep (fun _ _ => trivial) (fun _ _ => trivial) fun _ _ hsafe =>
      ⟨rfl, hsafe⟩
  cases hw : memmanWork env s with
  | stop e t =>
    rw [run_bind_stop hw] at hv
    cases hv
  | done u w =>
    obtain ⟨rfl, hsafe⟩ := (wp_of_done hw).mp hpass
    exact ⟨rfl, hsafe⟩

/-- After the pass the cache answers: `sn_query_metadata` finds the entry on the
fast path and returns null on the slow one. -/
theorem no_hit_after_pass (env : Env) (hb : Base s L) (hagree : Agrees (snQueryMetadata p) s) :
    ¬ (s.worked env L).Hits p := by
  intro hhit
  have hp := hhit.ne_null
  have hw := (hagree.worked hb env).1
  have hslow : memmanWork env s.slowPath = .done () (s.worked env L).slowPath := by
    rw [memmanWork_slow, hw]
    rfl
  have hb₁ : Base (s.worked env L) L := base_worked hb
  -- a pointer into a node is never null
  refine hagree.clash (V := (· ≠ NULL)) (W := (· = NULL)) env ?_ ?_ fun a ha ha' => ha ha'
  · rw [wlp, snQueryMetadata, wp_bind, wp_of_done hw, wp_ite]
    refine ⟨fun h0 => absurd h0 hp, fun _ => ?_⟩
    exact wlp_cacheOrListByPtr_hit hb₁ hhit fun v _ _ => Nat.succ_ne_zero _
  · rw [wlp, snQueryMetadata, wp_bind, wp_of_done hslow, wp_ite]
    exact ⟨fun h0 => absurd h0 hp, fun _ => wlp_cacheOrListByPtr_unused hb₁.slow hp rfl⟩

/-- Before the call the cache answers: `sn_dump_to_file` writes the block on the
fast path and returns false on the slow one. -/
theorem no_hit_before (hb : Base s L) (hagree : ∀ file, Agrees (snDumpToFile file p) s) :
    ¬ s.Hits p := by
  intro hhit
  have hp := hhit.ne_null
  -- a platform on which no file exists, and every write goes through
  let env : Env := { Env.plain 1 0 0 with fopenOk := fun n => decide (n = 1) }
  have hno : ∀ s' : Lib, fileExists [] env s' = .done false s' := fun _ => rfl
  refine (hagree (some [])).clash (V := (· = true)) (W := (· = false)) env ?_ ?_
    fun a ha ha' => ?_
  · refine wp_snDumpToFile hb (fun _ _ => trivial) (fun _ _ _ _ => trivial)
      (fun err herr => ?_) (fun _ hmiss => absurd hhit hmiss) (fun i _ _ hshort => ?_)
      fun _ _ _ _ _ _ => rfl
    · rw [dumpRefusal, if_neg hp, if_neg fun h => Bool.false_ne_true h.1] at herr
      cases herr
    · -- nothing larger than the address space is asked for
      exact absurd ⟨rfl, Nat.le_of_lt (UInt64.toNat_lt _)⟩ hshort
  · rw [wlp, snDumpToFile, wp_ite]
    refine ⟨fun h0 => absurd h0 hp, fun _ => ?_⟩
    rw [wp_bind, wp_of_done (hno _), wp_ite]
    refine ⟨fun h => absurd h Bool.false_ne_true, fun _ => ?_⟩
    exact wlp_cacheOrListByPtr_unused hb.slow hp rfl
  · rw [ha] at ha'
    cases ha'

end Apart

/-! ## The condition -/

section Condition

variable {env : Env} {s : Lib} {L : List Addr} {p : Addr}

theorem hits_iff : s.Hits p ↔
    s.manager.useCache = true ∧ p ≠ NULL ∧ ∃ i, (s.manager.cacheList i).key = p := by
  refine and_congr_right fun _ => ?_
  rw [ne_eq, keySlot_eq_none]
  push Not
  constructor
  · rintro ⟨i, hne, hi⟩
    exact ⟨hi ▸ hne, i, hi⟩
  · rintro ⟨hne, i, hi⟩
    exact ⟨i, hi ▸ hne, hi⟩

/-- Without a slot for `p` before it, a pass ends with one for `p` only where it leaves an entry
for `p`. -/
theorem hits_worked_iff (hb : Base s L) (hmiss : ¬ s.Hits p) : (s.worked env L).Hits p ↔
    s.manager.useCache = true ∧ p ≠ NULL ∧
      ∃ a ∈ s.list.entries, ∃ i, s.Leaves a i ∧ (nodeAt s.list.nodes a).data = p := by
  have huse : (s.worked env L).manager.useCache = s.manager.useCache := by
    rw [(refilled_worked hb.rep).rest]
  unfold Lib.Leaves
  rw [hits_iff, huse, hb.rep.entries_eq]
  refine and_congr_right fun hon => and_congr_right fun hp => ?_
  have hslot : ∀ i pair, After (s.list.nodes, s.manager) L i pair ↔
      (s.worked env L).manager.cacheList i = pair := fun i pair => after_iff
  constructor
  · rintro ⟨i, hi⟩
    have hpair := (hslot i _).mpr rfl
    generalize (s.worked env L).manager.cacheList i = pair at hi hpair
    -- a slot that the pass left alone would have answered before
    cases hpair with
    | left ha => exact ⟨_, (mem_lights.mp ha.mem).1, i, ha, hi⟩
    | kept _ => exact absurd (hits_iff.mpr ⟨hon, hp, i, hi⟩) hmiss
  · rintro ⟨a, -, i, hleft, hdata⟩
    refine ⟨i, ?_⟩
    rw [(hslot i _).mp (.left hleft)]
    exact hdata

end Condition

/-- **When the two paths agree.** In a reachable state all six operations on a tracked block
return, and alike with the cache in use and not, exactly when no slot is for it, neither as
the slots are nor as the automatic pass leaves them, and the pass reads no node that is gone. -/
theorem paths_agree_iff_no_hit {cfg : Config} {s : Lib} {p : Addr} (hs : Reachable cfg s)
    (htracked : Tracked s p) : PathsAgree s p ↔ Unanswered s p := by
  obtain ⟨L, hb, hu⟩ := hs.base
  have hL : L ≠ [] := by
    obtain ⟨a, ha, -⟩ := htracked
    exact List.ne_nil_of_mem (hb.rep.entries_eq ▸ ha)
  constructor
  · intro h
    have hmiss := no_hit_before hb h.dumpToFile
    constructor
    · rw [hb.rep.entries_eq]
      exact (h.queryTid.worked hb (Env.plain 1 0 0)).2
    · exact fun hon hp i hi => hmiss (hits_iff.mpr ⟨hon, hp, i, hi⟩)
    · intro hon hp a ha i hleft hdata
      exact no_hit_after_pass (Env.plain 1 0 0) hb h.queryMetadata
        ((hits_worked_iff hb hmiss).mpr ⟨hon, hp, a, ha, i, hleft, hdata⟩)
  · rintro ⟨hsafe, hbefore, hafter⟩
    rw [hb.rep.entries_eq] at hsafe
    have hmiss : ¬ s.Hits p := by
      intro hhit
      obtain ⟨hon, hp, i, hi⟩ := hits_iff.mp hhit
      exact hbefore hon hp i hi
    refine pathsAgree_of_misses ⟨hb, hu, hL, hsafe, fun env hhit => ?_⟩ hmiss
    obtain ⟨hon, hp, a, ha, i, hleft, hdata⟩ := (hits_worked_iff hb hmiss).mp hhit
    exact hafter hon hp a ha i hleft hdata

/-- Two blocks and a cache in use: the pass stores the first one and puts the second in its
place, so all six operations on the first one go by the list. -/
theorem paths_agree_iff_no_hit_at :
    ∃ s, Reachable ⟨false⟩ s ∧ s.list.entries = [128, 192] ∧ s.manager.useCache = true ∧
      s.Leaves 192 0 ∧ PathsAgree s 4096 := by
  have hsome : (((doinit (Env.plain 1 64 0) .blank).done?.bind (run (libStep ⟨false⟩)
      [(Env.plain 1 128 4096, .malloc 8), (Env.plain 1 192 8192, .malloc 8)])).map fun s =>
        (s.list.entries, s.manager.useCache, decide (s.Leaves 192 0), decide (Tracked s 4096),
          decide (Unanswered s 4096))) = some ([128, 192], true, true, true, true) := by
    decide +kernel
  obtain ⟨s, hs, hval⟩ := Option.map_eq_some_iff.mp hsome
  obtain ⟨s₀, h₀, hrun⟩ := Option.bind_eq_some_iff.mp hs
  obtain ⟨hentries, hval⟩ := Prod.mk.inj hval
  obtain ⟨hon, hval⟩ := Prod.mk.inj hval
  obtain ⟨hleaves, hval⟩ := Prod.mk.inj hval
  obtain ⟨htracked, hun⟩ := Prod.mk.inj hval
  have hreach : Reachable ⟨false⟩ s := ⟨s₀, _, started_of_done h₀, hrun⟩
  exact ⟨s, hreach, hentries, hon, of_decide_eq_true hleaves,
    (paths_agree_iff_no_hit hreach (of_decide_eq_true htracked)).mpr (of_decide_eq_true hun)⟩

/-- A block just allocated by thread 1: `sn_query_tid` answers 1 with the cache in
use and 0 without, with no error in either case. -/
theorem query_tid_by_path :
    ((doinit (Env.plain 1 64 0) .blank).done?.bind (run (libStep ⟨false⟩)
      [(Env.plain 1 128 4096, .malloc 8)])).map (fun s =>
        (s.list.entries.map fun a => (nodeAt s.list.nodes a).data,
          (seen (snQueryTid 4096 (Env.plain 1 0 0) s)).map fun v => (v.1, v.2.2),
          (seen (snQueryTid 4096 (Env.plain 1 0 0) s.slowPath)).map fun v => (v.1, v.2.2)))
      = some ([4096], some (1, .snErrOk), some (0, .snErrOk)) := by
  decide +kernel

end LibSafetynet
