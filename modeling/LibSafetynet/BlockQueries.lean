import LibSafetynet.FastPath

/-!
# Queries about one block

What `sn_is_tracked_block`, `sn_set_block_id` and their siblings answer is decided by
the slots after the automatic pass of the call, and those by the state before it
(`Lib.Answers`).

- `sn_is_tracked_block` returns its "no hit" flag as the answer, so an untracked
  block without a slot is reported as tracked (`tracked_answer_iff`).
- `sn_set_block_id` writes, and `sn_get_block_id` reads, only through a slot. An id is
  read back exactly if the block has one both when the id is set and when it is read
  (`block_id_round_trip_iff`).
-/

namespace LibSafetynet

open Logic Prog PlatMutex ListState AllocManager

/-- The tracked entries, as a client could tell them apart. -/
def Lib.items (s : Lib) : List Item := s.list.entries.map (item s.list)

/-- The node a call that begins with the pass finds in the cache for `p`. -/
def cacheAnswer (env : Env) (s : Lib) (p : Addr) : Option Addr :=
  let w := s.worked env s.list.entries
  if w.manager.useCache then (w.manager.keySlot p).map fun i => (w.manager.cacheList i).value
  else none

/-- The cache is in use, and after a pass over the state the first slot for `p` holds `v`. -/
def Lib.Answers (s : Lib) (p v : Addr) : Prop :=
  s.manager.useCache = true ∧ p ≠ NULL ∧ FirstAfter (s.list.nodes, s.manager) s.list.entries p v

/-- Neither the pass nor the lookup of `p` behind it reads a node that is gone. -/
structure LookupSafe (s : Lib) (p : Addr) : Prop where
  pass : PassSafe (s.list.nodes, s.manager) s.list.entries
  answer : ∀ v, s.Answers p v → (s.list.nodes.lookup v).isSome

/-! ## The pass and the lookup, with everything that can stop them -/

section Lookups

variable {cfg : Config} {env : Env} {s s' : Lib} {L : List Addr} {p v : Addr}

theorem tracked_iff (hb : Base s L) : Tracked s p ↔ findPtr s.list L p ≠ NULL := by
  rw [Tracked, hb.rep.entries_eq, ne_eq, findPtr_eq_null fun h0 => hb.rep.ne_null h0 rfl]
  simp

theorem items_eq (hb : Base s L) : s.items = L.map (item s.list) := by
  rw [Lib.items, hb.rep.entries_eq]

theorem Quiet.items_eq (h : Quiet s s') (hb : Base s L) : s'.items = s.items := by
  rw [LibSafetynet.items_eq (h.base hb), LibSafetynet.items_eq hb, h.list.items]

theorem items_worked (hb : Base s L) : (s.worked env L).items = s.items := by
  have hsame : SameList s.list (s.worked env L).list := sameList_worked hb.rep
  rw [LibSafetynet.items_eq (base_worked hb), LibSafetynet.items_eq hb, hsame.items]

theorem useCache_worked (hb : Base s L) :
    (s.worked env L).manager.useCache = s.manager.useCache := by
  rw [(refilled_worked hb.rep).rest]

/-- What the cache answers, by the state before the pass. -/
theorem cacheAnswer_eq_some (env : Env) (hb : Base s L) :
    cacheAnswer env s p = some v ↔ s.Answers p v := by
  unfold cacheAnswer Lib.Answers
  rw [hb.rep.entries_eq]
  dsimp only
  rw [useCache_worked hb]
  by_cases hon : s.manager.useCache = true
  · rw [if_pos hon, Option.map_eq_some_iff, and_iff_right hon]
    by_cases hp : p = NULL
    · refine iff_of_false ?_ fun h => h.1 hp
      rintro ⟨i, hi, -⟩
      exact (keySlot_eq_some hi).2 hp
    · rw [and_iff_right hp, firstAfter_iff hp]
      rfl
  · rw [if_neg hon]
    exact iff_of_false (fun h => by cases h) fun h => hon h.1

theorem cacheAnswer_eq_none (env : Env) (hb : Base s L) :
    cacheAnswer env s p = none ↔ ¬ (s.worked env L).Hits p := by
  unfold cacheAnswer Lib.Hits
  rw [hb.rep.entries_eq]
  by_cases huse : (s.worked env L).manager.useCache = true
  · simp [huse]
  · simp [huse]

theorem cacheAnswer_of_slot (hb : Base s L) {i : Slot}
    (huse : (s.worked env L).manager.useCache = true)
    (hslot : (s.worked env L).manager.keySlot p = some i) :
    cacheAnswer env s p = some ((s.worked env L).manager.cacheList i).value := by
  unfold cacheAnswer
  rw [hb.rep.entries_eq]
  dsimp only
  rw [if_pos huse, hslot]
  rfl

theorem hits_worked (env : Env) (hb : Base s L) :
    (s.worked env L).Hits p ↔ ∃ v, s.Answers p v := by
  have hnone := cacheAnswer_eq_none (p := p) env hb
  simp only [← cacheAnswer_eq_some env hb]
  rw [← Option.ne_none_iff_exists', ne_eq, hnone, not_not]

/-- An answer that is a live node is an entry. -/
theorem Lib.Answers.mem (h : s.Answers p v) (hb : Base s L)
    (hlive : (s.list.nodes.lookup v).isSome) : v ∈ L := by
  have hb₁ : Base (s.worked (Env.plain 1 0 0) L) L := base_worked hb
  have hsame : SameList s.list (s.worked (Env.plain 1 0 0) L).list := sameList_worked hb.rep
  have hsome := (cacheAnswer_eq_some (Env.plain 1 0 0) hb).mpr h
  unfold cacheAnswer at hsome
  rw [hb.rep.entries_eq] at hsome
  dsimp only at hsome
  split_ifs at hsome
  obtain ⟨i, -, rfl⟩ := Option.map_eq_some_iff.mp hsome
  exact hb₁.mem_of_slot (by rwa [hsame.live])

theorem LookupSafe.of_none (hb : Base s L)
    (hpass : PassSafe (s.list.nodes, s.manager) s.list.entries)
    (hnone : cacheAnswer env s p = none) : LookupSafe s p := by
  refine ⟨hpass, fun v hv => ?_⟩
  rw [(cacheAnswer_eq_some _ hb).mpr hv] at hnone
  cases hnone

theorem LookupSafe.of_some (hb : Base s L)
    (hpass : PassSafe (s.list.nodes, s.manager) s.list.entries)
    (hsome : cacheAnswer env s p = some v) (hlive : (s.list.nodes.lookup v).isSome) :
    LookupSafe s p := by
  refine ⟨hpass, fun w hw => ?_⟩
  obtain rfl := Option.some.inj (hsome.symm.trans ((cacheAnswer_eq_some _ hb).mpr hw))
  exact hlive

/-- Whether the lookup is safe, by what the cache answers. -/
theorem lookupSafe_iff (env : Env) (hb : Base s L) : LookupSafe s p ↔
    PassSafe (s.list.nodes, s.manager) s.list.entries ∧
      (cacheAnswer env s p).all fun v => (s.list.nodes.lookup v).isSome := by
  have hall : ((cacheAnswer env s p).all fun v => (s.list.nodes.lookup v).isSome) = true ↔
      ∀ v, s.Answers p v → (s.list.nodes.lookup v).isSome := by
    simp only [← cacheAnswer_eq_some env hb]
    cases cacheAnswer env s p with
    | none => simp
    | some w => simp
  rw [hall]
  exact ⟨fun h => ⟨h.pass, h.answer⟩, fun h => ⟨h.1, h.2⟩⟩

/-- A reachable state lets a pass wait only for the mutex of an empty list. -/
theorem wp_work {Q : Unit → Lib → Prop} {E : Stop → Lib → Prop} (hb : Base s L) (hu : Unlocked s L)
    (hblock : ScanBlocks env.tid s.list → ∀ s', E .blocked s')
    (hdead : ¬ PassSafe (s.list.nodes, s.manager) L → ∀ s', E .undefined s')
    (hQ : ¬ ScanBlocks env.tid s.list → PassSafe (s.list.nodes, s.manager) L →
      Q () (s.worked env L)) : wp memmanWork env Q E s := by
  refine wp_memmanWork_exact hb.rep (fun hbl => ?_) hdead fun _ hscan hsafe => hQ hscan hsafe
  rcases hbl with halloc | hlist
  · exact absurd halloc (hu.alloc.not_blocks _)
  · exact hblock hlist

theorem Unlocked.not_scanBlocks (hu : Unlocked s L) (hL : L ≠ []) (tid : UInt64) :
    ¬ ScanBlocks tid s.list := fun h => (hu.list hL).not_blocks _ h.2

theorem ne_null_of_cacheAnswer (h : cacheAnswer env s p = some v) : p ≠ NULL := by
  unfold cacheAnswer at h
  dsimp only at h
  split_ifs at h
  obtain ⟨i, hi, -⟩ := Option.map_eq_some_iff.mp h
  exact (keySlot_eq_some hi).2

/-- The lookup in the cache after the pass. -/
theorem wp_tryCacheHit_worked {Q : Addr → Lib → Prop} {E : Stop → Lib → Prop} (hb : Base s L)
    (hdead : ∀ v, s.Answers p v → ¬ (s.list.nodes.lookup v).isSome → ∀ s', E .undefined s')
    (hmiss : (∀ v, ¬ s.Answers p v) → ∀ m, m = (s.worked env L).allocMutex ∨
      m = release (s.worked env L).allocMutex → Q NULL { s.worked env L with allocMutex := m })
    (hhit : ∀ v, s.Answers p v → v ∈ L →
      QuietAt (s.worked env L) ((s.worked env L).hit v) (s.worked env L).list.mutex →
      Q v ((s.worked env L).hit v)) :
    wp (memmanTryCacheHit p) env Q E (s.worked env L) := by
  have hb₁ : Base (s.worked env L) L := base_worked hb
  have hsame : SameList s.list (s.worked env L).list := sameList_worked hb.rep
  have hanswer : ∀ i, (s.worked env L).manager.useCache = true →
      (s.worked env L).manager.keySlot p = some i →
        s.Answers p ((s.worked env L).manager.cacheList i).value := fun i huse hslot =>
    (cacheAnswer_eq_some _ hb).mp (cacheAnswer_of_slot hb huse hslot)
  refine wp_tryCacheHit hb₁ (fun hbl => absurd hbl ((isFree_release _).not_blocks _))
    (fun i huse hslot hgone => ?_) (fun hno m hm => hmiss (fun v hv => ?_) m hm)
    fun i huse hslot hmem hq => hhit _ (hanswer i huse hslot) hmem hq
  · refine hdead _ (hanswer i huse hslot) fun hlive => hgone ?_
    rwa [hsame.live]
  · exact hno ((hits_worked _ hb).mpr ⟨v, hv⟩)

end Lookups

/-! ## `sn_is_tracked_block` -/

/-- `sn_is_tracked_block(p)` returns, leaves the tracked entries as they were, and says
whether `p` is tracked. -/
def TellsTracked (env : Env) (s : Lib) (p : Addr) : Prop :=
  ∃ b s', snIsTrackedBlock p env s = .done b s' ∧ s'.items = s.items ∧ (b = true ↔ Tracked s p)

/-- Nothing stops the call; and `p` is tracked, or has a slot that no light entry takes in
the pass. -/
structure TrackedOrKept (env : Env) (s : Lib) (p : Addr) : Prop where
  waits : ¬ ScanBlocks env.tid s.list
  lookup : LookupSafe s p
  known : Tracked s p ∨ s.manager.useCache = true ∧ ∃ i, (s.manager.cacheList i).key = p ∧
    ¬ Taken (s.list.nodes, s.manager) (lights (s.list.nodes, s.manager) s.list.entries) i

section TrackedQuery

variable {env : Env} {s : Lib} {L : List Addr} {p : Addr}

theorem wp_snIsTrackedBlock {Q : Bool → Lib → Prop} {E : Stop → Lib → Prop} (hb : Base s L)
    (hu : Unlocked s L) (hp : p ≠ NULL) (hblock : ScanBlocks env.tid s.list → ∀ s', E .blocked s')
    (hdead : ¬ LookupSafe s p → ∀ s', E .undefined s')
    (hQ : ¬ ScanBlocks env.tid s.list → LookupSafe s p → ∀ b s', s'.items = s.items →
      (b = true ↔ (∀ v, ¬ s.Answers p v) ∨ Tracked s p) → Q b s') :
    wp (snIsTrackedBlock p) env Q E s := by
  have hb₁ : Base (s.worked env L) L := base_worked hb
  have hsame : SameList s.list (s.worked env L).list := sameList_worked hb.rep
  rw [snIsTrackedBlock, wp_bind]
  refine wp_work hb hu hblock (fun h => hdead fun hsafe => h ?_) fun hscan hpass => ?_
  · rw [← hb.rep.entries_eq]
    exact hsafe.pass
  rw [← hb.rep.entries_eq] at hpass
  rw [wp_ite]
  refine ⟨fun h0 => absurd h0 hp, fun _ => ?_⟩
  rw [wp_bind]
  refine wp_tryCacheHit_worked hb (fun v hv hgone => hdead fun h => hgone (h.answer v hv))
    (fun hno m hm => ?_) fun v hv hmem hq => ?_
  · -- a miss: the flag itself is returned
    rw [wp_ite]
    refine ⟨fun _ => hQ hscan ⟨hpass, fun v hv => absurd hv (hno v)⟩ _ _ ?_ ?_,
      fun hne => absurd rfl hne⟩
    · exact ((quietAt_miss hm).quiet.items_eq hb₁).trans (items_worked hb)
    · simp [hno]
  · rw [wp_ite]
    refine ⟨fun h0 => absurd h0 (hb.rep.ne_null hmem), fun _ => ?_⟩
    have hlook : LookupSafe s p := LookupSafe.of_some hb hpass
      ((cacheAnswer_eq_some env hb).mpr hv) (hb.rep.live_of_mem hmem)
    generalize (s.worked env L).hit v = s₂ at hq ⊢
    rw [wp_onList]
    refine wp_linkedListHasPtr (hq.base hb₁).rep (fun h0 => absurd h0 hp) (fun _ hbl => ?_)
      fun _ _ => hQ hscan hlook _ _ ?_ ?_
    · rw [hq.mutex] at hbl
      exact absurd hbl ((isFree_worked hb (List.ne_nil_of_mem hmem)).not_blocks _)
    · refine Eq.trans (Quiet.items_eq (s := s.worked env L) ⟨?_, ?_, ?_, ?_, ?_⟩ hb₁)
        (items_worked hb)
      · refine hq.quiet.list.trans ((SameList.mutex s₂.list (release s₂.list.mutex)).trans ?_)
        exact SameList.lastAccess { s₂.list with mutex := release s₂.list.mutex } _
      · exact hq.quiet.cacheList
      · exact hq.quiet.available
      · exact hq.quiet.usage
      · exact hq.quiet.heap
    · have hanswers : ¬ ∀ v, ¬ s.Answers p v := fun h => h v hv
      rw [tracked_iff hb, hq.quiet.list.findPtr, hsame.findPtr]
      simp [hanswers]

/-- For a block that is not tracked only a slot that the pass leaves alone can answer. -/
theorem answers_untracked (hb : Base s L) (hp : p ≠ NULL) (hno : ¬ Tracked s p) :
    (∃ v, s.Answers p v) ↔ s.manager.useCache = true ∧ ∃ i, (s.manager.cacheList i).key = p ∧
      ¬ Taken (s.list.nodes, s.manager) (lights (s.list.nodes, s.manager) s.list.entries) i := by
  unfold Tracked at hno
  rw [← hits_worked (Env.plain 1 0 0) hb, hits_iff, useCache_worked hb, and_iff_right hp]
  rw [hb.rep.entries_eq] at hno ⊢
  refine and_congr_right fun _ => exists_congr fun i => ?_
  have hpair := (after_iff (p := (s.list.nodes, s.manager)) (L := L) (k := i)).mpr rfl
  show ((workPass (s.list.nodes, s.manager) L).2.cacheList i).key = p ↔ _
  by_cases htaken : Taken (s.list.nodes, s.manager) (lights (s.list.nodes, s.manager) L) i
  · -- what the pass leaves in a slot is a tracked block
    refine iff_of_false (fun hkey => ?_) fun h => h.2 htaken
    obtain ⟨a, ha⟩ := htaken.leftIn
    rw [after_iff.mp (.left ha)] at hkey
    exact hno ⟨a, (mem_lights.mp ha.mem).1, hkey⟩
  · rw [after_iff.mp (.kept htaken), and_iff_left htaken]

end TrackedQuery

/-- **What `sn_is_tracked_block` answers.** In a reachable state the call returns, leaves the
tracked entries as they were and is right, exactly when nothing stops it and the block is
tracked or has a slot in use that no entry takes in the pass. -/
theorem tracked_answer_iff {cfg : Config} {s : Lib} (hs : Reachable cfg s) (env : Env) {p : Addr}
    (hp : p ≠ NULL) : TellsTracked env s p ↔ TrackedOrKept env s p := by
  obtain ⟨L, hb, hu⟩ := hs.base
  constructor
  · rintro ⟨b, s', hdone, -, hright⟩
    have hspec : wlp (snIsTrackedBlock p) env (fun b _ => ¬ ScanBlocks env.tid s.list ∧
        LookupSafe s p ∧ (b = true ↔ (∀ v, ¬ s.Answers p v) ∨ Tracked s p)) s :=
      wp_snIsTrackedBlock hb hu hp (fun _ _ => trivial) (fun _ _ => trivial)
        fun hscan hsafe b _ _ hb => ⟨hscan, hsafe, hb⟩
    obtain ⟨hscan, hsafe, hanswer⟩ := (wp_of_done hdone).mp hspec
    refine ⟨hscan, hsafe, ?_⟩
    -- of an untracked block the truth is told only where the cache answers
    by_cases htracked : Tracked s p
    · exact Or.inl htracked
    · refine Or.inr ((answers_untracked hb hp htracked).mp ?_)
      by_contra hnone
      exact htracked (hright.mp (hanswer.mpr (Or.inl (not_exists.mp hnone))))
  · rintro ⟨hscan, hsafe, hknown⟩
    have hspec : wp (snIsTrackedBlock p) env
        (fun b s' => s'.items = s.items ∧ (b = true ↔ Tracked s p)) (fun _ _ => False) s := by
      refine wp_snIsTrackedBlock hb hu hp (fun h => absurd h hscan) (fun h => absurd hsafe h)
        fun _ _ b s' hitems hanswer => ⟨hitems, hanswer.trans (or_iff_right_of_imp fun hmiss => ?_)⟩
      by_contra htracked
      obtain ⟨v, hv⟩ := (answers_untracked hb hp htracked).mpr (hknown.resolve_left htracked)
      exact hmiss v hv
    obtain ⟨b, s', hdone, hpost⟩ := hspec.exists_done
    exact ⟨b, s', hdone, hpost⟩

/-- Two cached blocks: the pass leaves the second one in both slots, so the first one is a
miss and the second one a hit, and both are told. An address that nothing names is not. -/
theorem tracked_answer_iff_at :
    ∃ s, Reachable ⟨false⟩ s ∧ s.manager.cacheList 0 = ⟨4096, 128⟩ ∧
      s.manager.cacheList 1 = ⟨8192, 192⟩ ∧ TellsTracked (Env.plain 1 0 0) s 4096 ∧
        TellsTracked (Env.plain 1 0 0) s 8192 ∧ ¬ TellsTracked (Env.plain 1 0 0) s 12288 := by
  let env := Env.plain 1 0 0
  let found (s : Lib) (p : Addr) : Bool :=
    (cacheAnswer env s p).all fun v => (s.list.nodes.lookup v).isSome
  have hsome : ((doinit (Env.plain 1 64 0) .blank).done?.bind (run (libStep ⟨false⟩)
      [(Env.plain 1 128 4096, .malloc 8), (Env.plain 1 192 8192, .malloc 8),
        (env, .requestToFastCache 4096), (env, .requestToFastCache 8192)])).map (fun s =>
          ((s.manager.cacheList 0, s.manager.cacheList 1),
            decide (PassSafe (s.list.nodes, s.manager) s.list.entries),
            (found s 4096, found s 8192), decide (Tracked s 4096 ∧ Tracked s 8192),
            decide (Tracked s 12288), decide (∀ i, (s.manager.cacheList i).key ≠ 12288)))
      = some ((⟨4096, 128⟩, ⟨8192, 192⟩), true, (true, true), true, false, true) := by
    decide +kernel
  obtain ⟨s, hs, hval⟩ := Option.map_eq_some_iff.mp hsome
  obtain ⟨s₀, h₀, hrun⟩ := Option.bind_eq_some_iff.mp hs
  obtain ⟨hslots, hval⟩ := Prod.mk.inj hval
  obtain ⟨hzero, hone⟩ := Prod.mk.inj hslots
  obtain ⟨hpass, hval⟩ := Prod.mk.inj hval
  obtain ⟨hfound, hval⟩ := Prod.mk.inj hval
  obtain ⟨hfirst, hsecond⟩ := Prod.mk.inj hfound
  obtain ⟨htracked, hval⟩ := Prod.mk.inj hval
  obtain ⟨hun, hnone⟩ := Prod.mk.inj hval
  obtain ⟨htracked, htracked'⟩ := of_decide_eq_true htracked
  have hreach : Reachable ⟨false⟩ s := ⟨s₀, _, started_of_done h₀, hrun⟩
  obtain ⟨L, hb, hu⟩ := hreach.base
  have hL : L ≠ [] := by
    obtain ⟨a, ha, -⟩ := htracked
    exact List.ne_nil_of_mem (hb.rep.entries_eq ▸ ha)
  have hsafe : ∀ p, found s p = true → LookupSafe s p := fun p hp =>
    (lookupSafe_iff env hb).mpr ⟨of_decide_eq_true hpass, hp⟩
  have hwaits := hu.not_scanBlocks hL env.tid
  refine ⟨s, hreach, hzero, hone, ?_, ?_, fun h => ?_⟩
  · exact (tracked_answer_iff hreach env (by decide)).mpr
      ⟨hwaits, hsafe 4096 hfirst, Or.inl htracked⟩
  · exact (tracked_answer_iff hreach env (by decide)).mpr
      ⟨hwaits, hsafe 8192 hsecond, Or.inl htracked'⟩
  · rcases ((tracked_answer_iff hreach env (by decide)).mp h).known with h | ⟨-, i, hi, -⟩
    · exact of_decide_eq_false hun h
    · exact of_decide_eq_true hnone i hi

/-- On a fresh library every address is reported as tracked. -/
theorem untracked_block_reported :
    ((doinit (Env.plain 1 64 0) .blank).done?).map (fun s =>
        (s.list.entries, (snIsTrackedBlock 4096 (Env.plain 1 0 0) s).value?))
      = some ([], some true) := by
  decide +kernel

/-! ## Block ids -/

/-- The operations that only ask. -/
def Op.Queries : Op → Prop
  | .querySize _ | .queryTid _ | .isTrackedBlock _ | .getBlockId _ | .queryBlockId _
  | .queryMetadata _ | .queryStaticMetadata _ | .queryThreadMemoryUsage _ | .queryTotalMemoryUsage
  | .calculateChecksum _ | .memMetadataForEach _ _ | .getLastError => True
  | _ => False

/-- The id `id` that was given to the block at `p` in the state `s` is read back in
the state `s'`, by address and by id, and the other entries are as they were. -/
structure RoundTrip (env : Env) (s s' : Lib) (p : Addr) (id : UInt16) : Prop where
  get : ∃ t, snGetBlockId p env s' = .done id t
  query : ∃ q t, snQueryBlockId id env s' = .done q t ∧
    (∃ a ∈ s'.list.entries,
      (nodeAt s'.list.nodes a).data = q ∧ (nodeAt s'.list.nodes a).blockId = id) ∧
    ((∀ b ∈ s'.list.entries, (nodeAt s'.list.nodes b).blockId = id →
      (nodeAt s'.list.nodes b).data = p) → q = p)
  others : ∃ b, (nodeAt s.list.nodes b).data = p ∧ ∀ a ∈ s.list.entries, a ≠ b →
    a ∈ s'.list.entries ∧ item s'.list a = item s.list a

/-- After a pass over the state the search by id comes to a node that is gone before it comes
to the id. -/
def Lib.ScansStale (s : Lib) (id : UInt16) : Prop :=
  ∃ i pair, After (s.list.nodes, s.manager) s.list.entries i pair ∧ pair.value ≠ NULL ∧
    (s.list.nodes.lookup pair.value).isNone ∧
      ∀ j < i, ∀ pair', After (s.list.nodes, s.manager) s.list.entries j pair' →
        pair'.value ≠ NULL → (nodeAt s.list.nodes pair'.value).blockId ≠ id

/-- The setting call in `s` writes the block's own entry, or one that has the id already. -/
def WritesOwn (s : Lib) (p : Addr) (id : UInt16) : Prop :=
  ∀ v, s.Answers p v → (nodeAt s.list.nodes v).data = p ∨ (nodeAt s.list.nodes v).blockId = id

/-- The reading calls in `s'` come to an entry that the setting call in `s` wrote, or which
had the id before. -/
structure ReadsBack (s s' : Lib) (p : Addr) (id : UInt16) : Prop where
  pass : PassSafe (s'.list.nodes, s'.manager) s'.list.entries
  answer : ∃ b ∈ s.list.entries, s'.Answers p b ∧
    (s.Answers p b ∨ (nodeAt s.list.nodes b).blockId = id)
  scan : ¬ s'.ScansStale id

/-- What queries keep of the entries `L₁` of the state `s₁`. -/
structure Queried (L₁ : List Addr) (s₁ : Lib) (L : List Addr) (s : Lib) : Prop where
  kept : ∀ a ∈ L₁, a ∈ L ∧ item s.list a = item s₁.list a
  fresh : ∀ a ∈ L, a ∈ L₁ ∨ (item s.list a).blockId = 0

section Queries

variable {cfg : Config} {l : Env × Op} {s₀ s₁ s s' : Lib} {L₀ L₁ L L' : List Addr}

theorem Queried.of_same (hq : Queried L₁ s₁ L s) (hsame : SameList s.list s'.list) :
    Queried L₁ s₁ L s' := by
  refine ⟨fun a ha => ?_, fun a ha => ?_⟩
  · rw [hsame.item]
    exact hq.kept a ha
  · rw [hsame.item]
    exact hq.fresh a ha

/-- One change by a query. Only `sn_query_static_metadata` adds an entry. -/
theorem Trans.queried (h : Trans cfg l.1 l.2 s₀ L s L' s') (hop : l.2.Queries) (hb : Base s L)
    (hq : Queried L₁ s₁ L s) : Queried L₁ s₁ L' s' := by
  obtain ⟨env, op⟩ := l
  -- the other changes are none of a query's
  have hother : ∀ {op' : Op}, op = op' → ¬ op'.Queries → Queried L₁ s₁ L' s' :=
    fun heq hno => absurd (heq ▸ hop) hno
  cases h with
  | quiet hquiet => exact hq.of_same hquiet.list
  | pass _ _ _ => exact hq.of_same (sameList_worked hb.rep)
  | cleared hsame _ _ => exact hq.of_same hsame
  | granted _ hgr =>
    have hitems := hgr.pushed.items hb.rep
    rw [List.map_append] at hitems
    obtain ⟨hold, hnew⟩ := List.append_inj' hitems rfl
    have hitem : ∀ a ∈ L, item s'.list a = item s.list a := List.map_inj_left.mp hold
    refine ⟨fun a ha => ?_, fun a ha => ?_⟩
    · obtain ⟨hmem, hkept⟩ := hq.kept a ha
      exact ⟨List.mem_append_left _ hmem, (hitem a hmem).trans hkept⟩
    · rcases List.mem_append.mp ha with hmem | hmem
      · rw [hitem a hmem]
        exact hq.fresh a hmem
      · rw [List.mem_singleton.mp hmem]
        exact Or.inr (congrArg Item.blockId (List.singleton_inj.mp hnew))
  | wrote _ _ hl _ _ => exact hq.of_same (by rw [hl]; exact SameList.refl _)
  | put hput => exact hother hput id
  | registered _ hreg =>
    rcases hreg with ⟨hreg, -⟩ | ⟨hreg, -⟩
    · exact hother hreg id
    · exact hother hreg id
  | realloced hreal => exact hother hreal id
  | tagged htag => exact hother htag id
  | freed _ _ _ _ _ _ hfree =>
    rcases hfree with ⟨hfree, -⟩ | ⟨-, _, hfree⟩
    · exact hother hfree id
    · exact hother hfree id
  | clientAlloc halloc => exact hother halloc id
  | clientFree hfree => exact hother hfree id

/-- A run of queries. -/
theorem queried_run {ls : List (Env × Op)} (hb : Base s L) (hu : Unlocked s L)
    (hq : ∀ l ∈ ls, l.2.Queries) (hrun : run (libStep cfg) ls s = some s') :
    ∃ L', Base s' L' ∧ Unlocked s' L' ∧ Queried L s L' s' := by
  refine run_invariant (P := fun l _ => l.2.Queries)
    (I := fun s' => ∃ L', Base s' L' ∧ Unlocked s' L' ∧ Queried L s L' s') ?_
    ⟨L, hb, hu, fun a ha => ⟨ha, rfl⟩, fun a ha => Or.inl ha⟩
    (Along.of_forall (fun l hl _ => hq l hl) _) hrun
  rintro l t t' ⟨Lt, hbt, hut, hqt⟩ hop hstep
  obtain ⟨Lt', hspec⟩ := libStep_meets hbt hstep
  obtain ⟨hqt', hbt'⟩ := hspec.changes.invariant (I := fun L' s' => Queried L s L' s')
    (fun hb₁ hq₁ htrans => htrans.queried hop hb₁ hq₁) hbt hqt
  exact ⟨Lt', hbt', hspec.unlocked hbt hut, hqt'⟩

end Queries

/-! ### The three functions -/

section Specs

variable {cfg : Config} {env : Env} {s : Lib} {L : List Addr} {p : Addr} {id : UInt16}
variable {E : Stop → Lib → Prop}

/-- The lookup after the pass, by what the cache answers. -/
theorem wp_cacheOrListByPtr_worked {α : Type} {ret : α} {body : Addr → CProg Lib α}
    {Q : α → Lib → Prop} (hb : Base s L) (hL : L ≠ []) (hp : p ≠ NULL)
    (hdead : ∀ v, s.Answers p v → ¬ (s.list.nodes.lookup v).isSome → ∀ s', E .undefined s')
    (hmiss : cacheAnswer env s p = none → ∀ s' m, QuietAt (s.worked env L) s' m → Q ret s')
    (hhit : ∀ v ∈ L, cacheAnswer env s p = some v → ∀ s',
      QuietAt (s.worked env L) s' (s.worked env L).list.mutex → wp (body v) env Q E s') :
    wp (cacheOrListByPtr p ret body) env Q E (s.worked env L) := by
  have hb₁ : Base (s.worked env L) L := base_worked hb
  have hsame : SameList s.list (s.worked env L).list := sameList_worked hb.rep
  have hfree : IsFree (s.worked env L).list.mutex := isFree_worked hb hL
  refine wp_cacheOrListByPtr hb₁ hp (fun hbl => ?_) (fun i huse hslot hgone => ?_)
    (fun hno s' h => hmiss ((cacheAnswer_eq_none _ hb).mpr hno) s' _ h.quiet)
    fun i huse hslot hmem hq => hhit _ hmem (cacheAnswer_of_slot hb huse hslot) _ hq
  · exact absurd hbl (not_or.mpr
      ⟨(isFree_release _).not_blocks _, fun h => hfree.not_blocks _ h.2.2⟩)
  · have hanswer := (cacheAnswer_eq_some _ hb).mp (cacheAnswer_of_slot hb huse hslot)
    exact hdead _ hanswer fun hlive => hgone (by rwa [hsame.live])

/-- The pass, with an entry in the list. -/
theorem wp_work_entries {Q : Unit → Lib → Prop} (hb : Base s L) (hu : Unlocked s L) (hL : L ≠ [])
    (hdead : ¬ PassSafe (s.list.nodes, s.manager) s.list.entries → ∀ s', E .undefined s')
    (hQ : PassSafe (s.list.nodes, s.manager) s.list.entries → Q () (s.worked env L)) :
    wp memmanWork env Q E s := by
  rw [hb.rep.entries_eq] at hdead hQ
  exact wp_work hb hu (fun h => absurd h (hu.not_scanBlocks hL _)) hdead fun _ => hQ

theorem wp_snGetBlockId {Q : UInt16 → Lib → Prop} (hb : Base s L) (hu : Unlocked s L) (hL : L ≠ [])
    (hdead : ¬ LookupSafe s p → ∀ s', E .undefined s')
    (hQ : LookupSafe s p → ∀ s',
      Q (((cacheAnswer env s p).map fun a => (item s.list a).blockId).getD 0) s') :
    wp (snGetBlockId p) env Q E s := by
  have hsame : SameList s.list (s.worked env L).list := sameList_worked hb.rep
  rw [snGetBlockId, wp_bind]
  refine wp_work_entries hb hu hL (fun h => hdead fun hsafe => h hsafe.pass) fun hpass => ?_
  rw [wp_ite]
  constructor
  · intro hnull
    have hnone : cacheAnswer env s p = none := by
      by_contra hsome
      obtain ⟨v, hv⟩ := Option.ne_none_iff_exists'.mp hsome
      exact ne_null_of_cacheAnswer hv hnull
    rw [hnone] at hQ
    rw [snError, wp_bind]
    refine wp_snSetLastError (fun hbl => absurd hbl ((isFree_release _).not_blocks _)) ?_
    exact hQ ⟨hpass, fun v hv => absurd hnull hv.2.1⟩ _
  · intro hp
    refine wp_cacheOrListByPtr_worked hb hL hp
      (fun v hv hgone => hdead fun h => hgone (h.answer v hv))
      (fun hnone s' _ _ => ?_) fun v hv hsome s₁ h₁ => ?_
    · rw [hnone] at hQ
      exact hQ (LookupSafe.of_none hb hpass hnone) s'
    · rw [hsome] at hQ
      rw [wp_onList, linkedListEntryGetBlockId, wp_ite]
      refine ⟨fun h0 => absurd h0 (hb.rep.ne_null hv), fun _ => ?_⟩
      rw [wp_bind]
      refine wp_deref_live ((h₁.base (base_worked hb)).rep.live_of_mem hv) ?_
      rw [wp_pure, h₁.quiet.list.blockId, hsame.blockId]
      exact hQ (LookupSafe.of_some hb hpass hsome (hb.rep.live_of_mem hv)) _

theorem wp_snSetBlockId {Q : Unit → Lib → Prop} (hb : Base s L) (hu : Unlocked s L) (hL : L ≠ [])
    (hid : 20 < id) (hdead : ¬ LookupSafe s p → ∀ s', E .undefined s')
    (hQ : LookupSafe s p → ∀ s', Base s' L → (∀ a, item s'.list a =
      if cacheAnswer env s p = some a then { item s.list a with blockId := id }
      else item s.list a) → Q () s') :
    wp (snSetBlockId p id) env Q E s := by
  have hb₁ : Base (s.worked env L) L := base_worked hb
  have hsame : SameList s.list (s.worked env L).list := sameList_worked hb.rep
  have hsmall : ¬ id ≤ 20 := UInt16.not_le.mpr hid
  rw [snSetBlockId, wp_bind]
  refine wp_work_entries hb hu hL (fun h => hdead fun hsafe => h hsafe.pass) fun hpass => ?_
  rw [wp_ite]
  constructor
  · intro hnull
    rw [snError, wp_bind]
    refine wp_snSetLastError (fun hbl => absurd hbl ((isFree_release _).not_blocks _))
      (hQ ⟨hpass, fun v hv => absurd hnull hv.2.1⟩ _ ⟨hb₁.rep, hb₁.slot⟩ fun a => ?_)
    rw [if_neg fun hsome => ne_null_of_cacheAnswer hsome hnull]
    exact hsame.item a
  · intro hp
    rw [wp_ite]
    refine ⟨fun hle => absurd hle hsmall, fun _ => ?_⟩
    refine wp_cacheOrListByPtr_worked hb hL hp
      (fun v hv hgone => hdead fun h => hgone (h.answer v hv))
      (fun hnone s₁ m h₁ => hQ (LookupSafe.of_none hb hpass hnone) _ (h₁.base hb₁) fun a => ?_)
      fun v hv hsome s₁ h₁ => ?_
    · rw [hnone, if_neg (by simp), h₁.quiet.list.item]
      exact hsame.item a
    · have hsafe := LookupSafe.of_some hb hpass hsome (hb.rep.live_of_mem hv)
      rw [wp_onList]
      refine wp_linkedListEntrySet (h₁.base hb₁).rep hv (fun _ => ⟨rfl, rfl, rfl, rfl⟩)
        (fun hbl => ?_) fun _ l hset _ => hQ hsafe _ ?_ fun a => ?_
      · rw [h₁.mutex] at hbl
        exact absurd hbl ((isFree_worked hb hL).not_blocks _)
      · exact (h₁.base hb₁).of_slots (hset.links.rep (h₁.base hb₁).rep) hset.links.head
          fun _ => Or.inl rfl
      · have hold : item s₁.list a = item s.list a := (h₁.quiet.list.item a).trans (hsame.item a)
        rw [hsome, ← hold]
        by_cases ha : v = a
        · subst ha
          rw [if_pos rfl]
          simp only [item, hset.node]
        · rw [if_neg fun h => ha (Option.some.inj h)]
          simp only [item, hset.other a (Ne.symm ha)]

/-- Where the search by id ends after the pass, by the state before it. -/
theorem scansStale_iff (hb : Base s L) : s.ScansStale id ↔
    ∃ i ∈ (s.worked env L).manager.scanEnd (s.worked env L).list.nodes id,
      (s.worked env L).manager.Stale (s.worked env L).list.nodes i := by
  have hsame : SameList s.list (s.worked env L).list := sameList_worked hb.rep
  have hslot : ∀ i pair, After (s.list.nodes, s.manager) L i pair ↔
      (s.worked env L).manager.cacheList i = pair := fun i pair => after_iff
  have hgone : ∀ a, ((s.worked env L).list.nodes.lookup a).isNone ↔
      (s.list.nodes.lookup a).isNone := by
    intro a
    rw [← Option.not_isSome, ← Option.not_isSome, hsame.live]
  unfold Lib.ScansStale AllocManager.scanEnd
  rw [hb.rep.entries_eq]
  simp only [hslot, exists_eq_left', forall_eq', Option.mem_def, find?_slots, decide_eq_true_eq,
    decide_eq_false_iff_not, Stale, hgone, hsame.blockId]
  constructor
  · rintro ⟨i, hne, hnone, hbefore⟩
    -- the first slot on the way whose node is gone
    induction i using WellFoundedLT.induction with
    | ind i ih =>
      by_cases hfirst : ∃ j < i, ((s.worked env L).manager.cacheList j).value ≠ NULL ∧
          (s.list.nodes.lookup ((s.worked env L).manager.cacheList j).value).isNone
      · obtain ⟨j, hj, hne', hnone'⟩ := hfirst
        exact ih j hj hne' hnone' fun k hk => hbefore k (hk.trans hj)
      · refine ⟨i, ⟨⟨hne, Or.inl hnone⟩, fun j hj h => ?_⟩, hne, hnone⟩
        rcases h.2 with hgone' | hid
        · exact hfirst ⟨j, hj, h.1, hgone'⟩
        · exact hbefore j hj h.1 hid
  · rintro ⟨i, ⟨-, hbefore⟩, hne, hnone⟩
    exact ⟨i, hne, hnone, fun j hj hne' hid => hbefore j hj ⟨hne', Or.inr hid⟩⟩

/-- Without a slot whose node is gone before the pass there is none after it. -/
theorem not_scansStale (hb : Base s L) (hlive : ∀ i, ¬ s.manager.Stale s.list.nodes i) :
    ¬ s.ScansStale id := by
  rintro ⟨i, pair, hpair, hne, hgone, -⟩
  cases hpair with
  | left ha =>
    have hmem := (mem_lights.mp ha.mem).1
    rw [hb.rep.entries_eq] at hmem
    have hsome := hb.rep.live_of_mem hmem
    rw [Option.isNone_iff_eq_none.mp hgone] at hsome
    cases hsome
  | kept _ => exact hlive i ⟨hne, hgone⟩

/-- The search by id, when a slot in use holds an entry with the id. -/
theorem wp_snQueryBlockId {Q : Addr → Lib → Prop} (hb : Base s L) (hu : Unlocked s L) (hL : L ≠ [])
    (hid : id ≠ 0) {v : Addr} (hpass : PassSafe (s.list.nodes, s.manager) s.list.entries)
    (hsome : cacheAnswer env s p = some v) (hv : (item s.list v).blockId = id) (hmem : v ∈ L)
    (hdead : s.ScansStale id → ∀ s', E .undefined s')
    (hQ : ¬ s.ScansStale id → ∀ q s', (∃ a ∈ L,
      (nodeAt s.list.nodes a).data = q ∧ (nodeAt s.list.nodes a).blockId = id) → Q q s') :
    wp (snQueryBlockId id) env Q E s := by
  have hsame : SameList s.list (s.worked env L).list := sameList_worked hb.rep
  have hb₁ : Base (s.worked env L) L := base_worked hb
  -- the slot that answers for `p` is one the search by id would take
  have hfound : (s.worked env L).manager.useCache = true ∧
      (s.worked env L).manager.idHit (s.worked env L).list.nodes id ≠ NULL ∧
      (nodeAt (s.worked env L).list.nodes
        ((s.worked env L).manager.idHit (s.worked env L).list.nodes id)).blockId = id := by
    unfold cacheAnswer at hsome
    rw [hb.rep.entries_eq] at hsome
    dsimp only at hsome
    split_ifs at hsome with huse
    obtain ⟨i, -, hi⟩ := Option.map_eq_some_iff.mp hsome
    refine ⟨huse, ?_⟩
    unfold AllocManager.idHit
    cases hf : slots.find? fun j => ((s.worked env L).manager.cacheList j).value ≠ NULL ∧
        (nodeAt (s.worked env L).list.nodes ((s.worked env L).manager.cacheList j).value).blockId
          = id with
    | none =>
      refine absurd (List.find?_eq_none.mp hf i (mem_slots i)) (not_not.mpr (decide_eq_true ?_))
      rw [hi, hsame.blockId]
      exact ⟨hb.rep.ne_null hmem, hv⟩
    | some j =>
      have hj := List.find?_some hf
      exact of_decide_eq_true hj
  obtain ⟨huse, hne, hblock⟩ := hfound
  rw [snQueryBlockId, wp_bind]
  refine wp_work_entries hb hu hL (fun h => absurd hpass h) fun _ => ?_
  rw [wp_ite]
  refine ⟨fun h0 => absurd h0 hid, fun _ => ?_⟩
  rw [cacheOrList, wp_bind]
  refine wp_memmanTryCacheHitById (fun hoff => absurd (hoff.symm.trans huse) Bool.false_ne_true)
    (fun _ hbl => absurd hbl ((isFree_release _).not_blocks _))
    (fun _ hstale => hdead ((scansStale_iff hb).mpr hstale)) fun _ hends hliveHit => ?_
  have hscan : ¬ s.ScansStale id := mt (scansStale_iff hb).mp hends
  obtain ⟨j, hj⟩ := idHit_ne_null hne
  have hmemHit : (s.worked env L).manager.idHit (s.worked env L).list.nodes id ∈ L := by
    have hl := hliveHit hne
    rw [← hj] at hl ⊢
    exact hb₁.mem_of_slot hl
  generalize (s.worked env L).manager.idHit (s.worked env L).list.nodes id = a at *
  rw [wp_ite]
  refine ⟨fun h0 => absurd h0 hne, fun _ => ?_⟩
  rw [wp_onList, linkedListEntryGetData, wp_ite]
  refine ⟨fun h0 => absurd h0 hne, fun _ => ?_⟩
  rw [wp_bind]
  refine wp_deref_live (hb₁.rep.live_of_mem hmemHit) ?_
  rw [wp_pure]
  exact hQ hscan _ _ ⟨a, hmemHit, (hsame.data a).symm, (hsame.blockId a).symm.trans hblock⟩

end Specs

/-! ### Setting an id, and asking -/

/-- The library after `sn_set_block_id(p, id)` in `s` and a run of queries. -/
structure SetThenQueried (env : Env) (s : Lib) (L : List Addr) (p : Addr) (id : UInt16) (s' : Lib)
    (L' : List Addr) : Prop where
  base : Base s' L'
  unlocked : Unlocked s' L'
  kept : ∀ a ∈ L, a ∈ L' ∧ item s'.list a =
    if cacheAnswer env s p = some a then { item s.list a with blockId := id } else item s.list a
  fresh : ∀ a ∈ L', a ∈ L ∨ (item s'.list a).blockId = 0

section RoundTrip

variable {cfg : Config} {env env' : Env} {s s₁ s' : Lib} {L L' : List Addr} {p b : Addr}
  {id : UInt16}

/-- The setting call returns exactly if its lookup is safe. -/
theorem setBlockId_returns_iff (env : Env) (hb : Base s L) (hu : Unlocked s L) (hL : L ≠ [])
    (hid : 20 < id) : (∃ s₁, snSetBlockId p id env s = .done () s₁) ↔ LookupSafe s p := by
  constructor
  · rintro ⟨s₁, hdone⟩
    have hspec : wlp (snSetBlockId p id) env (fun _ _ => LookupSafe s p) s :=
      wp_snSetBlockId hb hu hL hid (fun _ _ => trivial) fun hsafe _ _ _ => hsafe
    exact (wp_of_done hdone).mp hspec
  · intro hsafe
    have hspec : wp (snSetBlockId p id) env (fun _ _ => True) (fun _ _ => False) s :=
      wp_snSetBlockId hb hu hL hid (fun h => absurd hsafe h) fun _ _ _ _ => trivial
    obtain ⟨_, s₁, hdone, -⟩ := hspec.exists_done
    exact ⟨s₁, hdone⟩

theorem setThenQueried_run {ls : List (Env × Op)} (hb : Base s L) (hu : Unlocked s L) (hL : L ≠ [])
    (hid : 20 < id) (hdone : snSetBlockId p id env s = .done () s₁)
    (hq : ∀ l ∈ ls, l.2.Queries) (hrun : run (libStep cfg) ls s₁ = some s') :
    ∃ L', SetThenQueried env s L p id s' L' := by
  have hset : wlp (snSetBlockId p id) env (fun _ s₁ => Base s₁ L ∧ ∀ a, item s₁.list a =
      if cacheAnswer env s p = some a then { item s.list a with blockId := id }
      else item s.list a) s :=
    wp_snSetBlockId hb hu hL hid (fun _ _ => trivial) fun _ _ hb₁ hitem => ⟨hb₁, hitem⟩
  obtain ⟨hb₁, hitem⟩ := (wp_of_done hdone).mp hset
  -- the setting call as a step of the library, then the queries
  have hstep : libStep cfg (env, .setBlockId p id) s = some s₁ := by
    show (snSetBlockId p id env s).done? = some s₁
    rw [hdone]
    rfl
  obtain ⟨L₁, hspec⟩ := libStep_meets hb hstep
  obtain ⟨-, hbL₁⟩ := hspec.changes.invariant (I := fun _ _ => True)
    (fun _ _ _ => trivial) hb trivial
  have hu₁ := hspec.unlocked hb hu
  obtain rfl : L₁ = L := hbL₁.rep.unique hb₁.rep
  obtain ⟨L', hb', hu', hqueried⟩ := queried_run hb₁ hu₁ hq hrun
  refine ⟨L', hb', hu', fun a ha => ?_, hqueried.fresh⟩
  obtain ⟨hmem, hkept⟩ := hqueried.kept a ha
  exact ⟨hmem, hkept.trans (hitem a)⟩

theorem SetThenQueried.blockId_eq (h : SetThenQueried env s L p id s' L') (hb : Base s L)
    (hmem : b ∈ L) : (item s'.list b).blockId = id ↔
      s.Answers p b ∨ (nodeAt s.list.nodes b).blockId = id := by
  rw [(h.kept b hmem).2, ← cacheAnswer_eq_some env hb]
  by_cases hcached : cacheAnswer env s p = some b
  · rw [if_pos hcached]
    exact iff_of_true rfl (Or.inl hcached)
  · rw [if_neg hcached, or_iff_right hcached]
    rfl

/-- An id is read back from an entry that the cache answers with. -/
theorem SetThenQueried.get_iff (h : SetThenQueried env s L p id s' L') (hb : Base s L)
    (hL : L' ≠ []) (hid : id ≠ 0) : (∃ t, snGetBlockId p env' s' = .done id t) ↔
      PassSafe (s'.list.nodes, s'.manager) s'.list.entries ∧ ∃ b ∈ L, s'.Answers p b ∧
        (s.Answers p b ∨ (nodeAt s.list.nodes b).blockId = id) := by
  have hcase : ∀ {b}, cacheAnswer env' s' p = some b ↔ s'.Answers p b :=
    cacheAnswer_eq_some env' h.base
  constructor
  · rintro ⟨t, ht⟩
    have hget : wlp (snGetBlockId p) env' (fun v _ => LookupSafe s' p ∧ v =
        ((cacheAnswer env' s' p).map fun a => (item s'.list a).blockId).getD 0) s' :=
      wp_snGetBlockId h.base h.unlocked hL (fun _ _ => trivial) fun hsafe _ => ⟨hsafe, rfl⟩
    obtain ⟨hsafe, hval⟩ := (wp_of_done ht).mp hget
    cases hsome : cacheAnswer env' s' p with
    | none =>
      rw [hsome] at hval
      exact absurd hval hid
    | some b =>
      rw [hsome] at hval
      have hval : id = (item s'.list b).blockId := hval
      have hanswer := hcase.mp hsome
      -- a new entry has no id
      have hmem : b ∈ L := by
        refine (h.fresh b (hanswer.mem h.base (hsafe.answer b hanswer))).resolve_right fun h0 => ?_
        exact hid (hval.trans h0)
      exact ⟨hsafe.pass, b, hmem, hanswer, (h.blockId_eq hb hmem).mp hval.symm⟩
  · rintro ⟨hpass, b, hmem, hanswer, hset⟩
    have hval := (h.blockId_eq hb hmem).mpr hset
    have hsome := hcase.mpr hanswer
    have hsafe : LookupSafe s' p :=
      LookupSafe.of_some h.base hpass hsome (h.base.rep.live_of_mem (h.kept b hmem).1)
    have hget : wp (snGetBlockId p) env' (fun v _ => v =
        ((cacheAnswer env' s' p).map fun a => (item s'.list a).blockId).getD 0)
        (fun _ _ => False) s' :=
      wp_snGetBlockId h.base h.unlocked hL (fun h => absurd hsafe h) fun _ _ => rfl
    obtain ⟨v, t, hdone, hv⟩ := hget.exists_done
    rw [hsome] at hv
    have hv : v = (item s'.list b).blockId := hv
    rw [hv, hval] at hdone
    exact ⟨t, hdone⟩

/-- All the entries but one for `p` are as they were exactly if no other one was written, or not
changed by it. -/
theorem SetThenQueried.others_iff (h : SetThenQueried env s L p id s' L') (hb : Base s L)
    (hsafe : LookupSafe s p) (htracked : ∃ t ∈ L, (nodeAt s.list.nodes t).data = p) :
    (∃ b, (nodeAt s.list.nodes b).data = p ∧ ∀ a ∈ L, a ≠ b →
      a ∈ L' ∧ item s'.list a = item s.list a) ↔ WritesOwn s p id := by
  have hcase : ∀ {b}, cacheAnswer env s p = some b ↔ s.Answers p b := cacheAnswer_eq_some env hb
  constructor
  · rintro ⟨b, hdata, hothers⟩ v hv
    refine or_iff_not_imp_left.mpr fun hother => ?_
    have hmem : v ∈ L := hv.mem hb (hsafe.answer v hv)
    have hne : v ≠ b := by
      rintro rfl
      exact hother hdata
    have hitem := (h.kept v hmem).2
    rw [(hothers v hmem hne).2, if_pos (hcase.mpr hv)] at hitem
    exact congrArg Item.blockId hitem
  · intro hown
    have hother : ∀ c, (∀ a ∈ L, cacheAnswer env s p = some a → a ≠ c →
        (nodeAt s.list.nodes a).blockId = id) → ∀ a ∈ L, a ≠ c →
          a ∈ L' ∧ item s'.list a = item s.list a := by
      intro c honly a ha hne
      obtain ⟨hmem, hkept⟩ := h.kept a ha
      refine ⟨hmem, hkept.trans ?_⟩
      split_ifs with hcached
      · have hid := honly a ha hcached hne
        rw [← hid]
        rfl
      · rfl
    obtain ⟨t, -, hdata⟩ := htracked
    by_cases hanswer : ∃ v, s.Answers p v ∧ (nodeAt s.list.nodes v).data = p
    · obtain ⟨v, hv, hdata⟩ := hanswer
      refine ⟨v, hdata, hother v fun a _ ha hne => absurd ?_ hne⟩
      exact Option.some.inj (ha.symm.trans (hcase.mpr hv))
    · refine ⟨t, hdata, hother t fun a _ ha _ => ?_⟩
      exact (hown a (hcase.mp ha)).resolve_left fun hda => hanswer ⟨a, hcase.mp ha, hda⟩

/-- The search by id, where the reading call comes to an entry with the id. -/
theorem SetThenQueried.query_iff (h : SetThenQueried env s L p id s' L') (hL : L' ≠ [])
    (hid : id ≠ 0) (hpass : PassSafe (s'.list.nodes, s'.manager) s'.list.entries)
    (hanswer : s'.Answers p b) (hval : (item s'.list b).blockId = id) (hmem : b ∈ L') :
    (∃ q t, snQueryBlockId id env' s' = .done q t ∧
      (∃ a ∈ s'.list.entries,
        (nodeAt s'.list.nodes a).data = q ∧ (nodeAt s'.list.nodes a).blockId = id) ∧
      ((∀ b ∈ s'.list.entries, (nodeAt s'.list.nodes b).blockId = id →
        (nodeAt s'.list.nodes b).data = p) → q = p)) ↔ ¬ s'.ScansStale id := by
  have hsome : cacheAnswer env' s' p = some b := (cacheAnswer_eq_some _ h.base).mpr hanswer
  constructor
  · rintro ⟨q, t, hdone, -⟩
    have hspec : wlp (snQueryBlockId id) env' (fun _ _ => ¬ s'.ScansStale id) s' :=
      wp_snQueryBlockId h.base h.unlocked hL hid hpass hsome hval hmem (fun _ _ => trivial)
        fun hscan _ _ _ => hscan
    exact (wp_of_done hdone).mp hspec
  · intro hscan
    have hspec : wp (snQueryBlockId id) env' (fun q _ => ∃ a ∈ L',
        (nodeAt s'.list.nodes a).data = q ∧ (nodeAt s'.list.nodes a).blockId = id)
        (fun _ _ => False) s' :=
      wp_snQueryBlockId h.base h.unlocked hL hid hpass hsome hval hmem
        (fun hstale => absurd hstale hscan) fun _ _ _ hfound => hfound
    obtain ⟨q, t, hdone, a, ha, hdata, hblock⟩ := hspec.exists_done
    rw [h.base.rep.entries_eq]
    exact ⟨q, t, hdone, ⟨a, ha, hdata, hblock⟩, fun honly => hdata.symm.trans (honly a ha hblock)⟩

end RoundTrip

/-- **The round trip of block ids.** For every tracked block of a reachable state the setting
call returns exactly if its lookup reads no node that is gone. After every run of queries the
id is then read back, by address and by id, and the other entries are as they were, exactly
when the setting call wrote no entry of another block and the reading calls come to an entry
that it wrote or that had the id before. -/
theorem block_id_round_trip_iff {cfg : Config} {s : Lib} {p : Addr} {id : UInt16} (env : Env)
    (hs : Reachable cfg s) (htracked : Tracked s p) (hid : 20 < id) :
    ((∃ s₁, snSetBlockId p id env s = .done () s₁) ↔ LookupSafe s p) ∧
      ∀ s₁, snSetBlockId p id env s = .done () s₁ → ∀ ls s', (∀ l ∈ ls, l.2.Queries) →
        run (libStep cfg) ls s₁ = some s' → ∀ env',
          (RoundTrip env' s s' p id ↔ WritesOwn s p id ∧ ReadsBack s s' p id) := by
  obtain ⟨L, hb, hu⟩ := hs.base
  rw [Tracked, hb.rep.entries_eq] at htracked
  have hL : L ≠ [] := by
    obtain ⟨t, ht, -⟩ := htracked
    exact List.ne_nil_of_mem ht
  have hid0 : id ≠ 0 := by
    rintro rfl
    exact absurd hid (by decide)
  have hreturns := setBlockId_returns_iff (p := p) env hb hu hL hid
  refine ⟨hreturns, fun s₁ hdone ls s' hq hrun env' => ?_⟩
  have hsafe := hreturns.mp ⟨s₁, hdone⟩
  obtain ⟨L', h⟩ := setThenQueried_run hb hu hL hid hdone hq hrun
  have hL' : L' ≠ [] := by
    obtain ⟨t, ht, -⟩ := htracked
    exact List.ne_nil_of_mem (h.kept t ht).1
  constructor
  · intro hround
    obtain ⟨hpass, b, hmem, hanswer, hset⟩ := (h.get_iff hb hL' hid0).mp hround.get
    have hothers := hround.others
    rw [hb.rep.entries_eq, h.base.rep.entries_eq] at hothers
    refine ⟨(h.others_iff hb hsafe htracked).mp hothers, hpass, ?_, ?_⟩
    · rw [hb.rep.entries_eq]
      exact ⟨b, hmem, hanswer, hset⟩
    · exact (h.query_iff hL' hid0 hpass hanswer ((h.blockId_eq hb hmem).mpr hset)
        (h.kept b hmem).1).mp hround.query
  · rintro ⟨hown, hpass, hread, hscan⟩
    rw [hb.rep.entries_eq] at hread
    obtain ⟨b, hmem, hanswer, hset⟩ := hread
    refine ⟨(h.get_iff hb hL' hid0).mpr ⟨hpass, b, hmem, hanswer, hset⟩, ?_, ?_⟩
    · exact (h.query_iff hL' hid0 hpass hanswer ((h.blockId_eq hb hmem).mpr hset)
        (h.kept b hmem).1).mpr hscan
    · rw [hb.rep.entries_eq, h.base.rep.entries_eq]
      exact (h.others_iff hb hsafe htracked).mpr hown

/-- Two cached blocks, an id for the one that the passes keep in the cache, and queries about
both before another thread reads the id. -/
theorem block_id_round_trip_iff_at :
    ∃ s s₁ s', Reachable ⟨false⟩ s ∧ s.list.entries = [128, 192] ∧
      snSetBlockId 8192 21 (Env.plain 1 0 0) s = .done () s₁ ∧
      run (libStep ⟨false⟩)
        [(Env.plain 1 0 0, .querySize 4096), (Env.plain 1 0 0, .queryTid 8192)] s₁ = some s' ∧
      RoundTrip (Env.plain 2 0 0) s s' 8192 21 := by
  let env := Env.plain 1 0 0
  let env' := Env.plain 2 0 0
  have hsome : ((doinit (Env.plain 1 64 0) .blank).done?.bind (run (libStep ⟨false⟩)
      [(Env.plain 1 128 4096, .malloc 8), (Env.plain 1 192 8192, .malloc 8),
        (env, .requestToFastCache 4096), (env, .requestToFastCache 8192)])).bind (fun s =>
      ((snSetBlockId 8192 21 env s).done?.bind (run (libStep ⟨false⟩)
        [(env, .querySize 4096), (env, .queryTid 8192)])).map fun s' =>
          ((s.list.entries, decide (Tracked s 8192), cacheAnswer env s 8192,
            (nodeAt s.list.nodes 192).data), cacheAnswer env' s' 8192,
            decide (PassSafe (s'.list.nodes, s'.manager) s'.list.entries),
            decide (∀ i, ¬ s'.manager.Stale s'.list.nodes i)))
      = some (([128, 192], true, some 192, 8192), some 192, true, true) := by
    decide +kernel
  obtain ⟨s, hs, hsome⟩ := Option.bind_eq_some_iff.mp hsome
  obtain ⟨s₀, h₀, hrun⟩ := Option.bind_eq_some_iff.mp hs
  obtain ⟨s', hs', hval⟩ := Option.map_eq_some_iff.mp hsome
  obtain ⟨s₁, hset, hrun'⟩ := Option.bind_eq_some_iff.mp hs'
  obtain ⟨_, hdone⟩ := Outcome.done?_eq_some.mp hset
  obtain ⟨hbefore, hval⟩ := Prod.mk.inj hval
  obtain ⟨hentries, hbefore⟩ := Prod.mk.inj hbefore
  obtain ⟨htracked, hbefore⟩ := Prod.mk.inj hbefore
  obtain ⟨hanswer, hdata⟩ := Prod.mk.inj hbefore
  obtain ⟨hanswer', hval⟩ := Prod.mk.inj hval
  obtain ⟨hpass, hlive⟩ := Prod.mk.inj hval
  have hreach : Reachable ⟨false⟩ s := ⟨s₀, _, started_of_done h₀, hrun⟩
  obtain ⟨L, hb, hu⟩ := hreach.base
  have hq : ∀ l ∈ [(env, Op.querySize 4096), (env, .queryTid 8192)], l.2.Queries := by
    intro l hl
    simp only [List.mem_cons, List.not_mem_nil, or_false] at hl
    rcases hl with rfl | rfl
    · trivial
    · trivial
  have hL : L ≠ [] := by
    rw [← hb.rep.entries_eq, hentries]
    exact List.cons_ne_nil _ _
  obtain ⟨L', h⟩ := setThenQueried_run hb hu hL (by decide) hdone hq hrun'
  have hmem : 192 ∈ s.list.entries := by
    rw [hentries]
    decide
  have hown := (cacheAnswer_eq_some _ hb).mp hanswer
  refine ⟨s, s₁, s', hreach, hentries, hdone, hrun', ((block_id_round_trip_iff env hreach
    (of_decide_eq_true htracked) (by decide)).2 s₁ hdone _ s' hq hrun' env').mpr ⟨?_, ?_⟩⟩
  · intro v hv
    obtain rfl := Option.some.inj (hanswer.symm.trans ((cacheAnswer_eq_some _ hb).mpr hv))
    exact Or.inl hdata
  · exact ⟨of_decide_eq_true hpass,
      ⟨192, hmem, (cacheAnswer_eq_some _ h.base).mp hanswer', Or.inl hown⟩,
      not_scansStale h.base (of_decide_eq_true hlive)⟩

/-- Two blocks: the pass gives the only slot it fills to the second, so the id given
to the first is written nowhere, and reading it back yields 0. -/
theorem block_id_lost :
    ((doinit (Env.plain 1 64 0) .blank).done?.bind (run (libStep ⟨false⟩)
      [(Env.plain 1 128 4096, .malloc 8), (Env.plain 1 192 8192, .malloc 8),
        (Env.plain 1 0 0, .setBlockId 4096 21)])).map (fun s =>
          (s.list.entries, s.list.entries.map fun a => (nodeAt s.list.nodes a).blockId,
            (snGetBlockId 4096 (Env.plain 1 0 0) s).value?,
            (snQueryBlockId 21 (Env.plain 1 0 0) s).value?))
      = some ([128, 192], [0, 0], some 0, some NULL) := by
  decide +kernel

end LibSafetynet
