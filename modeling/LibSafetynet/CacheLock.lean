import LibSafetynet.CachePass

/-!
# The locked cache

Nothing may enter the cache while it is locked or not in use. `memman_tryCachePut` asks
for both settings, `memman_work` for neither. What is left of the promise: slots only
become empty, by the calls that empty them, as long as the light entries of each pass lie
in the slots where it would put them (`InPlace`).
-/

namespace LibSafetynet

open Logic Prog AllocManager

/-- The two settings under which nothing may enter the cache. -/
inductive Setting where
  /-- `sn_lock_fast_cache` -/
  | locked
  /-- `sn_do_fast_caching(0)` -/
  | unused

namespace Setting

def Holds : Setting → CacheView → Prop
  | .locked, v => v.cacheLock = true
  | .unused, v => v.useCache = false

def LiftedBy : Setting → Op → Prop
  | .locked, op => op = .unlockFastCache
  | .unused, op => op = .doFastCaching true

end Setting

/-- The operations that empty slots; `sn_mount_file_to_ram` by its call of `sn_free`. -/
def Op.EmptiesSlots : Op → Prop
  | .free _ | .fastCacheClear | .mountFileToRam _ => True
  | _ => False

/-- The light entries lie where a pass would put them. The first slot for each one holds
it already, and lies before the first slots for the entries visited before it, because the
entry stored last leaves its slot open to the next one. -/
structure InPlace (p : NodeHeap × AllocManager) (L : List Addr) : Prop where
  own : ∀ a ∈ lights p L, ∀ i, FirstOpen p a i → p.2.cacheList i = ⟨(nodeAt p.1 a).data, a⟩
  descends : (lights p L).Pairwise fun b a => b ≠ a → ∀ j, FirstOpen p b j →
    ∃ i < j, FirstOpen p a i

instance (p : NodeHeap × AllocManager) (L : List Addr) : Decidable (InPlace p L) :=
  decidable_of_iff (_ ∧ _) ⟨fun h => ⟨h.1, h.2⟩, fun h => ⟨h.own, h.descends⟩⟩

/-- The passes of this call find the light entries in place. -/
def PassInPlace (l : Env × Op) (s : Lib) : Prop :=
  InPlace (s.list.nodes, s.manager) (l.2.visits s.list.entries)

instance (l : Env × Op) (s : Lib) : Decidable (PassInPlace l s) :=
  inferInstanceAs (Decidable (InPlace _ _))

section Kept

variable {cfg : Config} {l : Env × Op} {s s' : Lib} {L : List Addr} {setting : Setting}
  {p : NodeHeap × AllocManager} {a : Addr} {k : Slot}

/-- The entry that a slot is left with is the one that it holds. -/
theorem InPlace.leftIn (h : InPlace p L) (hleft : LeftIn p (lights p L) a k) :
    p.2.cacheList k = ⟨(nodeAt p.1 a).data, a⟩ := by
  have ha := hleft.mem
  obtain ⟨B, hB, hlast, htakes, -⟩ := hleft
  obtain ⟨B, rfl⟩ := List.getLast?_eq_some_iff.mp hlast
  obtain ⟨⟨b, hb, hfirst⟩, hle⟩ := htakes
  by_cases hba : b = a
  · subst hba
    exact h.own b ha k hfirst
  · -- the first slot for `a` would lie before `k`
    have hbB : b ∈ B := by simpa [hba] using hb
    have hpair := h.descends.sublist ((List.mem_inits _ _).mp hB).sublist
    obtain ⟨i, hik, hi⟩ := (List.pairwise_append.mp hpair).2.2 b hbB a
      (List.mem_singleton_self a) hba k hfirst
    exact absurd hik (not_lt.mpr (hle a (List.mem_concat_self) i hi))

/-- A pass that finds its light entries in place leaves the slots as they are. -/
theorem slots_workPass (h : InPlace p L) : (workPass p L).2.cacheList = p.2.cacheList := by
  funext k
  refine after_iff.mp ?_
  by_cases htaken : Taken p (lights p L) k
  · obtain ⟨a, ha⟩ := htaken.leftIn
    rw [h.leftIn ha]
    exact .left ha
  · exact .kept htaken

/-- One operation under a setting that it does not lift. -/
theorem CacheEffect.kept (h : CacheEffect l s L s') (hb : Base s L)
    (hset : setting.Holds s.cacheView)
    (hlift : ¬ setting.LiftedBy l.2) (hok : PassInPlace l s) :
    setting.Holds s'.cacheView ∧ ∀ i, s'.cacheView.slots i = s.cacheView.slots i ∨
      s'.cacheView.slots i = .empty ∧ l.2.EmptiesSlots := by
  -- where the settings are as before
  have hsame : s'.cacheView.cacheLock = s.cacheView.cacheLock →
      s'.cacheView.useCache = s.cacheView.useCache → setting.Holds s'.cacheView := by
    intro hlock huse
    cases setting with
    | locked => exact hlock.trans hset
    | unused => exact huse.trans hset
  cases h with
  | passed hv =>
    unfold PassInPlace at hok
    rw [hb.rep.entries_eq] at hok
    obtain ⟨hlock, huse⟩ := settings_workPass (p := (s.list.nodes, s.manager)) (L := l.2.visits L)
    rw [← hv] at hlock huse
    refine ⟨hsame hlock huse, fun i => Or.inl ?_⟩
    rw [hv]
    exact congrFun (slots_workPass hok) i
  | locked hop hv =>
    refine ⟨?_, fun i => Or.inl (by rw [hv])⟩
    cases setting with
    | locked => rw [hv]; rfl
    | unused => rw [hv]; exact hset
  | unlocked hop hv =>
    refine ⟨?_, fun i => Or.inl (by rw [hv])⟩
    cases setting with
    | locked => exact absurd hop hlift
    | unused => rw [hv]; exact hset
  | @caching val hop hv =>
    refine ⟨?_, fun i => Or.inl (by rw [hv])⟩
    cases setting with
    | locked => rw [hv]; exact hset
    | unused =>
      cases val with
      | false => rw [hv]; rfl
      | true => exact absurd hop hlift
  | cleared hop hv =>
    refine ⟨hsame (by rw [hv]; rfl) (by rw [hv]; rfl), fun i => ?_⟩
    rw [hv]
    refine (slot_drop _ _ _ i).imp_right fun hempty => ⟨hempty, ?_⟩
    rw [hop]
    trivial
  | put _ _ _ hacc _ _ =>
    -- the request asks for both settings
    cases setting with
    | locked => exact absurd (hacc.1.symm.trans hset) Bool.false_ne_true
    | unused => exact absurd (hset.symm.trans hacc.2.1) Bool.false_ne_true
  | freed hfrees hfv _ =>
    refine ⟨hsame hfv.cacheLock hfv.useCache, fun i => ?_⟩
    rw [hfv.slot]
    refine (slot_drop _ _ _ i).imp_right fun hempty => ⟨hempty, ?_⟩
    cases hfrees with
    | free hop _ _ => rw [hop]; trivial
    | mount hop _ _ => rw [hop]; trivial

end Kept

/-- **The lock, up to the pass.** From every reachable state under one of the settings, in
every run that does not lift it and whose passes find their light entries in place: the
setting stays, and slots only become empty, by the operations that empty them. -/
theorem lock_respected_of_in_place {cfg : Config} {s s' : Lib} {ls : List (Env × Op)}
    {setting : Setting} (hs : Reachable cfg s) (hset : setting.Holds s.cacheView)
    (hlift : ∀ l ∈ ls, ¬ setting.LiftedBy l.2)
    (hok : Along (libStep cfg) PassInPlace ls s)
    (hrun : run (libStep cfg) ls s = some s') :
    setting.Holds s'.cacheView ∧ ∀ i, s'.manager.cacheList i = s.manager.cacheList i ∨
      s'.manager.cacheList i = .empty ∧ ∃ l ∈ ls, l.2.EmptiesSlots := by
  obtain ⟨L, hb, -⟩ := hs.base
  have hmem : Along (libStep cfg) (fun l _ => l ∈ ls) ls s := Along.of_forall (fun _ hl _ => hl) s
  have hend := run_invariant (P := fun l s => PassInPlace l s ∧ l ∈ ls)
    (I := fun s₁ => (∃ L₁, Base s₁ L₁) ∧ setting.Holds s₁.cacheView ∧
      ∀ i, s₁.cacheView.slots i = s.cacheView.slots i ∨
        s₁.cacheView.slots i = .empty ∧ ∃ l ∈ ls, l.2.EmptiesSlots)
    (fun l s₁ s₂ hI hP hstep => ?_) ⟨⟨L, hb⟩, hset, fun _ => Or.inl rfl⟩ (hok.and hmem) hrun
  · exact hend.2
  obtain ⟨⟨L₁, hb₁⟩, hset₁, hslots₁⟩ := hI
  obtain ⟨L₂, hb₂, -, heffect⟩ := libStep_cache hb₁ hstep
  obtain ⟨hset₂, hslots₂⟩ := heffect.kept hb₁ hset₁ (hlift l hP.2) hP.1
  refine ⟨⟨L₂, hb₂⟩, hset₂, fun i => ?_⟩
  rcases hslots₂ i with heq | ⟨hempty, hop⟩
  · rw [heq]
    exact hslots₁ i
  · exact Or.inr ⟨hempty, l, hP.2, hop⟩

/-- A locked cache with one block, queried, queried again beside a block that is refused a
slot and freed, and freed itself. -/
theorem lock_respected_of_in_place_at :
    ∃ ls s s', ls = [(Env.plain 1 0 0, .querySize 4096), (Env.plain 1 192 8192, .malloc 8),
        (Env.plain 1 0 0, .requestToFastCache 8192), (Env.plain 1 0 0, .free 8192),
        (Env.plain 1 0 0, .queryMetadata 4096), (Env.plain 1 0 0, .free 4096)] ∧
      Reachable ⟨false⟩ s ∧ s.manager.cacheList 0 = ⟨4096, 128⟩ ∧
      run (libStep ⟨false⟩) ls s = some s' ∧ Setting.locked.Holds s'.cacheView ∧
      ∀ i, s'.manager.cacheList i = s.manager.cacheList i ∨
        s'.manager.cacheList i = .empty ∧ ∃ l ∈ ls, l.2.EmptiesSlots := by
  generalize hls : [(Env.plain 1 0 0, Op.querySize 4096), (Env.plain 1 192 8192, .malloc 8),
    (Env.plain 1 0 0, .requestToFastCache 8192), (Env.plain 1 0 0, .free 8192),
    (Env.plain 1 0 0, .queryMetadata 4096), (Env.plain 1 0 0, .free 4096)] = ls
  have hsome : ((doinit (Env.plain 1 64 0) .blank).done?.bind fun s₀ => (run (libStep ⟨false⟩)
      [(Env.plain 1 128 4096, .malloc 8), (Env.plain 1 0 0, .querySize 4096),
        (Env.plain 1 0 0, .lockFastCache)] s₀).bind fun s => (run (libStep ⟨false⟩) ls s).map
          fun _ => (s.manager.cacheLock, s.manager.cacheList 0,
            decide (Along (libStep ⟨false⟩) PassInPlace ls s))) =
              some (true, ⟨4096, 128⟩, true) := by
    rw [← hls]
    decide +kernel
  obtain ⟨s₀, h₀, hsome⟩ := Option.bind_eq_some_iff.mp hsome
  obtain ⟨s, hs, hsome⟩ := Option.bind_eq_some_iff.mp hsome
  obtain ⟨s', hs', hval⟩ := Option.map_eq_some_iff.mp hsome
  obtain ⟨hlock, hval⟩ := Prod.mk.inj hval
  obtain ⟨hslot, hok⟩ := Prod.mk.inj hval
  have hreach : Reachable ⟨false⟩ s := ⟨s₀, _, started_of_done h₀, hs⟩
  refine ⟨ls, s, s', rfl, hreach, hslot, hs', ?_⟩
  refine lock_respected_of_in_place hreach hlock (fun l hl => ?_) (of_decide_eq_true hok) hs'
  simp only [← hls, List.mem_cons, List.not_mem_nil, or_false] at hl
  rcases hl with rfl | rfl | rfl | rfl | rfl | rfl <;> exact fun h => nomatch h

/-- The cache is locked and empty; the first query stores the block. -/
theorem pass_fills_locked_cache :
    ((doinit (Env.plain 1 64 0) .blank).done?.bind (run (libStep ⟨false⟩)
      [(Env.plain 1 0 0, .lockFastCache), (Env.plain 1 128 4096, .malloc 8)])).bind (fun s =>
        (libStep ⟨false⟩ (Env.plain 1 0 0, .querySize 4096) s).map fun s' =>
          (s.manager.cacheLock, s.manager.cacheList 0, s'.manager.cacheLock,
            s'.manager.cacheList 0))
      = some (true, .empty, true, ⟨4096, 128⟩) := by
  decide +kernel

end LibSafetynet
