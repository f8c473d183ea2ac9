import LibSafetynet.CacheMarks

/-!
# One slot for each entry

Neither the pass nor `memman_tryCachePut` asks whether a slot holds the entry already.
The slots stay distinct as long as a pass comes to each entry in the cache by its own slot
(`OwnSlots`) and a request for one finds the cache closed (`KeepsPlaces`), and then
requests and visits of cached entries leave the slots alone.
-/

namespace LibSafetynet

open Logic Prog AllocManager

/-- No two slots hold the same node. -/
def Distinct (v : CacheView) : Prop :=
  ∀ i j, (v.slots i).value = (v.slots j).value → (v.slots i).value ≠ NULL → i = j

/-- A light entry that a slot holds finds no other slot. -/
def FindsNoOtherSlot (a : Addr) (p : NodeHeap × AllocManager) : Prop :=
  Light p.1 a → ∀ i j, (p.2.cacheList j).value = a → slotFor p a = some i → i = j

/-- The entry of a tracked block. -/
def entryFor (s : Lib) (p : Addr) : Addr := findPtr s.list s.list.entries p

/-- A slot that holds a light entry when its turn comes is the one that the entry takes:
the front most of its own first slot and those of the light entries before it. -/
def OwnSlots (p : NodeHeap × AllocManager) (L : List Addr) : Prop :=
  ∀ A ∈ (lights p L).inits, ∀ a ∈ A.getLast?, ∀ k, HeldIn p A.dropLast a k → Takes p A k

/-- A block that is in the cache is requested. -/
def RequestsCached (s : Lib) (p : Addr) : Prop :=
  p ≠ NULL ∧ entryFor s p ≠ NULL ∧ s.cacheView.Holds (entryFor s p)

/-- When a call leaves each entry in the cache its place. -/
structure KeepsPlaces (l : Env × Op) (s : Lib) : Prop where
  pass : OwnSlots (s.list.nodes, s.manager) (l.2.visits s.list.entries)
  request : ∀ p, l.2 = .requestToFastCache p → RequestsCached s p →
    s.manager.cacheLock = true ∨ s.manager.useCache = false ∨ s.manager.availableCacheSlots = 0

/-- What a call does about entries that are in the cache already. -/
structure CachedStay (l : Env × Op) (s s' : Lib) : Prop where
  request : ∀ p, l.2 = .requestToFastCache p → p ≠ NULL → entryFor s p ≠ NULL →
    s.cacheView.Holds (entryFor s p) → s'.manager.cacheList = s.manager.cacheList
  visits : Visits (fun a p => (cacheViewOf p).Holds a →
    ∀ i, ((workEntry p a).2.cacheList i).value = (p.2.cacheList i).value) l s

instance (p : NodeHeap × AllocManager) (L : List Addr) : Decidable (OwnSlots p L) :=
  inferInstanceAs (Decidable (∀ A ∈ (lights p L).inits, _))

instance (s : Lib) : DecidablePred (RequestsCached s) :=
  fun _ => inferInstanceAs (Decidable (_ ∧ _))

instance (l : Env × Op) (s : Lib) : Decidable (KeepsPlaces l s) :=
  decidable_of_iff (_ ∧ ∀ p, l.2 = .requestToFastCache p → RequestsCached s p → _ ∨ _ ∨ _)
    ⟨fun h => ⟨h.1, h.2⟩, fun h => ⟨h.pass, h.request⟩⟩

section Kept

variable {cfg : Config} {l : Env × Op} {s s' : Lib} {L : List Addr} {v : CacheView} {i : Slot}
  {a k : Addr}

/-- The visits of a pass, in the states it goes through. -/
theorem OwnSlots.along {p : NodeHeap × AllocManager} (h : OwnSlots p L) :
    Along passStep FindsNoOtherSlot L p := by
  refine along_of_visits ?_
  rintro pre a post rfl hl i j hj hi
  have hq := placed_workPass p pre
  have hla : Light p.1 a := hq.light_iff.mp hl
  have htakes := hq.firstOpen_iff.mp (slotFor_eq_some.mp hi)
  -- the slot it takes is read off the entries before it, and so is the one that holds it
  refine htakes.unique (h (lights p pre ++ [a]) ?_ a List.getLast?_concat j ?_)
  · rw [lights_split hla]
    exact (List.mem_inits _ _).mpr (List.prefix_append _ _)
  · rw [List.dropLast_concat]
    exact hq.value_iff.mp hj

theorem KeepsPlaces.visits (h : KeepsPlaces l s) : Visits FindsNoOtherSlot l s := h.pass.along

/-- A request for a block in the cache finds the cache closed. -/
theorem KeepsPlaces.refuses {p : Addr} (h : KeepsPlaces l s) (hop : l.2 = .requestToFastCache p)
    (hcached : RequestsCached s p) : ¬ s.manager.AcceptsPut := by
  rintro ⟨hlock, huse, hslots⟩
  rcases h.request p hop hcached with hlocked | hunused | hzero
  · exact Bool.false_ne_true (hlock.symm.trans hlocked)
  · exact Bool.false_ne_true (hunused.symm.trans huse)
  · exact hslots hzero

/-- Storing an entry that no other slot holds keeps the slots distinct. -/
theorem Distinct.put (hd : Distinct v) (hplace : ∀ j, (v.slots j).value = a → j = i) :
    Distinct (v.put i ⟨k, a⟩) := by
  intro j j' heq hne
  rw [slot_put] at heq hne
  rw [slot_put] at heq
  by_cases hj : j = i
  · by_cases hj' : j' = i
    · exact hj.trans hj'.symm
    · rw [if_pos hj, if_neg hj'] at heq
      exact absurd (hplace j' heq.symm) hj'
  · rw [if_neg hj] at heq hne
    by_cases hj' : j' = i
    · rw [if_pos hj'] at heq
      exact absurd (hplace j heq) hj
    · rw [if_neg hj'] at heq
      exact hd j j' heq hne

theorem Distinct.of_emptied {v' : CacheView} (hd : Distinct v)
    (hslot : ∀ i, v'.slots i = v.slots i ∨ v'.slots i = .empty) : Distinct v' := by
  intro i j heq hne
  have hold : ∀ i, (v'.slots i).value ≠ NULL → (v'.slots i).value = (v.slots i).value := by
    intro i hi
    rcases hslot i with hsame | hempty
    · rw [hsame]
    · rw [hempty] at hi
      exact absurd rfl hi
  have hnej : (v'.slots j).value ≠ NULL := heq ▸ hne
  rw [hold i hne] at heq hne
  rw [hold j hnej] at heq
  exact hd i j heq hne

theorem Distinct.workPass {p : NodeHeap × AllocManager} (hd : Distinct (cacheViewOf p))
    (hok : Along passStep FindsNoOtherSlot L p) : Distinct (cacheViewOf (workPass p L)) := by
  refine workPass_invariant (I := fun q => Distinct (cacheViewOf q))
    (fun a _ q hq hplace => ?_) hd hok
  cases visited q a with
  | heavy _ hv =>
    rw [hv]
    exact hq
  | full _ _ hv =>
    rw [hv]
    exact hq
  | @stored i hl hi hv =>
    rw [hv]
    exact hq.put fun j hj => (hplace hl i j hj hi).symm

/-- One operation that offers no cached entry another slot. -/
theorem CacheEffect.distinct (h : CacheEffect l s L s') (hb : Base s L) (hok : KeepsPlaces l s)
    (hd : Distinct s.cacheView) : Distinct s'.cacheView := by
  cases h with
  | passed hv =>
    have hvisits := hok.visits
    unfold Visits at hvisits
    rw [hb.rep.entries_eq] at hvisits
    rw [hv]
    exact hd.workPass hvisits
  | locked _ hv => rw [hv]; exact hd
  | unlocked _ hv => rw [hv]; exact hd
  | caching _ hv => rw [hv]; exact hd
  | cleared _ hv =>
    rw [hv]
    exact hd.of_emptied (slot_drop _ _ _)
  | @put i p hop hp hfound hacc hslot hv =>
    rw [hv]
    refine hd.put fun j hj => ?_
    -- a request for a cached entry would have been refused
    have hentry : entryFor s p = findPtr s.list L p := by rw [entryFor, hb.rep.entries_eq]
    refine absurd hacc (hok.refuses hop ⟨hp, ?_, j, hj.trans hentry.symm⟩)
    rwa [hentry]
  | freed _ hfv _ =>
    refine hd.of_emptied fun i => ?_
    rw [hfv.slot]
    exact slot_drop _ _ _ i

theorem KeepsPlaces.stay (hok : KeepsPlaces l s) (h : CacheEffect l s L s') :
    CachedStay l s s' := by
  constructor
  · intro p hop hp hfound hholds
    cases h with
    | passed hv =>
      -- a request begins without a pass
      rw [hop] at hv
      exact congrArg CacheView.slots hv
    | locked hop' _ => cases hop.symm.trans hop'
    | unlocked hop' _ => cases hop.symm.trans hop'
    | caching hop' _ => cases hop.symm.trans hop'
    | cleared hop' _ => cases hop.symm.trans hop'
    | @put i p' hop' _ _ hacc hslot _ =>
      exact absurd hacc (hok.refuses hop ⟨hp, hfound, hholds⟩)
    | freed hfrees _ _ =>
      cases hfrees with
      | free hop' _ _ => cases hop.symm.trans hop'
      | mount hop' _ _ => cases hop.symm.trans hop'
  · refine Along.mono (fun a p hplace => ?_) hok.visits
    rintro ⟨j, hj⟩ i
    show ((cacheViewOf (workEntry p a)).slots i).value = _
    cases visited p a with
    | heavy _ hv =>
      rw [hv]
      rfl
    | full _ _ hv =>
      rw [hv]
      rfl
    | @stored i' hl hi' hv =>
      -- the entry is stored over itself
      obtain rfl : i' = j := hplace hl i' j hj hi'
      rw [hv, slot_put]
      by_cases hi : i = i'
      · rw [if_pos hi, hi]
        exact hj.symm
      · rw [if_neg hi]
        rfl

end Kept

/-- **One slot for each entry.** In every state of a run whose calls leave the entries in
the cache their places, the slots hold distinct entries, and the next such call leaves the
slots alone where it meets a cached entry. -/
theorem distinct_of_kept_places {cfg : Config} {s₀ s : Lib} {ls : List (Env × Op)} (h₀ : Started s₀)
    (hok : Along (libStep cfg) KeepsPlaces ls s₀) (hrun : run (libStep cfg) ls s₀ = some s) :
    Distinct s.cacheView ∧ ∀ l s', KeepsPlaces l s → libStep cfg l s = some s' →
      CachedStay l s s' := by
  have hl := loaded_of_started h₀
  have hstep : ∀ l s s', (∃ L, Base s L ∧ Distinct s.cacheView) → KeepsPlaces l s →
      libStep cfg l s = some s' → ∃ L', Base s' L' ∧ Distinct s'.cacheView := by
    rintro l s s' ⟨L, hb, hd⟩ hok hstep
    obtain ⟨L', hb', -, heffect⟩ := libStep_cache hb hstep
    exact ⟨L', hb', heffect.distinct hb hok hd⟩
  have hempty : Distinct s₀.cacheView := by
    intro i j _ hne
    refine absurd ?_ hne
    show (s₀.manager.cacheList i).value = NULL
    rw [hl.manager]
    rfl
  obtain ⟨L, hb, hd⟩ := run_invariant hstep ⟨[], hl.base, hempty⟩ hok hrun
  refine ⟨hd, fun l s' hok' hlast => ?_⟩
  obtain ⟨_, _, -, heffect⟩ := libStep_cache hb hlast
  exact hok'.stay heffect

/-- Two passes over two blocks; the second block comes to lie in the cache, and the request
for it meets a locked cache. -/
theorem distinct_of_kept_places_at :
    ∃ ls s₀ s s', ls = [(Env.plain 1 128 4096, .malloc 8), (Env.plain 1 0 0, .querySize 4096),
        (Env.plain 1 192 8192, .malloc 8), (Env.plain 1 0 0, .querySize 8192),
        (Env.plain 1 0 0, .lockFastCache)] ∧
      Started s₀ ∧ run (libStep ⟨false⟩) ls s₀ = some s ∧ Distinct s.cacheView ∧
      s.manager.cacheList 0 = ⟨8192, 192⟩ ∧
      libStep ⟨false⟩ (Env.plain 1 0 0, .requestToFastCache 8192) s = some s' ∧
      CachedStay (Env.plain 1 0 0, .requestToFastCache 8192) s s' := by
  generalize hls : [(Env.plain 1 128 4096, Op.malloc 8), (Env.plain 1 0 0, .querySize 4096),
    (Env.plain 1 192 8192, .malloc 8), (Env.plain 1 0 0, .querySize 8192),
    (Env.plain 1 0 0, .lockFastCache)] = ls
  have hsome : ((doinit (Env.plain 1 64 0) .blank).done?.bind fun s₀ =>
      (run (libStep ⟨false⟩) ls s₀).bind fun s =>
        (libStep ⟨false⟩ (Env.plain 1 0 0, .requestToFastCache 8192) s).map fun _ =>
          (decide (Along (libStep ⟨false⟩) KeepsPlaces ls s₀), s.manager.cacheList 0,
            decide (KeepsPlaces (Env.plain 1 0 0, .requestToFastCache 8192) s))) =
              some (true, ⟨8192, 192⟩, true) := by
    rw [← hls]
    decide +kernel
  obtain ⟨s₀, h₀, hsome⟩ := Option.bind_eq_some_iff.mp hsome
  obtain ⟨s, hs, hsome⟩ := Option.bind_eq_some_iff.mp hsome
  obtain ⟨s', hs', hval⟩ := Option.map_eq_some_iff.mp hsome
  obtain ⟨hok, hval⟩ := Prod.mk.inj hval
  obtain ⟨hslot, hnext⟩ := Prod.mk.inj hval
  obtain ⟨hdistinct, hstay⟩ :=
    distinct_of_kept_places (started_of_done h₀) (of_decide_eq_true hok) hs
  exact ⟨ls, s₀, s, s', rfl, started_of_done h₀, hs, hdistinct, hslot, hs',
    hstay _ s' (of_decide_eq_true hnext) hs'⟩

/-- The same block is requested twice: it gets two slots. -/
theorem requested_twice_in_two_slots :
    ((doinit (Env.plain 1 64 0) .blank).done?.bind (run (libStep ⟨false⟩)
      [(Env.plain 1 128 4096, .malloc 8), (Env.plain 1 0 0, .requestToFastCache 4096),
        (Env.plain 1 0 0, .requestToFastCache 4096)])).map (fun s =>
          slots.map fun i => s.manager.cacheList i)
      = some [⟨4096, 128⟩, ⟨4096, 128⟩, .empty, .empty, .empty] := by
  decide +kernel

end LibSafetynet
