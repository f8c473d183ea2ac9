import LibSafetynet.CachePass
import LibSafetynet.CacheCoherence

/-!
# Cache replacement

The worker resets the weight of the entry it visits before it looks for a slot, so the
slot it has just filled is light again: the next light entry replaces it, however many
slots behind it are empty. Only an entry that has a slot further to the front escapes.
The slots that a pass fills one after the other therefore run from the back to the front
(`Descending`), or the pass replaces an entry while a slot is empty
(`pass_right_iff_spared`).
-/

namespace LibSafetynet

open Logic Prog PlatMutex ListState AllocManager

/-- The visit of `a` replaces an entry that some slot holds while another slot is empty. -/
def Overwrites (L : List Addr) (a : Addr) (p : NodeHeap × AllocManager) : Prop :=
  ∃ i j, i ≠ j ∧ (p.2.cacheList i).value ∈ L ∧
    ((workEntry p a).2.cacheList i).value ≠ (p.2.cacheList i).value ∧ p.2.cacheList j = .empty

/-- What one pass is to do. -/
structure PassRight (env : Env) (s : Lib) : Prop where
  spares : Along passStep (fun a p => ¬ Overwrites s.list.entries a p) s.list.entries
    (s.list.nodes, s.manager)
  /-- A pass that ends early waits for a lock. -/
  fits : s.list.entries.length ≤ memmanMaxCacheSlots →
    (∀ a ∈ s.list.entries, Light s.list.nodes a) → (∀ i, s.manager.cacheList i = .empty) →
      wp memmanWork env
        (fun _ s' => ∀ a ∈ s.list.entries,
          ∃ i, s'.manager.cacheList i = ⟨(nodeAt s.list.nodes a).data, a⟩)
        (fun e _ => e = .blocked ∧ (Blocks env.tid s.allocMutex ∨ ScanBlocks env.tid s.list)) s

/-! ## The condition -/

/-- The first slots that hold the entries lie one before the other, all of them before `i`. -/
def Descending (value : Slot → Addr) : Slot → List Addr → Prop
  | _, [] => True
  | i, a :: as => ∃ j < i, value j = a ∧ (∀ k < j, value k ≠ a) ∧ Descending value j as

/-- No slot is empty, or the light entries of the list find their own slots: the first one
an empty slot or one that holds it, and while another slot stays empty each further one
a slot before the last. -/
def Spared (p : NodeHeap × AllocManager) (L : List Addr) : Prop :=
  (∀ i, p.2.cacheList i ≠ .empty) ∨
    match lights p L with
    | [] => True
    | a :: as => ∃ i, FirstOpen p a i ∧ (p.2.cacheList i = .empty ∨ (p.2.cacheList i).value = a) ∧
      ((∀ j, j ≠ i → p.2.cacheList j ≠ .empty) ∨
        Descending (fun j => (p.2.cacheList j).value) i as)

instance Descending.decidable (value : Slot → Addr) :
    ∀ (i : Slot) (L : List Addr), Decidable (Descending value i L)
  | _, [] => isTrue trivial
  | i, a :: as =>
    have : ∀ j, Decidable (Descending value j as) := fun j => Descending.decidable value j as
    inferInstanceAs (Decidable (∃ j < i, value j = a ∧ (∀ k < j, value k ≠ a) ∧ _))

instance (p : NodeHeap × AllocManager) (L : List Addr) : Decidable (Spared p L) := by
  unfold Spared
  cases lights p L <;> infer_instance

section Spared

variable {p : NodeHeap × AllocManager} {L rest : List Addr} {a b w : Addr} {i j : Slot}
  {env : Env} {s : Lib}

/-! ## One visit -/

/-- The visit of a heavy entry does nothing. -/
theorem spares_heavy (hl : ¬ Light p.1 a) : ¬ Overwrites L a p := by
  rintro ⟨i, -, -, -, hne, -⟩
  have hsame : workEntry p a = p := workEntry_heavy hl
  rw [hsame] at hne
  exact hne rfl

/-- Which entries are light stays. -/
theorem lights_workEntry : lights (workEntry p a) rest = lights p rest := by
  refine List.filter_congr fun b _ => decide_eq_decide.mpr ?_
  unfold Light
  rw [nodeAt_workEntry]
  by_cases hb : b = a ∧ Light p.1 a
  · rw [if_pos hb]
    have hw : (nodeAt p.1 b).weight ≤ 10 := hb.1 ▸ hb.2
    exact iff_of_true (UInt8.zero_le) hw
  · rw [if_neg hb]

/-- A light entry that takes an empty slot, or one that holds it, replaces no other one. -/
theorem spares_own (hl : Light p.1 a) (hi : FirstOpen p a i) (hnull : NULL ∉ L)
    (hown : p.2.cacheList i = .empty ∨ (p.2.cacheList i).value = a) : ¬ Overwrites L a p := by
  rintro ⟨k, -, -, hmem, hne, -⟩
  rw [value_workEntry hl hi] at hne
  by_cases hki : k = i
  · rw [if_pos hki, hki] at hne
    rw [hki] at hmem
    rcases hown with hempty | hself
    · rw [hempty] at hmem
      exact hnull hmem
    · exact hne hself.symm
  · exact hne (if_neg hki)

/-- A light entry that takes the slot of another one does. -/
theorem overwrites_other (hl : Light p.1 a) (hi : FirstOpen p a i)
    (hmem : (p.2.cacheList i).value ∈ L) (hne : (p.2.cacheList i).value ≠ a) (hij : i ≠ j)
    (hempty : p.2.cacheList j = .empty) : Overwrites L a p := by
  refine ⟨i, j, hij, hmem, ?_, hempty⟩
  rw [value_workEntry hl hi, if_pos rfl]
  exact fun h => hne h.symm

/-! ## The rest of the pass -/

/-- The pass has just put the entry `w` into slot `i`. -/
structure Filled (p : NodeHeap × AllocManager) (i : Slot) (w : Addr) : Prop where
  value : (p.2.cacheList i).value = w
  light : (nodeAt p.1 w).weight < 10
  before : ∀ j < i, Closed p w j

theorem Filled.of_visit (hl : Light p.1 a) (hi : FirstOpen p a i) : Filled (workEntry p a) i a := by
  constructor
  · rw [value_workEntry hl hi, if_pos rfl]
  · rw [nodeAt_workEntry, if_pos ⟨rfl, hl⟩]
    show (0 : UInt8) < 10
    decide
  · intro j hj
    obtain ⟨hnull, hne, hw⟩ := hi.2 j hj
    unfold Closed
    rw [value_workEntry hl hi, if_neg (ne_of_lt hj), nodeAt_workEntry, if_neg fun h => hne h.1]
    exact ⟨hnull, hne, hw⟩

/-- A visit empties no slot. -/
theorem not_empty_workEntry (ha : a ≠ NULL) (hj : p.2.cacheList j ≠ .empty) :
    (workEntry p a).2.cacheList j ≠ .empty := by
  show (cacheViewOf (workEntry p a)).slots j ≠ .empty
  cases visited p a with
  | heavy _ hv =>
    rw [hv]
    exact hj
  | full _ _ hv =>
    rw [hv]
    exact hj
  | @stored i _ _ hv =>
    rw [hv, slot_put]
    by_cases hji : j = i
    · rw [if_pos hji]
      exact fun h => ha (congrArg CachePair.value h)
    · rw [if_neg hji]
      exact hj

/-- Without an empty slot there is nothing to spare. -/
theorem spares_full (hnull : ∀ a ∈ rest, a ≠ NULL) (hfull : ∀ i, p.2.cacheList i ≠ .empty) :
    Along passStep (fun a p => ¬ Overwrites L a p) rest p := by
  induction rest generalizing p with
  | nil => trivial
  | cons a rest ih =>
    rw [along_passStep_cons]
    constructor
    · rintro ⟨-, j, -, -, -, hempty⟩
      exact hfull j hempty
    · exact ih (fun b hb => hnull b (List.mem_cons_of_mem a hb)) fun j =>
        not_empty_workEntry (hnull a List.mem_cons_self) (hfull j)

/-- The first slots that hold the entries: only the slots before `i` matter. -/
theorem descending_congr {v v' : Slot → Addr} (h : ∀ j < i, v' j = v j) :
    Descending v' i rest ↔ Descending v i rest := by
  induction rest generalizing i with
  | nil => exact Iff.rfl
  | cons a rest ih =>
    refine exists_congr fun j => and_congr_right fun hj => ?_
    have hfirst : (∀ k < j, v' k ≠ a) ↔ ∀ k < j, v k ≠ a :=
      forall_congr' fun k => imp_congr_right fun hk => by rw [h k (hk.trans hj)]
    rw [h j hj, hfirst, ih fun k hk => h k (hk.trans hj)]

/-- While slot `i` has the entry stored last and another slot is empty, the rest of the
pass replaces no entry exactly if it goes from slot to slot towards the front. -/
theorem spares_iff_descending (hn : rest.Nodup) (hL : ∀ b ∈ rest, b ∈ L) (hnull : NULL ∉ L)
    (hf : Filled p i w) (hwL : w ∈ L) (hw : w ∉ rest) (hempty : p.2.cacheList j = .empty) :
    Along passStep (fun a p => ¬ Overwrites L a p) rest p ↔
      Descending (fun j => (p.2.cacheList j).value) i (lights p rest) := by
  induction rest generalizing p i w with
  | nil => exact iff_of_true trivial trivial
  | cons b rest ih =>
    obtain ⟨hb, hn⟩ := List.nodup_cons.mp hn
    have hbL := hL b List.mem_cons_self
    have hL' : ∀ c ∈ rest, c ∈ L := fun c hc => hL c (List.mem_cons_of_mem b hc)
    obtain ⟨hwb, hw⟩ := not_or.mp (mt List.mem_cons.mpr hw)
    rw [along_passStep_cons]
    by_cases hl : Light p.1 b
    · rw [lights_cons_light hl]
      have hopen : ¬ Closed p b i := by
        rintro ⟨-, -, hheavy⟩
        rw [hf.value] at hheavy
        exact UInt8.not_le.mpr hf.light hheavy
      -- slot `i` is open to `b`, which takes it or one before it
      obtain ⟨i', hi'⟩ := firstOpen_exists hopen
      have hle : i' ≤ i := not_lt.mp fun hlt => hopen (hi'.2 i hlt)
      rcases lt_or_eq_of_le hle with hlt | heq
      · -- the slots before `i` are closed but for `b`'s own
        obtain ⟨hne, -, hheavy⟩ := hf.before i' hlt
        have hself : (p.2.cacheList i').value = b := by
          by_contra hother
          exact hi'.1 ⟨hne, hother, hheavy⟩
        have hvalue : ∀ k, ((workEntry p b).2.cacheList k).value = (p.2.cacheList k).value := by
          intro k
          rw [value_workEntry hl hi']
          by_cases hki : k = i'
          · rw [if_pos hki, hki, hself]
          · rw [if_neg hki]
        have hji' : j ≠ i' := by
          rintro rfl
          rw [hempty] at hself
          obtain rfl : NULL = b := hself
          exact hnull hbL
        have hempty' : (workEntry p b).2.cacheList j = .empty := by
          rw [slot_workEntry hl hi', if_neg hji', hempty]
        rw [and_iff_right (spares_own hl hi' hnull (Or.inr hself)),
          ih hn hL' (Filled.of_visit hl hi') hbL hb hempty', lights_workEntry,
          descending_congr (v := fun k => (p.2.cacheList k).value) fun k _ => hvalue k]
        constructor
        · exact fun h => ⟨i', hlt, hself, fun k hk => (hi'.2 k hk).2.1, h⟩
        · rintro ⟨k, -, hk, hfirst, h⟩
          obtain rfl : k = i' := by
            rcases lt_trichotomy k i' with hki | hki | hki
            · exact absurd hk (hi'.2 k hki).2.1
            · exact hki
            · exact absurd hself (hfirst i' hki)
          exact h
      · -- no slot before `i` is for `b`: it takes the slot of `w`
        subst heq
        have hij : i' ≠ j := by
          rintro rfl
          have hvalue := hf.value
          rw [hempty] at hvalue
          obtain rfl : NULL = w := hvalue
          exact hnull hwL
        refine iff_of_false (fun h => h.1 ?_) ?_
        · refine overwrites_other hl hi' ?_ ?_ hij hempty
          · rw [hf.value]
            exact hwL
          · rw [hf.value]
            exact hwb
        · rintro ⟨k, hk, hkb, -⟩
          exact (hi'.2 k hk).2.1 hkb
    · have hsame : workEntry p b = p := workEntry_heavy hl
      rw [lights_cons_heavy hl, and_iff_right (spares_heavy hl), hsame]
      exact ih hn hL' hf hwL hw hempty

/-- **The whole pass.** -/
theorem spares_iff_spared (hn : rest.Nodup) (hL : ∀ b ∈ rest, b ∈ L) (hnull : NULL ∉ L)
    (hcoh : ∀ k, p.2.cacheList k ≠ .empty → (p.2.cacheList k).value ∈ L) :
    Along passStep (fun a p => ¬ Overwrites L a p) rest p ↔ Spared p rest := by
  induction rest with
  | nil => exact iff_of_true trivial (Or.inr trivial)
  | cons a rest ih =>
    obtain ⟨ha, hn⟩ := List.nodup_cons.mp hn
    have haL := hL a List.mem_cons_self
    have hL' : ∀ c ∈ rest, c ∈ L := fun c hc => hL c (List.mem_cons_of_mem a hc)
    have hane : a ≠ NULL := fun h => hnull (h ▸ haL)
    have hrest : ∀ c ∈ rest, c ≠ NULL := fun c hc h => hnull (h ▸ hL' c hc)
    rw [along_passStep_cons]
    by_cases hl : Light p.1 a
    · unfold Spared
      rw [lights_cons_light hl]
      -- full slots stay full
      by_cases hfull : ∀ i, p.2.cacheList i ≠ .empty
      · refine iff_of_true ⟨?_, ?_⟩ (Or.inl hfull)
        · rintro ⟨-, j, -, -, -, hempty⟩
          exact hfull j hempty
        · exact spares_full hrest fun j => not_empty_workEntry hane (hfull j)
      · rw [or_iff_right hfull]
        obtain ⟨j, hj⟩ := not_forall.mp hfull
        have hempty := not_not.mp hj
        have hopen : ¬ Closed p a j := by
          rintro ⟨hne, -⟩
          rw [hempty] at hne
          exact hne rfl
        obtain ⟨i, hi⟩ := firstOpen_exists hopen
        -- the first light entry finds its own slot, or takes that of another entry
        by_cases hown : p.2.cacheList i = .empty ∨ (p.2.cacheList i).value = a
        · have hafter : Along passStep (fun a p => ¬ Overwrites L a p) rest (workEntry p a) ↔
              (∀ k, k ≠ i → p.2.cacheList k ≠ .empty) ∨
                Descending (fun k => (p.2.cacheList k).value) i (lights p rest) := by
            by_cases hothers : ∀ k, k ≠ i → p.2.cacheList k ≠ .empty
            · -- it took the last empty slot
              refine iff_of_true (spares_full hrest fun k => ?_) (Or.inl hothers)
              by_cases hki : k = i
              · rw [slot_workEntry hl hi, if_pos hki]
                exact fun h => hane (congrArg CachePair.value h)
              · exact not_empty_workEntry hane (hothers k hki)
            · obtain ⟨k, hk⟩ := not_forall.mp hothers
              obtain ⟨hki, hk⟩ := Classical.not_imp.mp hk
              have hempty' : (workEntry p a).2.cacheList k = .empty := by
                rw [slot_workEntry hl hi, if_neg hki]
                exact not_not.mp hk
              rw [or_iff_right hothers, spares_iff_descending hn hL' hnull
                (Filled.of_visit hl hi) haL
                ha hempty', lights_workEntry]
              refine descending_congr fun k hk => ?_
              rw [value_workEntry hl hi, if_neg (ne_of_lt hk)]
          rw [and_iff_right (spares_own hl hi hnull hown), hafter]
          constructor
          · exact fun h => ⟨i, hi, hown, h⟩
          · rintro ⟨k, hk, -, h⟩
            obtain rfl := hi.unique hk
            exact h
        · obtain ⟨hne, hother⟩ := not_or.mp hown
          have hij : i ≠ j := fun h => hne (h ▸ hempty)
          refine iff_of_false (fun h => h.1 ?_) ?_
          · exact overwrites_other hl hi (hcoh i hne) hother hij hempty
          · rintro ⟨k, hk, hown', -⟩
            obtain rfl := hi.unique hk
            exact hown hown'
    · have hsame : workEntry p a = p := workEntry_heavy hl
      rw [and_iff_right (spares_heavy hl), hsame, ih hn hL']
      unfold Spared
      rw [lights_cons_heavy hl]

/-! ## Few entries and an empty cache -/

/-- Into an empty cache the pass spares one light entry at most. -/
theorem Spared.length_le (hs : Spared p L) (hempty : ∀ i, p.2.cacheList i = .empty) :
    (lights p L).length ≤ 1 := by
  rcases hs with hfull | hs
  · exact absurd (hempty 0) (hfull 0)
  cases hlist : lights p L with
  | nil => exact Nat.zero_le 1
  | cons a as =>
    rw [hlist] at hs
    obtain ⟨i, hi, -, hrest⟩ := hs
    -- the first slot is open to every entry
    have hzero : i = 0 := by
      by_contra hne
      have hclosed := hi.2 0 (Fin.pos_of_ne_zero hne)
      exact hclosed.1 (by rw [hempty 0]; rfl)
    rcases hrest with hothers | hdesc
    · exact absurd (hempty 1) (hothers 1 (by rw [hzero]; decide))
    · cases as with
      | nil => exact Nat.le_refl 1
      | cons b bs =>
        obtain ⟨j, hj, -⟩ := hdesc
        rw [hzero] at hj
        exact absurd hj (Fin.not_lt_zero j)

/-- One light entry alone is cached. -/
theorem cached_single (hl : Light p.1 a) (hempty : ∀ i, p.2.cacheList i = .empty) :
    ∃ i, (workEntry p a).2.cacheList i = ⟨(nodeAt p.1 a).data, a⟩ := by
  have hopen : ¬ Closed p a 0 := by
    rintro ⟨hne, -⟩
    rw [hempty 0] at hne
    exact hne rfl
  obtain ⟨i, hi⟩ := firstOpen_exists hopen
  exact ⟨i, by rw [slot_workEntry hl hi, if_pos rfl]⟩

end Spared

/-! ## The callback -/

/-- A visit is one call of the callback. -/
theorem worker_done {l l' : ListState} {m : AllocManager} {env : Env} {a : Addr} {index : Nat}
    {r : Addr × AllocManager} (hlive : (l.nodes.lookup a).isSome)
    (hdone : memmanCacheAlgorithmWorker a index m env l = .done r l') :
    (l'.nodes, r.2) = workEntry (l.nodes, m) a := by
  have hspec : wlp (memmanCacheAlgorithmWorker a index m) env
      (fun r l' => (l'.nodes, r.2) = workEntry (l.nodes, m) a) l :=
    wp_memmanCacheAlgorithmWorker hlive (fun _ _ => trivial) fun _ => rfl
  exact hspec.done hdone

/-- The visit that replaces an entry beside an empty slot, by what the callback did. -/
theorem overwrites_iff_worker {l l' : ListState} {m : AllocManager} {env : Env} {a : Addr}
    {L : List Addr} {index : Nat} {r : Addr × AllocManager} (hlive : (l.nodes.lookup a).isSome)
    (hdone : memmanCacheAlgorithmWorker a index m env l = .done r l') :
    Overwrites L a (l.nodes, m) ↔ ∃ i j, i ≠ j ∧ (m.cacheList i).value ∈ L ∧
      (r.2.cacheList i).value ≠ (m.cacheList i).value ∧ m.cacheList j = .empty := by
  unfold Overwrites
  rw [← worker_done hlive hdone]

/-- **Replacement.** Over every list and every coherent cache, a pass is right exactly if it
starts from full slots or its light entries find their own. -/
theorem pass_right_iff_spared {env : Env} {s : Lib} {L : List Addr} (hr : s.list.Rep L)
    (hc : Describes s.manager (L.map (item s.list))) :
    PassRight env s ↔ Spared (s.list.nodes, s.manager) L := by
  have hentries := hr.entries_eq
  have hnull : NULL ∉ L := fun h => hr.ne_null h rfl
  have hcoh : ∀ i, s.manager.cacheList i ≠ .empty → (s.manager.cacheList i).value ∈ L := by
    intro i hi
    obtain ⟨it, hit, haddr, -⟩ := hc i hi
    obtain ⟨a, ha, rfl⟩ := List.mem_map.mp hit
    exact haddr ▸ ha
  have hspares := spares_iff_spared (p := (s.list.nodes, s.manager)) hr.links.tail_nodup
    (fun _ hb => hb) hnull hcoh
  constructor
  · intro h
    have := h.spares
    rw [hentries] at this
    exact hspares.mp this
  · intro hs
    constructor
    · rw [hentries]
      exact hspares.mpr hs
    · rw [hentries]
      intro _ hlight hempty
      refine wp_memmanWork hr (fun hb _ => ⟨rfl, hb⟩) (fun hdead => ?_) fun _ _ => ?_
      · exact absurd (fun i hi => absurd (hempty i) hi) hdead
      · have hall : lights (s.list.nodes, s.manager) L = L :=
          List.filter_eq_self.mpr fun a ha => decide_eq_true (hlight a ha)
        have hlen := hs.length_le hempty
        rw [hall] at hlen
        intro a ha
        match L, hlen, ha with
        | [b], _, ha =>
          obtain rfl := List.mem_singleton.mp ha
          exact cached_single (hlight a (List.mem_singleton_self a)) hempty

/-- Two blocks in the cache beside three empty slots, the first one heavy, the second one in
its own slot. -/
theorem pass_right_iff_spared_at :
    ∃ s, Reachable ⟨false⟩ s ∧ s.list.entries = [128, 192] ∧
      (slots.map fun i => (s.manager.cacheList i).value) = [128, 192, NULL, NULL, NULL] ∧
      ¬ Light s.list.nodes 128 ∧ Light s.list.nodes 192 ∧ PassRight (Env.plain 1 0 0) s := by
  have hsome : ((doinit (Env.plain 1 64 0) .blank).done?.bind fun s₀ => (run (libStep ⟨false⟩)
      ([(Env.plain 1 128 4096, .malloc 8), (Env.plain 1 192 8192, .malloc 8),
        (Env.plain 1 0 0, .requestToFastCache 4096), (Env.plain 1 0 0, .requestToFastCache 8192),
        (Env.plain 1 0 0, .lockFastCache)] ++
          List.replicate 11 (Env.plain 1 0 0, .requestToFastCache 4096)) s₀).map fun s =>
            ((s.list.entries, slots.map fun i => (s.manager.cacheList i).value),
              decide (Light s.list.nodes 128), decide (Light s.list.nodes 192),
              decide (Spared (s.list.nodes, s.manager) s.list.entries),
              decide (Describes s.manager (s.list.entries.map (item s.list))))) =
        some (([128, 192], [128, 192, NULL, NULL, NULL]), false, true, true, true) := by
    decide +kernel
  obtain ⟨s₀, h₀, hsome⟩ := Option.bind_eq_some_iff.mp hsome
  obtain ⟨s, hs, hval⟩ := Option.map_eq_some_iff.mp hsome
  obtain ⟨hstate, hval⟩ := Prod.mk.inj hval
  obtain ⟨hentries, hslots⟩ := Prod.mk.inj hstate
  obtain ⟨hheavy, hval⟩ := Prod.mk.inj hval
  obtain ⟨hlight, hval⟩ := Prod.mk.inj hval
  obtain ⟨hspared, hdescribes⟩ := Prod.mk.inj hval
  have hreach : Reachable ⟨false⟩ s := ⟨s₀, _, started_of_done h₀, hs⟩
  obtain ⟨L, hb, -⟩ := hreach.base
  rw [hb.rep.entries_eq] at hspared hdescribes
  exact ⟨s, hreach, hentries, hslots, of_decide_eq_false hheavy, of_decide_eq_true hlight,
    (pass_right_iff_spared hb.rep (of_decide_eq_true hdescribes)).mpr (of_decide_eq_true hspared)⟩

/-- Two light blocks and an empty cache: the first visit stores one, the second stores
the other over it, and four slots stay empty. -/
theorem pass_replaces_beside_empty :
    ((doinit (Env.plain 1 64 0) .blank).done?.bind (run (libStep ⟨false⟩)
      [(Env.plain 1 128 4096, .malloc 8), (Env.plain 1 192 8192, .malloc 8)])).bind (fun s =>
        (memmanWork (Env.plain 1 0 0) s).done?.map fun s' =>
          (s.list.entries, s.list.entries.all fun a => Light s.list.nodes a,
            slots.all fun i => s.manager.cacheList i = .empty,
            slots.map fun i => ((workEntry (s.list.nodes, s.manager) 128).2.cacheList i).value,
            slots.map fun i => (s'.manager.cacheList i).value))
      = some ([128, 192], true, true, [128, NULL, NULL, NULL, NULL],
        [192, NULL, NULL, NULL, NULL]) := by
  decide +kernel

end LibSafetynet
