import LibSafetynet.Reachability

/-!
# Cache slot accounting

`available_cache_slots` is counted down when a block is cached on request and up
when slots are emptied, but the automatic pass fills slots without counting.
Counter and slots agree in every state of a run whose passes fill no empty slot
and store no entry for null (`FillsSlot`); the request for a slot then succeeds
exactly when one is free, and never finds the counter wrong.

Whether a pass fills an empty slot is decided at its first light entry: from
there on every empty slot stands behind a light one (`Shielded`).
-/

namespace LibSafetynet

open Logic Prog PlatMutex ListState AllocManager

/-- The number of slots with a key. -/
def AllocManager.occupied (m : AllocManager) : Nat :=
  slots.countP fun i => (m.cacheList i).key ≠ NULL

/-- The first light entry of the pass goes into an empty slot. -/
def TakesEmpty (h : NodeHeap) (m : AllocManager) (L : List Addr) : Prop :=
  ∃ a ∈ L.find? (Light h ·), ∃ i ∈ m.pickSlot (resetNode h a), m.cacheList i = .empty

/-- The pass of this call fills an empty slot, or meets a light entry for null. -/
def FillsSlot (l : Env × Op) (s : Lib) : Prop :=
  l.2.RunsPass ∧ (TakesEmpty s.list.nodes s.manager s.list.entries ∨
    ∃ a ∈ s.list.entries, Light s.list.nodes a ∧ (nodeAt s.list.nodes a).data = NULL)

instance (h : NodeHeap) (m : AllocManager) (L : List Addr) : Decidable (TakesEmpty h m L) :=
  inferInstanceAs (Decidable (∃ a ∈ L.find? (Light h ·), _))

instance (l : Env × Op) (s : Lib) : Decidable (FillsSlot l s) :=
  inferInstanceAs (Decidable (_ ∧ _))

/-! ## The pass -/

/-- A slot that is not empty has a key and a value. -/
def Tidy (m : AllocManager) : Prop :=
  ∀ i, m.cacheList i ≠ .empty → (m.cacheList i).key ≠ NULL ∧ (m.cacheList i).value ≠ NULL

/-- Every empty slot stands behind a slot with a light node. -/
def Shielded (h : NodeHeap) (m : AllocManager) : Prop :=
  ∀ i, m.cacheList i = .empty →
    ∃ j < i, m.cacheList j ≠ .empty ∧ (nodeAt h (m.cacheList j).value).weight < 10

section Pass

variable {h : NodeHeap} {m : AllocManager} {L : List Addr} {a b : Addr} {i : Slot}

theorem pickSlot_first (hi : m.pickSlot h = some i) :
    ((m.cacheList i).value = NULL ∨ (nodeAt h (m.cacheList i).value).weight < 10) ∧
      ∀ j < i, ¬ ((m.cacheList j).value = NULL ∨ (nodeAt h (m.cacheList j).value).weight < 10) := by
  obtain ⟨hopen, hbefore⟩ := find?_slots.mp hi
  exact ⟨of_decide_eq_true hopen, fun j hj => of_decide_eq_false (hbefore j hj)⟩

theorem Tidy.value_eq_null (ht : Tidy m) :
    (m.cacheList i).value = NULL ↔ m.cacheList i = .empty := by
  constructor
  · intro hnull
    by_contra hne
    exact (ht i hne).2 hnull
  · intro hempty
    rw [hempty]
    rfl

/-- No search ends at an empty slot exactly if all of them are shielded. -/
theorem shielded_iff (ht : Tidy m) :
    Shielded h m ↔ ∀ i, m.pickSlot h = some i → m.cacheList i ≠ .empty := by
  constructor
  · intro hsh i hi hempty
    obtain ⟨j, hj, -, hw⟩ := hsh i hempty
    exact (pickSlot_first hi).2 j hj (Or.inr hw)
  · intro hpick i hempty
    -- the empty slot itself would do, so the search stops at it or before
    cases hp : m.pickSlot h with
    | none =>
      have hnone := List.find?_eq_none.mp hp i (mem_slots i)
      exact absurd (decide_eq_true (Or.inl (ht.value_eq_null.mpr hempty))) hnone
    | some j =>
      have hj := hpick j hp
      obtain ⟨hgood, hbefore⟩ := pickSlot_first hp
      refine ⟨j, ?_, hj, hgood.resolve_left fun hnull => hj (ht.value_eq_null.mp hnull)⟩
      rcases lt_trichotomy j i with hlt | heq | hgt
      · exact hlt
      · exact absurd (heq ▸ hempty) hj
      · exact absurd (Or.inl (ht.value_eq_null.mpr hempty)) (hbefore i hgt)

theorem weight_resetNode :
    (nodeAt (resetNode h a) b).weight = if b = a then 0 else (nodeAt h b).weight := by
  unfold resetNode
  split_ifs with hb
  · rw [hb, nodeAt_updNode_self]
  · rw [nodeAt_updNode_of_ne _ _ hb]

/-- Resetting an entry makes no slot heavy. -/
theorem Shielded.reset (hs : Shielded h m) : Shielded (resetNode h a) m := by
  intro i hempty
  obtain ⟨j, hj, hne, hw⟩ := hs i hempty
  refine ⟨j, hj, hne, ?_⟩
  rw [weight_resetNode]
  split_ifs
  · decide
  · exact hw

/-- What one pass leaves alone: which slots are empty, which entries are light. -/
structure PassKeeps (h : NodeHeap) (m : AllocManager) (h' : NodeHeap) (m' : AllocManager) :
    Prop where
  tidy : Tidy m'
  empty : ∀ i, m'.cacheList i = .empty ↔ m.cacheList i = .empty
  light : ∀ a, Light h' a ↔ Light h a
  data : ∀ a, (nodeAt h' a).data = (nodeAt h a).data

theorem PassKeeps.refl (ht : Tidy m) : PassKeeps h m h m :=
  ⟨ht, fun _ => Iff.rfl, fun _ => Iff.rfl, fun _ => rfl⟩

theorem PassKeeps.trans {h' h'' : NodeHeap} {m' m'' : AllocManager} (hk : PassKeeps h m h' m')
    (hk' : PassKeeps h' m' h'' m'') : PassKeeps h m h'' m'' :=
  ⟨hk'.tidy, fun i => (hk'.empty i).trans (hk.empty i), fun a => (hk'.light a).trans (hk.light a),
    fun a => (hk'.data a).trans (hk.data a)⟩

/-- The visit of a light entry that finds no slot. -/
theorem workEntry_full (hlight : Light h a) (hp : m.pickSlot (resetNode h a) = none) :
    workEntry (h, m) a = (resetNode h a, m) := by
  have hw : (nodeAt (h, m).1 a).weight ≤ 10 := hlight
  unfold resetNode at hp
  rw [workEntry, if_pos hw]
  dsimp only
  rw [hp]
  rfl

/-- The visit of a light entry that finds the slot `i`. -/
theorem workEntry_stored (hlight : Light h a) (hp : m.pickSlot (resetNode h a) = some i) :
    workEntry (h, m) a = (updNode (resetNode h a) a fun e => { e with cached := true },
      m.setSlot i { key := (nodeAt h a).data, value := a }) := by
  have hw : (nodeAt (h, m).1 a).weight ≤ 10 := hlight
  unfold resetNode at hp
  rw [workEntry, if_pos hw]
  dsimp only
  rw [hp]
  rfl

/-- One visit of a light entry, when the search does not end at an empty slot. -/
theorem workEntry_keeps (ht : Tidy m) (hsh : Shielded (resetNode h a) m) (ha : a ≠ NULL)
    (hlight : Light h a) (hdata : (nodeAt h a).data ≠ NULL) :
    PassKeeps h m (workEntry (h, m) a).1 (workEntry (h, m) a).2 ∧
      Shielded (workEntry (h, m) a).1 (workEntry (h, m) a).2 := by
  have hweight : ∀ b, (nodeAt (resetNode h a) b).weight ≤ 10 ↔ (nodeAt h b).weight ≤ 10 := by
    intro b
    rw [weight_resetNode]
    split_ifs with hb
    · exact iff_of_true (by decide) (hb ▸ hlight)
    · exact Iff.rfl
  have hresetData : ∀ b, (nodeAt (resetNode h a) b).data = (nodeAt h b).data := by
    intro b
    unfold resetNode
    by_cases hb : b = a
    · rw [hb, nodeAt_updNode_self]
    · rw [nodeAt_updNode_of_ne _ _ hb]
  cases hp : m.pickSlot (resetNode h a) with
  | none =>
    rw [workEntry_full hlight hp]
    exact ⟨⟨ht, fun _ => Iff.rfl, hweight, hresetData⟩, hsh⟩
  | some i =>
    have hne := (shielded_iff ht).mp hsh i hp
    rw [workEntry_stored hlight hp]
    dsimp only
    have hnew : (⟨(nodeAt h a).data, a⟩ : CachePair) ≠ .empty := fun heq =>
      ha (congrArg CachePair.value heq)
    have hempty : ∀ j, (m.setSlot i ⟨(nodeAt h a).data, a⟩).cacheList j = .empty
        ↔ m.cacheList j = .empty := by
      intro j
      by_cases hji : j = i
      · rw [hji, setSlot_self]
        exact iff_of_false hnew hne
      · rw [setSlot_of_ne hji]
    -- marking the entry as cached changes no weight
    have hmark : ∀ b,
        (nodeAt (updNode (resetNode h a) a fun e => { e with cached := true }) b).weight
          = (nodeAt (resetNode h a) b).weight ∧
        (nodeAt (updNode (resetNode h a) a fun e => { e with cached := true }) b).data
          = (nodeAt (resetNode h a) b).data := by
      intro b
      by_cases hb : b = a
      · rw [hb, nodeAt_updNode_self]
        exact ⟨rfl, rfl⟩
      · rw [nodeAt_updNode_of_ne _ _ hb]
        exact ⟨rfl, rfl⟩
    refine ⟨⟨fun j hj => ?_, hempty, fun b => ?_, fun b => ?_⟩, fun k hk => ?_⟩
    · by_cases hji : j = i
      · rw [hji, setSlot_self]
        exact ⟨hdata, ha⟩
      · rw [setSlot_of_ne hji] at hj ⊢
        exact ht j hj
    · unfold Light
      rw [(hmark b).1]
      exact hweight b
    · rw [(hmark b).2]
      exact hresetData b
    · obtain ⟨j, hjk, hj, hw⟩ := hsh k ((hempty k).mp hk)
      refine ⟨j, hjk, fun he => hj ((hempty j).mp he), ?_⟩
      rw [(hmark _).1]
      by_cases hji : j = i
      · rw [hji, setSlot_self, weight_resetNode, if_pos rfl]
        decide
      · rw [setSlot_of_ne hji]
        exact hw

theorem workPass_cons : workPass (h, m) (a :: L) = workPass (workEntry (h, m) a) L := rfl

theorem workEntry_heavy (ha : ¬ Light h a) : workEntry (h, m) a = (h, m) := if_neg ha

theorem Shielded.not_takesEmpty (hs : Shielded h m) (ht : Tidy m) : ¬ TakesEmpty h m L := by
  rintro ⟨a, -, i, hi, hempty⟩
  exact (shielded_iff ht).mp hs.reset i hi hempty

/-- From shielded slots on, the rest of the pass keeps them shielded. -/
theorem workPass_shielded (ht : Tidy m) (hs : Shielded h m) (hnull : ∀ a ∈ L, a ≠ NULL)
    (hdata : ∀ a ∈ L, Light h a → (nodeAt h a).data ≠ NULL) :
    PassKeeps h m (workPass (h, m) L).1 (workPass (h, m) L).2 ∧
      Shielded (workPass (h, m) L).1 (workPass (h, m) L).2 := by
  induction L generalizing h m with
  | nil => exact ⟨PassKeeps.refl ht, hs⟩
  | cons a L ih =>
    have hnull' : ∀ b ∈ L, b ≠ NULL := fun b hb => hnull b (List.mem_cons_of_mem a hb)
    rw [workPass_cons]
    by_cases hl : Light h a
    · obtain ⟨hk, hs'⟩ := workEntry_keeps ht hs.reset (hnull a List.mem_cons_self) hl
        (hdata a List.mem_cons_self hl)
      obtain ⟨hk', hs''⟩ := ih hk.tidy hs' hnull' fun b hb hlb => by
        rw [hk.data]
        exact hdata b (List.mem_cons_of_mem a hb) ((hk.light b).mp hlb)
      exact ⟨hk.trans hk', hs''⟩
    · rw [workEntry_heavy hl]
      exact ih ht hs hnull' fun b hb => hdata b (List.mem_cons_of_mem a hb)

/-- **The pass** keeps the empty slots as they are when its first light entry does
not go into one; then a second pass fills none either. -/
theorem workPass_keeps (ht : Tidy m) (hnull : ∀ a ∈ L, a ≠ NULL)
    (hdata : ∀ a ∈ L, Light h a → (nodeAt h a).data ≠ NULL) (htake : ¬ TakesEmpty h m L) :
    PassKeeps h m (workPass (h, m) L).1 (workPass (h, m) L).2 ∧
      ¬ TakesEmpty (workPass (h, m) L).1 (workPass (h, m) L).2 L := by
  induction L with
  | nil => exact ⟨PassKeeps.refl ht, htake⟩
  | cons a L ih =>
    have hnull' : ∀ b ∈ L, b ≠ NULL := fun b hb => hnull b (List.mem_cons_of_mem a hb)
    have hdata' : ∀ b ∈ L, Light h b → (nodeAt h b).data ≠ NULL :=
      fun b hb => hdata b (List.mem_cons_of_mem a hb)
    rw [workPass_cons]
    by_cases hl : Light h a
    · -- the first light entry: from here on the slots are shielded
      have hsh : Shielded (resetNode h a) m := by
        refine (shielded_iff ht).mpr fun i hi hempty => htake ⟨a, ?_, i, hi, hempty⟩
        exact List.find?_cons_of_pos (decide_eq_true hl)
      obtain ⟨hk, hs⟩ := workEntry_keeps ht hsh (hnull a List.mem_cons_self) hl
        (hdata a List.mem_cons_self hl)
      obtain ⟨hk', hs'⟩ := workPass_shielded hk.tidy hs hnull' fun b hb hlb => by
        rw [hk.data]
        exact hdata' b hb ((hk.light b).mp hlb)
      exact ⟨hk.trans hk', hs'.not_takesEmpty (hk.trans hk').tidy⟩
    · have hskip : ∀ {h' : NodeHeap} {m' : AllocManager}, ¬ Light h' a →
          (TakesEmpty h' m' (a :: L) ↔ TakesEmpty h' m' L) := by
        intro h' m' hl'
        unfold TakesEmpty
        rw [List.find?_cons_of_neg (by simpa using hl')]
      rw [workEntry_heavy hl]
      obtain ⟨hk, htake'⟩ := ih hnull' hdata' fun ht' => htake ((hskip hl).mpr ht')
      exact ⟨hk, fun ht' => htake' ((hskip fun hl' => hl ((hk.light a).mp hl')).mp ht')⟩

end Pass

/-! ## Counting the slots -/

/-- The counter is right, and slots are either empty or have a key and a value. -/
structure Counted (m : AllocManager) : Prop where
  count : m.availableCacheSlots.toNat + m.occupied = memmanMaxCacheSlots
  tidy : Tidy m

section Counting

variable {m m' : AllocManager}

theorem occupied_congr (h : ∀ i, (m'.cacheList i).key ≠ NULL ↔ (m.cacheList i).key ≠ NULL) :
    m'.occupied = m.occupied := by
  refine List.countP_congr fun i _ => ?_
  simpa using h i

theorem Tidy.key_ne_null (ht : Tidy m) (i : Slot) :
    (m.cacheList i).key ≠ NULL ↔ m.cacheList i ≠ .empty := by
  constructor
  · intro hkey hempty
    rw [hempty] at hkey
    exact hkey rfl
  · exact fun hne => (ht i hne).1

/-- The counter and the slots are as they were, up to which keys they hold. -/
theorem Counted.of_empty (hc : Counted m) (ht : Tidy m')
    (havail : m'.availableCacheSlots = m.availableCacheSlots)
    (hempty : ∀ i, m'.cacheList i = .empty ↔ m.cacheList i = .empty) : Counted m' := by
  refine ⟨?_, ht⟩
  rw [havail, occupied_congr fun i => ?_]
  · exact hc.count
  · rw [ht.key_ne_null, hc.tidy.key_ne_null]
    exact not_congr (hempty i)

theorem Counted.congr (hc : Counted m) (hslots : m'.cacheList = m.cacheList)
    (havail : m'.availableCacheSlots = m.availableCacheSlots) : Counted m' := by
  refine hc.of_empty (fun i hi => ?_) havail fun i => by rw [hslots]
  rw [hslots] at hi ⊢
  exact hc.tidy i hi

/-- Slots counted in two disjoint parts. -/
theorem countP_split {p q r : Slot → Bool} (hqr : ∀ i, p i = true ↔ q i = true ∨ r i = true)
    (hdisj : ∀ i, q i = true → ¬ r i = true) :
      slots.countP p = slots.countP q + slots.countP r := by
  induction slots with
  | nil => rfl
  | cons i rest ih =>
    rw [List.countP_cons, List.countP_cons, List.countP_cons, ih]
    have h := hqr i
    have hd := hdisj i
    cases hp : p i <;> cases hq : q i <;> cases hr : r i <;> simp_all <;> omega

/-- Emptying slots counts the counter up by as many as are emptied. -/
theorem Counted.dropped {wanted : Addr → Bool} (hc : Counted m) (hd : Dropped wanted slots m m') :
    Counted m' := by
  have hslot : ∀ i, m'.cacheList i =
      if DropsSlot wanted (m.cacheList i) then .empty else m.cacheList i := by
    intro i
    rw [hd.slot i]
    simp [mem_slots]
  have hsplit : m.occupied = m'.occupied + slots.countP fun i =>
      DropsSlot wanted (m.cacheList i) := by
    refine countP_split (fun i => ?_) fun i hi hdrop => ?_
    · rw [hslot i]
      by_cases hdrop : DropsSlot wanted (m.cacheList i) = true
      · rw [if_pos hdrop]
        have hkey := (of_decide_eq_true hdrop).1
        simp [hdrop, hkey]
      · rw [if_neg hdrop]
        simp [hdrop]
    · rw [hslot i, if_pos hdrop] at hi
      simp [CachePair.empty] at hi
  have hcount : m.availableCacheSlots.toNat + m.occupied = 5 := hc.count
  refine ⟨?_, fun i hi => ?_⟩
  · rw [hd.available, UInt8.toNat_add, UInt8.toNat_ofNat']
    show _ = 5
    omega
  · rw [hslot i] at hi ⊢
    split_ifs at hi ⊢ with hdrop
    · exact absurd rfl hi
    · exact hc.tidy i hi

/-- Filling an empty slot counts the counter down. -/
theorem Counted.put {i : Slot} {pair : CachePair} (hc : Counted m) (hi : (m.cacheList i).key = NULL)
    (hkey : pair.key ≠ NULL) (hval : pair.value ≠ NULL) (hpos : m.availableCacheSlots ≠ 0) :
    Counted { m.setSlot i pair with availableCacheSlots := m.availableCacheSlots - 1 } := by
  have hsplit : (m.setSlot i pair).occupied = m.occupied + slots.countP fun j => j = i := by
    refine countP_split (fun j => ?_) fun j hj hji => ?_
    · by_cases hji : j = i
      · rw [hji, setSlot_self]
        simp [hkey]
      · rw [setSlot_of_ne hji]
        simp [hji]
    · rw [of_decide_eq_true hji] at hj
      exact of_decide_eq_true hj hi
  have hone : slots.countP (fun j => j = i) = 1 := by
    have := List.count_eq_one_of_mem (List.nodup_finRange memmanMaxCacheSlots) (mem_slots i)
    exact this
  have hcount : m.availableCacheSlots.toNat + m.occupied = 5 := hc.count
  have hnz : m.availableCacheSlots.toNat ≠ 0 := fun h0 => hpos (UInt8.toNat_inj.mp h0)
  refine ⟨?_, fun j hj => ?_⟩
  · show (m.availableCacheSlots - 1).toNat + (m.setSlot i pair).occupied = memmanMaxCacheSlots
    have hle : (1 : UInt8) ≤ m.availableCacheSlots :=
      UInt8.le_iff_toNat_le.mpr (Nat.pos_of_ne_zero hnz)
    rw [UInt8.toNat_sub_of_le _ _ hle, hsplit, hone]
    show m.availableCacheSlots.toNat - 1 + (m.occupied + 1) = 5
    omega
  · by_cases hji : j = i
    · subst hji
      show ((m.setSlot j pair).cacheList j).key ≠ NULL ∧
        ((m.setSlot j pair).cacheList j).value ≠ NULL
      rw [setSlot_self]
      exact ⟨hkey, hval⟩
    · have hslot : (m.setSlot i pair).cacheList j = m.cacheList j := setSlot_of_ne hji
      have hj' : (m.setSlot i pair).cacheList j ≠ .empty := hj
      show ((m.setSlot i pair).cacheList j).key ≠ NULL ∧
        ((m.setSlot i pair).cacheList j).value ≠ NULL
      rw [hslot] at hj' ⊢
      exact hc.tidy j hj'

end Counting

/-! ## Runs -/

section Runs

variable {cfg : Config} {l : Env × Op} {s₀ s s' : Lib} {L₀ L L' : List Addr}

/-- The pass of a call that fills no slot keeps the count, and so does a second one. -/
theorem counted_worked (env : Env) (hb : Base s L) (hc : Counted s.manager)
    (hdata : ∀ a ∈ L, Light s.list.nodes a → (nodeAt s.list.nodes a).data ≠ NULL)
    (htake : ¬ TakesEmpty s.list.nodes s.manager L) :
    Counted (s.worked env L).manager ∧
      (∀ a ∈ L, Light (s.worked env L).list.nodes a →
        (nodeAt (s.worked env L).list.nodes a).data ≠ NULL) ∧
      ¬ TakesEmpty (s.worked env L).list.nodes (s.worked env L).manager L := by
  obtain ⟨hk, htake'⟩ := workPass_keeps hc.tidy (fun _ ha => hb.rep.ne_null ha) hdata htake
  refine ⟨hc.of_empty hk.tidy ?_ hk.empty, fun a ha hl => ?_, htake'⟩
  · have hrefill : Refilled s.list.nodes L s.manager (s.worked env L).manager :=
      refilled_worked hb.rep
    rw [hrefill.rest]
  · show (nodeAt (workPass (s.list.nodes, s.manager) L).1 a).data ≠ NULL
    rw [hk.data]
    exact hdata a ha ((hk.light a).mp hl)

/-- Every change of a call that fills no slot keeps the count. -/
theorem Trans.counted (h : Trans cfg l.1 l.2 s₀ L s L' s') (hb : Base s L) (hb₀ : Base s₀ L₀)
    (hsafe : ¬ FillsSlot l s₀) (hc₀ : Counted s₀.manager) (hc : Counted s.manager) :
    Counted s'.manager := by
  cases h with
  | quiet hq => exact hc.congr hq.cacheList hq.available
  | pass hop hrep hs =>
    obtain rfl : L₀ = L := hb₀.rep.unique hrep
    have hdata : ∀ a ∈ L₀, Light s₀.list.nodes a → (nodeAt s₀.list.nodes a).data ≠ NULL := by
      intro a ha hl hnull
      refine hsafe ⟨hop, Or.inr ⟨a, ?_, hl, hnull⟩⟩
      rw [hb₀.rep.entries_eq]
      exact ha
    have htake : ¬ TakesEmpty s₀.list.nodes s₀.manager L₀ := by
      intro ht
      refine hsafe ⟨hop, Or.inl ?_⟩
      rw [hb₀.rep.entries_eq]
      exact ht
    rcases hs with rfl | rfl
    · exact (counted_worked l.1 hb hc hdata htake).1
    · obtain ⟨hc₁, hdata₁, htake₁⟩ := counted_worked l.1 hb₀ hc₀ hdata htake
      exact (counted_worked l.1 hb hc₁ hdata₁ htake₁).1
  | cleared _ hdrop _ => exact hc.dropped hdrop
  | @put i p _ hp hfound hacc hslot =>
    obtain ⟨hmem, hdata⟩ := findPtr_mem hfound
    exact hc.put (freeSlot_eq_some hslot) (fun h0 => hp (hdata.symm.trans h0))
      (hb.rep.ne_null hmem) hacc.2.2
  | granted _ hgr =>
    rw [hgr.manager]
    exact hc.congr rfl rfl
  | registered _ _ _ hm _ => exact hm ▸ hc
  | realloced _ _ _ _ _ _ _ hm =>
    rw [hm]
    exact hc.congr rfl rfl
  | tagged _ _ _ hm _ => exact hm ▸ hc
  | wrote _ _ _ hm _ => exact hm ▸ hc
  | freed _ _ _ _ hdrop _ _ =>
    have husage : ∀ u, Counted { s.manager with globalMemoryUsage := u } :=
      fun _ => hc.congr rfl rfl
    exact (husage _).dropped hdrop
  | clientAlloc _ _ _ hm _ => exact hm ▸ hc
  | clientFree _ _ _ hm _ => exact hm ▸ hc

theorem Loaded.counted (h : Loaded s) : Counted s.manager := by
  rw [h.manager]
  exact ⟨by decide, fun i hi => absurd rfl hi⟩

/-- With the count right, no slot is free exactly when the counter says so. -/
theorem Counted.freeSlot_eq_none {m : AllocManager} (hc : Counted m) :
    m.freeSlot = none ↔ m.availableCacheSlots = 0 := by
  have hcount : m.availableCacheSlots.toNat + m.occupied = slots.length := hc.count
  have hfull : m.freeSlot = none ↔ m.occupied = slots.length := by
    rw [LibSafetynet.freeSlot_eq_none, AllocManager.occupied, List.countP_eq_length]
    constructor
    · intro h i _
      exact decide_eq_true (h i)
    · intro h i
      exact of_decide_eq_true (h i (mem_slots i))
  rw [hfull, ← UInt8.toNat_inj]
  show _ ↔ m.availableCacheSlots.toNat = 0
  omega

/-- What the accounting gives in one state. -/
structure SlotAccount (s : Lib) : Prop where
  count : s.manager.availableCacheSlots.toNat + s.manager.occupied = memmanMaxCacheSlots
  noCrash : ∀ env p s', snRequestToFastCache p env s ≠ .stop (.crash .snErrSysFail) s'
  request : ∀ env p, p ≠ NULL → (∃ a ∈ s.list.entries, (nodeAt s.list.nodes a).data = p) →
    s.manager.cacheLock = false → s.manager.useCache = true →
    ∃ b s', snRequestToFastCache p env s = .done b s' ∧
      (b = true ↔ ∃ i, (s.manager.cacheList i).key = NULL)

/-- `sn_request_to_fast_cache` where the count is right. -/
theorem wp_snRequestToFastCache {E : Stop → Lib → Prop} {Q : Bool → Lib → Prop} {env : Env}
    {p : Addr} (hb : Base s L) (hc : Counted s.manager)
    (hblock : Blocks env.tid s.allocMutex ∨ ScanBlocks env.tid s.list → ∀ s', E .blocked s')
    (hnone : p = NULL ∨ findPtr s.list L p = NULL → ∀ s', Q false s')
    (hfound : p ≠ NULL → findPtr s.list L p ≠ NULL → ∀ b s',
      (b = true ↔ s.manager.AcceptsPut) → Q b s') :
    wp (snRequestToFastCache p) env Q E s := by
  rw [snRequestToFastCache, wp_ite]
  constructor
  · intro h0
    rw [snError, wp_bind]
    exact wp_snSetLastError (fun h => hblock (Or.inl h) _) (hnone (Or.inl h0) _)
  intro hp
  rw [wp_bind]
  refine wp_getByPtr hb hp (fun h => hblock (Or.inr h)) fun s₁ heq h₁ => ?_
  have hman : s₁.manager = s.manager := by rw [heq]
  have halloc : s₁.allocMutex = s.allocMutex := by rw [heq]
  rw [wp_ite]
  constructor
  · intro h0
    rw [snError, wp_bind]
    exact wp_snSetLastError (fun h => hblock (Or.inl (halloc ▸ h)) _) (hnone (Or.inr h0) _)
  intro hne
  refine wp_memmanTryCachePut ((h₁.base hb).rep.live_of_mem (findPtr_mem hne).1)
    (fun h => hblock (Or.inl (halloc ▸ h))) (fun hno => ?_) (fun hacc hfull => ?_) fun hacc i _ =>
      ?_
  · exact hfound hp hne false _ (iff_of_false Bool.false_ne_true (hman ▸ hno))
  · rw [hman] at hacc hfull
    exact absurd (hc.freeSlot_eq_none.mp hfull) hacc.2.2
  · exact hfound hp hne true _ (iff_of_true rfl (hman ▸ hacc))

theorem Counted.slotAccount (hc : Counted s.manager) (hb : Base s L) (hu : Unlocked s L) :
    SlotAccount s := by
  refine ⟨hc.count, fun env p s' hcrash => ?_, fun env p hp htracked hlock huse => ?_⟩
  · have hspec : wp (snRequestToFastCache p) env (fun _ _ => True) (fun e _ => e = .blocked) s :=
      wp_snRequestToFastCache hb hc (fun _ _ => rfl) (fun _ _ => trivial) fun _ _ _ _ _ => trivial
    cases (wp_of_stop hcrash).mp hspec
  · obtain ⟨a, ha, hdata⟩ := htracked
    rw [hb.rep.entries_eq] at ha
    have hfind : findPtr s.list L p ≠ NULL := fun h0 =>
      (findPtr_eq_null fun h0 => hb.rep.ne_null h0 rfl).mp h0 a ha hdata
    have hspec : wp (snRequestToFastCache p) env
        (fun b _ => b = true ↔ ∃ i, (s.manager.cacheList i).key = NULL) (fun _ _ => False) s := by
      refine wp_snRequestToFastCache hb hc (fun hbl _ => ?_) (fun hno _ => ?_) fun _ _ b _ hiff =>
        ?_
      · rcases hbl with hbl | hbl
        · exact hu.alloc.not_blocks _ hbl
        · exact (hu.list (List.ne_nil_of_mem ha)).not_blocks _ hbl.2
      · exact absurd hno (not_or.mpr ⟨hp, hfind⟩)
      · have hfree : (∃ i, (s.manager.cacheList i).key = NULL) ↔
            s.manager.availableCacheSlots ≠ 0 := by
          rw [ne_eq, ← hc.freeSlot_eq_none, LibSafetynet.freeSlot_eq_none]
          simp
        rw [hiff, hfree]
        exact ⟨fun h => h.2.2, fun h => ⟨hlock, huse, h⟩⟩
    obtain ⟨b, s', hdone, hiff⟩ := hspec.exists_done
    exact ⟨b, s', hdone, hiff⟩

end Runs

/-- **Slot accounting.** In every state of a run whose passes fill no empty slot the
counter is the number of free slots, the request for a slot never crashes, and on
a tracked block, with the cache unlocked and in use, it succeeds exactly when a
slot is free. -/
theorem slots_accounted_of_no_fill {cfg : Config} {s₀ s : Lib} {ls : List (Env × Op)}
    (h₀ : Started s₀) (hok : Along (libStep cfg) (fun l s => ¬ FillsSlot l s) ls s₀)
    (hrun : run (libStep cfg) ls s₀ = some s) : SlotAccount s := by
  obtain ⟨L, hb, hu, hc⟩ := run_keeps (I := fun _ s => Counted s.manager) (fun _ hl => hl.counted)
    (fun l s₀ L₀ hsafe hb₀ _ hc₀ => fun hb hc htrans => htrans.counted hb hb₀ hsafe hc₀ hc)
    h₀ hok hrun
  exact hc.slotAccount hb hu

/-- Both blocks have a slot when the pass comes, so it fills none that is empty. -/
theorem slots_accounted_of_no_fill_at :
    ∃ ls s₀ s, ls = [(Env.plain 1 128 4096, .malloc 8), (Env.plain 1 0 0, .requestToFastCache 4096),
        (Env.plain 1 192 8192, .malloc 8), (Env.plain 1 0 0, .requestToFastCache 8192),
        (Env.plain 1 0 0, .querySize 8192), (Env.plain 1 0 0, .free 4096)] ∧
      Started s₀ ∧ run (libStep ⟨false⟩) ls s₀ = some s ∧ s.manager.occupied = 2 ∧
      SlotAccount s := by
  generalize hls : [(Env.plain 1 128 4096, Op.malloc 8),
    (Env.plain 1 0 0, .requestToFastCache 4096), (Env.plain 1 192 8192, .malloc 8),
    (Env.plain 1 0 0, .requestToFastCache 8192), (Env.plain 1 0 0, .querySize 8192),
    (Env.plain 1 0 0, .free 4096)] = ls
  have hsome : ((doinit (Env.plain 1 64 0) .blank).done?.bind fun s₀ =>
      (run (libStep ⟨false⟩) ls s₀).map fun s => (s.manager.occupied,
        decide (Along (libStep ⟨false⟩) (fun l s => ¬ FillsSlot l s) ls s₀))) =
          some (2, true) := by
    rw [← hls]
    decide +kernel
  obtain ⟨s₀, h₀, hsome⟩ := Option.bind_eq_some_iff.mp hsome
  obtain ⟨s, hs, hval⟩ := Option.map_eq_some_iff.mp hsome
  obtain ⟨hoccupied, hok⟩ := Prod.mk.inj hval
  exact ⟨ls, s₀, s, rfl, started_of_done h₀, hs, hoccupied,
    slots_accounted_of_no_fill (started_of_done h₀) (of_decide_eq_true hok) hs⟩

/-- One query fills a slot without counting it; four requests later all slots are
taken, the counter still says one is free, and the next request crashes. -/
theorem uncounted_fill_crashes :
    ((doinit (Env.plain 1 64 0) .blank).done?.bind (run (libStep ⟨false⟩)
      [(Env.plain 1 128 4096, .malloc 8), (Env.plain 1 0 0, .querySize 4096),
        (Env.plain 1 192 8192, .malloc 8), (Env.plain 1 0 0, .requestToFastCache 8192),
        (Env.plain 1 256 12288, .malloc 8), (Env.plain 1 0 0, .requestToFastCache 12288),
        (Env.plain 1 320 16384, .malloc 8), (Env.plain 1 0 0, .requestToFastCache 16384),
        (Env.plain 1 384 20480, .malloc 8), (Env.plain 1 0 0, .requestToFastCache 20480),
        (Env.plain 1 448 24576, .malloc 8)])).map (fun s =>
          (s.manager.availableCacheSlots, s.manager.occupied,
            match snRequestToFastCache 24576 (Env.plain 1 0 0) s with
            | .done _ _ => none
            | .stop e _ => some e))
      = some (1, 5, some (.crash .snErrSysFail)) := by
  decide +kernel

end LibSafetynet
