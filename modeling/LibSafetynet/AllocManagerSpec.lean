import LibSafetynet.AllocManager
import LibSafetynet.LinkedListSpec

/-!
# Specifications of the allocation manager

The automatic pass is a fold over the entries (`workPass`): each light entry is
reset and stored into the first slot that is empty or light. Everything later
modules need of it is in two facts: the list changes at most in weights and
cached flags (`sameList_worked`), and each slot is the old one or holds an entry
of the list under its data (`worked_slot`).

A slot whose node is gone makes the code's behaviour undefined, if it is read. A pass
reads it only where a search for a slot ends (`ReadsStale`); `SlotsLive` rules it out
everywhere.
-/

namespace LibSafetynet

open Logic Prog PlatMutex ListState

/-! ## Primitives over the library state -/

section Primitives

variable {env : Env} {s : Lib} {E : Stop → Lib → Prop}

@[simp] theorem wp_onList {α : Type} {m : CProg ListState α} {Q : α → Lib → Prop} :
    wp (onList m) env Q E s ↔
      wp m env (fun a l => Q a { s with list := l })
        (fun e l => E e { s with list := l }) s.list := by
  rw [onList, wp_zoom]

@[simp] theorem wp_onHeap {α : Type} {m : CProg ClientHeap α} {Q : α → Lib → Prop} :
    wp (onHeap m) env Q E s ↔
      wp m env (fun a h => Q a { s with heap := h })
        (fun e h => E e { s with heap := h }) s.heap := by
  rw [onHeap, wp_zoom]

@[simp] theorem wp_getManager {Q : AllocManager → Lib → Prop} :
    wp getManager env Q E s ↔ Q s.manager s := Iff.rfl

@[simp] theorem wp_setManager {f : AllocManager → AllocManager} {Q : Unit → Lib → Prop} :
    wp (setManager f) env Q E s ↔ Q () { s with manager := f s.manager } := Iff.rfl

@[simp] theorem wp_lockAlloc {Q : Unit → Lib → Prop} :
    wp lockAlloc env Q E s ↔
      (¬ Blocks env.tid s.allocMutex → Q () { s with allocMutex := acquire env.tid s.allocMutex }) ∧
        (Blocks env.tid s.allocMutex → E .blocked s) := by
  rw [lockAlloc, wp_zoom, wp_platMutexLock]

@[simp] theorem wp_unlockAlloc {Q : Unit → Lib → Prop} :
    wp unlockAlloc env Q E s ↔ Q () { s with allocMutex := release s.allocMutex } := by
  rw [unlockAlloc, wp_zoom, wp_platMutexUnlock]

end Primitives

/-! ## The automatic pass -/

namespace AllocManager

/-- The slot a light entry is stored into: the first one that is empty or light. -/
def pickSlot (self : AllocManager) (h : NodeHeap) : Option Slot :=
  slots.find? fun i =>
    (self.cacheList i).value = NULL ∨ (nodeAt h (self.cacheList i).value).weight < 10

/-- Slot `i` holds the address of a node that is gone. -/
def Stale (self : AllocManager) (h : NodeHeap) (i : Slot) : Prop :=
  (self.cacheList i).value ≠ NULL ∧ (h.lookup (self.cacheList i).value).isNone

instance (self : AllocManager) (h : NodeHeap) (i : Slot) : Decidable (self.Stale h i) :=
  inferInstanceAs (Decidable (_ ∧ _))

/-- Every slot that is not empty holds a live node. -/
def SlotsLive (self : AllocManager) (h : NodeHeap) : Prop :=
  ∀ i, self.cacheList i ≠ .empty → (h.lookup (self.cacheList i).value).isSome

variable {self : AllocManager} {i j : Slot} {pair : CachePair}

theorem Stale.not_slotsLive {h : NodeHeap} (hs : self.Stale h i) : ¬ self.SlotsLive h := by
  intro hlive
  have hsome := hlive i fun he => hs.1 (by rw [he]; rfl)
  rw [Option.isNone_iff_eq_none.mp hs.2] at hsome
  cases hsome

@[simp] theorem setSlot_self : (self.setSlot i pair).cacheList i = pair :=
    Function.update_self _ _ _

theorem setSlot_of_ne (h : j ≠ i) : (self.setSlot i pair).cacheList j = self.cacheList j :=
  Function.update_of_ne h _ _

end AllocManager

open AllocManager

/-- What the pass does at one entry. -/
def workEntry (p : NodeHeap × AllocManager) (a : Addr) : NodeHeap × AllocManager :=
  if (nodeAt p.1 a).weight ≤ 10 then
    let h := updNode p.1 a fun e => { e with weight := 0, cached := true }
    match p.2.pickSlot h with
    | none => (h, p.2)
    | some i =>
      (updNode h a fun e => { e with cached := true },
        p.2.setSlot i { key := (nodeAt p.1 a).data, value := a })
  else p

/-- The pass stores this entry if it finds a slot for it. -/
def Light (h : NodeHeap) (a : Addr) : Prop := (nodeAt h a).weight ≤ 10

instance (h : NodeHeap) (a : Addr) : Decidable (Light h a) := inferInstanceAs (Decidable (_ ≤ _))

/-- The node heap after the pass reset the entry `a`. -/
def resetNode (h : NodeHeap) (a : Addr) : NodeHeap :=
  updNode h a fun e => { e with weight := 0, cached := true }

/-- The slot that a light entry is stored into. -/
def slotFor (p : NodeHeap × AllocManager) (a : Addr) : Option Slot :=
  p.2.pickSlot (resetNode p.1 a)

/-- The search of the visit ends at a slot whose node is gone. -/
def ReadsStale (p : NodeHeap × AllocManager) (a : Addr) : Prop :=
  Light p.1 a ∧ ∃ i ∈ slotFor p a, p.2.Stale p.1 i

/-- What the pass does to the nodes and the manager. -/
def workPass (p : NodeHeap × AllocManager) (L : List Addr) : NodeHeap × AllocManager :=
  L.foldl workEntry p

theorem workPass_concat (p : NodeHeap × AllocManager) (L : List Addr) (a : Addr) :
    workPass p (L ++ [a]) = workEntry (workPass p L) a := by
  simp [workPass]

/-- One of the visits of the pass reads a node that is gone. -/
def PassReadsStale (p : NodeHeap × AllocManager) (L : List Addr) : Prop :=
  ∃ pre a post, L = pre ++ a :: post ∧ ReadsStale (workPass p pre) a

/-- The state after `memman_work` over the entries `L`. -/
def Lib.worked (env : Env) (s : Lib) (L : List Addr) : Lib :=
  let p := workPass (s.list.nodes, s.manager) L
  { s with
    list := { s.list with nodes := p.1, mutex := scanMutex env.tid s.list L }
    manager := p.2
    allocMutex := release s.allocMutex }

/-- `m'` is `m` with some slots refilled from the entries `L`. -/
structure Refilled (h : NodeHeap) (L : List Addr) (m m' : AllocManager) : Prop where
  rest : m' = { m with cacheList := m'.cacheList }
  slot : ∀ i, m'.cacheList i = m.cacheList i ∨
    ∃ a ∈ L, m'.cacheList i = { key := (nodeAt h a).data, value := a }

namespace Refilled

variable {h : NodeHeap} {L : List Addr} {m m' m'' : AllocManager}

theorem refl (h : NodeHeap) (L : List Addr) (m : AllocManager) : Refilled h L m m :=
  ⟨rfl, fun _ => Or.inl rfl⟩

theorem trans (h₁ : Refilled h L m m') (h₂ : Refilled h L m' m'') : Refilled h L m m'' := by
  refine ⟨?_, fun i => ?_⟩
  · rw [h₂.rest, h₁.rest]
  · rcases h₂.slot i with heq | hnew
    · rw [heq]
      exact h₁.slot i
    · exact Or.inr hnew

theorem setSlot {a : Addr} (ha : a ∈ L) (i : Slot) :
    Refilled h L m (m.setSlot i { key := (nodeAt h a).data, value := a }) := by
  refine ⟨rfl, fun j => ?_⟩
  by_cases hij : j = i
  · rw [hij]
    exact Or.inr ⟨a, ha, AllocManager.setSlot_self⟩
  · exact Or.inl (AllocManager.setSlot_of_ne hij)

end Refilled

section Pass

variable {env : Env} {l : ListState} {m : AllocManager} {L : List Addr}

/-- One visit resets at most the entry's weight and cached flag and stores at most this entry. -/
theorem workEntry_spec {h : NodeHeap} {a : Addr} (ha : a ∈ L) (hlive : (h.lookup a).isSome)
    (hl : l.nodes = h) :
    SameList l { l with nodes := (workEntry (h, m) a).1 } ∧
      Refilled h L m (workEntry (h, m) a).2 := by
  subst hl
  have hreset := SameList.updNode hlive (fun e => { e with weight := 0, cached := true })
    fun e => ⟨0, true, rfl⟩
  unfold workEntry
  by_cases hw : (nodeAt l.nodes a).weight ≤ 10
  · rw [if_pos hw]
    dsimp only
    cases hpick : m.pickSlot
      (updNode l.nodes a fun e => { e with weight := 0, cached := true }) with
    | none => exact ⟨hreset, Refilled.refl _ _ _⟩
    | some i =>
      refine ⟨hreset.trans ?_, Refilled.setSlot ha i⟩
      refine SameList.updNode ?_ (fun e => { e with cached := true }) fun e => ⟨e.weight, true, rfl⟩
      rw [hreset.live]
      exact hlive
  · rw [if_neg hw]
    exact ⟨SameList.refl l, Refilled.refl _ _ _⟩

theorem Refilled.congr {h h' : NodeHeap} {m m' : AllocManager} (hr : Refilled h L m m')
    (hdata : ∀ a ∈ L, (nodeAt h' a).data = (nodeAt h a).data) : Refilled h' L m m' := by
  refine ⟨hr.rest, fun i => ?_⟩
  rcases hr.slot i with heq | ⟨a, ha, hnew⟩
  · exact Or.inl heq
  · exact Or.inr ⟨a, ha, by rw [hnew, hdata a ha]⟩

/-- The pass keeps the list and refills slots from it. -/
theorem workPass_spec (hlive : ∀ a ∈ L, (l.nodes.lookup a).isSome) {pre : List Addr}
    (hpre : ∀ a ∈ pre, a ∈ L) :
    SameList l { l with nodes := (workPass (l.nodes, m) pre).1 } ∧
      Refilled l.nodes L m (workPass (l.nodes, m) pre).2 := by
  induction pre using List.reverseRecOn with
  | nil => exact ⟨SameList.refl l, Refilled.refl _ _ _⟩
  | append_singleton pre a ih =>
    obtain ⟨hsame, hrefill⟩ := ih fun b hb => hpre b (List.mem_append_left _ hb)
    have ha : a ∈ L := hpre a (by simp)
    rw [workPass_concat]
    generalize hp : workPass (l.nodes, m) pre = p at hsame hrefill ⊢
    obtain ⟨h, m'⟩ := p
    have hlive' : (h.lookup a).isSome := by
      have := hsame.live a
      rw [this]
      exact hlive a ha
    obtain ⟨hsame', hrefill'⟩ := workEntry_spec (m := m') (l := { l with nodes := h }) ha hlive' rfl
    exact ⟨hsame.trans hsame', hrefill.trans (hrefill'.congr fun b _ => (hsame.data b).symm)⟩

/-- The slots stay live when they are refilled from live entries. -/
theorem Refilled.slotsLive {h : NodeHeap} {m m' : AllocManager} (hr : Refilled h L m m')
    (hL : ∀ a ∈ L, (h.lookup a).isSome) (hm : m.SlotsLive h) : m'.SlotsLive h := by
  intro i hi
  rcases hr.slot i with heq | ⟨a, ha, hnew⟩
  · rw [heq] at hi ⊢
    exact hm i hi
  · rw [hnew]
    exact hL a ha

theorem SlotsLive.congr {m : AllocManager} {l l' : ListState} (h : SameList l l') :
    m.SlotsLive l'.nodes ↔ m.SlotsLive l.nodes := by
  unfold SlotsLive
  simp only [h.live]

/-- The slot loop reads slots until it finds one that is empty, light or gone. -/
theorem wp_memmanPickSlot {E : Stop → ListState → Prop} {Q : Option Slot → ListState → Prop}
    (hdead : (∃ i ∈ m.pickSlot l.nodes, m.Stale l.nodes i) → E .undefined l)
    (hQ : (¬ ∃ i ∈ m.pickSlot l.nodes, m.Stale l.nodes i) → Q (m.pickSlot l.nodes) l) :
    wp (memmanPickSlot m slots) env Q E l := by
  unfold AllocManager.pickSlot at hdead hQ
  generalize slots = rest at hdead hQ
  induction rest with
  | nil => exact hQ (by simp)
  | cons i rest ih =>
    rw [List.find?_cons] at hdead hQ
    rw [memmanPickSlot, wp_ite]
    refine ⟨fun hnull => ?_, fun hval => ?_⟩
    · simpa [hnull, Stale] using hQ
    rw [wp_bind]
    refine wp_deref (fun hlive => ?_) fun hnone => hdead ?_
    · rw [wp_ite]
      constructor
      · intro hw
        have hsome : ¬ m.Stale l.nodes i := fun h => by
          rw [Option.isNone_iff_eq_none.mp h.2] at hlive
          cases hlive
        simpa [hw, hsome] using hQ
      · intro hw
        exact ih (by simpa [hval, hw] using hdead) (by simpa [hval, hw] using hQ)
    · -- a node that is gone counts as light
      have hzero : (nodeAt l.nodes (m.cacheList i).value).weight < 10 := by
        rw [nodeAt, Option.isNone_iff_eq_none.mp hnone]
        decide
      exact ⟨i, by simp [hzero], hval, hnone⟩

theorem wp_memmanCacheAlgorithmWorker {E : Stop → ListState → Prop} {a : Addr} {index : Nat}
    {Q : Addr × AllocManager → ListState → Prop} (hlive : (l.nodes.lookup a).isSome)
    (hdead : ReadsStale (l.nodes, m) a → ∀ l', E .undefined l')
    (hQ : ¬ ReadsStale (l.nodes, m) a → Q (NULL, (workEntry (l.nodes, m) a).2)
      { l with nodes := (workEntry (l.nodes, m) a).1 }) :
    wp (memmanCacheAlgorithmWorker a index m) env Q E l := by
  rw [memmanCacheAlgorithmWorker, wp_bind]
  refine wp_deref_live hlive ?_
  unfold workEntry at hQ
  rw [wp_ite]
  refine ⟨fun hw => ?_, fun hw => ?_⟩
  · rw [if_pos hw] at hQ
    have hlive' : ((resetNode l.nodes a).lookup a).isSome :=
      (isSome_lookup_updNode _ hlive a).mpr hlive
    have hstale : (∃ i ∈ m.pickSlot (resetNode l.nodes a), m.Stale (resetNode l.nodes a) i) ↔
        ReadsStale (l.nodes, m) a := by
      refine Iff.trans (exists_congr fun i => and_congr_right fun _ => and_congr_right fun _ => ?_)
        (and_iff_right hw).symm
      rw [← Option.not_isSome, ← Option.not_isSome, Bool.not_eq_true', Bool.not_eq_true',
        ← Bool.not_eq_true, ← Bool.not_eq_true]
      exact not_congr (isSome_lookup_updNode _ hlive _)
    rw [wp_bind]
    refine wp_store_live hlive ?_
    rw [wp_bind]
    refine wp_memmanPickSlot (fun hd => hdead (hstale.mp hd) _) fun hd => ?_
    have hQ := hQ (mt hstale.mpr hd)
    unfold resetNode at hlive'
    dsimp only at hQ ⊢
    cases hpick : m.pickSlot
      (updNode l.nodes a fun e => { e with weight := 0, cached := true }) with
    | none =>
      rw [hpick] at hQ
      exact hQ
    | some i =>
      rw [hpick] at hQ
      dsimp only
      rw [wp_bind]
      refine wp_store_live hlive' ?_
      rw [wp_bind]
      refine wp_deref_live ?_ ?_
      · rw [isSome_lookup_updNode _ hlive']
        exact hlive'
      · simpa using hQ
  · rw [if_neg hw] at hQ
    exact hQ fun h => hw h.1

end Pass

section Manager

variable {env : Env} {s : Lib} {E : Stop → Lib → Prop} {L : List Addr}

theorem sameList_worked (h : s.list.Rep L) : SameList s.list (s.worked env L).list :=
  (workPass_spec (m := s.manager) (fun _ ha => h.live_of_mem ha) fun _ ha => ha).1.trans
    (SameList.mutex _ _)

theorem refilled_worked (h : s.list.Rep L) :
    Refilled s.list.nodes L s.manager (s.worked env L).manager :=
  (workPass_spec (m := s.manager) (l := s.list) (fun _ ha => h.live_of_mem ha) fun _ ha => ha).2

/-- A pass reads stale nodes only where some slot is stale before it. -/
theorem PassReadsStale.not_slotsLive (h : s.list.Rep L)
    (hr : PassReadsStale (s.list.nodes, s.manager) L) : ¬ s.manager.SlotsLive s.list.nodes := by
  obtain ⟨pre, a, post, hL, -, i, -, hstale⟩ := hr
  intro hslots
  have hpre : ∀ b ∈ pre, b ∈ L := fun b hb => hL ▸ List.mem_append_left _ hb
  obtain ⟨hsame, hrefill⟩ :=
    workPass_spec (m := s.manager) (l := s.list) (fun _ hb => h.live_of_mem hb) hpre
  refine hstale.not_slotsLive ((SlotsLive.congr hsame).mpr ?_)
  exact hrefill.slotsLive (fun _ hb => h.live_of_mem hb) hslots

/-- The pass, with the visit that may go wrong. -/
theorem wp_memmanWork_visits {Q : Unit → Lib → Prop} (h : s.list.Rep L)
    (hblock : Blocks env.tid s.allocMutex ∨ ScanBlocks env.tid s.list → ∀ s', E .blocked s')
    (hdead : PassReadsStale (s.list.nodes, s.manager) L → ∀ s', E .undefined s')
    (hQ : ¬ Blocks env.tid s.allocMutex → ¬ ScanBlocks env.tid s.list →
      ¬ PassReadsStale (s.list.nodes, s.manager) L → Q () (s.worked env L)) :
    wp memmanWork env Q E s := by
  rw [memmanWork, wp_bind, wp_lockAlloc]
  refine ⟨fun hfree => ?_, fun hb => hblock (Or.inl hb) _⟩
  rw [wp_bind, wp_getManager, wp_bind, wp_onList]
  -- after the entries `pre` the nodes and the manager are those of the fold over `pre`
  refine wp_linkedListForEach_visit (J := fun pre m l =>
      ((∀ b ∈ pre, b ∈ L) ∧ ¬ PassReadsStale (s.list.nodes, s.manager) pre) ∧
        ∃ mu, l = { s.list with nodes := (workPass (s.list.nodes, s.manager) pre).1, mutex := mu } ∧
        m = (workPass (s.list.nodes, s.manager) pre).2)
    h (fun hb => hblock (Or.inr hb) _) ?_ ⟨⟨fun _ hb => absurd hb (by simp), ?_⟩, _, rfl, rfl⟩ ?_ ?_
  · rintro pre m l mu ⟨hpre, -, rfl, rfl⟩
    exact ⟨hpre, mu, rfl, rfl⟩
  · rintro ⟨pre, a, post, hnil, -⟩
    simp at hnil
  · rintro pre a rest i m l hL hsame ⟨⟨hpre, hsafe⟩, mu, rfl, rfl⟩
    have ha : a ∈ L := by simp [hL]
    have hsame₁ : SameList s.list
        { s.list with nodes := (workPass (s.list.nodes, s.manager) pre).1 } :=
      (workPass_spec (m := s.manager) (l := s.list) (fun _ hb => h.live_of_mem hb) hpre).1
    have hlive : ((workPass (s.list.nodes, s.manager) pre).1.lookup a).isSome := by
      have := hsame₁.live a
      rw [this]
      exact h.live_of_mem ha
    refine wp_memmanCacheAlgorithmWorker hlive (fun hd _ => hdead ⟨pre, a, rest, hL, hd⟩ _)
      fun hd => ?_
    have hentry := (workEntry_spec (m := (workPass (s.list.nodes, s.manager) pre).2)
      (l := { s.list with
        nodes := (workPass (s.list.nodes, s.manager) pre).1, mutex := mu }) ha hlive rfl).1
    refine ⟨rfl, rfl, hentry, ⟨fun b hb => ?_, ?_⟩, mu, ?_, ?_⟩
    · rcases List.mem_append.mp hb with hb | hb
      · exact hpre b hb
      · exact List.mem_singleton.mp hb ▸ ha
    · rintro ⟨pre', b, post, hsplit, hb⟩
      rcases List.eq_nil_or_concat' post with rfl | ⟨post, c, rfl⟩
      · obtain ⟨rfl, hab⟩ := List.append_inj' hsplit rfl
        obtain rfl := List.singleton_inj.mp hab
        exact hd hb
      · have hcut : pre ++ [a] = (pre' ++ b :: post) ++ [c] := by simpa using hsplit
        exact hsafe ⟨pre', b, post, (List.append_inj' hcut rfl).1, hb⟩
    · rw [workPass_concat]
    · rw [workPass_concat]
  · rintro hnb m l hsame ⟨⟨-, hsafe⟩, mu, rfl, rfl⟩ hmu
    simp only [wp_bind, wp_setManager, wp_unlockAlloc]
    have hres := hQ hfree hnb hsafe
    obtain rfl : mu = scanMutex env.tid s.list L := hmu
    simpa [Lib.worked] using hres

theorem wp_memmanWork {Q : Unit → Lib → Prop} (h : s.list.Rep L)
    (hblock : Blocks env.tid s.allocMutex ∨ ScanBlocks env.tid s.list → ∀ s', E .blocked s')
    (hdead : ¬ s.manager.SlotsLive s.list.nodes → ∀ s', E .undefined s')
    (hQ : ¬ Blocks env.tid s.allocMutex → ¬ ScanBlocks env.tid s.list → Q () (s.worked env L)) :
    wp memmanWork env Q E s :=
  wp_memmanWork_visits h hblock (fun hr => hdead (hr.not_slotsLive h)) fun hfree hnb _ =>
    hQ hfree hnb

/-! ## Lookups -/

theorem mem_slots (i : Slot) : i ∈ slots := List.mem_finRange i

/-- A search over the slots stops at the first one that will do. -/
theorem find?_slots {q : Slot → Bool} {i : Slot} :
    slots.find? q = some i ↔ q i = true ∧ ∀ j < i, q j = false := by
  rw [slots, ← Fin.find?_eq_find?_finRange, Fin.find?_eq_some_iff]

theorem keySlot_eq_some {m : AllocManager} {key : Addr} {i : Slot} (h : m.keySlot key = some i) :
    (m.cacheList i).key = key ∧ key ≠ NULL := by
  have hi := List.find?_some h
  rw [decide_eq_true_eq] at hi
  exact ⟨hi.2, hi.2 ▸ hi.1⟩

theorem keySlot_eq_none {m : AllocManager} {key : Addr} :
    m.keySlot key = none ↔ ∀ i, (m.cacheList i).key ≠ NULL → (m.cacheList i).key ≠ key := by
  unfold keySlot
  rw [List.find?_eq_none]
  constructor
  · intro h i hne heq
    exact h i (mem_slots i) (by simpa using ⟨hne, heq⟩)
  · intro h i _ hi
    rw [decide_eq_true_eq] at hi
    exact h i hi.1 hi.2

/-- The state after `memman_TryCacheHit` found the node `value`. -/
def Lib.hit (s : Lib) (value : Addr) : Lib :=
  { s with
    list := { s.list with
      nodes := updNode s.list.nodes value fun e => { e with weight := e.weight + 1 } }
    allocMutex := release s.allocMutex }

theorem sameList_hit {value : Addr} (hlive : (s.list.nodes.lookup value).isSome) :
    SameList s.list (s.hit value).list :=
  SameList.updNode hlive (fun e => { e with weight := e.weight + 1 })
    fun e => ⟨e.weight + 1, e.cached, rfl⟩

theorem wp_memmanTryCacheHit {Q : Addr → Lib → Prop} {key : Addr}
    (hoff : s.manager.useCache = false → Q NULL s)
    (hblock : s.manager.useCache → Blocks env.tid s.allocMutex → ∀ s', E .blocked s')
    (hmiss : s.manager.useCache → s.manager.keySlot key = none →
      Q NULL { s with allocMutex := release s.allocMutex })
    (hdead : s.manager.useCache → ∀ i, s.manager.keySlot key = some i →
      ¬ (s.list.nodes.lookup (s.manager.cacheList i).value).isSome → ∀ s', E .undefined s')
    (hhit : s.manager.useCache → ∀ i, s.manager.keySlot key = some i →
      (s.list.nodes.lookup (s.manager.cacheList i).value).isSome →
      Q (s.manager.cacheList i).value (s.hit (s.manager.cacheList i).value)) :
    wp (memmanTryCacheHit key) env Q E s := by
  rw [memmanTryCacheHit, wp_bind, wp_getManager, wp_ite]
  refine ⟨fun hnot => ?_, fun huse => ?_⟩
  · exact hoff (by simpa using hnot)
  rw [not_not] at huse
  rw [wp_bind, wp_lockAlloc]
  refine ⟨fun hfree => ?_, fun hb => hblock huse hb _⟩
  rw [wp_bind, wp_getManager]
  dsimp only
  cases hslot : s.manager.keySlot key with
  | none =>
    simp only [wp_bind, wp_unlockAlloc, wp_pure, release_acquire]
    exact hmiss huse hslot
  | some i =>
    dsimp only
    rw [wp_bind, wp_onList]
    by_cases hlive : (s.list.nodes.lookup (s.manager.cacheList i).value).isSome
    · refine wp_store_live hlive ?_
      simp only [wp_bind, wp_unlockAlloc, wp_pure, release_acquire]
      exact hhit huse i hslot hlive
    · rw [store, wp_bind]
      exact wp_deref (fun hl => absurd hl hlive) fun _ => hdead huse i hslot hlive _

/-- What `memman_TryCacheHitById` finds: the first slot whose node has the id. -/
def AllocManager.idHit (self : AllocManager) (h : NodeHeap) (id : UInt16) : Addr :=
  ((slots.find? fun i => (self.cacheList i).value ≠ NULL ∧
      (nodeAt h (self.cacheList i).value).blockId = id).map
    fun i => (self.cacheList i).value).getD NULL

theorem idHit_ne_null {m : AllocManager} {h : NodeHeap} {id : UInt16} (hne : m.idHit h id ≠ NULL) :
    ∃ i, (m.cacheList i).value = m.idHit h id := by
  unfold AllocManager.idHit at *
  cases hf : slots.find? fun i => (m.cacheList i).value ≠ NULL ∧
      (nodeAt h (m.cacheList i).value).blockId = id with
  | none =>
    rw [hf] at hne
    exact absurd rfl hne
  | some i => exact ⟨i, rfl⟩

/-- Where the search by id ends: at the id, or at a node that is gone. -/
def AllocManager.scanEnd (self : AllocManager) (h : NodeHeap) (id : UInt16) : Option Slot :=
  slots.find? fun i => (self.cacheList i).value ≠ NULL ∧
    ((h.lookup (self.cacheList i).value).isNone ∨
      (nodeAt h (self.cacheList i).value).blockId = id)

theorem wp_memmanScanIds {E : Stop → ListState → Prop} {l : ListState} {m : AllocManager}
    {id : UInt16} {Q : Addr → ListState → Prop}
    (hdead : (∃ i ∈ m.scanEnd l.nodes id, m.Stale l.nodes i) → E .undefined l)
    (hQ : (¬ ∃ i ∈ m.scanEnd l.nodes id, m.Stale l.nodes i) →
      (m.idHit l.nodes id ≠ NULL → (l.nodes.lookup (m.idHit l.nodes id)).isSome) →
      Q (m.idHit l.nodes id) l) : wp (memmanScanIds m id slots) env Q E l := by
  unfold AllocManager.scanEnd at hdead hQ
  unfold AllocManager.idHit at hQ
  generalize slots = rest at hdead hQ
  induction rest with
  | nil => exact hQ (by simp) fun hne => absurd rfl hne
  | cons i rest ih =>
    have hskip : ((m.cacheList i).value ≠ NULL → (l.nodes.lookup (m.cacheList i).value).isSome ∧
        (nodeAt l.nodes (m.cacheList i).value).blockId ≠ id) →
          wp (memmanScanIds m id rest) env Q E l := by
      intro hnot
      rw [List.find?_cons_of_neg (by simpa using fun h =>
        ⟨Option.isSome_iff_ne_none.mp (hnot h).1, (hnot h).2⟩)] at hdead hQ
      rw [List.find?_cons_of_neg (by simpa using fun h => (hnot h).2)] at hQ
      exact ih hdead hQ
    rw [memmanScanIds, wp_ite]
    refine ⟨fun hnull => hskip fun h => absurd hnull h, fun hval => ?_⟩
    rw [wp_bind]
    refine wp_deref (fun hlive => ?_) fun hnone => hdead ⟨i, ?_, hval, hnone⟩
    · rw [wp_ite]
      refine ⟨fun hid => ?_, fun hid => hskip fun _ => ⟨hlive, hid⟩⟩
      rw [List.find?_cons_of_pos (by simpa using ⟨hval, Or.inr hid⟩),
        List.find?_cons_of_pos (by simpa using ⟨hval, hid⟩)] at hQ
      refine hQ (fun ⟨j, hj, hstale⟩ => ?_) fun _ => hlive
      obtain rfl := Option.some.inj hj
      rw [Option.isNone_iff_eq_none.mp hstale.2] at hlive
      cases hlive
    · exact List.find?_cons_of_pos (decide_eq_true ⟨hval, Or.inl hnone⟩)

theorem wp_memmanTryCacheHitById {Q : Addr → Lib → Prop} {id : UInt16}
    (hoff : s.manager.useCache = false → Q NULL s)
    (hblock : s.manager.useCache → Blocks env.tid s.allocMutex → ∀ s', E .blocked s')
    (hdead : s.manager.useCache →
      (∃ i ∈ s.manager.scanEnd s.list.nodes id, s.manager.Stale s.list.nodes i) →
        ∀ s', E .undefined s')
    (hQ : s.manager.useCache →
      (¬ ∃ i ∈ s.manager.scanEnd s.list.nodes id, s.manager.Stale s.list.nodes i) →
      (s.manager.idHit s.list.nodes id ≠ NULL →
        (s.list.nodes.lookup (s.manager.idHit s.list.nodes id)).isSome) →
      Q (s.manager.idHit s.list.nodes id) { s with allocMutex := release s.allocMutex }) :
    wp (memmanTryCacheHitById id) env Q E s := by
  rw [memmanTryCacheHitById, wp_bind, wp_getManager, wp_ite]
  refine ⟨fun hnot => hoff (by simpa using hnot), fun huse => ?_⟩
  rw [not_not] at huse
  rw [wp_bind, wp_lockAlloc]
  refine ⟨fun hfree => ?_, fun hb => hblock huse hb _⟩
  rw [wp_bind, wp_getManager, wp_bind, wp_onList]
  refine wp_memmanScanIds (fun hd => hdead huse hd _) fun hd hlive => ?_
  simp only [wp_bind, wp_unlockAlloc, wp_pure, release_acquire]
  exact hQ huse hd hlive

/-! ## Emptying slots -/

/-- Whether the loop zeroes a slot. -/
def DropsSlot (wanted : Addr → Bool) (pair : CachePair) : Bool := pair.key ≠ NULL ∧ wanted pair.key

/-- `m'` is `m` with the wanted slots among `rest` emptied. -/
structure Dropped (wanted : Addr → Bool) (rest : List Slot) (m m' : AllocManager) : Prop where
  slot : ∀ i, m'.cacheList i =
    if i ∈ rest ∧ DropsSlot wanted (m.cacheList i) then .empty else m.cacheList i
  available : m'.availableCacheSlots = m.availableCacheSlots +
    UInt8.ofNat (rest.countP fun i => DropsSlot wanted (m.cacheList i))
  rest : m' = { m with
    cacheList := m'.cacheList, availableCacheSlots := m'.availableCacheSlots }

/-- Every slot that is to be zeroed holds a live node. -/
def AllocManager.DropsLive (self : AllocManager) (wanted : Addr → Bool) (rest : List Slot)
    (h : NodeHeap) : Prop :=
  ∀ i ∈ rest, DropsSlot wanted (self.cacheList i) → (h.lookup (self.cacheList i).value).isSome

theorem AllocManager.SlotsLive.dropsLive {m : AllocManager} {h : NodeHeap} (hs : m.SlotsLive h)
    (wanted : Addr → Bool) (rest : List Slot) : m.DropsLive wanted rest h := by
  intro i _ hd
  refine hs i fun hempty => (of_decide_eq_true hd).1 ?_
  rw [hempty]
  rfl

theorem wp_memmanDropSlots {Q : Unit → Lib → Prop} {wanted : Addr → Bool} {cached : Bool}
    {rest : List Slot} (hnd : rest.Nodup)
    (hdead : ¬ s.manager.DropsLive wanted rest s.list.nodes → ∀ s', E .undefined s')
    (hQ : s.manager.DropsLive wanted rest s.list.nodes → ∀ nodes m,
      SameList s.list { s.list with nodes := nodes } → Dropped wanted rest s.manager m →
      Q () { s with list := { s.list with nodes := nodes }, manager := m }) :
    wp (memmanDropSlots wanted cached rest) env Q E s := by
  induction rest generalizing s with
  | nil =>
    refine hQ (fun i hi => absurd hi List.not_mem_nil) _ _ (SameList.refl _) ?_
    exact ⟨fun i => by simp, by simp, rfl⟩
  | cons i rest ih =>
    obtain ⟨hi, hnd⟩ := List.nodup_cons.mp hnd
    have hmem : ∀ j ∈ rest, j ≠ i := fun j hj heq => hi (heq ▸ hj)
    rw [memmanDropSlots, wp_bind, wp_getManager, wp_bind, wp_when]
    refine ⟨fun hdrop => ?_, fun hkeep => ?_⟩
    · have hd : DropsSlot wanted (s.manager.cacheList i) = true := decide_eq_true hdrop
      rw [wp_bind, wp_onList]
      by_cases hlive : (s.list.nodes.lookup (s.manager.cacheList i).value).isSome
      · refine wp_store_live hlive ?_
        rw [wp_setManager]
        have hsame := SameList.updNode hlive (fun e => { e with cached := cached })
          fun e => ⟨e.weight, cached, rfl⟩
        -- the slots behind `i` are as before, and so are the live nodes
        have hrest : (s.manager.setSlot i .empty).DropsLive wanted rest (updNode s.list.nodes
            (s.manager.cacheList i).value fun e => { e with cached := cached }) ↔
              s.manager.DropsLive wanted (i :: rest) s.list.nodes := by
          unfold DropsLive
          rw [List.forall_mem_cons, and_iff_right fun _ => hlive]
          refine forall₂_congr fun j hj => ?_
          rw [setSlot_of_ne (hmem j hj), hsame.live]
        refine ih hnd (fun hd' => hdead fun hs => hd' (hrest.mpr hs))
          fun hs nodes m hsame' hdropped => ?_
        refine hQ (hrest.mp hs) nodes m (hsame.trans hsame') ⟨fun j => ?_, ?_, ?_⟩
        · rw [hdropped.slot j]
          by_cases hji : j = i
          · subst hji
            simp [hd]
          · simp [setSlot_of_ne hji, hji]
        · have hcount : (rest.countP fun j => DropsSlot wanted
              ((s.manager.setSlot i .empty).cacheList j))
              = rest.countP fun j => DropsSlot wanted (s.manager.cacheList j) := by
            refine List.countP_congr fun j hj => ?_
            rw [setSlot_of_ne (hmem j hj)]
          have havail := hdropped.available
          dsimp only at havail
          rw [hcount] at havail
          rw [havail, List.countP_cons_of_pos (p := fun j =>
            DropsSlot wanted (s.manager.cacheList j)) hd, UInt8.ofNat_add, UInt8.add_assoc]
          congr 1
          exact UInt8.add_comm _ _
        · rw [hdropped.rest]
          rfl
      · rw [store, wp_bind]
        refine wp_deref (fun hl => absurd hl hlive) fun _ => hdead (fun hs => hlive ?_) _
        exact hs i List.mem_cons_self hd
    · have hd : ¬ DropsSlot wanted (s.manager.cacheList i) = true :=
        fun h => hkeep (of_decide_eq_true h)
      have hrest : s.manager.DropsLive wanted rest s.list.nodes ↔
          s.manager.DropsLive wanted (i :: rest) s.list.nodes := by
        unfold DropsLive
        rw [List.forall_mem_cons, and_iff_right fun h => absurd h hd]
      refine ih hnd (fun hd' => hdead fun hs => hd' (hrest.mpr hs)) fun hs nodes m hsame hdropped =>
        hQ (hrest.mp hs) nodes m hsame ⟨fun j => ?_, ?_, hdropped.rest⟩
      · rw [hdropped.slot j]
        by_cases hji : j = i
        · subst hji
          simp [hd, hi]
        · simp [hji]
      · rw [hdropped.available, List.countP_cons_of_neg (p := fun j =>
          DropsSlot wanted (s.manager.cacheList j)) hd]

/-- `memman_cacheInvalidate` and `memman_cacheClear`. -/
theorem wp_memmanDrop {Q : Unit → Lib → Prop} {wanted : Addr → Bool} {cached : Bool}
    (hblock : Blocks env.tid s.allocMutex → ∀ s', E .blocked s')
    (hdead : ¬ s.manager.DropsLive wanted slots s.list.nodes → ∀ s', E .undefined s')
    (hQ : s.manager.DropsLive wanted slots s.list.nodes → ∀ nodes m,
      SameList s.list { s.list with nodes := nodes } → Dropped wanted slots s.manager m →
      Q () { s with
        list := { s.list with nodes := nodes }, manager := m
        allocMutex := release s.allocMutex }) :
    wp (do lockAlloc; memmanDropSlots wanted cached slots; unlockAlloc) env Q E s := by
  rw [wp_bind, wp_lockAlloc]
  refine ⟨fun hfree => ?_, fun hb => hblock hb _⟩
  rw [wp_bind]
  refine wp_memmanDropSlots (List.nodup_finRange _) hdead fun hs nodes m hsame hdropped => ?_
  rw [wp_unlockAlloc]
  simpa using hQ hs nodes m hsame hdropped

/-! ## Filling a slot on request -/

theorem freeSlot_eq_some {m : AllocManager} {i : Slot} (h : m.freeSlot = some i) :
    (m.cacheList i).key = NULL := by
  simpa using List.find?_some h

theorem freeSlot_eq_none {m : AllocManager} :
    m.freeSlot = none ↔ ∀ i, (m.cacheList i).key ≠ NULL := by
  unfold freeSlot
  rw [List.find?_eq_none]
  constructor
  · intro h i hnull
    exact h i (mem_slots i) (by simpa using hnull)
  · intro h i _ hi
    exact h i (by simpa using hi)

/-- The state after `memman_tryCachePut` stored `entry` into slot `i`. -/
def Lib.put (s : Lib) (i : Slot) (entry : Addr) : Lib :=
  { s with
    list := { s.list with
      nodes := updNode s.list.nodes entry fun e => { e with cached := true } }
    manager :=
      { s.manager.setSlot i { key := (nodeAt s.list.nodes entry).data, value := entry } with
      availableCacheSlots := s.manager.availableCacheSlots - 1 }
    allocMutex := release s.allocMutex }

theorem sameList_put {i : Slot} {entry : Addr} (hlive : (s.list.nodes.lookup entry).isSome) :
    SameList s.list (s.put i entry).list :=
  SameList.updNode hlive (fun e => { e with cached := true }) fun e => ⟨e.weight, true, rfl⟩

/-- Whether `memman_tryCachePut` goes for a slot. -/
def AllocManager.AcceptsPut (self : AllocManager) : Prop :=
  self.cacheLock = false ∧ self.useCache = true ∧ self.availableCacheSlots ≠ 0

instance (self : AllocManager) : Decidable self.AcceptsPut :=
  inferInstanceAs (Decidable (_ ∧ _ ∧ _))

theorem wp_memmanTryCachePut {Q : Bool → Lib → Prop} {entry : Addr}
    (hlive : (s.list.nodes.lookup entry).isSome)
    (hblock : Blocks env.tid s.allocMutex → ∀ s', E .blocked s')
    (hrefuse : ¬ s.manager.AcceptsPut → Q false s)
    (hcrash : s.manager.AcceptsPut → s.manager.freeSlot = none →
      ∀ s', E (.crash .snErrSysFail) s')
    (hput : s.manager.AcceptsPut → ∀ i, s.manager.freeSlot = some i → Q true (s.put i entry)) :
    wp (memmanTryCachePut entry) env Q E s := by
  rw [memmanTryCachePut, wp_bind, wp_getManager, wp_ite]
  refine ⟨fun hoff => hrefuse fun hacc => ?_, fun hon => ?_⟩
  · rcases hoff with hlock | huse
    · exact Bool.false_ne_true (hacc.1.symm.trans hlock)
    · exact huse hacc.2.1
  rw [not_or, not_not] at hon
  rw [wp_ite]
  refine ⟨fun hzero => hrefuse fun hacc => hacc.2.2 hzero, fun hzero => ?_⟩
  have hacc : s.manager.AcceptsPut := ⟨by simpa using hon.1, hon.2, hzero⟩
  rw [wp_bind, wp_lockAlloc]
  refine ⟨fun hfree => ?_, fun hb => hblock hb _⟩
  cases hslot : s.manager.freeSlot with
  | none => exact hcrash hacc hslot _
  | some i =>
    dsimp only
    rw [wp_bind, wp_onList]
    refine wp_deref_live hlive ?_
    rw [wp_bind, wp_setManager, wp_bind, wp_onList]
    refine wp_store_live hlive ?_
    simp only [wp_bind, wp_unlockAlloc, wp_pure, release_acquire]
    exact hput hacc i hslot

end Manager

end LibSafetynet
