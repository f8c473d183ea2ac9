import LibSafetynet.CacheReplacement
import LibSafetynet.HotBlocks

/-!
# One pass is enough

A pass stores every light entry it visits into the first open slot, so each one pushes
out the one before: what is left in that slot is the last light entry of the list. A
second pass visits the same entries, finds the same slot and ends with the same entry
(`memmanWork_settles`), although it goes through all of them again.
-/

namespace LibSafetynet

open Logic Prog AllocManager ListState

/-- The last light entry. -/
def lastLight (h : NodeHeap) (as : List Addr) : Option Addr := (as.filter (Light h ·)).getLast?

/-- The entry goes into the first open slot, if there is one. -/
def settle (p : NodeHeap × AllocManager) (o : Option Addr) : NodeHeap × AllocManager :=
  match o, p.2.pickSlot p.1 with
  | some a, some i => (p.1, p.2.setSlot i ⟨(nodeAt p.1 a).data, a⟩)
  | _, _ => p

/-- A further pass over `as` has nothing to reset and nothing to store. -/
structure Rested (p : NodeHeap × AllocManager) (as : List Addr) : Prop where
  reset : ∀ a ∈ as, Light p.1 a → (nodeAt p.1 a).weight = 0 ∧ (nodeAt p.1 a).cached = true
  kept : settle p (lastLight p.1 as) = p

section Settled

variable {h h' : NodeHeap} {m : AllocManager} {p : NodeHeap × AllocManager} {a : Addr} {i : Slot}
variable {L as : List Addr} {o : Option Addr}

theorem lastLight_concat (as : List Addr) (a : Addr) :
    lastLight h (as ++ [a]) = if Light h a then some a else lastLight h as := by
  by_cases hl : Light h a
  · simp [lastLight, hl]
  · simp [lastLight, hl]

theorem of_lastLight (ha : lastLight h as = some a) : a ∈ as ∧ Light h a := by
  have hmem := List.mem_of_getLast? ha
  simpa using hmem

/-! ## The open slot -/

theorem pickSlot_eq_some : m.pickSlot h = some i ↔
    ((m.cacheList i).value = NULL ∨ (nodeAt h (m.cacheList i).value).weight < 10) ∧
      ∀ j < i, (m.cacheList j).value ≠ NULL ∧ ¬ (nodeAt h (m.cacheList j).value).weight < 10 := by
  rw [pickSlot, find?_slots, decide_eq_true_eq]
  refine and_congr_right fun _ => forall_congr' fun j => imp_congr_right fun _ => ?_
  rw [decide_eq_false_iff_not, not_or]

theorem pickSlot_congr (hw : ∀ a, (nodeAt h a).weight = (nodeAt h' a).weight) :
    m.pickSlot h = m.pickSlot h' := by
  unfold pickSlot
  simp only [hw]

/-- A light entry leaves its slot open. -/
theorem pickSlot_setSlot {k : Addr} (hi : m.pickSlot h = some i) (hw : (nodeAt h a).weight < 10) :
    (m.setSlot i ⟨k, a⟩).pickSlot h = some i := by
  rw [pickSlot_eq_some] at hi ⊢
  rw [setSlot_self]
  refine ⟨Or.inr hw, fun j hj => ?_⟩
  rw [setSlot_of_ne (Fin.ne_of_lt hj)]
  exact hi.2 j hj

theorem setSlot_setSlot (pair pair' : CachePair) :
    (m.setSlot i pair).setSlot i pair' = m.setSlot i pair' := by
  simp [setSlot]

/-- After the visit of a light entry the slot that it took is the open one. -/
theorem pickSlot_workEntry (hl : Light p.1 a) :
    (workEntry p a).2.pickSlot (workEntry p a).1 = slotFor p a := by
  have hweights : ∀ b,
      (nodeAt (workEntry p a).1 b).weight = (nodeAt (resetNode p.1 a) b).weight := by
    intro b
    rw [weight_workEntry, weight_resetNode]
    simp [hl]
  rw [pickSlot_congr hweights]
  cases hslot : slotFor p a with
  | none =>
    have hfull : workEntry p a = (resetNode p.1 a, p.2) := workEntry_full hl hslot
    rw [hfull]
    exact hslot
  | some i =>
    have hstored : (workEntry p a).2 = p.2.setSlot i ⟨(nodeAt p.1 a).data, a⟩ :=
      congrArg Prod.snd (workEntry_stored hl hslot)
    rw [hstored]
    refine pickSlot_setSlot hslot ?_
    rw [weight_resetNode, if_pos rfl]
    decide

theorem Rested.slot (hr : Rested p L) (ha : lastLight p.1 L = some a)
    (hi : p.2.pickSlot p.1 = some i) : p.2.cacheList i = ⟨(nodeAt p.1 a).data, a⟩ := by
  have hkept : p.2.setSlot i ⟨(nodeAt p.1 a).data, a⟩ = p.2 := by
    have hsettle := hr.kept
    unfold settle at hsettle
    rw [ha, hi] at hsettle
    exact congrArg Prod.snd hsettle
  rw [← hkept, setSlot_self]

/-! ## The first pass -/

theorem rested_nil (p : NodeHeap × AllocManager) : Rested p [] :=
  ⟨fun _ ha => absurd ha List.not_mem_nil, rfl⟩

theorem workEntry_of_heavy (hl : ¬ Light p.1 a) : workEntry p a = p := if_neg hl

/-- What the visits so far have settled, one more visit settles again. -/
theorem Rested.visit (hr : Rested p as) : Rested (workEntry p a) (as ++ [a]) := by
  by_cases hl : Light p.1 a
  swap
  · rw [workEntry_of_heavy hl]
    refine ⟨fun b hb hlight => ?_, ?_⟩
    · rcases List.mem_append.mp hb with hb | hb
      · exact hr.reset b hb hlight
      · rw [List.mem_singleton.mp hb] at hlight
        exact absurd hlight hl
    · rw [lastLight_concat, if_neg hl]
      exact hr.kept
  have hself : nodeAt (workEntry p a).1 a = { nodeAt p.1 a with weight := 0, cached := true } := by
    rw [nodeAt_workEntry, if_pos ⟨rfl, hl⟩]
  have hother : ∀ b, b ≠ a → nodeAt (workEntry p a).1 b = nodeAt p.1 b := fun b hb => by
    rw [nodeAt_workEntry, if_neg fun h => hb h.1]
  constructor
  · intro b hb hlight
    by_cases hba : b = a
    · rw [hba, hself]
      exact ⟨rfl, rfl⟩
    · unfold Light at hlight
      rw [hother b hba] at hlight ⊢
      rcases List.mem_append.mp hb with hb | hb
      · exact hr.reset b hb hlight
      · exact absurd (List.mem_singleton.mp hb) hba
  · have hlight : Light (workEntry p a).1 a := by
      have hzero : (0 : UInt8) ≤ 10 := by decide
      unfold Light
      rw [hself]
      exact hzero
    rw [lastLight_concat, if_pos hlight]
    unfold settle
    rw [pickSlot_workEntry hl]
    cases hslot : slotFor p a with
    | none => rfl
    | some i =>
      have hstored : (workEntry p a).2 = p.2.setSlot i ⟨(nodeAt p.1 a).data, a⟩ :=
        congrArg Prod.snd (workEntry_stored hl hslot)
      refine Prod.ext rfl ?_
      show (workEntry p a).2.setSlot i _ = (workEntry p a).2
      rw [hstored, setSlot_setSlot, hself]

theorem rested_workPass (p : NodeHeap × AllocManager) (L : List Addr) :
    Rested (workPass p L) L := by
  induction L using List.reverseRecOn with
  | nil => exact rested_nil p
  | append_singleton as a ih =>
    rw [workPass_concat]
    exact ih.visit

/-! ## The second pass -/

theorem updNode_of_eq {f : LinkedListEntry → LinkedListEntry} (hlive : (h.lookup a).isSome)
    (hf : f (nodeAt h a) = nodeAt h a) : updNode h a f = h := by
  obtain ⟨e, he⟩ := Option.isSome_iff_exists.mp hlive
  have hnode : nodeAt h a = e := by simp [nodeAt, he]
  refine Finmap.ext_lookup fun b => ?_
  by_cases hb : b = a
  · rw [hb, updNode, hf, Finmap.lookup_insert, he, hnode]
  · rw [updNode, Finmap.lookup_insert_of_ne _ hb]

/-- A visit of an entry that is already reset only stores it. -/
theorem workEntry_reset (hlive : (p.1.lookup a).isSome) (hl : Light p.1 a)
    (hreset : (nodeAt p.1 a).weight = 0 ∧ (nodeAt p.1 a).cached = true) :
    workEntry p a = settle p (some a) := by
  have hnode : resetNode p.1 a = p.1 := by
    refine updNode_of_eq hlive ?_
    rw [← hreset.1, ← hreset.2]
  have hslot : slotFor p a = p.2.pickSlot p.1 := by rw [slotFor, hnode]
  unfold settle
  cases hpick : p.2.pickSlot p.1 with
  | none =>
    have hfull : workEntry p a = (resetNode p.1 a, p.2) := workEntry_full hl (hslot.trans hpick)
    rw [hfull, hnode]
  | some i =>
    have hstored : workEntry p a = (updNode (resetNode p.1 a) a fun e => { e with cached := true },
        p.2.setSlot i ⟨(nodeAt p.1 a).data, a⟩) := workEntry_stored hl (hslot.trans hpick)
    rw [hstored, hnode, updNode_of_eq hlive]
    rw [← hreset.2]

/-- Of two entries that are stored one after the other the second is left. -/
theorem settle_settle (hw : ∀ b ∈ o, (nodeAt p.1 b).weight < 10) :
    settle (settle p o) (some a) = settle p (some a) := by
  cases o with
  | none => rfl
  | some b =>
    cases hpick : p.2.pickSlot p.1 with
    | none => simp [settle, hpick]
    | some i =>
      have hagain := pickSlot_setSlot (k := (nodeAt p.1 b).data) hpick (hw b rfl)
      simp [settle, hpick, hagain, setSlot_setSlot]

theorem settle_fst (p : NodeHeap × AllocManager) (o : Option Addr) : (settle p o).1 = p.1 := by
  unfold settle
  split <;> rfl

/-- The entries that are reset, visited again. -/
theorem workPass_reset (hlive : ∀ a ∈ as, (p.1.lookup a).isSome)
    (hreset : ∀ a ∈ as, Light p.1 a → (nodeAt p.1 a).weight = 0 ∧ (nodeAt p.1 a).cached = true) :
    workPass p as = settle p (lastLight p.1 as) := by
  induction as using List.reverseRecOn with
  | nil => rfl
  | append_singleton as a ih =>
    have hbefore : ∀ b ∈ as, b ∈ as ++ [a] := fun b hb => List.mem_append_left _ hb
    have hmem : a ∈ as ++ [a] := by simp
    rw [workPass_concat, lastLight_concat,
      ih (fun b hb => hlive b (hbefore b hb)) fun b hb => hreset b (hbefore b hb)]
    by_cases hl : Light p.1 a
    swap
    · rw [if_neg hl, workEntry_of_heavy]
      rwa [settle_fst]
    have hfst : (settle p (lastLight p.1 as)).1 = p.1 := settle_fst _ _
    rw [if_pos hl, workEntry_reset]
    · refine settle_settle fun b hb => ?_
      obtain ⟨hb, hlight⟩ := of_lastLight hb
      rw [(hreset b (hbefore b hb) hlight).1]
      decide
    · rw [hfst]
      exact hlive a hmem
    · rwa [hfst]
    · rw [hfst]
      exact hreset a hmem hl

/-- **A second pass does nothing.** -/
theorem workPass_workPass (hlive : ∀ a ∈ L, ((workPass p L).1.lookup a).isSome) :
    workPass (workPass p L) L = workPass p L := by
  have hrested := rested_workPass p L
  rw [workPass_reset hlive hrested.reset]
  exact hrested.kept

end Settled

/-! ## Reachable states -/

/-- **One pass settles the cache.** In every reachable state: a pass leaves the last light
entry of the list in the first slot that is open after it, and a pass that follows it at
once, of any thread, changes no node and no slot. -/
theorem memmanWork_settles {cfg : Config} {env : Env} {s s' : Lib} (hr : Reachable cfg s)
    (hwork : memmanWork env s = .done () s') :
    (∀ a i, lastLight s'.list.nodes s'.list.entries = some a →
      s'.manager.pickSlot s'.list.nodes = some i →
        s'.manager.cacheList i = ⟨(nodeAt s'.list.nodes a).data, a⟩) ∧
    ∀ env' s'', memmanWork env' s' = .done () s'' →
      s''.list.nodes = s'.list.nodes ∧ s''.manager = s'.manager := by
  obtain ⟨L, hb, -⟩ := hr.base
  obtain rfl := memmanWork_done hb hwork
  have hb' : Base (s.worked env L) L := base_worked hb
  have hrested : Rested (workPass (s.list.nodes, s.manager) L) L := rested_workPass _ L
  constructor
  · intro a i ha hi
    rw [hb'.rep.entries_eq] at ha
    exact hrested.slot ha hi
  · intro env' s'' hagain
    obtain rfl := memmanWork_done hb' hagain
    have hsame : workPass (workPass (s.list.nodes, s.manager) L) L =
        workPass (s.list.nodes, s.manager) L :=
      workPass_workPass fun a ha => hb'.rep.live_of_mem ha
    exact ⟨congrArg Prod.fst hsame, congrArg Prod.snd hsame⟩

/-- Two light blocks in an empty cache: the second one is left in the first slot. -/
theorem memmanWork_settles_at :
    ∃ s s', Reachable ⟨false⟩ s ∧ memmanWork (Env.plain 1 0 0) s = .done () s' ∧
      lastLight s'.list.nodes s'.list.entries = some 192 ∧
      s'.manager.pickSlot s'.list.nodes = some 0 ∧
      s'.manager.cacheList 0 = ⟨(nodeAt s'.list.nodes 192).data, 192⟩ ∧
      ∀ env' s'', memmanWork env' s' = .done () s'' →
        s''.list.nodes = s'.list.nodes ∧ s''.manager = s'.manager := by
  have hsome : ((doinit (Env.plain 1 64 0) .blank).done?.bind fun s₀ =>
      (run (libStep ⟨false⟩) [(Env.plain 1 128 4096, .malloc 2), (Env.plain 1 192 8192, .malloc 2)]
        s₀).bind fun s => (memmanWork (Env.plain 1 0 0) s).done?.map fun s' =>
          (lastLight s'.list.nodes s'.list.entries, s'.manager.pickSlot s'.list.nodes)) =
            some (some 192, some 0) := by
    decide +kernel
  obtain ⟨s₀, h₀, hsome⟩ := Option.bind_eq_some_iff.mp hsome
  obtain ⟨s, hrun, hsome⟩ := Option.bind_eq_some_iff.mp hsome
  obtain ⟨s', hwork, hval⟩ := Option.map_eq_some_iff.mp hsome
  obtain ⟨hlast, hslot⟩ := Prod.mk.inj hval
  obtain ⟨_, hdone⟩ := Outcome.done?_eq_some.mp hwork
  have hreach : Reachable ⟨false⟩ s := ⟨s₀, _, started_of_done h₀, hrun⟩
  obtain ⟨hleft, hagain⟩ := memmanWork_settles hreach hdone
  exact ⟨s, s', hreach, hdone, hlast, hslot, hleft 192 0 hlast hslot, hagain⟩

end LibSafetynet
