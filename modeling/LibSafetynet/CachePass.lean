import LibSafetynet.CacheView
import LibSafetynet.CachePlaces

/-!
# The pass, visit by visit

A pass is a run of the labelled system whose labels are the visited entries
(`run_passStep`). A condition on a pass is a condition on each visit and the state it
starts from, and what the allowed visits keep the pass keeps. `Visited` lists what one
visit does to the view of the cache.
-/

namespace LibSafetynet

open Logic AllocManager

/-- One visit. -/
def passStep (a : Addr) (p : NodeHeap × AllocManager) : Option (NodeHeap × AllocManager) :=
  some (workEntry p a)

/-- Every visit of the operation's passes starts from a state where `ok` holds. -/
def Visits (ok : Addr → NodeHeap × AllocManager → Prop) (l : Env × Op) (s : Lib) : Prop :=
  Along passStep ok (l.2.visits s.list.entries) (s.list.nodes, s.manager)

/-- What the visit of `a` did to the view. -/
inductive Visited (p : NodeHeap × AllocManager) (a : Addr) (v : CacheView) : Prop
  | heavy : ¬ Light p.1 a → v = cacheViewOf p → Visited p a v
  | full : Light p.1 a → slotFor p a = none →
      v = { cacheViewOf p with marks := Function.update (cacheViewOf p).marks a true } →
        Visited p a v
  | stored {i : Slot} : Light p.1 a → slotFor p a = some i →
      v = (cacheViewOf p).put i ⟨(nodeAt p.1 a).data, a⟩ → Visited p a v

section Pass

variable {p q : NodeHeap × AllocManager} {a b : Addr} {L : List Addr}

theorem run_passStep (L : List Addr) (p : NodeHeap × AllocManager) :
    run passStep L p = some (workPass p L) := by
  induction L generalizing p with
  | nil => rfl
  | cons a L ih => exact ih (workEntry p a)

theorem along_passStep_cons {ok : Addr → NodeHeap × AllocManager → Prop} :
    Along passStep ok (a :: L) p ↔ ok a p ∧ Along passStep ok L (workEntry p a) := by
  refine and_congr_right fun _ => ⟨fun h => h _ rfl, fun h q hq => ?_⟩
  obtain rfl := Option.some.inj hq
  exact h

/-- What holds of each visit in the state it starts from. -/
theorem along_of_visits {ok : Addr → NodeHeap × AllocManager → Prop}
    (h : ∀ pre a post, L = pre ++ a :: post → ok a (workPass p pre)) : Along passStep ok L p := by
  induction L generalizing p with
  | nil => trivial
  | cons a L ih =>
    refine along_passStep_cons.mpr ⟨h [] a L rfl, ih fun pre b post hL => ?_⟩
    exact h (a :: pre) b post (by rw [hL, List.cons_append])

/-- **Invariant rule for a pass.** -/
theorem workPass_invariant {ok : Addr → NodeHeap × AllocManager → Prop}
    {I : NodeHeap × AllocManager → Prop} (hstep : ∀ a ∈ L, ∀ q, I q → ok a q → I (workEntry q a))
    (h0 : I p) (hok : Along passStep ok L p) : I (workPass p L) := by
  have hmem : Along passStep (fun a _ => a ∈ L) L p := Along.of_forall (fun _ ha _ => ha) p
  refine run_invariant (P := fun a q => ok a q ∧ a ∈ L) (fun a q q' hI hP hq => ?_) h0
    (hok.and hmem) (run_passStep L p)
  obtain rfl := Option.some.inj hq
  exact hstep a hP.2 q hI hP.1

theorem visited (p : NodeHeap × AllocManager) (a : Addr) :
    Visited p a (cacheViewOf (workEntry p a)) := by
  have hmarks : ∀ b, (nodeAt (workEntry p a).1 b).cached = if b = a ∧ Light p.1 a then true
      else (nodeAt p.1 b).cached := by
    intro b
    rw [nodeAt_workEntry]
    by_cases hb : b = a ∧ Light p.1 a
    · rw [if_pos hb, if_pos hb]
    · rw [if_neg hb, if_neg hb]
  by_cases hl : Light p.1 a
  · have hupd : (fun b => (nodeAt (workEntry p a).1 b).cached)
        = Function.update (fun b => (nodeAt p.1 b).cached) a true := by
      funext b
      rw [hmarks b]
      by_cases hb : b = a
      · rw [if_pos ⟨hb, hl⟩, hb, Function.update_self]
      · rw [if_neg fun h => hb h.1, Function.update_of_ne hb]
    cases hslot : slotFor p a with
    | none =>
      have hfull : workEntry p a = (resetNode p.1 a, p.2) := workEntry_full hl hslot
      have hwork : (workEntry p a).2 = p.2 := by rw [hfull]
      refine .full hl hslot ?_
      rw [cacheViewOf, hupd, hwork]
      rfl
    | some i =>
      have hstored : workEntry p a =
          (updNode (resetNode p.1 a) a fun e => { e with cached := true },
          p.2.setSlot i ⟨(nodeAt p.1 a).data, a⟩) := workEntry_stored hl hslot
      have hwork : (workEntry p a).2 = p.2.setSlot i ⟨(nodeAt p.1 a).data, a⟩ := by rw [hstored]
      refine .stored hl hslot ?_
      rw [cacheViewOf, hupd, hwork]
      rfl
  · have hw : ¬ (nodeAt p.1 a).weight ≤ 10 := hl
    refine .heavy hl (congrArg cacheViewOf ?_)
    unfold workEntry
    exact if_neg hw

/-- A pass leaves the settings alone. -/
theorem settings_workPass : (cacheViewOf (workPass p L)).cacheLock = (cacheViewOf p).cacheLock ∧
    (cacheViewOf (workPass p L)).useCache = (cacheViewOf p).useCache := by
  have hany : Along passStep (fun _ _ => True) L p := Along.of_forall (fun _ _ _ => trivial) p
  refine workPass_invariant (I := fun q => (cacheViewOf q).cacheLock = (cacheViewOf p).cacheLock ∧
    (cacheViewOf q).useCache = (cacheViewOf p).useCache) (fun a _ q hI _ => ?_) ⟨rfl, rfl⟩ hany
  cases visited q a with
  | heavy _ hv =>
    rw [hv]
    exact hI
  | full _ _ hv =>
    rw [hv]
    exact hI
  | stored _ _ hv =>
    rw [hv]
    exact hI

end Pass

end LibSafetynet
