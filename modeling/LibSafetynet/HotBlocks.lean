import LibSafetynet.CacheReplacement
import LibSafetynet.ListRefinement

/-!
# Hot blocks

Four functions count a hit: they add one to the weight of the entry they return. The
weight has eight bits and wraps, so that it is the number of hits modulo 256
(`HitCount.Right`). `memman_work` looks at nothing else: it resets an entry of weight 10
or less, and stores only over entries of less than 10 (`hot_entry_stays_iff`).

A run is over the calls of the list and of the manager, of which every public operation
is made; the hits are counted beside it, from the returned entries.
-/

namespace LibSafetynet

open Logic Prog PlatMutex ListState AllocManager

/-- The weight of the entry at `a`. -/
def Lib.weightAt (s : Lib) (a : Addr) : UInt8 := (nodeAt s.list.nodes a).weight

/-- The functions that count a hit on the entry they return. -/
inductive HitCall where
  | tryCacheHit (key : Addr)
  | getByPtr (key : Addr)
  | getById (id : UInt16)
  | getByIndex (index : Nat)

def HitCall.exec : HitCall → CProg Lib Addr
  | .tryCacheHit key => memmanTryCacheHit key
  | .getByPtr key => onList (linkedListGetByPtr key)
  | .getById id => onList (linkedListGetById id)
  | .getByIndex index => onList (linkedListGetByIndex index)

/-- `s'` has the entries of `s` with their weights, and each slot holds what it held or nothing. -/
structure Aside (s s' : Lib) : Prop where
  links : SameLinks s.list s'.list
  weight : ∀ a, s'.weightAt a = s.weightAt a
  slot : ∀ i, s'.manager.cacheList i = s.manager.cacheList i ∨ s'.manager.cacheList i = .empty

/-- `m` leaves entries and weights alone, and at most empties slots. -/
def LeavesAside (m : CProg Lib Unit) : Prop :=
  ∀ env s L, Base s L → wlp m env (fun _ s' => Aside s s') s

/-- A call in a run of the list and the manager. -/
inductive CacheCall where
  | hit (q : HitCall)
  | work
  | list (op : ListOp)
  | tryCachePut (entry : Addr)
  /-- All other code: lookups that count nothing, setters, locks, emptying the cache. -/
  | other (m : CProg Lib Unit) (hm : LeavesAside m)

/-- A state of the library, with the hits on the entry at each address: since the entry
was pushed, or since `memman_work` last set its weight to zero. -/
structure HitCount where
  lib : Lib
  hits : Addr → Nat

namespace HitCount

/-- One more hit on the entry `a`, if there is one. -/
def countHit (c : HitCount) (a : Addr) (s' : Lib) : HitCount :=
  { lib := s', hits := if a = NULL then c.hits else Function.update c.hits a (c.hits a + 1) }

/-- The counts of the entries whose weight the pass left at zero start again. -/
def restart (c : HitCount) (s' : Lib) : HitCount :=
  { lib := s', hits := fun a => if s'.weightAt a = 0 then 0 else c.hits a }

/-- The count of a new entry starts. -/
def changeList (c : HitCount) (env : Env) (op : ListOp) (s' : Lib) : HitCount :=
  { lib := s'
    hits := match op with
      | .push .. => Function.update c.hits env.node 0
      | _ => c.hits }

end HitCount

/-- One completed call, with the hits it counts. -/
def hitStep (l : Env × CacheCall) (c : HitCount) : Option HitCount :=
  match l.2 with
  | .hit q =>
    match q.exec l.1 c.lib with
    | .done a s' => some (c.countHit a s')
    | .stop _ _ => none
  | .work => (memmanWork l.1 c.lib).done?.map c.restart
  | .list op => (onList op.exec l.1 c.lib).done?.map (c.changeList l.1 op)
  | .tryCachePut entry =>
    (memmanTryCachePut entry l.1 c.lib).done?.map fun s' => { c with lib := s' }
  | .other m _ => (m l.1 c.lib).done?.map fun s' => { c with lib := s' }

/-- New nodes are fresh, and what is removed or stored in a slot is an entry. -/
def CacheCall.Legal (l : Env × CacheCall) (c : HitCount) : Prop :=
  match l.2 with
  | .list op => ListOp.Legal (l.1, op) c.lib.list
  | .tryCachePut entry => entry ∈ c.lib.list.entries
  | _ => True

/-- The entry `a` is in the cache. -/
def InCache (s : Lib) (a : Addr) : Prop :=
  a ∈ s.list.entries ∧ ∃ i, (s.manager.cacheList i).value = a

/-- A pass from `s` to `s'` neither reset the entry nor stored another one over it. -/
structure Stays (s s' : Lib) (a : Addr) : Prop where
  weight : s'.weightAt a ≠ 0
  slot : ∀ i, (s.manager.cacheList i).value = a → s'.manager.cacheList i = s.manager.cacheList i

/-! ## A hit -/

section Hits

variable {env : Env} {s s' : Lib} {L : List Addr} {a : Addr}

/-- What a call that counts hits does when it returns `v`. -/
structure HitOn (s : Lib) (L : List Addr) (v : Addr) (s' : Lib) : Prop where
  base : Base s' L
  mem : v ≠ NULL → v ∈ L
  weight : v ≠ NULL → s'.weightAt v = s.weightAt v + 1
  other : ∀ a, a ≠ v → s'.weightAt a = s.weightAt a

/-- The store that all four make. -/
theorem HitOn.of_store {v : Addr} (hb : Base s' L) (hv : v ∈ L)
    (hnodes : s'.list.nodes = updNode s.list.nodes v fun e => { e with weight := e.weight + 1 }) :
    HitOn s L v s' := by
  refine ⟨hb, fun _ => hv, fun _ => ?_, fun a ha => ?_⟩
  · rw [Lib.weightAt, hnodes, nodeAt_updNode_self]
    rfl
  · rw [Lib.weightAt, hnodes, nodeAt_updNode_of_ne _ _ ha]
    rfl

/-- A search that counts its hit. -/
theorem hitOn_access (hb : Base s L) {v : Addr} (hv : v ≠ NULL → v ∈ L) (m : Option PlatMutex) :
    HitOn s L v { s with list := { s.list.access v with mutex := m } } := by
  have hsame : SameList s.list { s.list.access v with mutex := m } :=
    sameList_access_mutex m fun hne => hb.rep.live_of_mem (hv hne)
  have hb' : Base { s with list := { s.list.access v with mutex := m } } L :=
    hb.of_slots (hsame.rep hb.rep) hsame.head fun _ => Or.inl rfl
  by_cases hnull : v = NULL
  · have hnodes : (s.list.access v).nodes = s.list.nodes := by rw [access, if_pos hnull]
    refine ⟨hb', hv, fun hne => absurd hnull hne, fun a _ => ?_⟩
    show (nodeAt (s.list.access v).nodes a).weight = _
    rw [hnodes]
    rfl
  · refine .of_store hb' (hv hnull) ?_
    show (s.list.access v).nodes = _
    rw [access, if_neg hnull]

theorem hitOn_none (hb : Base s L) (m : Option PlatMutex) :
    HitOn s L NULL { s with allocMutex := m } :=
  ⟨⟨hb.rep, hb.slot⟩, fun h => absurd rfl h, fun h => absurd rfl h, fun _ _ => rfl⟩

/-- Each of the four adds one to the weight of what it returns. -/
theorem wlp_hit (hb : Base s L) (q : HitCall) : wlp q.exec env (HitOn s L) s := by
  cases q with
  | tryCacheHit key =>
    refine wp_tryCacheHit hb (fun _ _ => trivial) (fun _ _ _ _ _ => trivial)
      (fun _ m _ => hitOn_none hb m) fun i _ _ hmem hq => .of_store (hq.base hb) hmem rfl
  | getByPtr key =>
    rw [HitCall.exec, wlp, wp_onList]
    refine wp_linkedListGetByPtr hb.rep (fun _ => hitOn_none hb s.allocMutex) (fun _ _ => trivial)
      fun _ _ => hitOn_access hb (fun hne => (findPtr_mem hne).1) _
  | getById id =>
    rw [HitCall.exec, wlp, wp_onList]
    refine wp_linkedListGetById hb.rep (fun _ => trivial)
      fun _ => hitOn_access hb (fun hne => (findId_mem hne).1) _
  | getByIndex index =>
    rw [HitCall.exec, wlp, wp_onList]
    refine wp_linkedListGetByIndex hb.rep (fun _ => hitOn_none hb s.allocMutex) (fun _ _ => trivial)
      fun _ _ => hitOn_access hb (fun hne => ?_) _
    cases hget : L[index]? with
    | none => simp [hget] at hne
    | some a => exact List.mem_of_getElem? hget

end Hits

/-! ## The pass -/

section Pass

variable {p : NodeHeap × AllocManager} {L : List Addr} {a b : Addr} {i : Slot}

theorem weight_workEntry (p : NodeHeap × AllocManager) (a b : Addr) :
    (nodeAt (workEntry p a).1 b).weight =
      if b = a ∧ Light p.1 a then 0 else (nodeAt p.1 b).weight := by
  rw [nodeAt_workEntry, apply_ite LinkedListEntry.weight]

/-- The pass sets the weights of the light entries it visits to zero, and no others. -/
theorem weight_workPass (p : NodeHeap × AllocManager) (L : List Addr) (b : Addr) :
    (nodeAt (workPass p L).1 b).weight =
      if b ∈ L ∧ Light p.1 b then 0 else (nodeAt p.1 b).weight := by
  induction L generalizing p with
  | nil => rw [if_neg fun h => List.not_mem_nil h.1]; rfl
  | cons a L ih =>
    show (nodeAt (workPass (workEntry p a) L).1 b).weight = _
    have hvisit := weight_workEntry p a b
    rw [ih]
    by_cases hb : b = a ∧ Light p.1 a
    · obtain ⟨rfl, hl⟩ := hb
      have hzero := hvisit.trans (if_pos ⟨rfl, hl⟩)
      rw [hzero, ite_self, if_pos ⟨List.mem_cons_self, hl⟩]
    · rw [if_neg hb] at hvisit
      have hlight : Light (workEntry p a).1 b ↔ Light p.1 b := by
        unfold Light
        rw [hvisit]
      rw [hvisit]
      refine if_congr ?_ rfl rfl
      rw [hlight, List.mem_cons]
      refine and_congr_left fun hl => ?_
      exact (or_iff_right fun heq => hb ⟨heq, heq ▸ hl⟩).symm

/-- No slot that holds a heavy entry is taken from it. -/
theorem slot_of_heavy (ha : a ≠ NULL) (hheavy : ¬ Light p.1 a)
    (hi : (p.2.cacheList i).value = a) (L : List Addr) :
    (workPass p L).2.cacheList i = p.2.cacheList i := by
  have hany : Along passStep (fun _ _ => True) L p := Along.of_forall (fun _ _ _ => trivial) p
  refine (workPass_invariant (I := fun q => ¬ Light q.1 a ∧ q.2.cacheList i = p.2.cacheList i)
    (fun b _ q hI _ => ?_) ⟨hheavy, rfl⟩ hany).2
  obtain ⟨hq, hslot⟩ := hI
  have hstill : ¬ Light (workEntry q b).1 a := by
    unfold Light at hq ⊢
    rw [weight_workEntry, if_neg]
    · exact hq
    · rintro ⟨rfl, hl⟩
      exact hq hl
  refine ⟨hstill, Eq.trans ?_ hslot⟩
  cases visited q b with
  | heavy _ hv => exact congrArg (fun v => v.slots i) hv
  | full _ _ hv => exact congrArg (fun v => v.slots i) hv
  | @stored j hl hj hv =>
    have hne : i ≠ j := by
      rintro rfl
      -- the slot holds a heavy entry, which is not the one that is visited
      refine (slotFor_eq_some.mp hj).1 ⟨?_, ?_, ?_⟩
      · rw [hslot, hi]
        exact ha
      · rw [hslot, hi]
        rintro rfl
        exact hq hl
      · rw [hslot, hi]
        have hlt : 10 < (nodeAt q.1 a).weight := UInt8.not_le.mp hq
        exact UInt8.le_of_lt hlt
    have hview := congrArg (fun v => v.slots i) hv
    exact hview.trans ((slot_put i).trans (if_neg hne))

theorem weight_worked (env : Env) (s : Lib) (L : List Addr) (a : Addr) :
    (s.worked env L).weightAt a = if a ∈ L ∧ Light s.list.nodes a then 0 else s.weightAt a :=
  weight_workPass _ L a

/-- A pass leaves exactly the heavy entries of the cache alone. -/
theorem stays_worked_iff {env : Env} {s : Lib} (hb : Base s L) (hin : InCache s a) :
    Stays s (s.worked env L) a ↔ ¬ Light s.list.nodes a := by
  have hmem : a ∈ L := hb.rep.entries_eq ▸ hin.1
  constructor
  · intro hstays hl
    exact hstays.weight ((weight_worked env s L a).trans (if_pos ⟨hmem, hl⟩))
  · intro hheavy
    refine ⟨?_, fun i hi => slot_of_heavy (hb.rep.ne_null hmem) hheavy hi L⟩
    rw [weight_worked, if_neg fun h => hheavy h.2]
    intro hzero
    refine hheavy ?_
    show s.weightAt a ≤ 10
    rw [hzero]
    decide

end Pass

/-! ## The count along a run -/

section Count

variable {env : Env} {op : ListOp} {c c' : HitCount} {s' : Lib} {L L' : List Addr} {a v : Addr}

/-- The weights of the entries `L` are the counts, modulo 256. -/
def HitCount.RightOn (c : HitCount) (L : List Addr) : Prop :=
  ∀ a ∈ L, (c.lib.weightAt a).toNat = c.hits a % 256

/-- The list is well formed, and the counts are right. -/
def HitCount.Right (c : HitCount) : Prop := ∃ L, Base c.lib L ∧ c.RightOn L

theorem hits_countHit_self (hv : v ≠ NULL) : (c.countHit v s').hits v = c.hits v + 1 := by
  show (if v = NULL then c.hits else Function.update c.hits v (c.hits v + 1)) v = _
  rw [if_neg hv, Function.update_self]

theorem hits_countHit_of_ne (ha : a ≠ v) : (c.countHit v s').hits a = c.hits a := by
  show (if v = NULL then c.hits else Function.update c.hits v (c.hits v + 1)) a = _
  split_ifs
  · rfl
  · exact Function.update_of_ne ha _ _

theorem rightOn_hit (hr : c.RightOn L) (h : HitOn c.lib L v s') : (c.countHit v s').RightOn L := by
  intro a ha
  by_cases hav : a = v
  · have hv : v ≠ NULL := hav ▸ h.base.rep.ne_null ha
    have hold := hr v (hav ▸ ha)
    have hweight : ((c.countHit v s').lib.weightAt v).toNat = (c.hits v + 1) % 256 := by
      show (s'.weightAt v).toNat = _
      rw [h.weight hv, UInt8.toNat_add, hold, UInt8.toNat_one, Nat.mod_add_mod]
    rw [hav, hits_countHit_self hv, hweight]
  · rw [hits_countHit_of_ne hav]
    exact (congrArg UInt8.toNat (h.other a hav)).trans (hr a ha)

theorem rightOn_worked (hr : c.RightOn L) : (c.restart (c.lib.worked env L)).RightOn L := by
  intro a ha
  show ((c.lib.worked env L).weightAt a).toNat =
    (if (c.lib.worked env L).weightAt a = 0 then 0 else c.hits a) % 256
  by_cases hzero : (c.lib.worked env L).weightAt a = 0
  · rw [if_pos hzero, hzero]
    rfl
  · rw [if_neg hzero, ← hr a ha]
    rw [weight_worked] at hzero ⊢
    by_cases hl : a ∈ L ∧ Light c.lib.list.nodes a
    · exact absurd (if_pos hl) hzero
    · rw [if_neg hl]

theorem rightOn_list {l : ListState} (hb : Base c.lib L) (hr : c.RightOn L)
    (h : ListEffect env op c.lib.list L l L') :
    (c.changeList env op { c.lib with list := l }).RightOn L' := by
  cases h with
  | @push data size tid _ hop hpush =>
    subst hop
    intro a ha
    show (nodeAt l.nodes a).weight.toNat = Function.update c.hits env.node 0 a % 256
    by_cases hnew : a = env.node
    · have hweight : (nodeAt l.nodes env.node).weight = 0 := congrArg Payload.weight hpush.new
      rw [hnew, Function.update_self, hweight]
      rfl
    · have hweight := congrArg Payload.weight (hpush.old a hnew)
      rw [Function.update_of_ne hnew, ← hr a]
      · exact congrArg UInt8.toNat hweight
      · exact (List.mem_append.mp ha).resolve_right fun h => hnew (List.mem_singleton.mp h)
  | @remove A B x _ hL hop hrem =>
    subst hL
    intro a ha
    have hnd := hb.rep.links.tail_nodup
    have hax : a ≠ x := by
      rintro rfl
      exact (List.nodup_middle.mp hnd).notMem ha
    have hmem : a ∈ A ++ x :: B := by
      rw [List.mem_append, List.mem_cons] at *
      exact ha.imp_right Or.inr
    have hweight := congrArg Payload.weight (hrem.old a hax)
    have hhits : (c.changeList env op { c.lib with list := l }).hits = c.hits := by
      cases op with
      | push _ _ _ => exact hop.elim
      | _ => rfl
    rw [hhits, ← hr a hmem]
    exact congrArg UInt8.toNat hweight
  | keep hidle _ =>
    have hhits : ∀ s', (c.changeList env op s').hits = c.hits := by
      intro s'
      cases op with
      | push _ _ _ => exact hidle.elim
      | _ => rfl
    intro a ha
    rw [hhits]
    exact hr a ha

theorem rightOn_of_weight (hr : c.RightOn L) (hweight : ∀ a, s'.weightAt a = c.lib.weightAt a) :
    HitCount.RightOn { c with lib := s' } L := fun a ha =>
  (congrArg UInt8.toNat (hweight a)).trans (hr a ha)

/-- Code beside the list and the weights. -/
theorem Aside.base (h : Aside c.lib s') (hb : Base c.lib L) : Base s' L :=
  hb.of_slots (h.links.rep hb.rep) h.links.head fun i => (h.slot i).imp_right Or.inl

/-- `memman_tryCachePut` of an entry changes no weight. -/
theorem wlp_put {s : Lib} {entry : Addr} (hb : Base s L) (hentry : entry ∈ L) :
    wlp (memmanTryCachePut entry) env
      (fun _ s' => Base s' L ∧ ∀ a, s'.weightAt a = s.weightAt a) s := by
  have hlive := hb.rep.live_of_mem hentry
  refine wp_memmanTryCachePut hlive (fun _ _ => trivial) (fun _ => ⟨hb, fun _ => rfl⟩)
    (fun _ _ _ => trivial) fun _ i _ => ⟨?_, fun a => ?_⟩
  · have hsame := sameList_put (i := i) (s := s) hlive
    refine hb.of_slots (hsame.rep hb.rep) hsame.head fun j => ?_
    by_cases hji : j = i
    · refine Or.inr (Or.inr ?_)
      rw [hji]
      simpa [Lib.put, setSlot] using hentry
    · exact Or.inl (setSlot_of_ne hji)
  · show (nodeAt (updNode s.list.nodes entry _) a).weight = (nodeAt s.list.nodes a).weight
    by_cases ha : a = entry
    · rw [ha, nodeAt_updNode_self]
    · rw [nodeAt_updNode_of_ne _ _ ha]

/-- **One call** keeps the list well formed and the counts right. -/
theorem hitStep_right {l : Env × CacheCall} (hc : c.Right) (hleg : CacheCall.Legal l c)
    (hstep : hitStep l c = some c') : c'.Right := by
  obtain ⟨L, hb, hr⟩ := hc
  obtain ⟨env, call⟩ := l
  cases call with
  | hit q =>
    have hspec : wlp q.exec env (HitOn c.lib L) c.lib := wlp_hit hb q
    cases hrun : q.exec env c.lib with
    | done v s' =>
      have hc : some (c.countHit v s') = some c' := by
        simpa only [hitStep, hrun] using hstep
      obtain rfl := Option.some.inj hc
      have hhit := hspec.done hrun
      exact ⟨L, hhit.base, rightOn_hit hr hhit⟩
    | stop e s' =>
      have hc : none = some c' := by
        simpa only [hitStep, hrun] using hstep
      cases hc
  | work =>
    obtain ⟨s', hs', rfl⟩ := Option.map_eq_some_iff.mp hstep
    obtain ⟨_, hdone⟩ := Outcome.done?_eq_some.mp hs'
    obtain rfl := memmanWork_done hb hdone
    exact ⟨L, base_worked hb, rightOn_worked hr⟩
  | list op =>
    obtain ⟨s', hs', rfl⟩ := Option.map_eq_some_iff.mp hstep
    obtain ⟨_, hdone⟩ := Outcome.done?_eq_some.mp hs'
    have hspec : wlp (onList op.exec) env (fun _ s' => ∃ l L', s' = { c.lib with list := l } ∧
        ListEffect env op c.lib.list L l L') c.lib := by
      rw [wlp, wp_onList]
      exact (wp_listOp hb.rep hleg).mono (fun _ l h => ⟨l, h.choose, rfl, h.choose_spec⟩)
        fun _ _ _ => trivial
    obtain ⟨l, L', rfl, heff⟩ := hspec.done hdone
    refine ⟨L', ?_, rightOn_list hb hr heff⟩
    exact hb.of_slots (heff.rep hb.rep) heff.head fun _ => Or.inl rfl
  | tryCachePut entry =>
    obtain ⟨s', hs', rfl⟩ := Option.map_eq_some_iff.mp hstep
    obtain ⟨_, hdone⟩ := Outcome.done?_eq_some.mp hs'
    have hspec : wlp (memmanTryCachePut entry) env
        (fun _ s' => Base s' L ∧ ∀ a, s'.weightAt a = c.lib.weightAt a) c.lib :=
      wlp_put hb (hb.rep.entries_eq ▸ hleg)
    obtain ⟨hb', hweight⟩ := hspec.done hdone
    exact ⟨L, hb', rightOn_of_weight hr hweight⟩
  | other m hm =>
    obtain ⟨s', hs', rfl⟩ := Option.map_eq_some_iff.mp hstep
    obtain ⟨_, hdone⟩ := Outcome.done?_eq_some.mp hs'
    have haside := (hm env c.lib L hb).done hdone
    exact ⟨L, haside.base hb, rightOn_of_weight hr haside.weight⟩

/-- No hit is counted before the first call, and there is no entry. -/
theorem right_of_started {s₀ : Lib} (h₀ : Started s₀) :
    HitCount.Right { lib := s₀, hits := fun _ => 0 } :=
  ⟨[], (loaded_of_started h₀).base, fun _ ha => absurd ha List.not_mem_nil⟩

end Count

/-- **Which blocks stay hot.** In every state of a run, a pass leaves an entry of the cache
alone exactly if its hits since the last reset are at least 11 modulo 256; and a hit
lowers no weight exactly if they are not 255 modulo 256. -/
theorem hot_entry_stays_iff {s₀ : Lib} {ls : List (Env × CacheCall)} {c : HitCount}
    (h₀ : Started s₀) (hok : Along hitStep CacheCall.Legal ls ⟨s₀, fun _ => 0⟩)
    (hrun : run hitStep ls ⟨s₀, fun _ => 0⟩ = some c) :
    (∀ env s' a, InCache c.lib a → memmanWork env c.lib = .done () s' →
      (Stays c.lib s' a ↔ 11 ≤ c.hits a % 256)) ∧
    ∀ q env v s', HitCall.exec q env c.lib = .done v s' → v ≠ NULL →
      (c.lib.weightAt v ≤ s'.weightAt v ↔ c.hits v % 256 ≠ 255) := by
  have hright : c.Right :=
    run_invariant (fun _ _ _ => hitStep_right) (right_of_started h₀) hok hrun
  obtain ⟨L, hb, hr⟩ := hright
  constructor
  · intro env s' a hin hwork
    have ha : a ∈ L := hb.rep.entries_eq ▸ hin.1
    obtain rfl := memmanWork_done hb hwork
    rw [stays_worked_iff hb hin, ← hr a ha]
    show ¬ c.lib.weightAt a ≤ 10 ↔ _
    rw [UInt8.le_iff_toNat_le]
    exact Nat.not_le
  · intro q env v s' hexec hv
    have hspec : wlp q.exec env (HitOn c.lib L) c.lib := wlp_hit hb q
    have hhit := hspec.done hexec
    rw [hhit.weight hv, ← hr v (hhit.mem hv), UInt8.le_iff_toNat_le, UInt8.toNat_add,
      UInt8.toNat_one]
    have hlt := (c.lib.weightAt v).toNat_lt
    omega

/-- Two entries, the first one in the cache and hit `n` times. -/
def hitRun (n : Nat) : List (Env × CacheCall) :=
  [(Env.plain 1 128 0, .list (.push 4096 8 1)), (Env.plain 1 192 0, .list (.push 8192 8 1)),
    (Env.plain 1 0 0, .tryCachePut 128)] ++
    List.replicate n (Env.plain 1 0 0, .hit (.tryCacheHit 4096))

/-- The nodes of the run are fresh, and the one that is put is an entry. -/
theorem legal_hitRun (n : Nat) : ∃ s₀, (doinit (Env.plain 1 64 0) .blank).done? = some s₀ ∧
    Along hitStep CacheCall.Legal (hitRun n) ⟨s₀, fun _ => 0⟩ := by
  have hsome : ((doinit (Env.plain 1 64 0) .blank).done?.bind fun s₀ =>
      (hitStep (Env.plain 1 128 0, .list (.push 4096 8 1)) ⟨s₀, fun _ => 0⟩).bind fun c₁ =>
        (hitStep (Env.plain 1 192 0, .list (.push 8192 8 1)) c₁).map fun c₂ =>
          (decide (s₀.list.AdmitsNode 128), decide (c₁.lib.list.AdmitsNode 192),
            decide (128 ∈ c₂.lib.list.entries))) = some (true, true, true) := by
    decide +kernel
  obtain ⟨s₀, h₀, hsome⟩ := Option.bind_eq_some_iff.mp hsome
  obtain ⟨c₁, h₁, hsome⟩ := Option.bind_eq_some_iff.mp hsome
  obtain ⟨c₂, h₂, hall⟩ := Option.map_eq_some_iff.mp hsome
  obtain ⟨hfirst, hall⟩ := Prod.mk.inj hall
  obtain ⟨hsecond, hentry⟩ := Prod.mk.inj hall
  have hnode₁ : s₀.list.AdmitsNode 128 := of_decide_eq_true hfirst
  have hnode₂ : c₁.lib.list.AdmitsNode 192 := of_decide_eq_true hsecond
  have hput : 128 ∈ c₂.lib.list.entries := of_decide_eq_true hentry
  refine ⟨s₀, h₀, hnode₁, fun c₁' h₁' => ?_⟩
  obtain rfl := Option.some.inj (h₁.symm.trans h₁')
  refine ⟨hnode₂, fun c₂' h₂' => ?_⟩
  obtain rfl := Option.some.inj (h₂.symm.trans h₂')
  refine ⟨hput, fun c₃ _ => Along.of_forall (fun l hl _ => ?_) c₃⟩
  obtain rfl := List.eq_of_mem_replicate hl
  trivial

/-- What is seen of the first entry after `n` hits, and after a pass that follows. -/
def seenAfter (n : Nat) : Option (Nat × Bool × Addr × UInt8 × Addr) :=
  (doinit (Env.plain 1 64 0) .blank).done?.bind fun s₀ =>
    (run hitStep (hitRun n) ⟨s₀, fun _ => 0⟩).bind fun c =>
      (memmanWork (Env.plain 1 0 0) c.lib).done?.map fun s' =>
        (c.hits 128, decide (128 ∈ c.lib.list.entries), (c.lib.manager.cacheList 0).value,
          s'.weightAt 128, (s'.manager.cacheList 0).value)

theorem hitRun_seen {n m : Nat} {w : UInt8} {b : Addr}
    (h : seenAfter n = some (m, true, 128, w, b)) : ∃ s₀ c s', Started s₀ ∧
      Along hitStep CacheCall.Legal (hitRun n) ⟨s₀, fun _ => 0⟩ ∧
      run hitStep (hitRun n) ⟨s₀, fun _ => 0⟩ = some c ∧
      memmanWork (Env.plain 1 0 0) c.lib = .done () s' ∧ InCache c.lib 128 ∧
      c.hits 128 = m ∧ s'.weightAt 128 = w ∧ (s'.manager.cacheList 0).value = b := by
  obtain ⟨s₀, h₀, hlegal⟩ := legal_hitRun n
  rw [seenAfter, h₀, Option.bind_some] at h
  obtain ⟨c, hrun, h⟩ := Option.bind_eq_some_iff.mp h
  obtain ⟨s', hwork, hall⟩ := Option.map_eq_some_iff.mp h
  obtain ⟨hhits, hall⟩ := Prod.mk.inj hall
  obtain ⟨hentry, hall⟩ := Prod.mk.inj hall
  obtain ⟨hslot, hall⟩ := Prod.mk.inj hall
  obtain ⟨hweight, hafter⟩ := Prod.mk.inj hall
  obtain ⟨⟨⟩, hdone⟩ := Outcome.done?_eq_some.mp hwork
  exact ⟨s₀, c, s', started_of_done h₀, hlegal, hrun, hdone,
    ⟨of_decide_eq_true hentry, 0, hslot⟩, hhits, hweight, hafter⟩

/-- After eleven hits the entry survives the pass. -/
theorem hot_entry_stays_iff_at : ∃ s₀ c s', Started s₀ ∧
    run hitStep (hitRun 11) ⟨s₀, fun _ => 0⟩ = some c ∧ InCache c.lib 128 ∧ c.hits 128 = 11 ∧
    memmanWork (Env.plain 1 0 0) c.lib = .done () s' ∧ Stays c.lib s' 128 := by
  have hseen : seenAfter 11 = some (11, true, 128, 11, 128) := by decide +kernel
  obtain ⟨s₀, c, s', h₀, hlegal, hrun, hwork, hin, hhits, -, -⟩ := hitRun_seen hseen
  refine ⟨s₀, c, s', h₀, hrun, hin, hhits, hwork, ?_⟩
  refine ((hot_entry_stays_iff h₀ hlegal hrun).1 _ s' 128 hin hwork).mpr ?_
  rw [hhits]

/-- After 256 hits the weight is zero: the pass resets the entry, and stores the other one
into its slot. -/
theorem hot_entry_evicted : ∃ s₀ c s', Started s₀ ∧
    Along hitStep CacheCall.Legal (hitRun 256) ⟨s₀, fun _ => 0⟩ ∧
    run hitStep (hitRun 256) ⟨s₀, fun _ => 0⟩ = some c ∧ InCache c.lib 128 ∧
    c.hits 128 = 256 ∧ memmanWork (Env.plain 1 0 0) c.lib = .done () s' ∧
    s'.weightAt 128 = 0 ∧ (s'.manager.cacheList 0).value = 192 ∧ ¬ Stays c.lib s' 128 := by
  have hseen : seenAfter 256 = some (256, true, 128, 0, 192) := by decide +kernel
  obtain ⟨s₀, c, s', h₀, hlegal, hrun, hwork, hin, hhits, hweight, hslot⟩ := hitRun_seen hseen
  exact ⟨s₀, c, s', h₀, hlegal, hrun, hin, hhits, hwork, hweight, hslot,
    fun hstays => hstays.weight hweight⟩

end LibSafetynet
