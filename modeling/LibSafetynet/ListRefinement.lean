import LibSafetynet.Logic.Run
import LibSafetynet.LinkedListUpdate

/-!
# The list refines a sequence

The abstract list is a sequence of `Item`s: push appends, pop drops the last
item, the removals erase one. `ListEffect` says once what a call of
`linked_list_c.c` can do to a represented list; the refinement of the sequence,
the drift of `len` and the independence of the removal order are all read off
it.

- `Refines`: the node heap is the sequence, fields and links.
- `ListOp.InPlace`: the call removes an entry other than the last one. These are
  the calls after which `len` is one too large.
-/

namespace LibSafetynet

open Logic Prog PlatMutex ListState

/-! ## Runs of list calls -/

/-- The calls that change the list. -/
inductive ListOp where
  | push (data : Addr) (size tid : UInt64)
  | pop
  | removeEntryByPtr (key : Addr)
  | removeEntry (entryRef : Addr)
  deriving DecidableEq

namespace ListOp

/-- The call itself. -/
def exec : ListOp → CProg ListState Unit
  | .push data size tid => linkedListPush data size tid
  | .pop => linkedListPop
  | .removeEntryByPtr key => linkedListRemoveEntryByPtr key
  | .removeEntry entryRef => do
    let _ ← linkedListRemoveEntry entryRef
    return ()

/-- Node addresses are fresh, and only entries of the list are removed. -/
def Legal (l : Env × ListOp) (s : ListState) : Prop :=
  match l.2 with
  | .push .. => s.AdmitsNode l.1.node
  | .removeEntry entryRef => entryRef ∈ s.entries
  | _ => True

instance (l : Env × ListOp) (s : ListState) : Decidable (Legal l s) :=
  match l with
  | (l, .push ..) => inferInstanceAs (Decidable (s.AdmitsNode l.node))
  | (_, .pop) => inferInstanceAs (Decidable True)
  | (_, .removeEntryByPtr _) => inferInstanceAs (Decidable True)
  | (_, .removeEntry _) => inferInstanceAs (Decidable (_ ∈ _))

/-- The call pushes an entry. -/
def IsPush : ListOp → Bool
  | .push .. => true
  | _ => false

/-- The call removes an entry other than the last one. -/
def InPlace (l : Env × ListOp) (s : ListState) : Prop :=
  match l.2 with
  | .removeEntryByPtr key =>
    key ≠ NULL ∧ ∃ a ∈ s.entries.find? fun a => (nodeAt s.nodes a).data = key,
      a ≠ s.list.lastEntry
  | .removeEntry entryRef => entryRef ≠ s.list.lastEntry
  | _ => False

instance (l : Env × ListOp) (s : ListState) : Decidable (InPlace l s) :=
  match l with
  | (_, .push ..) => inferInstanceAs (Decidable False)
  | (_, .pop) => inferInstanceAs (Decidable False)
  | (_, .removeEntryByPtr _) => inferInstanceAs (Decidable (_ ∧ _))
  | (_, .removeEntry _) => inferInstanceAs (Decidable (_ ≠ _))

/-- The call removes the entry `a` between `A` and `B`. -/
def Removes (s : ListState) (A : List Addr) (a : Addr) (B : List Addr) : ListOp → Prop
  | .push .. => False
  | .pop => B = []
  | .removeEntryByPtr key =>
    key ≠ NULL ∧ (nodeAt s.nodes a).data = key ∧ ∀ b ∈ A, (nodeAt s.nodes b).data ≠ key
  | .removeEntry entryRef => entryRef = a

/-- The call finds nothing to do. -/
def Idle (s : ListState) (L : List Addr) : ListOp → Prop
  | .push .. => False
  | .pop => L = []
  | .removeEntryByPtr key => key = NULL ∨ ∀ a ∈ L, (nodeAt s.nodes a).data ≠ key
  | .removeEntry _ => False

end ListOp

/-- One completed call. -/
def listStep (l : Env × ListOp) (s : ListState) : Option ListState := (l.2.exec l.1 s).done?

/-- Everything one call can do to a represented list. -/
inductive ListEffect (env : Env) (op : ListOp) (s : ListState) (L : List Addr) :
    ListState → List Addr → Prop
  | push {data : Addr} {size tid : UInt64} {s' : ListState} :
    op = .push data size tid → Pushed s s' L env.node data size tid →
      ListEffect env op s L s' (L ++ [env.node])
  | remove {A B : List Addr} {a : Addr} {s' : ListState} :
    L = A ++ a :: B → op.Removes s A a B → Removed s s' A a B →
      ListEffect env op s L s' (A ++ B)
  | keep {m : Option PlatMutex} :
    op.Idle s L → (¬ Blocks env.tid s.mutex → ¬ Blocks env.tid m) →
      ListEffect env op s L { s with mutex := m } L

section Effect

variable {env : Env} {op : ListOp} {s s' : ListState} {L L' : List Addr}

/-- A found entry splits the list, and no entry before it has the key. -/
theorem findPtr_split (h : s.Rep L) {A B : List Addr} {a : Addr} {key : Addr}
    (hL : L = A ++ a :: B) (hfind : findPtr s L key = a) :
    (nodeAt s.nodes a).data = key ∧ ∀ b ∈ A, (nodeAt s.nodes b).data ≠ key := by
  have hne : findPtr s L key ≠ NULL := by
    rw [hfind]
    exact h.ne_null (by simp [hL])
  refine ⟨hfind ▸ (findPtr_mem hne).2, fun b hb hdata => ?_⟩
  -- otherwise the search stops inside `A`, on a node other than `a`
  obtain ⟨c, hc⟩ : ∃ c, A.find? (fun a => (nodeAt s.nodes a).data = key) = some c := by
    rw [← Option.isSome_iff_exists, List.find?_isSome]
    exact ⟨b, hb, by simpa using hdata⟩
  have hca : c = a := by
    rw [findPtr, hL, List.find?_append, hc] at hfind
    exact hfind
  have hnd := h.links.tail_nodup
  rw [hL] at hnd
  exact (List.nodup_append.mp hnd).2.2 c (List.mem_of_find?_eq_some hc) a List.mem_cons_self hca

/-- **What one call does**: it completes with an effect, or waits for another thread. -/
theorem wp_listOp (h : s.Rep L) (hleg : ListOp.Legal (env, op) s) :
    wp op.exec env (fun _ s' => ∃ L', ListEffect env op s L s' L')
      (fun e _ => e = .blocked ∧ Blocks env.tid s.mutex) s := by
  cases op with
  | push data size tid =>
    refine wp_linkedListPush h (fun hb => ⟨rfl, hb⟩) (fun _ hfull => absurd hleg hfull) ?_
    exact fun _ _ s' hpush => ⟨_, .push rfl hpush⟩
  | pop =>
    refine wp_linkedListPop h (fun hb => ⟨rfl, hb⟩) (fun hfree hL => ?_) ?_
    · exact ⟨L, .keep hL fun _ => (mine_acquire hfree).2⟩
    · exact fun _ A a hL s' hrem => ⟨_, .remove hL rfl hrem⟩
  | removeEntryByPtr key =>
    refine wp_linkedListRemoveEntryByPtr h (fun hkey => ?_) (fun _ hb => ⟨rfl, hb⟩)
      (fun _ _ hnone => ?_) fun hkey _ A a B hL hfind s' hrem => ?_
    · exact ⟨L, .keep (m := s.mutex) (Or.inl hkey) id⟩
    · have hnull : NULL ∉ L := fun hm => h.ne_null hm rfl
      exact ⟨L, .keep (Or.inr ((findPtr_eq_null hnull).mp hnone))
        fun _ => (isFree_release _).not_blocks env.tid⟩
    · exact ⟨_, .remove hL ⟨hkey, findPtr_split h hL hfind⟩ hrem⟩
  | removeEntry entryRef =>
    have hmem : entryRef ∈ L := h.entries_eq ▸ hleg
    obtain ⟨A, B, rfl⟩ := List.append_of_mem hmem
    rw [ListOp.exec, wp_bind]
    refine wp_linkedListRemoveEntry h (fun hb => ⟨rfl, hb⟩) fun _ s' hrem => ?_
    exact ⟨_, .remove rfl rfl hrem⟩

/-- Inversion of a completed call. -/
theorem listStep_effect (h : s.Rep L) (hleg : ListOp.Legal (env, op) s)
    (hstep : listStep (env, op) s = some s') : ∃ L', ListEffect env op s L s' L' := by
  obtain ⟨_, hdone⟩ := Outcome.done?_eq_some.mp hstep
  exact (wp_listOp h hleg).done hdone

/-- A call that does not wait completes. -/
theorem listStep_isSome (h : s.Rep L) (hleg : ListOp.Legal (env, op) s)
    (hfree : ¬ Blocks env.tid s.mutex) : ∃ s', listStep (env, op) s = some s' := by
  have hwp := wp_listOp h hleg
  cases hrun : op.exec env s with
  | done a s' => exact ⟨s', by rw [listStep, hrun]; rfl⟩
  | stop e s' => exact absurd (hwp.stop hrun).2 hfree

namespace ListEffect

theorem rep (h : ListEffect env op s L s' L') (hrep : s.Rep L) : s'.Rep L' := by
  cases h with
  | push _ hpush => exact hpush.rep
  | remove _ _ hrem => exact hrem.rep
  | keep _ _ => exact (SameList.mutex s _).rep hrep

theorem head (h : ListEffect env op s L s' L') : s'.list.head = s.list.head := by
  cases h with
  | push _ hpush => exact hpush.head
  | remove _ _ hrem => exact hrem.head
  | keep _ _ => rfl

/-- A thread is not locked out by its own call. -/
theorem not_blocks (h : ListEffect env op s L s' L') (hfree : ¬ Blocks env.tid s.mutex) :
    ¬ Blocks env.tid s'.mutex := by
  cases h with
  | push _ hpush =>
    rw [hpush.mutex]
    exact (isFree_release _).not_blocks env.tid
  | remove _ _ hrem =>
    rw [hrem.mutex]
    exact (isFree_release _).not_blocks env.tid
  | keep _ hm => exact hm hfree

end ListEffect

end Effect

/-! ## The abstract sequence -/

/-- An entry as its users see it. -/
structure Item where
  addr : Addr
  data : Addr
  size : UInt64
  tid : UInt64
  blockId : UInt16
  deriving DecidableEq

/-- The item stored at a node. -/
def item (s : ListState) (a : Addr) : Item :=
  let e := nodeAt s.nodes a
  { addr := a, data := e.data, size := e.size, tid := e.tid, blockId := e.blockId }

/-- What each call means for the sequence. -/
def absStep (l : Env × ListOp) (items : List Item) : List Item :=
  match l.2 with
  | .push data size tid => items ++ [{ addr := l.1.node, data, size, tid, blockId := 0 }]
  | .pop => items.dropLast
  | .removeEntryByPtr key => if key = NULL then items else items.eraseP (·.data = key)
  | .removeEntry entryRef => items.eraseP (·.addr = entryRef)

/-- What a sequence of calls means for the sequence. -/
def absRun : List (Env × ListOp) → List Item → List Item
  | [], items => items
  | l :: ls, items => absRun ls (absStep l items)

/-- The node heap of `s` is the sequence `items`, links and fields. -/
structure Refines (s : ListState) (items : List Item) : Prop where
  rep : s.Rep (items.map (·.addr))
  fields : ∀ i ∈ items, item s i.addr = i

theorem Refines.eq_map {s : ListState} {L : List Addr} {items : List Item} (h : Refines s items)
    (hrep : s.Rep L) : items = L.map (item s) := by
  rw [hrep.unique h.rep, List.map_map]
  exact (List.map_id items).symm.trans (List.map_congr_left fun i hi => (h.fields i hi).symm)

theorem refines_map {s : ListState} {L : List Addr} (h : s.Rep L) :
    Refines s (L.map (item s)) := by
  have haddr : (L.map (item s)).map (·.addr) = L := by
    rw [List.map_map]
    exact List.map_id L
  refine ⟨haddr.symm ▸ h, fun i hi => ?_⟩
  obtain ⟨a, -, rfl⟩ := List.mem_map.mp hi
  rfl

theorem item_congr {s s' : ListState} {a : Addr}
    (h : (nodeAt s'.nodes a).payload = (nodeAt s.nodes a).payload) : item s' a = item s a := by
  simp only [LinkedListEntry.payload, Payload.mk.injEq] at h
  obtain ⟨hdata, hsize, htid, -, hid, -⟩ := h
  simp only [item, hdata, hsize, htid, hid]

/-- Each call acts on the represented sequence as on the abstract one. -/
theorem ListEffect.items {env : Env} {op : ListOp} {s s' : ListState} {L L' : List Addr}
    (h : ListEffect env op s L s' L') (hrep : s.Rep L) :
    L'.map (item s') = absStep (env, op) (L.map (item s)) := by
  cases h with
  | push hop hpush =>
    subst hop
    have hold : L.map (item s') = L.map (item s) := List.map_congr_left fun b hb =>
      item_congr (hpush.old b fun heq => hpush.fresh (heq ▸ List.mem_cons_of_mem _ hb))
    have hnew := hpush.new
    simp only [LinkedListEntry.payload, Payload.mk.injEq] at hnew
    obtain ⟨hdata, hsize, htid, -, hid, -⟩ := hnew
    rw [List.map_append, hold, absStep, List.map_singleton]
    simp only [item, hdata, hsize, htid, hid]
  | @remove A B a _ hL hrem hremoved =>
    subst hL
    have hnd := hrep.links.tail_nodup
    obtain ⟨-, hndB, hdisj⟩ := List.nodup_append.mp hnd
    have hneA : ∀ b ∈ A, b ≠ a := fun b hb => hdisj b hb a List.mem_cons_self
    have hold : (A ++ B).map (item s') = (A ++ B).map (item s) := by
      refine List.map_congr_left fun b hb => item_congr (hremoved.old b ?_)
      rcases List.mem_append.mp hb with hA | hB
      · exact hneA b hA
      · rintro rfl
        exact (List.nodup_cons.mp hndB).1 hB
    rw [hold, List.map_append, List.map_append, List.map_cons]
    -- `eraseP` skips the items of `A` and drops the item of `a`
    have herase : ∀ p : Item → Bool, (∀ b ∈ A, p (item s b) = false) → p (item s a) = true →
        (A.map (item s) ++ item s a :: B.map (item s)).eraseP p
          = A.map (item s) ++ B.map (item s) := by
      intro p hA ha
      rw [List.eraseP_append_right, List.eraseP_cons_of_pos ha]
      intro i hi
      obtain ⟨b, hb, rfl⟩ := List.mem_map.mp hi
      simp [hA b hb]
    cases op with
    | push data size tid => exact hrem.elim
    | pop =>
      have hB : B = [] := hrem
      rw [hB, absStep, List.map_nil, List.append_nil, List.dropLast_concat]
    | removeEntryByPtr key =>
      obtain ⟨hkey, hdata, hA⟩ := hrem
      show _ = if key = NULL then _ else List.eraseP (fun i : Item => decide (i.data = key)) _
      rw [if_neg hkey]
      exact (herase _ (fun b hb => decide_eq_false (hA b hb)) (decide_eq_true hdata)).symm
    | removeEntry entryRef =>
      obtain rfl : entryRef = a := hrem
      exact (herase _ (fun b hb => decide_eq_false (hneA b hb)) (decide_eq_true rfl)).symm
  | keep hidle _ =>
    cases op with
    | push data size tid => exact hidle.elim
    | pop =>
      have hL : L = [] := hidle
      rw [hL]
      rfl
    | removeEntryByPtr key =>
      show _ = if key = NULL then _ else List.eraseP (fun i : Item => decide (i.data = key)) _
      split_ifs with hkey
      · rfl
      · have hnone := hidle.resolve_left hkey
        rw [List.eraseP_of_forall_not]
        · rfl
        · intro i hi
          obtain ⟨a, ha, rfl⟩ := List.mem_map.mp hi
          exact fun hd => hnone a ha (of_decide_eq_true hd)
    | removeEntry entryRef => exact hidle.elim

/-! ## Runs of calls refine the sequence -/

section Runs

variable {s s' : ListState} {L : List Addr} {ls : List (Env × ListOp)}

theorem run_refines {items : List Item} (h : Refines s items)
    (hleg : Along listStep ListOp.Legal ls s) (hrun : run listStep ls s = some s') :
    Refines s' (absRun ls items) := by
  induction ls generalizing s items with
  | nil =>
    obtain rfl : s = s' := by simpa using hrun
    exact h
  | cons l ls ih =>
    obtain ⟨s₁, h₁, hrest⟩ := (run_cons_eq_some listStep).mp hrun
    obtain ⟨L₁, heff⟩ := listStep_effect h.rep hleg.1 h₁
    have hitems := heff.items h.rep
    rw [← h.eq_map h.rep] at hitems
    have hstep : Refines s₁ (absStep l items) := hitems ▸ refines_map (heff.rep h.rep)
    exact ih hstep (hleg.2 s₁ h₁) hrest

/-- One thread alone never waits. -/
theorem run_one_thread {t : UInt64} (h : s.Rep L) (hleg : Along listStep ListOp.Legal ls s)
    (ht : ∀ l ∈ ls, l.1.tid = t) (hfree : ¬ Blocks t s.mutex) :
    ∃ s', run listStep ls s = some s' ∧ ¬ Blocks t s'.mutex := by
  induction ls generalizing s L with
  | nil => exact ⟨s, rfl, hfree⟩
  | cons l ls ih =>
    have htid := ht l List.mem_cons_self
    have hfree' : ¬ Blocks l.1.tid s.mutex := htid ▸ hfree
    obtain ⟨s₁, h₁⟩ := listStep_isSome h hleg.1 hfree'
    obtain ⟨L₁, heff⟩ := listStep_effect h hleg.1 h₁
    obtain ⟨s', hrun, hs'⟩ := ih (heff.rep h) (hleg.2 s₁ h₁)
      (fun l' hl' => ht l' (List.mem_cons_of_mem l hl')) (htid ▸ heff.not_blocks hfree')
    exact ⟨s', (run_cons_eq_some listStep).mpr ⟨s₁, h₁, hrun⟩, hs'⟩

end Runs

/-- The node of a found item, `NULL` if there is none. -/
def addrOf (i : Option Item) : Addr := (i.map (·.addr)).getD NULL

/-- The lookups answer from the sequence and leave every node's fields and links,
weight and cached flag aside. -/
structure LookupsAgree (s : ListState) (items : List Item) : Prop where
  byPtr : ∀ env key, key ≠ NULL → ¬ Blocks env.tid s.mutex →
    ∃ s', linkedListGetByPtr key env s = .done (addrOf (items.find? (·.data = key))) s' ∧
      SameList s s'
  byId : ∀ env id, ¬ Blocks env.tid s.mutex →
    ∃ s', linkedListGetById id env s = .done (addrOf (items.find? (·.blockId = id))) s' ∧
      SameList s s'
  byIndex : ∀ env (index : Nat), ¬ Blocks env.tid s.mutex →
    ∃ s', linkedListGetByIndex index env s = .done (addrOf items[index]?) s' ∧ SameList s s'

theorem addrOf_find {s : ListState} {L : List Addr} {p : Item → Bool} :
    addrOf ((L.map (item s)).find? p) = (L.find? fun a => p (item s a)).getD NULL := by
  rw [addrOf, List.find?_map, Option.map_map]
  congr 1
  exact Option.map_id_apply

theorem sameList_access_mutex {s : ListState} {a : Addr} (m : Option PlatMutex)
    (hlive : a ≠ NULL → (s.nodes.lookup a).isSome) :
    SameList s { s.access a with mutex := m } :=
  (sameList_access hlive).trans (SameList.mutex _ m)

theorem Refines.lookupsAgree {s : ListState} {items : List Item} (h : Refines s items) :
    LookupsAgree s items := by
  have hrep := h.rep
  have hmap := h.eq_map hrep
  generalize items.map (·.addr) = L at hrep hmap
  subst hmap
  refine ⟨fun env key hkey hfree => ?_, fun env id hfree => ?_, fun env index hfree => ?_⟩
  · have hspec : wp (linkedListGetByPtr key) env
        (fun a s' => a = findPtr s L key ∧ SameList s s') (fun _ _ => False) s := by
      refine wp_linkedListGetByPtr hrep (fun h0 => absurd h0 hkey)
        (fun _ hb => hfree hb.2) fun _ _ => ⟨rfl, sameList_access_mutex _ fun hne => ?_⟩
      exact hrep.live_of_mem (findPtr_mem hne).1
    obtain ⟨a, s', hrun, rfl, hsame⟩ := hspec.exists_done
    rw [addrOf_find]
    exact ⟨s', hrun, hsame⟩
  · have hspec : wp (linkedListGetById id) env
        (fun a s' => a = findId s L id ∧ SameList s s') (fun _ _ => False) s := by
      refine wp_linkedListGetById hrep hfree
        fun _ => ⟨rfl, sameList_access_mutex _ fun hne => ?_⟩
      exact hrep.live_of_mem (findId_mem hne).1
    obtain ⟨a, s', hrun, rfl, hsame⟩ := hspec.exists_done
    rw [addrOf_find]
    exact ⟨s', hrun, hsame⟩
  · have hnone : s.list.len < index → L[index]? = none := by
      intro hlt
      rw [List.getElem?_eq_none_iff]
      exact Nat.le_of_lt (Nat.lt_of_le_of_lt hrep.len hlt)
    have hspec : wp (linkedListGetByIndex index) env
        (fun a s' => a = (L[index]?).getD NULL ∧ SameList s s') (fun _ _ => False) s := by
      refine wp_linkedListGetByIndex hrep (fun hlt => ?_) (fun _ hb => hfree hb.2)
        fun _ _ => ⟨rfl, sameList_access_mutex _ fun hne => ?_⟩
      · rw [hnone hlt]
        exact ⟨rfl, SameList.refl s⟩
      · cases hget : L[index]? with
        | none => simp [hget] at hne
        | some a => exact hrep.live_of_mem (List.mem_of_getElem? hget)
    obtain ⟨a, s', hrun, rfl, hsame⟩ := hspec.exists_done
    have haddr : addrOf (L.map (item s))[index]? = (L[index]?).getD NULL := by
      rw [addrOf, List.getElem?_map, Option.map_map]
      cases L[index]? <;> rfl
    rw [haddr]
    exact ⟨s', hrun, hsame⟩

theorem freshList_of_new {env : Env} {s : ListState}
    (hnew : (linkedListNew env .blank).done? = some s) : FreshList env s := by
  obtain ⟨_, hdone⟩ := Outcome.done?_eq_some.mp hnew
  have hspec : wp linkedListNew env (fun _ s' => FreshList env s') (fun _ _ => True) .blank :=
    wp_linkedListNew (fun _ => trivial) fun _ s' hs' => hs'
  exact hspec.done hdone

/-- **The list refines a sequence.** After any calls on a new list the node heap
is exactly the sequence those calls mean, `firstEntry` is never null, and the
three lookups answer from the sequence; and the calls of one thread all complete. -/
theorem linkedList_refines_sequence {env₀ : Env} {s₀ : ListState}
    (hnew : (linkedListNew env₀ .blank).done? = some s₀) {ls : List (Env × ListOp)}
    (hleg : Along listStep ListOp.Legal ls s₀) :
    (∀ s, run listStep ls s₀ = some s →
      Refines s (absRun ls []) ∧ s.list.firstEntry ≠ NULL ∧ LookupsAgree s (absRun ls [])) ∧
    ∀ t, (∀ l ∈ ls, l.1.tid = t) →
      ∃ s, run listStep ls s₀ = some s ∧ ¬ Blocks t s.mutex := by
  have hfresh := freshList_of_new hnew
  have h₀ : Refines s₀ [] := ⟨hfresh.rep, fun i hi => absurd hi (by simp)⟩
  refine ⟨fun s hrun => ?_, fun t ht => ?_⟩
  · have href := run_refines h₀ hleg hrun
    have hfirst := (href.rep.live _).mp href.rep.live_first
    exact ⟨href, fun h0 => href.rep.links.notNull (h0 ▸ hfirst), href.lookupsAgree⟩
  · exact run_one_thread hfresh.rep hleg ht (hfresh.free.not_blocks t)

/-- Five pushes, then the second entry, the first and the last are removed: the third and the
fourth are left, and all lookups answer from them. -/
theorem linkedList_refines_sequence_at :
    ∃ ls s₀ s, (linkedListNew (Env.plain 1 64 0) .blank).done? = some s₀ ∧
      ls = [(Env.plain 1 128 0, .push 4096 1 1), (Env.plain 1 192 0, .push 8192 2 1),
        (Env.plain 1 256 0, .push 12288 3 1), (Env.plain 1 320 0, .push 16384 4 1),
        (Env.plain 1 384 0, .push 20480 5 1), (Env.plain 1 0 0, .removeEntryByPtr 8192),
        (Env.plain 1 0 0, .removeEntry 128), (Env.plain 1 0 0, .pop)] ∧
      run listStep ls s₀ = some s ∧
      Refines s [⟨256, 12288, 3, 1, 0⟩, ⟨320, 16384, 4, 1, 0⟩] ∧ s.list.firstEntry = 256 ∧
      LookupsAgree s [⟨256, 12288, 3, 1, 0⟩, ⟨320, 16384, 4, 1, 0⟩] := by
  let calls : List (Env × ListOp) := [(Env.plain 1 128 0, .push 4096 1 1),
    (Env.plain 1 192 0, .push 8192 2 1), (Env.plain 1 256 0, .push 12288 3 1),
    (Env.plain 1 320 0, .push 16384 4 1), (Env.plain 1 384 0, .push 20480 5 1),
    (Env.plain 1 0 0, .removeEntryByPtr 8192), (Env.plain 1 0 0, .removeEntry 128),
    (Env.plain 1 0 0, .pop)]
  have hsome : ((linkedListNew (Env.plain 1 64 0) .blank).done?.map fun s₀ =>
      decide (Along listStep ListOp.Legal calls s₀)) = some true := by
    decide +kernel
  obtain ⟨s₀, h₀, hleg⟩ := Option.map_eq_some_iff.mp hsome
  obtain ⟨href, htot⟩ := linkedList_refines_sequence h₀ (of_decide_eq_true hleg)
  obtain ⟨s, hrun, -⟩ := htot 1 (by decide)
  obtain ⟨hrefines, -, hlookups⟩ := href s hrun
  have hlinks := hrefines.rep.first
  exact ⟨calls, s₀, s, h₀, rfl, hrun, hrefines, hlinks, hlookups⟩

/-- An entry with null data is found and removed by no pointer: both calls refuse `NULL`. -/
theorem null_key_refused :
    ((linkedListNew (Env.plain 1 64 0) .blank).done?.bind
      (run listStep [(Env.plain 1 128 0, .push NULL 8 1)])).map (fun s =>
        (s.entries.map (item s), (linkedListGetByPtr NULL (Env.plain 1 0 0) s).value?,
          (listStep (Env.plain 1 0 0, .removeEntryByPtr NULL) s).map fun s' =>
            s'.entries.map (item s')))
      = some ([⟨128, NULL, 8, 1, 0⟩], some NULL, some [⟨128, NULL, 8, 1, 0⟩]) := by
  decide

/-! ## The drift of the length -/

section Length

variable {env : Env} {op : ListOp} {s s' : ListState} {L L' : List Addr}

/-- A removal is in place exactly when something follows the removed entry. -/
theorem inPlace_of_removes {A B : List Addr} {a : Addr} (h : s.Rep (A ++ a :: B))
    (hrem : op.Removes s A a B) : ListOp.InPlace (env, op) s ↔ B ≠ [] := by
  have hlast : a ≠ s.list.lastEntry ↔ B ≠ [] := by rw [ne_comm, ne_eq, h.last_eq_iff]
  cases op with
  | push data size tid => exact hrem.elim
  | pop => exact ⟨fun hf => hf.elim, fun hB => hB hrem⟩
  | removeEntryByPtr key =>
    obtain ⟨hkey, hdata, hA⟩ := hrem
    have hfind : (A ++ a :: B).find? (fun a => (nodeAt s.nodes a).data = key) = some a := by
      rw [List.find?_eq_some_iff_append]
      exact ⟨by simpa using hdata, A, B, rfl, fun b hb => by simpa using hA b hb⟩
    rw [← hlast]
    show (key ≠ NULL ∧ ∃ b ∈ s.entries.find? _, b ≠ s.list.lastEntry) ↔ _
    rw [h.entries_eq, hfind]
    simp [hkey]
  | removeEntry entryRef =>
    obtain rfl : entryRef = a := hrem
    exact hlast

theorem not_inPlace_of_idle (h : s.Rep L) (hidle : op.Idle s L) :
    ¬ ListOp.InPlace (env, op) s := by
  cases op with
  | push data size tid => exact id
  | pop => exact id
  | removeEntryByPtr key =>
    rintro ⟨hkey, a, ha, -⟩
    rw [h.entries_eq] at ha
    exact (hidle.resolve_left hkey) a (List.mem_of_find?_eq_some ha)
      (by simpa using List.find?_some ha)
  | removeEntry entryRef => exact hidle.elim

/-- Only a push adds to `len`. -/
theorem ListEffect.len_le (heff : ListEffect env op s L s' L') :
    s'.list.len ≤ s.list.len + if op.IsPush then 1 else 0 := by
  cases heff with
  | push hop hpush =>
    subst hop
    exact hpush.len.le
  | remove _ _ hremoved =>
    have hlen := hremoved.len
    split_ifs at hlen ⊢ <;> omega
  | keep _ _ => exact Nat.le_add_right _ _

/-- **The length is a `size_t`**: it is never more than the number of pushes. -/
theorem run_len_le {ls : List (Env × ListOp)} (h : s.Rep L)
    (hleg : Along listStep ListOp.Legal ls s) (hrun : run listStep ls s = some s') :
    s'.list.len ≤ s.list.len + ls.countP (·.2.IsPush) := by
  induction ls generalizing s L with
  | nil =>
    obtain rfl := Option.some.inj hrun
    exact Nat.le_add_right _ _
  | cons l ls ih =>
    obtain ⟨s₁, h₁, hrest⟩ := (run_cons_eq_some listStep).mp hrun
    obtain ⟨L₁, heff⟩ := listStep_effect h hleg.1 h₁
    have hone := heff.len_le
    have hmore := ih (heff.rep h) (hleg.2 s₁ h₁) hrest
    rw [List.countP_cons]
    omega

/-- One call moves `len` away from the number of entries exactly if it removes in place. -/
theorem ListEffect.len_drift (heff : ListEffect env op s L s' L') (h : s.Rep L) :
    s'.list.len + L.length
      = s.list.len + L'.length + if ListOp.InPlace (env, op) s then 1 else 0 := by
  cases heff with
  | push hop hpush =>
    have hnot : ¬ ListOp.InPlace (env, op) s := by
      rw [hop]
      exact id
    rw [if_neg hnot, hpush.len, List.length_append, List.length_singleton]
    omega
  | @remove A B a _ hL hrem hremoved =>
    subst hL
    have hlen := h.len
    rw [List.length_append, List.length_cons] at hlen ⊢
    rw [hremoved.len, List.length_append]
    by_cases hB : B = []
    · have hnot : ¬ ListOp.InPlace (env, op) s := fun hin => (inPlace_of_removes h hrem).mp hin hB
      rw [if_pos hB, if_neg hnot]
      omega
    · rw [if_neg hB, if_pos ((inPlace_of_removes h hrem).mpr hB)]
      omega
  | keep hidle _ =>
    rw [if_neg (not_inPlace_of_idle h hidle)]
    rfl

/-- Over a run, `len` exceeds the number of entries by the number of removals in place. -/
theorem run_len_drift {ls : List (Env × ListOp)} (h : s.Rep L)
    (hleg : Along listStep ListOp.Legal ls s) (hrun : run listStep ls s = some s') :
    s'.list.len + s.entries.length
      = s.list.len + s'.entries.length + tally listStep ListOp.InPlace ls s := by
  refine run_tally (c := ListOp.InPlace) (I := fun s => ∃ L, s.Rep L) (f := fun s => s.list.len)
    (g := fun s => s.entries.length) ?_ ⟨L, h⟩ hleg hrun
  rintro ⟨env, op⟩ s s' ⟨L, hrep⟩ hok hstep
  obtain ⟨L', heff⟩ := listStep_effect hrep hok hstep
  refine ⟨⟨L', heff.rep hrep⟩, ?_⟩
  rw [hrep.entries_eq, (heff.rep hrep).entries_eq]
  exact heff.len_drift hrep

end Length

/-! ## Removing a set of entries -/

/-- `linked_list_removeEntry` of each entry in order. -/
def removals (envs : Addr → Env) (xs : List Addr) : List (Env × ListOp) :=
  xs.map fun a => (envs a, .removeEntry a)

section Removals

variable {s s' : ListState} {L : List Addr} {envs : Addr → Env}

/-- What removing the entries `xs` leaves of `s`. -/
structure Without (s s' : ListState) (L xs : List Addr) : Prop where
  rep : s'.Rep (L.filter (· ∉ xs))
  payload : ∀ b, b ∉ xs → (nodeAt s'.nodes b).payload = (nodeAt s.nodes b).payload
  head : s'.list.head = s.list.head
  lastAccess : s'.list.lastAccess = s.list.lastAccess
  mutex : s'.mutex = if xs = [] then s.mutex else release s.mutex

theorem removals_step {a : Addr} {env : Env} (h : s.Rep L) (ha : a ∈ L)
    (hstep : listStep (env, .removeEntry a) s = some s') :
    ∃ A B, L = A ++ a :: B ∧ Removed s s' A a B := by
  have hleg : ListOp.Legal (env, .removeEntry a) s := by
    show a ∈ s.entries
    rwa [h.entries_eq]
  obtain ⟨L', heff⟩ := listStep_effect h hleg hstep
  cases heff with
  | push hop _ => cases hop
  | @remove A B x _ hL hrem hremoved =>
    obtain rfl : a = x := hrem
    exact ⟨A, B, hL, hremoved⟩
  | keep hidle _ => exact hidle.elim

theorem removals_run {xs : List Addr} (h : s.Rep L) (hsub : ∀ x ∈ xs, x ∈ L) (hnd : xs.Nodup)
    (hrun : run listStep (removals envs xs) s = some s') :
    Without s s' L xs ∧ Along listStep ListOp.Legal (removals envs xs) s := by
  induction xs generalizing s L with
  | nil =>
    obtain rfl : s = s' := by simpa [removals] using hrun
    exact ⟨⟨by simpa using h, fun _ _ => rfl, rfl, rfl, rfl⟩, trivial⟩
  | cons x xs ih =>
    obtain ⟨hx, hnd⟩ := List.nodup_cons.mp hnd
    have hxL := hsub x List.mem_cons_self
    obtain ⟨s₁, h₁, hrest⟩ := (run_cons_eq_some listStep).mp hrun
    obtain ⟨A, B, rfl, hrem⟩ := removals_step h hxL h₁
    obtain ⟨-, hndB, hdisj⟩ := List.nodup_append.mp h.links.tail_nodup
    have hxA : x ∉ A := fun hm => hdisj x hm x List.mem_cons_self rfl
    have hxB : x ∉ B := (List.nodup_cons.mp hndB).1
    have hsub₁ : ∀ y ∈ xs, y ∈ A ++ B := by
      intro y hy
      have hyx : y ≠ x := fun heq => hx (heq ▸ hy)
      have hyL := hsub y (List.mem_cons_of_mem x hy)
      simp only [List.mem_append, List.mem_cons, hyx, false_or] at hyL ⊢
      exact hyL
    obtain ⟨hwithout, hlegal⟩ := ih hrem.rep hsub₁ hnd hrest
    have hfilter : (A ++ B).filter (· ∉ xs) = (A ++ x :: B).filter (· ∉ x :: xs) := by
      have hdrop : ∀ C : List Addr, x ∉ C → C.filter (· ∉ x :: xs) = C.filter (· ∉ xs) := by
        intro C hC
        refine List.filter_congr fun b hb => ?_
        have hbx : b ≠ x := fun heq => hC (heq ▸ hb)
        simp [hbx]
      rw [List.filter_append, List.filter_append, List.filter_cons, hdrop A hxA, hdrop B hxB]
      simp
    refine ⟨⟨hfilter ▸ hwithout.rep, fun b hb => ?_, hwithout.head.trans hrem.head,
      hwithout.lastAccess.trans hrem.lastAccess, ?_⟩, ?_, fun s₂ h₂ => ?_⟩
    · rw [List.mem_cons, not_or] at hb
      rw [hwithout.payload b hb.2, hrem.old b hb.1]
    · rw [hwithout.mutex, hrem.mutex, if_neg (List.cons_ne_nil x xs)]
      split_ifs
      · rfl
      · exact release_release _
    · show x ∈ s.entries
      rw [h.entries_eq]
      exact hxL
    · obtain rfl : s₁ = s₂ := Option.some.inj (h₁.symm.trans h₂)
      exact hlegal

/-- What is left does not depend on the order, `len` aside. -/
theorem Without.agree {s₁ s₂ : ListState} {xs ys : List Addr} (h₁ : Without s s₁ L xs)
    (h₂ : Without s s₂ L ys) (hperm : xs.Perm ys) (hsub : ∀ x ∈ xs, x ∈ L) (h : s.Rep L) :
    s₁.nodes = s₂.nodes ∧ s₁.mutex = s₂.mutex ∧
      { s₁.list with len := s₂.list.len } = s₂.list := by
  have hfilter : L.filter (· ∉ ys) = L.filter (· ∉ xs) :=
    List.filter_congr fun b _ => by simp [hperm.mem_iff]
  have hrep₂ := h₂.rep
  rw [hfilter] at hrep₂
  have hhead : s₁.list.head = s₂.list.head := h₁.head.trans h₂.head.symm
  refine ⟨hrep₂.nodes_ext h₁.rep hhead fun b hb => ?_, ?_, ?_⟩
  · have hbx : b ∉ xs := by
      rcases List.mem_cons.mp hb with rfl | hL
      · rw [h₂.head]
        exact fun hm => h.links.head_notMem (hsub _ hm)
      · simpa using (List.mem_filter.mp hL).2
    rw [h₁.payload b hbx, h₂.payload b fun hm => hbx (hperm.mem_iff.mpr hm)]
  · rw [h₁.mutex, h₂.mutex]
    by_cases hxs : xs = []
    · have hys : ys = [] := by
        rw [hxs] at hperm
        exact hperm.nil_eq.symm
      rw [if_pos hxs, if_pos hys]
    · have hys : ys ≠ [] := by
        rintro rfl
        exact hxs hperm.eq_nil
      rw [if_neg hxs, if_neg hys]
  · have hfirst : s₁.list.firstEntry = s₂.list.firstEntry := by
      rw [h₁.rep.first, hrep₂.first, hhead]
    have hlast : s₁.list.lastEntry = s₂.list.lastEntry := by
      rw [h₁.rep.last, hrep₂.last, hhead]
    have hacc : s₁.list.lastAccess = s₂.list.lastAccess :=
      h₁.lastAccess.trans h₂.lastAccess.symm
    simp only [hhead, hfirst, hlast, hacc]

end Removals

theorem removals_push (envs : Addr → Env) (xs : List Addr) :
    (removals envs xs).countP (·.2.IsPush) = 0 := by
  rw [List.countP_eq_zero]
  intro l hl
  obtain ⟨a, -, rfl⟩ := List.mem_map.mp hl
  exact Bool.false_ne_true

/-- What `linked_list_getSize` returns, as the `size_t` it is. -/
def getSizeT (env : Env) (s : ListState) : Option UInt64 :=
  (linkedListGetSize env s).value?.map UInt64.ofNat

theorem getSizeT_eq (env : Env) (s : ListState) : getSizeT env s = some (UInt64.ofNat s.list.len) :=
  rfl

/-- **The length is exact until an entry is removed in place.** After any calls on a new list,
fewer than 2^64 of them pushes, `linked_list_getSize` is the number of entries exactly when
none of the calls removed an entry other than the last one; and two orders of removing the
same entries leave the same list and node heap, with the same length exactly when they remove
equally often in place. -/
theorem getSize_exact_iff_no_inPlace {env₀ : Env} {s₀ : ListState}
    (hnew : (linkedListNew env₀ .blank).done? = some s₀) {ls : List (Env × ListOp)}
    (hleg : Along listStep ListOp.Legal ls s₀) (hpushes : ls.countP (·.2.IsPush) < addressSpace)
    {s : ListState} (hrun : run listStep ls s₀ = some s) :
    (∀ env, (getSizeT env s).map UInt64.toNat = some s.entries.length ↔
      Along listStep (fun l s => ¬ ListOp.InPlace l s) ls s₀) ∧
    ∀ (xs ys : List Addr) (e₁ e₂ : Addr → Env) (s₁ s₂ : ListState), xs.Perm ys → xs.Nodup →
      (∀ x ∈ xs, x ∈ s.entries) → run listStep (removals e₁ xs) s = some s₁ →
      run listStep (removals e₂ ys) s = some s₂ →
      s₁.nodes = s₂.nodes ∧ s₁.mutex = s₂.mutex ∧
      { s₁.list with len := s₂.list.len } = s₂.list ∧
      ∀ env, (getSizeT env s₁ = getSizeT env s₂ ↔
        tally listStep ListOp.InPlace (removals e₁ xs) s
          = tally listStep ListOp.InPlace (removals e₂ ys) s) := by
  have hfresh := freshList_of_new hnew
  have h₀ : Refines s₀ [] := ⟨hfresh.rep, fun i hi => absurd hi (by simp)⟩
  have hlen : s.list.len < addressSpace := by
    have hle := run_len_le hfresh.rep hleg hrun
    rw [hfresh.len, Nat.zero_add] at hle
    exact Nat.lt_of_le_of_lt hle hpushes
  have hrep := (run_refines h₀ hleg hrun).rep
  generalize (absRun ls []).map (·.addr) = L at hrep
  refine ⟨fun env => ?_, fun xs ys e₁ e₂ s₁ s₂ hperm hnd hsub h₁ h₂ => ?_⟩
  · have hdrift := run_len_drift hfresh.rep hleg hrun
    rw [hfresh.len, hfresh.rep.entries_eq, List.length_nil] at hdrift
    rw [← tally_eq_zero, getSizeT_eq, Option.map_some, Option.some_inj,
      UInt64.toNat_ofNat_of_lt' hlen]
    omega
  · rw [hrep.entries_eq] at hsub
    obtain ⟨hw₁, hleg₁⟩ := removals_run hrep hsub hnd h₁
    obtain ⟨hw₂, hleg₂⟩ := removals_run hrep (fun y hy => hsub y (hperm.mem_iff.mpr hy))
      (hperm.nodup_iff.mp hnd) h₂
    obtain ⟨hnodes, hmutex, hlist⟩ := hw₁.agree hw₂ hperm hsub hrep
    refine ⟨hnodes, hmutex, hlist, fun env => ?_⟩
    -- removals do not add to `len`
    have hlen₁ := run_len_le hrep hleg₁ h₁
    have hlen₂ := run_len_le hrep hleg₂ h₂
    rw [removals_push, Nat.add_zero] at hlen₁ hlen₂
    have hsize : getSizeT env s₁ = getSizeT env s₂ ↔ s₁.list.len = s₂.list.len := by
      rw [getSizeT_eq, getSizeT_eq, Option.some_inj, ← UInt64.toNat_inj,
        UInt64.toNat_ofNat_of_lt' (Nat.lt_of_le_of_lt hlen₁ hlen),
        UInt64.toNat_ofNat_of_lt' (Nat.lt_of_le_of_lt hlen₂ hlen)]
    rw [hsize]
    have hd₁ := run_len_drift hrep hleg₁ h₁
    have hd₂ := run_len_drift hrep hleg₂ h₂
    have hfilter : L.filter (· ∉ ys) = L.filter (· ∉ xs) :=
      List.filter_congr fun b _ => by simp [hperm.mem_iff]
    rw [hw₁.rep.entries_eq] at hd₁
    rw [hw₂.rep.entries_eq, hfilter] at hd₂
    omega

/-- Four pushes, and the last entry is removed: the length is exact. Removing the first two of
the three that are left leaves the same in either order, as both are in place. -/
theorem getSize_exact_iff_no_inPlace_at : ∃ ls s₀ s s₁ s₂, ls.length = 5 ∧
    (linkedListNew (Env.plain 1 64 0) .blank).done? = some s₀ ∧ run listStep ls s₀ = some s ∧
    run listStep (removals (fun _ => Env.plain 1 0 0) [128, 192]) s = some s₁ ∧
    run listStep (removals (fun _ => Env.plain 1 0 0) [192, 128]) s = some s₂ ∧
    s.entries = [128, 192, 256] ∧
    (getSizeT (Env.plain 1 0 0) s).map UInt64.toNat = some s.entries.length ∧
    s₁.entries = [256] ∧ s₁.nodes = s₂.nodes ∧ s₁.mutex = s₂.mutex ∧
    { s₁.list with len := s₂.list.len } = s₂.list ∧
      getSizeT (Env.plain 1 0 0) s₁ = getSizeT (Env.plain 1 0 0) s₂ := by
  let calls : List (Env × ListOp) := [(Env.plain 1 128 0, .push 4096 1 1),
    (Env.plain 1 192 0, .push 8192 2 1), (Env.plain 1 256 0, .push 12288 3 1),
    (Env.plain 1 320 0, .push 16384 4 1), (Env.plain 1 0 0, .removeEntryByPtr 16384)]
  let envs : Addr → Env := fun _ => Env.plain 1 0 0
  have hsome : ((linkedListNew (Env.plain 1 64 0) .blank).done?.bind fun s₀ =>
      (run listStep calls s₀).bind fun s =>
        (run listStep (removals envs [128, 192]) s).bind fun s₁ =>
          (run listStep (removals envs [192, 128]) s).map fun _ =>
            ((decide (Along listStep ListOp.Legal calls s₀),
              decide (Along listStep (fun l s => ¬ ListOp.InPlace l s) calls s₀)),
              (s.entries, s₁.entries),
              tally listStep ListOp.InPlace (removals envs [128, 192]) s,
              tally listStep ListOp.InPlace (removals envs [192, 128]) s)) =
      some ((true, true), ([128, 192, 256], [256]), 2, 2) := by
    decide +kernel
  obtain ⟨s₀, h₀, hsome⟩ := Option.bind_eq_some_iff.mp hsome
  obtain ⟨s, hrun, hsome⟩ := Option.bind_eq_some_iff.mp hsome
  obtain ⟨s₁, h₁, hsome⟩ := Option.bind_eq_some_iff.mp hsome
  obtain ⟨s₂, h₂, hval⟩ := Option.map_eq_some_iff.mp hsome
  obtain ⟨hconds, hval⟩ := Prod.mk.inj hval
  obtain ⟨hleg, hnone⟩ := Prod.mk.inj hconds
  obtain ⟨hentries, htallies⟩ := Prod.mk.inj hval
  obtain ⟨hthree, hone⟩ := Prod.mk.inj hentries
  obtain ⟨htally₁, htally₂⟩ := Prod.mk.inj htallies
  obtain ⟨hexact, horders⟩ :=
    getSize_exact_iff_no_inPlace h₀ (of_decide_eq_true hleg) (by decide) hrun
  obtain ⟨hnodes, hmutex, hlist, hsize⟩ := horders [128, 192] [192, 128] envs envs s₁ s₂
    (List.Perm.swap 192 128 []) (by decide) (by rw [hthree]; decide) h₁ h₂
  exact ⟨calls, s₀, s, s₁, s₂, rfl, h₀, hrun, h₁, h₂, hthree,
    (hexact _).mpr (of_decide_eq_true hnone), hone, hnodes, hmutex, hlist,
    (hsize _).mpr (htally₁.trans htally₂.symm)⟩

/-- Two pushes and the removal of the first entry: one entry, `linked_list_getSize` says two.
Removing both entries leaves length 1 or 0, by the order. -/
theorem removed_first_length_two :
    ((linkedListNew (Env.plain 1 64 0) .blank).done?.bind
      (run listStep [(Env.plain 1 128 0, .push 4096 8 1), (Env.plain 1 192 0, .push 8192 8 1)])).map
        (fun s =>
          ((listStep (Env.plain 1 0 0, .removeEntry 128) s).map fun s' =>
              (s'.entries.length, (linkedListGetSize (Env.plain 1 0 0) s').value?),
            (run listStep (removals (fun _ => Env.plain 1 0 0) [128, 192]) s).map (·.list.len),
            (run listStep (removals (fun _ => Env.plain 1 0 0) [192, 128]) s).map (·.list.len)))
      = some (some (1, some 2), some 1, some 0) := by
  decide

end LibSafetynet
