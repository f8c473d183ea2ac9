import LibSafetynet.BlockOwnership

/-!
# Exit (`doexit`)

At exit the library passes every recorded block to the allocator and destroys the
list. Under ownership each block is released once, with nothing left over; the only
thing that can keep `doexit` from returning is a mutex that another thread left
locked, which needs an empty list.
-/

namespace LibSafetynet

open Logic Prog PlatMutex ListState AllocManager

/-! ## `linked_list_destroy` -/

/-- What is left of the list once the nodes `pre` of `pre ++ rest` are destroyed. -/
structure Destroying (s : ListState) (pre rest : List Addr) (s' : ListState) : Prop where
  list : s'.list = s.list
  live : ∀ a, (s'.nodes.lookup a).isSome ↔ a ∈ s.list.head :: rest
  node : ∀ a ∈ rest, nodeAt s'.nodes a = nodeAt s.nodes a
  freed : s'.freed = s.freed ++ pre

section Destroy

variable {env : Env} {E : Stop → ListState → Prop} {Q : Unit → ListState → Prop} {s : ListState}
  {L : List Addr}

theorem Destroying.step {pre rest : List Addr} {a : Addr} {s' : ListState}
    (h : Destroying s pre (a :: rest) s') (hnodup : (s.list.head :: a :: rest).Nodup) :
    Destroying s (pre ++ [a]) rest
      { s' with nodes := s'.nodes.erase a, freed := s'.freed ++ [a] } := by
  have hnext : ∀ b ∈ s.list.head :: rest, b ≠ a := by
    intro b hb hba
    obtain ⟨hhead, hrest⟩ := List.nodup_cons.mp hnodup
    rcases List.mem_cons.mp hb with rfl | hb
    · exact hhead (hba ▸ List.mem_cons_self)
    · exact (List.nodup_cons.mp hrest).1 (hba ▸ hb)
  constructor
  · exact h.list
  · intro b
    rw [isSome_lookup_erase, h.live]
    constructor
    · rintro ⟨hne, hb⟩
      rcases List.mem_cons.mp hb with rfl | hb
      · exact List.mem_cons_self
      · exact List.mem_cons_of_mem _ ((List.mem_cons.mp hb).resolve_left hne)
    · intro hb
      refine ⟨hnext b hb, ?_⟩
      rcases List.mem_cons.mp hb with rfl | hb'
      · exact List.mem_cons_self
      · exact List.mem_cons_of_mem _ (List.mem_cons_of_mem _ hb')
  · intro b hb
    show nodeAt (s'.nodes.erase a) b = _
    rw [nodeAt_erase_of_ne _ (hnext b (List.mem_cons_of_mem _ hb))]
    exact h.node b (List.mem_cons_of_mem _ hb)
  · show s'.freed ++ [a] = _
    rw [h.freed, List.append_assoc]

/-- `linked_list_destroy` gives every node back, the dummy head last. -/
theorem wp_linkedListDestroy (h : s.Rep L) (hblock : ScanBlocks env.tid s → E .blocked s)
    (hQ : ∀ s', (∀ a, (s'.nodes.lookup a).isNone) → s'.freed = s.freed ++ L ++ [s.list.head] →
      Q () s') : wp linkedListDestroy env Q E s := by
  have hhead : s.list.head ≠ NULL := fun hnull =>
    h.links.notNull (List.mem_cons.mpr (Or.inl hnull.symm))
  -- what follows the scan
  have hlast : ∀ s', Destroying s L [] s' → wp (do
      linkedListEntryDestroy (← getList).head
      modify fun s => { s with mutex := none }) env Q E s' := by
    intro s' hd
    rw [wp_bind, wp_getList, wp_bind, hd.list]
    refine wp_linkedListEntryDestroy hhead ((hd.live _).mpr List.mem_cons_self) ?_
    rw [wp_modify]
    refine hQ _ (fun a => ?_) ?_
    · rw [Option.isNone_iff_eq_none, ← Option.not_isSome_iff_eq_none, isSome_lookup_erase, hd.live]
      rintro ⟨hne, hmem⟩
      exact hne (List.mem_singleton.mp hmem)
    · show s'.freed ++ [s.list.head] = _
      rw [hd.freed]
  let I : List Addr → Nat → Unit → ListState → Prop := fun rest _ _ s' =>
    ∃ pre, L = pre ++ rest ∧ Destroying s pre rest s' ∧ Mine env.tid s'.mutex
  rw [linkedListDestroy, wp_bind]
  refine wp_linkedListForEach (I := I) h hblock (fun hnil _ => ?_) (fun _ hfree => ?_) ?_ ?_ ?_
  · refine hlast _ ⟨rfl, fun a => ?_, fun a ha => absurd ha List.not_mem_nil, ?_⟩
    · rw [← hnil]
      exact h.live a
    · rw [hnil, List.append_nil]
  · exact ⟨[], rfl, ⟨rfl, h.live, fun _ _ => rfl, (List.append_nil _).symm⟩, mine_acquire hfree⟩
  · rintro a rest i - s' ⟨pre, hL, hd, -⟩
    have hmem : a ∈ L := by simp [hL]
    refine ⟨(hd.live a).mpr (List.mem_cons_of_mem _ List.mem_cons_self), h.ne_null hmem, ?_⟩
    rw [hd.node a List.mem_cons_self]
    have hlinks := h.links
    rw [hL] at hlinks
    have hnext := hlinks.next_of_mem
    rw [nextAt_eq (h.live_of_mem hmem)] at hnext
    exact Option.some.inj hnext
  · rintro a rest i - s' ⟨pre, hL, hd, hmine⟩
    have hmem : a ∈ L := by simp [hL]
    have hnodup : (s.list.head :: a :: rest).Nodup := by
      have hall := h.links.nodup
      rw [hL] at hall
      exact hall.sublist (List.Sublist.cons_cons _ (List.sublist_append_right _ _))
    rw [priListDestroyer, wp_bind]
    refine wp_linkedListEntryDestroy (h.ne_null hmem)
      ((hd.live a).mpr (List.mem_cons_of_mem _ List.mem_cons_self)) ?_
    rw [wp_pure]
    exact ⟨hmine, fun _ => ⟨pre ++ [a], by simp [hL], hd.step hnodup, hmine⟩,
      fun hne => absurd rfl hne⟩
  · rintro i - s' ⟨pre, hL, hd, -⟩
    rw [List.append_nil] at hL
    subst hL
    exact hlast _ ⟨hd.list, hd.live, hd.node, hd.freed⟩

end Destroy

/-! ## `freeOnListFree` -/

section FreeOnListFree

variable {cfg : Config} {env : Env} {s s' : Lib} {L : List Addr}

/-- What `plat_free` is given for an entry, and the bytes it finds there. -/
def freedRecord (cfg : Config) (s : Lib) (a : Addr) : Addr × List UInt8 :=
  ((nodeAt s.list.nodes a).data, sanitized cfg (nodeAt s.list.nodes a).size
    (s.heap.bytes (nodeAt s.list.nodes a).data))

theorem wp_freeOnListFree {l : ListState} {E : Stop → ListState → Prop}
    {Q : Addr × ClientHeap → ListState → Prop} {a : Addr} {i : Nat} {h : ClientHeap}
    (hnode : (l.nodes.lookup a).isSome) (hne : (nodeAt l.nodes a).data ≠ NULL)
    (hlive : h.Live (nodeAt l.nodes a).data)
    (hfits : (nodeAt l.nodes a).size.toNat ≤ (h.bytes (nodeAt l.nodes a).data).length)
    (hQ : Q (NULL, { blocks := h.blocks.erase (nodeAt l.nodes a).data
                     freed := h.freed ++ [((nodeAt l.nodes a).data, sanitized cfg
                       (nodeAt l.nodes a).size (h.bytes (nodeAt l.nodes a).data))] }) l) :
    wp (freeOnListFree cfg true a i h) env Q E l := by
  rw [freeOnListFree, if_neg (by simp), wp_bind]
  refine wp_deref_live hnode ?_
  rw [wp_bind, wp_onArg, wp_bind, wp_when]
  have hrest : ∀ h', Sanitized cfg h h' (nodeAt l.nodes a).data (nodeAt l.nodes a).size →
      wp (platFree (nodeAt l.nodes a).data) env
        (fun (_ : Unit) h'' => wp (pure (NULL, h'') : CProg ListState _) env Q E l)
        (fun e _ => E e l) h' := by
    intro h' hsan
    refine wp_platFree (fun hnull => absurd hnull hne)
      (fun _ hdead => absurd (hsan.live.mpr hlive) hdead) fun _ _ => ?_
    rw [wp_pure, hsan.blocks hlive, hsan.freed, hsan.bytes hlive]
    exact hQ
  constructor
  · intro hc
    exact wp_wipe hc (fun hbad => absurd ⟨hlive, hfits⟩ hbad) hrest
  · intro hc
    exact hrest h (sanitized_off hc)

/-- The client's memory once the entries `pre` of `pre ++ rest` are released. -/
structure Releasing (cfg : Config) (s : Lib) (pre rest : List Addr) (h : ClientHeap) : Prop where
  owned : Owned (· ≤ ·) h (rest.map (record s.list))
  bytes : ∀ a ∈ rest, h.bytes (nodeAt s.list.nodes a).data =
    s.heap.bytes (nodeAt s.list.nodes a).data
  freed : h.freed = s.heap.freed ++ pre.map (freedRecord cfg s)

theorem Releasing.step {pre rest : List Addr} {a : Addr} {h : ClientHeap}
    (hr : Releasing cfg s pre (a :: rest) h) :
    Releasing cfg s (pre ++ [a]) rest
      { blocks := h.blocks.erase (nodeAt s.list.nodes a).data
        freed := h.freed ++ [((nodeAt s.list.nodes a).data, sanitized cfg
          (nodeAt s.list.nodes a).size (h.bytes (nodeAt s.list.nodes a).data))] } := by
  have hnodup := hr.owned.nodup
  rw [List.map_cons, List.map_cons, List.nodup_cons] at hnodup
  constructor
  · exact hr.owned.release.congr rfl
  · intro b hb
    have hne : (record s.list b).1 ≠ (record s.list a).1 := fun heq =>
      hnodup.1 (heq ▸ List.mem_map_of_mem (List.mem_map_of_mem hb))
    exact (ClientHeap.bytes_drop_of_ne hne).trans (hr.bytes b (List.mem_cons_of_mem _ hb))
  · show h.freed ++ _ = _
    rw [hr.freed, hr.bytes a List.mem_cons_self, List.map_append, List.append_assoc]
    rfl

/-- `doexit` with the automatic free on: each block is released once, and none is left. -/
theorem wp_doexit {E : Stop → Lib → Prop} {Q : Unit → Lib → Prop} (hb : Base s L)
    (ho : Owned (· ≤ ·) s.heap (L.map (record s.list))) (hfree : s.doFree = true)
    (hblock : ScanBlocks env.tid s.list → ∀ s', E .blocked s')
    (hQ : ∀ s', (∀ p, ¬ s'.heap.Live p) →
      s'.heap.freed = s.heap.freed ++ L.map (freedRecord cfg s) →
      (∀ a, (s'.list.nodes.lookup a).isNone) →
      s'.list.freed = s.list.freed ++ L ++ [s.list.list.head] → Q () s') :
    wp (doexit cfg) env Q E s := by
  -- the second half, from the list as the first half leaves it
  have hdestroy : ∀ l h m, SameList s.list l → ¬ ScanBlocks env.tid l → Releasing cfg s L [] h →
      wp (onList linkedListDestroy) env Q E { s with list := l, heap := h, allocMutex := m } := by
    intro l h m hsame hopen hr
    rw [wp_onList]
    refine wp_linkedListDestroy (hsame.rep hb.rep) (fun hbl => absurd hbl hopen) fun l' hdead hfr =>
      ?_
    refine hQ _ (fun p hp => ?_) hr.freed hdead ?_
    · exact List.not_mem_nil ((hr.owned.live p).mp hp)
    · show l'.freed = _
      rw [hfr, hsame.freed, hsame.head]
  have hstart : Releasing cfg s [] L s.heap := ⟨ho, fun _ _ => rfl, (List.append_nil _).symm⟩
  rw [doexit, wp_bind, wp_onList, linkedListGetSize, wp_bind, wp_getList, wp_pure, wp_bind, wp_when]
  constructor
  · intro hlen
    have hworker : freeOnListFree cfg s.doFree = freeOnListFree cfg true := by rw [hfree]
    rw [wp_bind, wp_get, wp_bind, wp_onList, hworker]
    refine wp_linkedListForEach_visit
      (J := fun pre h _ => ∀ rest, L = pre ++ rest → Releasing cfg s pre rest h) hb.rep
      (fun hbl => hblock hbl _) (fun _ _ _ _ hJ => hJ) (fun rest hrest => ?_)
      (fun pre a rest i h l hL hsame hJ => ?_) fun hopen h l hsame hJ hmutex => ?_
    · obtain rfl : L = rest := hrest
      exact hstart
    · have hr := hJ _ hL
      have hmem : a ∈ L := by simp [hL]
      have hrecord := hr.owned.size _ List.mem_cons_self
      have hlive := hr.owned.live_of_mem (r := record s.list a) List.mem_cons_self
      refine wp_freeOnListFree ((hsame.rep hb.rep).live_of_mem hmem) ?_ ?_ ?_ ⟨rfl, rfl,
        SameList.refl _, fun rest' hrest' => ?_⟩
      · rw [hsame.data]
        exact fun hnull => hr.owned.wellFormed.null (hnull ▸ hlive)
      · rw [hsame.data]
        exact hlive
      · rw [hsame.data, hsame.size]
        exact hrecord
      · obtain rfl : rest = rest' := by
          rw [hL, List.append_assoc] at hrest'
          exact (List.cons.inj (List.append_cancel_left hrest')).2
        rw [hsame.data, hsame.size]
        exact hr.step
    · rw [wp_modify, wp_bind, wp_modify]
      refine hdestroy l h none hsame ?_ (hJ [] (List.append_nil _).symm)
      exact not_scanBlocks_scanned hopen hsame.len hmutex
  · intro hlen
    rw [not_not] at hlen
    have hnil : L = [] := List.length_eq_zero_iff.mp (Nat.le_zero.mp (hlen ▸ hb.rep.len))
    rw [wp_bind, wp_modify]
    refine hdestroy s.list s.heap none (SameList.refl _) (fun hbl => hbl.1 hlen) ?_
    rw [hnil] at hstart ⊢
    exact hstart

end FreeOnListFree

end LibSafetynet
