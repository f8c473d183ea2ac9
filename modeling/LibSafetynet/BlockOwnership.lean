import LibSafetynet.Logic.Intervals
import LibSafetynet.Reachability

/-!
# Who owns the client's blocks

While the client leaves its blocks to the library, the recorded addresses are
exactly the allocated ones, each recorded once. `Owned R` adds a relation `R` between
the recorded size of a block and its length: `≤` survives every run, equality only
as long as `sn_calloc` is not asked for several elements. The changes of the library
are brought down to five kinds of entry in a ledger of blocks (`Effect`), and the
invariants are proved of these.

What an `sn_free` takes away depends on its lookup; `FreesRight` asks that it finds
the entry of the block.
-/

namespace LibSafetynet

open Logic Prog PlatMutex ListState AllocManager

/-! ## Blocks in the address space -/

namespace ClientHeap

/-- Blocks lie in the address space and off each other. -/
structure WellFormed (h : ClientHeap) : Prop where
  null : ¬ h.Live NULL
  fits : ∀ p, h.Live p → p + (h.bytes p).length ≤ addressSpace
  apart : ∀ p q, h.Live p → h.Live q → p ≠ q →
    p + (h.bytes p).length ≤ q ∨ q + (h.bytes q).length ≤ p

variable {h h' : ClientHeap} {a : Addr} {bs : List UInt8}

theorem Live.congr (hblocks : h'.blocks = h.blocks) (p : Addr) : h'.Live p ↔ h.Live p := by
  rw [Live, Live, hblocks]

theorem bytes_congr (hblocks : h'.blocks = h.blocks) (p : Addr) : h'.bytes p = h.bytes p := by
  rw [bytes, bytes, hblocks]

theorem Admits.apart {n : Nat} (ha : h.Admits a n) {p : Addr} (hp : h.Live p) :
    p + (h.bytes p).length ≤ a ∨ a + n ≤ p :=
  ha.2.2.2 p (live_iff_mem_keys.mp hp)

theorem wellFormed_empty : WellFormed ⟨∅, []⟩ := by
  have hdead : ∀ p, ¬ (⟨∅, []⟩ : ClientHeap).Live p := fun p => by simp [Live]
  exact ⟨hdead _, fun p hp => absurd hp (hdead p), fun p _ hp => absurd hp (hdead p)⟩

theorem WellFormed.place (hw : h.WellFormed) (ha : h.Admits a bs.length) :
    (h.place a bs).WellFormed := by
  constructor
  · rw [live_place]
    rintro (hnull | hlive)
    · exact ha.ne_null hnull.symm
    · exact hw.null hlive
  · intro p hp
    by_cases hpa : p = a
    · rw [hpa, bytes_place_self]
      exact ha.2.1
    · rw [bytes_place_of_ne hpa]
      exact hw.fits p ((live_place.mp hp).resolve_left hpa)
  · intro p q hp hq hne
    by_cases hpa : p = a
    · -- the new block is off the block at `q`
      have hqa : q ≠ a := fun hqa => hne (hpa.trans hqa.symm)
      have hoff := ha.apart ((live_place.mp hq).resolve_left hqa)
      rw [hpa, bytes_place_self, bytes_place_of_ne hqa]
      exact hoff.symm
    · have hplive := (live_place.mp hp).resolve_left hpa
      by_cases hqa : q = a
      · rw [hqa, bytes_place_self, bytes_place_of_ne hpa]
        exact ha.apart hplive
      · rw [bytes_place_of_ne hpa, bytes_place_of_ne hqa]
        exact hw.apart p q hplive ((live_place.mp hq).resolve_left hqa) hne

theorem WellFormed.drop (hw : h.WellFormed) (a : Addr) : (h.drop a).WellFormed := by
  constructor
  · exact fun hlive => hw.null (live_drop.mp hlive).2
  · intro p hp
    obtain ⟨hpa, hlive⟩ := live_drop.mp hp
    rw [bytes_drop_of_ne hpa]
    exact hw.fits p hlive
  · intro p q hp hq hne
    obtain ⟨hpa, hplive⟩ := live_drop.mp hp
    obtain ⟨hqa, hqlive⟩ := live_drop.mp hq
    rw [bytes_drop_of_ne hpa, bytes_drop_of_ne hqa]
    exact hw.apart p q hplive hqlive hne

/-- New bytes in an allocated block take no new room. -/
theorem WellFormed.write (hw : h.WellFormed) (hlive : h.Live a)
    (hlen : bs.length = (h.bytes a).length) : (h.place a bs).WellFormed := by
  have hlive' : ∀ p, (h.place a bs).Live p → h.Live p := fun p hp => by
    rcases live_place.mp hp with rfl | hp
    · exact hlive
    · exact hp
  have hlength : ∀ p, ((h.place a bs).bytes p).length = (h.bytes p).length := fun p => by
    by_cases hpa : p = a
    · rw [hpa, bytes_place_self, hlen]
    · rw [bytes_place_of_ne hpa]
  constructor
  · exact fun hnull => hw.null (hlive' _ hnull)
  · intro p hp
    rw [hlength]
    exact hw.fits p (hlive' p hp)
  · intro p q hp hq hne
    rw [hlength, hlength]
    exact hw.apart p q (hlive' p hp) (hlive' q hq) hne

theorem WellFormed.congr (hw : h.WellFormed) (hblocks : h'.blocks = h.blocks) : h'.WellFormed := by
  constructor
  · rw [Live.congr hblocks]
    exact hw.null
  · intro p hp
    rw [bytes_congr hblocks]
    exact hw.fits p ((Live.congr hblocks p).mp hp)
  · intro p q hp hq hne
    rw [bytes_congr hblocks, bytes_congr hblocks]
    exact hw.apart p q ((Live.congr hblocks p).mp hp) ((Live.congr hblocks q).mp hq) hne

end ClientHeap

/-! ## Every change keeps the blocks apart -/

section Changes

variable {cfg : Config} {env : Env} {op : Op} {s₀ s s' : Lib} {L L' : List Addr}
  {h h' : ClientHeap} {data p : Addr} {size : UInt64}

theorem HeapFreed.cases (hf : HeapFreed cfg h h' data size) (hnull : ¬ h.Live NULL) :
    h' = h ∨ h'.blocks = (h.drop data).blocks := by
  by_cases hdata : data = NULL
  · exact Or.inl (hf.null hdata hnull)
  · refine Or.inr ?_
    rw [(hf.live hdata).2.2]
    rfl

/-- `sn_free` leaves every other block allocated. -/
theorem HeapFreed.live_of_ne (hf : HeapFreed cfg h h' data size) (hnull : ¬ h.Live NULL)
    (hne : p ≠ data) (hlive : h.Live p) : h'.Live p := by
  rcases hf.cases hnull with rfl | hblocks
  · exact hlive
  · exact (ClientHeap.Live.congr hblocks p).mpr (ClientHeap.live_drop.mpr ⟨hne, hlive⟩)

theorem Trans.wellFormed (h : Trans cfg env op s₀ L s L' s') (hw : s.heap.WellFormed) :
    s'.heap.WellFormed := by
  cases h with
  | quiet hq =>
    rw [hq.heap]
    exact hw
  | pass _ _ _ => exact hw
  | cleared _ _ hheap | registered _ _ _ _ hheap | tagged _ _ _ _ hheap =>
    rw [hheap]
    exact hw
  | put _ _ _ _ _ => exact hw
  | granted _ hgr =>
    rw [hgr.heap]
    exact hw.place hgr.admits
  | realloced _ hq hg _ hlen hheap _ _ =>
    have hadm := hg.admits
    rw [← hlen, ← hq.heap] at hadm
    rw [hheap]
    exact (hw.drop _).place hadm
  | wrote hlive hlen _ _ hheap =>
    rw [hheap]
    exact hw.write hlive hlen
  | freed _ _ _ hfree _ _ _ =>
    rcases hfree.cases hw.null with heq | hblocks
    · rw [heq]
      exact hw
    · exact (hw.drop _).congr hblocks
  | clientAlloc _ hadm _ _ hheap =>
    rw [hheap]
    exact hw.place hadm
  | clientFree _ _ _ _ hheap =>
    rw [hheap]
    exact hw.drop _

theorem Reachable.wellFormed (h : Reachable cfg s) : s.heap.WellFormed := by
  obtain ⟨s₀, ls, h₀, hrun⟩ := h
  obtain ⟨_, _, _, hw⟩ := run_keeps (P := fun _ _ => True) (I := fun _ s => s.heap.WellFormed)
    (fun s hl => hl.heap ▸ ClientHeap.wellFormed_empty)
    (fun _ _ _ _ _ _ _ {_ _ _ _} _ hw ht => ht.wellFormed hw) h₀
    (Along.of_forall (fun _ _ _ => trivial) _) hrun
  exact hw

end Changes

/-! ## Records -/

/-- What the library records of a block: its address and its size. -/
abbrev Record := Addr × UInt64

/-- The record kept in a node. -/
def record (l : ListState) (a : Addr) : Record := ((nodeAt l.nodes a).data, (nodeAt l.nodes a).size)

section Records

variable {l l' : ListState} {L L' : List Addr} {p : Addr}

/-- Records are read off the items. -/
theorem records_congr (h : L.map (item l') = L'.map (item l)) :
    L.map (record l') = L'.map (record l) := by
  have hread := congrArg (List.map fun i : Item => (i.data, i.size)) h
  rw [List.map_map, List.map_map] at hread
  exact hread

theorem SameList.records (h : SameList l l') (L : List Addr) :
    L.map (record l') = L.map (record l) :=
  records_congr (h.items L)

theorem Pushed.records {a data : Addr} {size tid : UInt64} (h : Pushed l l' L a data size tid) :
    (L ++ [a]).map (record l') = L.map (record l) ++ [(data, size)] := by
  rw [List.map_append, List.map_singleton]
  congr 1
  · refine List.map_congr_left fun b hb => ?_
    have hne : b ≠ a := fun hba => h.fresh (List.mem_cons_of_mem _ (hba ▸ hb))
    have hold := h.old b hne
    exact congrArg (fun e : Payload => (e.data, e.size)) hold
  · have hnew := h.new
    exact congrArg (fun e : Payload => [(e.data, e.size)]) hnew

/-- A rewritten node in its place. -/
theorem Rewritten.records {A B : List Addr} {a : Addr} {f : LinkedListEntry → LinkedListEntry}
    (h : Rewritten l l' a f) (hL : (A ++ a :: B).Nodup) :
    (A ++ a :: B).map (record l') =
      A.map (record l) ++ record l' a :: B.map (record l) := by
  have hnotMem : a ∉ A ++ B := (List.nodup_cons.mp (List.nodup_middle.mp hL)).1
  have hkeep : ∀ b, b ≠ a → record l' b = record l b := fun b hb => by
    rw [record, record, h.other b hb]
  rw [List.map_append, List.map_cons]
  congr 1
  · refine List.map_congr_left fun b hb => hkeep b ?_
    rintro rfl
    exact hnotMem (List.mem_append_left _ hb)
  · congr 1
    refine List.map_congr_left fun b hb => hkeep b ?_
    rintro rfl
    exact hnotMem (List.mem_append_right _ hb)

/-- Which entry is removed, when each address is recorded once. -/
theorem RemovedByPtr.items_split (h : RemovedByPtr l l' L p L') (hrep : l.Rep L)
    (hnodup : ((L.map (record l)).map Prod.fst).Nodup) {e : Addr} (he : e ∈ L)
    (hdata : (nodeAt l.nodes e).data = p) :
    ∃ A B, L = A ++ e :: B ∧ L' = A ++ B ∧ (A ++ B).map (item l') = (A ++ B).map (item l) := by
  cases h with
  | none hnone _ =>
    have hno := (findPtr_eq_null fun h0 => hrep.ne_null h0 rfl).mp hnone
    exact absurd hdata (hno e he)
  | @found l₁ A B a hL hfind hsame hrem =>
    -- the entry that was removed is the only one for `p`
    have hap := (findPtr_split hrep hL hfind).1
    have hae : a = e := by
      rw [List.map_map] at hnodup
      exact List.inj_on_of_nodup_map hnodup (by simp [hL]) he (hap.trans hdata.symm)
    subst hae
    have hnotMem : a ∉ A ++ B :=
      (List.nodup_cons.mp (List.nodup_middle.mp (hL ▸ hrep.links.tail_nodup))).1
    refine ⟨A, B, hL, rfl, ?_⟩
    rw [← hsame.items]
    refine List.map_congr_left fun b hb => ?_
    have hne : b ≠ a := fun hba => hnotMem (hba ▸ hb)
    exact congrArg (fun e : Payload => Item.mk b e.data e.size e.tid e.blockId) (hrem.old b hne)

end Records

/-! ## Ownership -/

/-- The records are exactly the allocated blocks, each once, and `R` holds between
the recorded size and the length of each. -/
structure Owned (R : Nat → Nat → Prop) (h : ClientHeap) (rs : List Record) : Prop where
  wellFormed : h.WellFormed
  nodup : (rs.map Prod.fst).Nodup
  live : ∀ p, h.Live p ↔ p ∈ rs.map Prod.fst
  size : ∀ r ∈ rs, R r.2.toNat (h.bytes r.1).length

section Owned

variable {R : Nat → Nat → Prop} {h h' : ClientHeap} {rs rs' : List Record} {r : Record}
  {bs : List UInt8} {p : Addr}

theorem Owned.live_of_mem (ho : Owned R h rs) (hr : r ∈ rs) : h.Live r.1 :=
  (ho.live _).mpr (List.mem_map_of_mem hr)

theorem owned_empty : Owned R ⟨∅, []⟩ [] :=
  ⟨ClientHeap.wellFormed_empty, List.nodup_nil, fun p => by simp [ClientHeap.Live],
    fun _ hr => absurd hr List.not_mem_nil⟩

theorem Owned.perm (ho : Owned R h rs) (hperm : rs.Perm rs') : Owned R h rs' := by
  have hfst := hperm.map Prod.fst
  exact ⟨ho.wellFormed, hfst.nodup_iff.mp ho.nodup, fun p => (ho.live p).trans hfst.mem_iff,
    fun r hr => ho.size r (hperm.mem_iff.mpr hr)⟩

theorem Owned.congr (ho : Owned R h rs) (hblocks : h'.blocks = h.blocks) : Owned R h' rs := by
  refine ⟨ho.wellFormed.congr hblocks, ho.nodup, fun p => ?_, fun r hr => ?_⟩
  · rw [ClientHeap.Live.congr hblocks]
    exact ho.live p
  · rw [ClientHeap.bytes_congr hblocks]
    exact ho.size r hr

theorem Owned.allocate (ho : Owned R h rs) (ha : h.Admits r.1 bs.length)
    (hR : R r.2.toNat bs.length) : Owned R (h.place r.1 bs) (r :: rs) := by
  have hnew : ∀ q ∈ rs, q.1 ≠ r.1 := fun q hq heq => ha.not_live (heq ▸ ho.live_of_mem hq)
  constructor
  · exact ho.wellFormed.place ha
  · rw [List.map_cons, List.nodup_cons]
    exact ⟨fun hmem => ha.not_live ((ho.live _).mpr hmem), ho.nodup⟩
  · intro p
    rw [ClientHeap.live_place, ho.live, List.map_cons, List.mem_cons]
  · intro q hq
    rcases List.mem_cons.mp hq with rfl | hq
    · rw [ClientHeap.bytes_place_self]
      exact hR
    · rw [ClientHeap.bytes_place_of_ne (hnew q hq)]
      exact ho.size q hq

theorem Owned.release (ho : Owned R h (r :: rs)) : Owned R (h.drop r.1) rs := by
  have hnodup := ho.nodup
  rw [List.map_cons, List.nodup_cons] at hnodup
  constructor
  · exact ho.wellFormed.drop _
  · exact hnodup.2
  · intro p
    rw [ClientHeap.live_drop, ho.live, List.map_cons, List.mem_cons]
    constructor
    · rintro ⟨hne, hmem⟩
      exact hmem.resolve_left hne
    · intro hmem
      exact ⟨fun heq => hnodup.1 (heq ▸ hmem), Or.inr hmem⟩
  · intro q hq
    have hne : q.1 ≠ r.1 := fun heq => hnodup.1 (heq ▸ List.mem_map_of_mem hq)
    rw [ClientHeap.bytes_drop_of_ne hne]
    exact ho.size q (List.mem_cons_of_mem _ hq)

theorem Owned.write (ho : Owned R h rs) (hlive : h.Live p)
    (hlen : bs.length = (h.bytes p).length) : Owned R (h.place p bs) rs := by
  refine ⟨ho.wellFormed.write hlive hlen, ho.nodup, fun q => ?_, fun q hq => ?_⟩
  · rw [ClientHeap.live_place, ← ho.live]
    exact or_iff_right_of_imp fun heq => heq ▸ hlive
  · by_cases hqp : q.1 = p
    · rw [hqp, ClientHeap.bytes_place_self, hlen, ← hqp]
      exact ho.size q hq
    · rw [ClientHeap.bytes_place_of_ne hqp]
      exact ho.size q hq

/-- The recorded sizes add up to less than the address space. -/
theorem Owned.sum_lt (ho : Owned (· = ·) h rs) :
    (rs.map fun r => r.2.toNat).sum < addressSpace := by
  have hlen : ∀ r ∈ rs, r.2.toNat = (h.bytes r.1).length := ho.size
  refine @sum_len_lt Record Prod.fst (fun r => r.2.toNat) rs addressSpace (Nat.two_pow_pos 64) ?_
    (fun r hr => ?_) fun r hr => ?_
  · refine (List.pairwise_map.mp ho.nodup).imp_of_mem fun {q r} hq hr hne => ?_
    have hoff := ho.wellFormed.apart q.1 r.1 (ho.live_of_mem hq) (ho.live_of_mem hr) hne
    rw [← hlen q hq, ← hlen r hr] at hoff
    exact hoff
  · refine Nat.pos_of_ne_zero fun (hnull : r.1 = NULL) => ho.wellFormed.null ?_
    exact hnull ▸ ho.live_of_mem hr
  · rw [hlen r hr]
    exact ho.wellFormed.fits r.1 (ho.live_of_mem hr)

theorem Loaded.owned {s : Lib} (h : Loaded s) : Owned R s.heap [] := by
  rw [h.heap]
  exact owned_empty

end Owned

/-! ## The calls that break ownership -/

/-- The client leaves its blocks to the library. -/
def Op.Manages : Op → Prop
  | .register _ | .clientMalloc _ | .clientFree _ => False
  | _ => True

/-- `sn_register_size` of a block that is not tracked. -/
def RegistersNew (l : Env × Op) (s : Lib) : Prop :=
  match l.2 with
  | .registerSize ptr size =>
    ptr ≠ NULL ∧ size ≠ 0 ∧ ∀ a ∈ s.list.entries, (nodeAt s.list.nodes a).data ≠ ptr
  | _ => False

/-- `sn_calloc` of several elements is granted. -/
def GrantsMore (l : Env × Op) (s : Lib) : Prop :=
  match l.2 with
  | .calloc num size => num ≠ 0 ∧ num ≠ 1 ∧ size ≠ 0 ∧
      memmanCanAllocateBasedOnLimitAndSize s.manager (size * num) ∧
      s.heap.Admits l.1.block (num.toNat * size.toNat)
  | _ => False

/-- The lookup of `sn_free` finds the entry of the block, in every change the call makes. -/
def FreesRight (l : Env × Op) (s₀ s : Lib) (L : List Addr) : Prop :=
  ∀ p e, Lookup s L p e → e ∈ L →
    (l.2 = .free p ∧ s = s₀ ∨ p = l.1.block ∧ ∃ file, l.2 = .mountFileToRam file) →
    (nodeAt s.list.nodes e).data = p

/-! ## The ledger -/

/-- What a change does to the client's memory, the records and the usage counter.
`more` is whether the call may be granted more than it records. -/
inductive Effect (more : Prop) (h : ClientHeap) (rs : List Record) (u : UInt64) :
    ClientHeap → List Record → UInt64 → Prop
  | kept : Effect more h rs u h rs u
  | wrote {p : Addr} {bs : List UInt8} : h.Live p → bs.length = (h.bytes p).length →
      Effect more h rs u (h.place p bs) rs u
  | allocated {r : Record} {bs : List UInt8} {rs' : List Record} : h.Admits r.1 bs.length →
      (bs.length = r.2.toNat ∨ more ∧ r.2.toNat ≤ bs.length) → rs'.Perm (r :: rs) →
      Effect more h rs u (h.place r.1 bs) rs' (u + UInt64.ofNat bs.length)
  | released {r : Record} {h' : ClientHeap} {rs' : List Record} : rs.Perm (r :: rs') →
      h'.blocks = h.blocks.erase r.1 → Effect more h rs u h' rs' (u - r.2)
  | resized {r q : Record} {bs : List UInt8} {rest rs' : List Record} : rs.Perm (r :: rest) →
      (h.drop r.1).Admits q.1 bs.length → bs.length = q.2.toNat → rs'.Perm (q :: rest) →
      Effect more h rs u ((h.drop r.1).place q.1 bs) rs' (u - r.2 + q.2)

section Ledger

variable {cfg : Config} {l : Env × Op} {s₀ s s' : Lib} {L L' : List Addr}

/-- A granted allocation records the length of the block, or less of it when
`sn_calloc` is asked for several elements. -/
theorem granted_size {size : UInt64} {bytes : List UInt8}
    (hsize : bytes.length = size.toNat ∨ ∃ num, l.2 = .calloc num size ∧ s = s₀ ∧ num ≠ 0 ∧
      memmanCanAllocateBasedOnLimitAndSize s₀.manager (size * num) ∧
      bytes = List.replicate (num.toNat * size.toNat) 0) (hgr : Granted l.1 s s' L size bytes) :
    bytes.length = size.toNat ∨ GrantsMore l s₀ ∧ size.toNat ≤ bytes.length := by
  rcases hsize with hlen | ⟨num, hcalloc, rfl, hnum, hcan, hbytes⟩
  · exact Or.inl hlen
  have hlen : bytes.length = num.toNat * size.toNat := by rw [hbytes, List.length_replicate]
  by_cases hone : num = 1
  · refine Or.inl ?_
    rw [hlen, hone]
    exact Nat.one_mul _
  · have hpos : num.toNat ≠ 0 := fun h0 => hnum (UInt64.toNat_inj.mp h0)
    refine Or.inr ⟨?_, ?_⟩
    · rw [GrantsMore, hcalloc]
      refine ⟨hnum, hone, fun h0 => hgr.nonempty ?_, hcan, hlen ▸ hgr.admits⟩
      rw [hbytes, h0]
      rfl
    · rw [hlen]
      exact Nat.le_mul_of_pos_left _ (Nat.pos_of_ne_zero hpos)

/-- **Every change is an entry in the ledger**, for calls that register no block and
free the right one. -/
theorem Trans.effect (h : Trans cfg l.1 l.2 s₀ L s L' s') (hb : Base s L) (hop : l.2.Manages)
    (hreg : ¬ RegistersNew l s₀) (hright : FreesRight l s₀ s L)
    (hnodup : ((L.map (record s.list)).map Prod.fst).Nodup) :
    Effect (GrantsMore l s₀) s.heap (L.map (record s.list)) s.manager.globalMemoryUsage
      s'.heap (L'.map (record s'.list)) s'.manager.globalMemoryUsage := by
  cases h with
  | quiet hq =>
    rw [hq.list.records, hq.heap, hq.usage]
    exact .kept
  | pass _ _ _ =>
    rw [(sameList_worked hb.rep).records, (refilled_worked hb.rep).rest]
    exact .kept
  | cleared hsame hdrop hheap =>
    rw [hsame.records, hheap, hdrop.rest]
    exact .kept
  | put _ _ hfound _ _ =>
    rw [(sameList_put (hb.rep.live_of_mem (findPtr_mem hfound).1)).records]
    exact .kept
  | @granted _ size bytes hsize hgr =>
    rw [hgr.pushed.records, hgr.heap, hgr.manager]
    exact .allocated (r := (l.1.block, size)) hgr.admits (granted_size hsize hgr)
      (List.perm_append_singleton _ _)
  | registered hrep hwhich _ _ _ =>
    exfalso
    rcases hwhich with ⟨hregister, -⟩ | ⟨hregister, hp, hsize, hnone⟩
    · rw [hregister] at hop
      exact hop
    · refine hreg ?_
      rw [RegistersNew, hregister, hrep.entries_eq]
      exact ⟨hp, hsize, (findPtr_eq_null fun h0 => hrep.ne_null h0 rfl).mp hnone⟩
  | @realloced _ p newSize bytes _ hq hg _ hlen hheap hrw hm =>
    obtain ⟨hmem, hdata⟩ := findPtr_mem hg.found
    have hadmits : (s.heap.drop p).Admits l.1.block bytes.length := by
      rw [hlen, hq.heap]
      exact hg.admits
    clear hg
    generalize findPtr s₀.list L p = a at hmem hdata hrw hm
    obtain ⟨A, B, rfl⟩ := List.append_of_mem hmem
    have hold : record s.list a = (p, (nodeAt s.list.nodes a).size) := by
      rw [record, hq.list.data, hdata]
    have hnew : record s'.list a = (l.1.block, newSize) := by
      rw [record, hrw.node]
    rw [hrw.records hb.rep.links.tail_nodup, List.map_append, List.map_cons, hold, hnew, hheap, hm]
    exact .resized (r := (p, _)) (q := (l.1.block, newSize)) List.perm_middle hadmits hlen
      List.perm_middle
  | @tagged _ a _ _ _ ha hrw hm hheap =>
    have hrecord : L.map (record s'.list) = L.map (record s.list) := by
      refine List.map_congr_left fun b _ => ?_
      by_cases hba : b = a
      · rw [hba, record, record, hrw.node]
      · rw [record, record, hrw.other b hba]
    rw [hrecord, hheap, hm]
    exact .kept
  | wrote hlive hlen hl hm hheap =>
    rw [hl, hheap, hm]
    exact .wrote hlive hlen
  | @freed _ _ p e hp hlook he hheap hdrop hrem hwhich =>
    have hdata := hright p e hlook he hwhich
    obtain ⟨A, B, rfl, rfl, hitems⟩ := hrem.items_split hb.rep hnodup he hdata
    obtain ⟨-, -, hheap⟩ := hheap.live (hdata.symm ▸ hp)
    rw [records_congr hitems, hdrop.rest, List.map_append, List.map_append, List.map_cons]
    refine .released (r := record s.list e) List.perm_middle ?_
    rw [hheap]
    rfl
  | clientAlloc hclient _ _ _ _ =>
    rw [hclient] at hop
    exact hop.elim
  | clientFree hclient _ _ _ _ =>
    rw [hclient] at hop
    exact hop.elim

variable {R : Nat → Nat → Prop} {more : Prop} {h h' : ClientHeap} {rs rs' : List Record}
  {u u' : UInt64}

/-- The ledger keeps ownership. -/
theorem Effect.owned (he : Effect more h rs u h' rs' u') (hrefl : ∀ n, R n n)
    (hmore : (∀ n m, n ≤ m → R n m) ∨ ¬ more) (ho : Owned R h rs) : Owned R h' rs' := by
  cases he with
  | kept => exact ho
  | wrote hlive hlen => exact ho.write hlive hlen
  | @allocated r bs _ hadm hsize hperm =>
    refine Owned.perm (ho.allocate hadm ?_) hperm.symm
    rcases hsize with heq | ⟨hm, hle⟩
    · rw [heq]
      exact hrefl _
    · exact hmore.elim (fun hR => hR _ _ hle) fun hno => absurd hm hno
  | released hperm hblocks => exact (ho.perm hperm).release.congr hblocks
  | resized hperm hadm hlen hperm' =>
    refine Owned.perm ((ho.perm hperm).release.allocate hadm ?_) hperm'.symm
    rw [hlen]
    exact hrefl _

end Ledger

end LibSafetynet
