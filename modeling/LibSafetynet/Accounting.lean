import LibSafetynet.BlockOwnership

/-!
# Memory accounting

The usage counter equals the sum of the recorded sizes as long as every entry came
with its size counted. Two calls break that: an `sn_calloc` of several elements is
counted in full and recorded as one element, and `sn_register_size` records a block
that nobody counts. A third takes a size out twice or from the wrong entry: `sn_free`
of a block that `sn_realloc` moved while a slot held its entry (`FreesStale`).
-/

namespace LibSafetynet

open Logic Prog PlatMutex ListState AllocManager

/-! ## Totals -/

/-- The recorded sizes, added up. -/
def total (rs : List Record) : Nat := (rs.map fun r => r.2.toNat).sum

/-- The part of the total that one thread's entries make up. -/
def threadTotal (l : ListState) (L : List Addr) (tid : UInt64) : Nat :=
  (L.map fun a => if (nodeAt l.nodes a).tid = tid then (nodeAt l.nodes a).size.toNat else 0).sum

section Totals

variable {rs rs' : List Record} {r : Record} {l l' : ListState} {L : List Addr}

@[simp] theorem total_cons : total (r :: rs) = r.2.toNat + total rs := List.sum_cons

theorem total_perm (h : rs.Perm rs') : total rs = total rs' := (h.map _).sum_eq

theorem le_total (h : r ∈ rs) : r.2.toNat ≤ total rs :=
  List.single_le_sum (fun _ _ => Nat.zero_le _) _ (List.mem_map_of_mem h)

theorem total_records :
    total (L.map (record l)) = (L.map fun a => (nodeAt l.nodes a).size.toNat).sum := by
  rw [total, List.map_map]
  rfl

theorem threadTotal_le (tid : UInt64) : threadTotal l L tid ≤ total (L.map (record l)) := by
  rw [total_records]
  refine List.sum_le_sum fun a _ => ?_
  split_ifs
  · exact Nat.le_refl _
  · exact Nat.zero_le _

theorem SameList.threadTotal (h : SameList l l') (L : List Addr) (tid : UInt64) :
    threadTotal l' L tid = threadTotal l L tid := by
  unfold LibSafetynet.threadTotal
  simp only [h.tid, h.size]

/-- The threads' parts make up the whole. -/
theorem sum_threadTotal {T : Finset UInt64} (hT : ∀ a ∈ L, (nodeAt l.nodes a).tid ∈ T) :
    ∑ tid ∈ T, threadTotal l L tid = total (L.map (record l)) := by
  rw [total_records]
  induction L with
  | nil => exact Finset.sum_const_zero
  | cons a L ih =>
    have hhead := hT a List.mem_cons_self
    have htail := ih fun b hb => hT b (List.mem_cons_of_mem _ hb)
    have hsplit : ∀ tid, threadTotal l (a :: L) tid =
        (if (nodeAt l.nodes a).tid = tid then (nodeAt l.nodes a).size.toNat else 0) +
          threadTotal l L tid := fun _ => List.sum_cons
    simp only [hsplit]
    rw [Finset.sum_add_distrib, htail, Finset.sum_ite_eq, if_pos hhead, List.map_cons,
      List.sum_cons]

end Totals

/-- The counter after each entry of the ledger, while the recorded sizes are the lengths. -/
theorem Effect.usage {more : Prop} {h h' : ClientHeap} {rs rs' : List Record} {u u' : UInt64}
    (he : Effect more h rs u h' rs' u') (hmore : ¬ more) (ho : Owned (· = ·) h rs)
    (hu : u.toNat = total rs) : u'.toNat = total rs' := by
  have hroom : total rs' < 2 ^ 64 := (he.owned (fun _ => rfl) (Or.inr hmore) ho).sum_lt
  cases he with
  | kept => exact hu
  | wrote _ _ => exact hu
  | @allocated r bs _ _ hsize hperm =>
    have hlen : bs.length = r.2.toNat := hsize.resolve_right fun hm => hmore hm.1
    have hsum : total rs' = r.2.toNat + total rs := (total_perm hperm).trans total_cons
    rw [hlen, UInt64.ofNat_toNat, UInt64.toNat_add, hu]
    omega
  | @released r _ _ hperm _ =>
    have hsum : total rs = r.2.toNat + total rs' := (total_perm hperm).trans total_cons
    have hle : r.2 ≤ u := UInt64.le_iff_toNat_le.mpr (by omega)
    rw [UInt64.toNat_sub_of_le _ _ hle]
    omega
  | @resized r r' _ rest _ hperm _ _ hperm' =>
    have hsum : total rs = r.2.toNat + total rest := (total_perm hperm).trans total_cons
    have hsum' : total rs' = r'.2.toNat + total rest := (total_perm hperm').trans total_cons
    have hle : r.2 ≤ u := UInt64.le_iff_toNat_le.mpr (by omega)
    rw [UInt64.toNat_add, UInt64.toNat_sub_of_le _ _ hle]
    omega

/-! ## The calls that unbalance the account -/

/-- The client leaves its blocks to the library, and no file is mounted. -/
def Op.Counts : Op → Prop
  | .register _ | .clientMalloc _ | .clientFree _ | .mountFileToRam _ => False
  | _ => True

instance : DecidablePred Op.Counts := fun op => by
  apply Op.casesOn (motive := fun op => Decidable op.Counts) op <;> intros <;>
    first | exact instDecidableTrue | exact instDecidableFalse

/-- `sn_free` of the old or of the new address of a block that was moved while a
slot held its entry. -/
def FreesStale (l : Env × Op) (s : Lib) : Prop :=
  match l.2 with
  | .free ptr => ∃ i, (s.manager.cacheList i).value ∈ s.list.entries ∧
      (nodeAt s.list.nodes (s.manager.cacheList i).value).data ≠ (s.manager.cacheList i).key ∧
      (ptr = (s.manager.cacheList i).key ∨
        ptr = (nodeAt s.list.nodes (s.manager.cacheList i).value).data)
  | _ => False

/-- The call records what it counts. -/
structure CountsRight (l : Env × Op) (s : Lib) : Prop where
  calloc : ¬ GrantsMore l s
  register : ¬ RegistersNew l s
  free : ¬ FreesStale l s

/-- Every slot that is not empty holds an entry, under whatever key. -/
def SlotsHeld (L : List Addr) (s : Lib) : Prop :=
  ∀ i, s.manager.cacheList i ≠ .empty → (s.manager.cacheList i).value ∈ L

/-- The invariant of a run that records what it counts. -/
structure Balanced (L : List Addr) (s : Lib) : Prop where
  owned : Owned (· = ·) s.heap (L.map (record s.list))
  usage : s.manager.globalMemoryUsage.toNat = total (L.map (record s.list))
  slots : SlotsHeld L s

section Kept

variable {cfg : Config} {env : Env} {l : Env × Op} {s₀ s s' : Lib} {L₀ L L' : List Addr}

theorem SlotsHeld.of_slots {m' : AllocManager} (h : SlotsHeld L s) (hm : s'.manager = m')
    (hslot : ∀ i, m'.cacheList i = s.manager.cacheList i ∨ m'.cacheList i = .empty ∨
      (m'.cacheList i).value ∈ L') (hsub : ∀ a ∈ L, a ∈ L') : SlotsHeld L' s' := by
  intro i hi
  rw [hm] at hi ⊢
  rcases hslot i with heq | hempty | hmem
  · rw [heq] at hi ⊢
    exact hsub _ (h i hi)
  · exact absurd hempty hi
  · exact hmem

/-- With every slot holding an entry, only the addresses of a stale slot mislead `sn_free`. -/
theorem freesRight_of_not_stale (hb₀ : Base s₀ L) (hop : l.2.Counts) (hsafe : ¬ FreesStale l s₀) :
    FreesRight l s₀ s L := by
  rintro p e hlook he (⟨hfree, rfl⟩ | ⟨-, file, hmount⟩)
  · cases hlook with
    | cached i _ hslot hval =>
      by_contra hdata
      have hkey := (keySlot_eq_some hslot).1
      refine hsafe ?_
      rw [FreesStale, hfree]
      refine ⟨i, ?_, ?_, Or.inl hkey.symm⟩
      · rw [hb₀.rep.entries_eq, hval]
        exact he
      · rw [hval, hkey]
        exact hdata
    | listed _ hfind =>
      rw [← hfind]
      exact (findPtr_mem (hfind ▸ hb₀.rep.ne_null he)).2
  · rw [hmount] at hop
    exact hop.elim

theorem SlotsHeld.mono (h : SlotsHeld L s) (hslots : s'.manager.cacheList = s.manager.cacheList)
    (hsub : ∀ a ∈ L, a ∈ L') : SlotsHeld L' s' :=
  h.of_slots rfl (fun i => Or.inl (congrFun hslots i)) hsub

/-- Slots lose their entry only when `sn_free` is given an address it is not cached under. -/
theorem Trans.slotsHeld (h : Trans cfg l.1 l.2 s₀ L s L' s') (hb₀ : Base s₀ L₀) (hb : Base s L)
    (hop : l.2.Counts) (hsafe : ¬ FreesStale l s₀)
    (hnodup : ((L.map (record s.list)).map Prod.fst).Nodup) (hs : SlotsHeld L s) :
    SlotsHeld L' s' := by
  cases h with
  | quiet hq => exact hs.mono hq.cacheList fun _ => id
  | pass _ _ _ =>
    refine hs.of_slots rfl (fun i => ?_) fun _ => id
    rcases (refilled_worked hb.rep).slot i with heq | ⟨a, ha, hnew⟩
    · exact Or.inl heq
    · exact Or.inr (Or.inr (by rw [hnew]; exact ha))
  | cleared _ hdrop _ =>
    exact hs.of_slots rfl (fun i => (hdrop.slot_or i).symm.imp_right Or.inl) fun _ => id
  | @put i p _ _ hfound _ _ =>
    refine hs.of_slots rfl (fun j => ?_) fun _ => id
    show (s.manager.setSlot i _).cacheList j = _ ∨ (s.manager.setSlot i _).cacheList j = _ ∨
      ((s.manager.setSlot i _).cacheList j).value ∈ L
    by_cases hji : j = i
    · rw [hji, setSlot_self]
      exact Or.inr (Or.inr (findPtr_mem hfound).1)
    · exact Or.inl (setSlot_of_ne hji)
  | granted _ hgr => exact hs.mono (by rw [hgr.manager]) fun _ => List.mem_append_left _
  | registered _ _ _ hm _ => exact hs.mono (by rw [hm]) fun _ => List.mem_append_left _
  | realloced _ _ _ _ _ _ _ hm => exact hs.mono (by rw [hm]) fun _ => id
  | tagged _ _ _ hm _ => exact hs.mono (by rw [hm]) fun _ => id
  | wrote _ _ _ hm _ => exact hs.mono (by rw [hm]) fun _ => id
  | @freed _ _ p e hp hlook he _ hdrop hrem hwhich =>
    rcases hwhich with ⟨hfree, rfl⟩ | ⟨-, file, hmount⟩
    · obtain rfl : L₀ = L := hb₀.rep.unique hb.rep
      have hdata := freesRight_of_not_stale hb₀ hop hsafe p e hlook he (Or.inl ⟨hfree, rfl⟩)
      obtain ⟨A, B, hL, rfl, -⟩ := hrem.items_split hb.rep hnodup he hdata
      intro i hi
      rcases hdrop.slot_or i with hempty | heq
      · exact absurd hempty hi
      dsimp only at heq
      rw [heq]
      have hmem := hs i (heq ▸ hi)
      rw [hL, List.mem_append, List.mem_cons] at hmem
      rw [List.mem_append]
      rcases hmem with hA | rfl | hB
      · exact Or.inl hA
      · -- the entry that goes is still in a slot, which is then for another address
        exfalso
        by_cases hkey : (s.manager.cacheList i).key = p
        · refine hi ?_
          rw [hdrop.slot i, if_pos]
          exact ⟨mem_slots i, decide_eq_true ⟨hkey ▸ hp, decide_eq_true hkey⟩⟩
        · refine hsafe ?_
          rw [FreesStale, hfree]
          refine ⟨i, ?_, ?_, Or.inr hdata.symm⟩
          · rw [hb.rep.entries_eq]
            exact he
          · rw [hdata]
            exact Ne.symm hkey
      · exact Or.inr hB
    · rw [hmount] at hop
      exact hop.elim
  | clientAlloc _ _ _ hm _ => exact hs.mono (by rw [hm]) fun _ => id
  | clientFree _ _ _ hm _ => exact hs.mono (by rw [hm]) fun _ => id

theorem Op.Counts.manages {op : Op} (h : op.Counts) : op.Manages := by
  cases op with
  | register _ | clientMalloc _ | clientFree _ => exact h
  | _ => trivial

theorem Trans.balanced (h : Trans cfg l.1 l.2 s₀ L s L' s') (hb₀ : Base s₀ L₀) (hb : Base s L)
    (hop : l.2.Counts) (hok : CountsRight l s₀) (hbal : Balanced L s) : Balanced L' s' := by
  have hright : FreesRight l s₀ s L := by
    intro p e hlook he hwhich
    rcases hwhich with ⟨hfree, rfl⟩ | hmount
    · obtain rfl : L₀ = L := hb₀.rep.unique hb.rep
      exact freesRight_of_not_stale hb₀ hop hok.free p e hlook he (Or.inl ⟨hfree, rfl⟩)
    · obtain ⟨-, file, hmount⟩ := hmount
      rw [hmount] at hop
      exact hop.elim
  have heffect := h.effect hb hop.manages hok.register hright hbal.owned.nodup
  constructor
  · exact heffect.owned (fun _ => rfl) (Or.inr hok.calloc) hbal.owned
  · exact heffect.usage hok.calloc hbal.owned hbal.usage
  · exact h.slotsHeld hb₀ hb hop hok.free hbal.owned.nodup hbal.slots

theorem Loaded.balanced (h : Loaded s) : Balanced [] s := by
  refine ⟨h.owned, ?_, fun i hi => ?_⟩
  · rw [h.manager]
    rfl
  · rw [h.manager] at hi
    exact absurd rfl hi

end Kept

/-! ## What the counters say -/

section Queries

variable {env : Env} {s : Lib} {L : List Addr}

/-- The scan of `sn_query_thread_memory_usage` adds up the thread's sizes. -/
theorem readLoop_searchForTid {nodes : NodeHeap} {l : ListState} (tid : UInt64)
    (hnodes : l.nodes = nodes)
    (i : Nat) (siz : UInt64) (L : List Addr) :
    readLoop (fun _ e _ siz => if e.tid = tid then (NULL, siz + e.size) else (NULL, siz))
      nodes i siz L
      = (NULL, siz + UInt64.ofNat (threadTotal l L tid)) := by
  subst hnodes
  induction L generalizing i siz with
  | nil => exact congrArg (Prod.mk NULL) (UInt64.add_zero siz).symm
  | cons a L ih =>
    have hsplit : threadTotal l (a :: L) tid =
        (if (nodeAt l.nodes a).tid = tid then (nodeAt l.nodes a).size.toNat else 0) +
          threadTotal l L tid := List.sum_cons
    rw [readLoop, hsplit]
    by_cases ht : (nodeAt l.nodes a).tid = tid
    · rw [if_pos ht, if_pos ht]
      dsimp only
      rw [if_pos rfl, ih, UInt64.ofNat_add, UInt64.ofNat_toNat, UInt64.add_assoc]
    · rw [if_neg ht, if_neg ht]
      dsimp only
      rw [if_pos rfl, ih, Nat.zero_add]

theorem SlotsHeld.slotsLive (h : SlotsHeld L s) (hb : Base s L) :
    s.manager.SlotsLive s.list.nodes :=
  fun i hi => hb.rep.live_of_mem (h i hi)

theorem wp_threadMemoryUsage (hb : Base s L) (hu : Unlocked s L) (hs : SlotsHeld L s)
    (tid : UInt64) :
    wp (snQueryThreadMemoryUsage tid) env
      (fun v _ => v = UInt64.ofNat (threadTotal s.list L tid))
      (fun e _ => WaitsForEmpty env s e) s := by
  rw [snQueryThreadMemoryUsage, wp_bind]
  refine wp_memmanWork hb.rep (fun hbl _ => ?_) (fun hdead _ => absurd (hs.slotsLive hb) hdead)
    fun _ hopen => ?_
  · rcases hbl with hbl | hbl
    · exact absurd hbl (hu.alloc.not_blocks _)
    · exact hu.waits hb hbl
  have hsame : SameList s.list (s.worked env L).list := sameList_worked hb.rep
  have hscan : ¬ ScanBlocks env.tid (s.worked env L).list :=
    not_scanBlocks_scanned (L := L) hopen hsame.len rfl
  rw [wp_bind, wp_onList]
  refine wp_linkedListForEach_read (hsame.rep hb.rep) (searchForTid_eq tid)
    (fun hbl => absurd hbl hscan) fun _ => ?_
  rw [wp_pure, readLoop_searchForTid tid rfl, hsame.threadTotal, UInt64.zero_add]

end Queries

/-- The sum of the recorded sizes. -/
def recordedTotal (s : Lib) : Nat :=
  (s.list.entries.map fun a => (nodeAt s.list.nodes a).size.toNat).sum

/-- The account of one state: both counters give the sum of the recorded sizes, and
no entry's size exceeds it. -/
structure Accounted (s : Lib) : Prop where
  totalUsage : ∀ env, wp snQueryTotalMemoryUsage env
    (fun v s' => v.toNat = recordedTotal s ∧ s' = s) (fun _ _ => False) s
  threadUsage : ∃ usage : UInt64 → UInt64,
    (∀ env tid, wp (snQueryThreadMemoryUsage tid) env (fun v _ => v = usage tid)
      (fun e _ => WaitsForEmpty env s e) s) ∧
    ∑ tid ∈ (s.list.entries.map fun a => (nodeAt s.list.nodes a).tid).toFinset, (usage tid).toNat
      = recordedTotal s
  noWrap : ∀ a ∈ s.list.entries,
    (nodeAt s.list.nodes a).size.toNat ≤ s.manager.globalMemoryUsage.toNat

theorem Balanced.accounted {s : Lib} {L : List Addr} (h : Balanced L s) (hb : Base s L)
    (hu : Unlocked s L) : Accounted s := by
  have htotal : recordedTotal s = total (L.map (record s.list)) := by
    rw [recordedTotal, hb.rep.entries_eq, total_records]
  constructor
  · intro env
    rw [snQueryTotalMemoryUsage, wp_bind, wp_getManager, wp_pure, htotal]
    exact ⟨h.usage, rfl⟩
  · refine ⟨_, fun env tid => wp_threadMemoryUsage hb hu h.slots tid, ?_⟩
    rw [htotal, hb.rep.entries_eq, ← sum_threadTotal (T := (L.map fun a =>
      (nodeAt s.list.nodes a).tid).toFinset) fun a ha =>
        List.mem_toFinset.mpr (List.mem_map_of_mem ha)]
    refine Finset.sum_congr rfl fun tid _ => ?_
    refine UInt64.toNat_ofNat_of_lt ?_
    exact Nat.lt_of_le_of_lt (threadTotal_le tid) h.owned.sum_lt
  · intro a ha
    rw [hb.rep.entries_eq] at ha
    rw [h.usage]
    exact le_total (r := record s.list a) (List.mem_map_of_mem ha)

/-- **The usage counter is the sum of the recorded sizes**, in every state of a run
that records what it counts. -/
theorem accounted_of_counts_right {cfg : Config} {s₀ s : Lib} {ls : List (Env × Op)}
    (h₀ : Started s₀) (hops : ∀ l ∈ ls, l.2.Counts)
    (hok : Along (libStep cfg) CountsRight ls s₀) (hrun : run (libStep cfg) ls s₀ = some s) :
    Accounted s := by
  have hboth : Along (libStep cfg) (fun l s => l.2.Counts ∧ CountsRight l s) ls s₀ :=
    (Along.of_forall (fun l hl _ => hops l hl) s₀).and hok
  obtain ⟨L, hb, hu, hbal⟩ := run_keeps (P := fun l s => l.2.Counts ∧ CountsRight l s)
    (I := Balanced) (fun _ => Loaded.balanced)
    (fun _ _ _ hok hb₀ _ _ _ _ _ _ hb hbal htrans => htrans.balanced hb₀ hb hok.1 hok.2 hbal)
    h₀ hboth hrun
  exact hbal.accounted hb hu

theorem accounted_of_counts_right_at :
    ∃ s₀ s, Started s₀ ∧ run (libStep ⟨false⟩)
        [(Env.plain 1 128 4096, .malloc 8), (Env.plain 2 256 8192, .calloc 1 16),
          (Env.plain 1 0 12288, .realloc 4096 24)] s₀ = some s ∧
      s.manager.globalMemoryUsage = 40 ∧ Accounted s := by
  have hsome : ((doinit (Env.plain 1 64 0) .blank).done?.bind (run (libStep ⟨false⟩)
      [(Env.plain 1 128 4096, .malloc 8), (Env.plain 2 256 8192, .calloc 1 16),
        (Env.plain 1 0 12288, .realloc 4096 24)])).map (·.manager.globalMemoryUsage) = some 40 := by
    decide +kernel
  obtain ⟨s, hs, husage⟩ := Option.map_eq_some_iff.mp hsome
  obtain ⟨s₀, h₀, hrun⟩ := Option.bind_eq_some_iff.mp hs
  have hstart : Started s₀ := started_of_done h₀
  refine ⟨s₀, s, hstart, hrun, husage, accounted_of_counts_right hstart (by decide) ?_ hrun⟩
  -- one element is recorded as it is counted
  have hone : ∀ s : Lib, CountsRight (Env.plain 2 256 8192, .calloc 1 16) s :=
    fun _ => ⟨fun hmore => hmore.2.1 rfl, id, id⟩
  exact ⟨⟨id, id, id⟩, fun _ _ => ⟨hone _, fun _ _ => ⟨⟨id, id, id⟩, fun _ _ => trivial⟩⟩⟩

/-- `sn_calloc(2, 8)` is counted as 16 bytes and recorded as 8. -/
theorem several_elements_counted_once :
    ((doinit (Env.plain 1 64 0) .blank).done?.bind (run (libStep ⟨false⟩)
      [(Env.plain 1 128 4096, .calloc 2 8)])).map (fun s =>
        ((snQueryTotalMemoryUsage (Env.plain 1 0 0) s).value?, recordedTotal s,
          (snQueryThreadMemoryUsage 1 (Env.plain 1 0 0) s).value?)) =
            some (some 16, 8, some 8) := by
  decide +kernel

end LibSafetynet
