import LibSafetynet.Accounting
import LibSafetynet.RegistryRuns

/-!
# Runs in which what is tracked is counted

An `sn_register` records no size, an `sn_register_size` a size that is not counted, and an
`sn_calloc` of several elements less than it counts. Every other operation is one of four
postings (`Registry.Posted`). In a run of them what is recorded of a block is its length,
and the counter is the number of bytes in the tracked blocks (`Orderly.metered`).
-/

namespace LibSafetynet

open Logic

/-- The recorded sizes of blocks off each other add up to less than the address space. -/
theorem Backed.total_lt {h : ClientHeap} {rs : List Record} (hb : Backed h rs) :
    total rs < addressSpace := by
  refine @sum_len_lt Record Prod.fst (fun r => r.2.toNat) rs addressSpace (Nat.two_pow_pos 64) ?_
    (fun r hr => ?_) fun r hr => ?_
  · refine (List.pairwise_map.mp hb.nodup).imp_of_mem fun {q r} hq hr hne => ?_
    have hoff := hb.wellFormed.apart q.1 r.1 (hb.live q hq) (hb.live r hr) hne
    rcases hoff with hle | hle
    · exact Or.inl ((Nat.add_le_add_left (hb.size q hq) _).trans hle)
    · exact Or.inr ((Nat.add_le_add_left (hb.size r hr) _).trans hle)
  · refine Nat.pos_of_ne_zero fun (hnull : r.1 = NULL) => hb.wellFormed.null ?_
    exact hnull ▸ hb.live r hr
  · exact (Nat.add_le_add_left (hb.size r hr) _).trans (hb.wellFormed.fits r.1 (hb.live r hr))

/-- A block as long as recorded, as it was passed to `plat_free`. -/
def GivenWhole (cfg : Config) (b : Addr × List UInt8) : Prop :=
  ∃ (size : UInt64) (bytes : List UInt8), bytes.length = size.toNat ∧
    b.2 = sanitized cfg size bytes

namespace Registry

/-- The bytes of the tracked blocks. -/
def held (R : Registry) : Nat := (R.records.map fun r => (R.heap.bytes r.1).length).sum

/-- What is recorded of a block is its length, and the counter is what is recorded. -/
structure Metered (R : Registry) : Prop where
  consistent : R.Consistent
  recorded : ∀ r ∈ R.records, (R.heap.bytes r.1).length = r.2.toNat
  counted : R.usage.toNat = total R.records

/-- The operation tracks no block that it does not count in full. -/
def Counts (R : Registry) (env : Env) : Op → Prop
  | .register _ => False
  | .registerSize p size => p = NULL ∨ size = 0 ∨ (R.find? p).isSome
  | .calloc num size => num = 0 ∨ num = 1 ∨ size = 0 ∨ R.Refuses (size * num) ∨
      ¬ R.heap.Admits env.block (num.toNat * size.toNat)
  | _ => True

/-- What an operation that counts in full does to the blocks, the records and the counter. -/
inductive Posted (cfg : Config) (R R' : Registry) : Prop
  | kept {given : List (Addr × List UInt8)} : R'.limit = R.limit → R'.records = R.records →
      R'.usage = R.usage →
      (∀ r ∈ R.records, (R'.heap.bytes r.1).length = (R.heap.bytes r.1).length) →
      R'.heap.freed = R.heap.freed ++ given → (∀ b ∈ given, GivenWhole cfg b) → Posted cfg R R'
  | allocated {r : Record} {bytes : List UInt8} : R'.limit = R.limit → ¬ R.Refuses r.2 →
      R.heap.Admits r.1 bytes.length → bytes.length = r.2.toNat →
      R'.heap = R.heap.place r.1 bytes → R'.records.Perm (r :: R.records) →
      R'.usage = R.usage + r.2 → Posted cfg R R'
  | released {r : Record} {rest : List Record} : R'.limit = R.limit → R.records.Perm (r :: rest) →
      R'.records.Perm rest → R'.heap.blocks = (R.heap.drop r.1).blocks →
      R'.heap.freed = R.heap.freed ++ [(r.1, sanitized cfg r.2 (R.heap.bytes r.1))] →
      R'.usage = R.usage - r.2 → Posted cfg R R'
  | resized {r q : Record} {rest : List Record} {bytes : List UInt8} : R'.limit = R.limit →
      (r.2 < q.2 → ¬ R.Refuses (q.2 - r.2)) → R.records.Perm (r :: rest) →
      (R.heap.drop r.1).Admits q.1 bytes.length → bytes.length = q.2.toNat →
      R'.heap = (R.heap.drop r.1).place q.1 bytes → R'.records.Perm (q :: rest) →
      R'.usage = R.usage - r.2 + q.2 → Posted cfg R R'

section Posting

variable {R R' : Registry} {cfg : Config}

theorem Metered.held_eq (h : R.Metered) : R.held = total R.records := by
  rw [held, total]
  exact congrArg List.sum (List.map_congr_left h.recorded)

theorem Posted.limit_eq (h : Posted cfg R R') : R'.limit = R.limit := by
  cases h with
  | kept hlimit | allocated hlimit | released hlimit | resized hlimit => exact hlimit

/-- **One posting** keeps the account. -/
theorem Posted.metered (h : Posted cfg R R') (hR : R.Metered) (hc : R'.Consistent) :
    R'.Metered := by
  have hroom : total R'.records < 2 ^ 64 := hc.total_lt
  have hcounted := hR.counted
  cases h with
  | kept hlimit hrecords husage hlength _ _ =>
    refine ⟨hc, fun r hr => ?_, ?_⟩
    · rw [hrecords] at hr
      rw [hlength r hr, hR.recorded r hr]
    · rw [husage, hrecords, hcounted]
  | @allocated r bytes hlimit hpasses hadm hlen hheap hperm husage =>
    have hsum : total R'.records = r.2.toNat + total R.records :=
      (total_perm hperm).trans total_cons
    refine ⟨hc, fun q hq => ?_, ?_⟩
    · rw [hheap]
      rcases List.mem_cons.mp (hperm.mem_iff.mp hq) with rfl | hold
      · rw [ClientHeap.bytes_place_self, hlen]
      · have hne : q.1 ≠ r.1 := fun heq => hadm.not_live (heq ▸ hR.consistent.live q hold)
        rw [ClientHeap.bytes_place_of_ne hne, hR.recorded q hold]
    · rw [husage, UInt64.toNat_add, hcounted]
      omega
  | @released r rest hlimit hperm hperm' hblocks _ husage =>
    have hsum : total R.records = r.2.toNat + total rest := (total_perm hperm).trans total_cons
    have hsum' : total R'.records = total rest := total_perm hperm'
    have hback : Backed R.heap (r :: rest) := Backed.perm hR.consistent hperm
    refine ⟨hc, fun q hq => ?_, ?_⟩
    · have hold := hperm'.mem_iff.mp hq
      have hne : q.1 ≠ r.1 := fun heq => hback.tail.1 (heq ▸ List.mem_map_of_mem hold)
      rw [ClientHeap.bytes_congr hblocks, ClientHeap.bytes_drop_of_ne hne]
      exact hR.recorded q (hperm.mem_iff.mpr (List.mem_cons_of_mem _ hold))
    · have hle : r.2 ≤ R.usage := UInt64.le_iff_toNat_le.mpr (by omega)
      rw [husage, UInt64.toNat_sub_of_le _ _ hle]
      omega
  | @resized r q rest bytes hlimit hpasses hperm hadm hlen hheap hperm' husage =>
    have hsum : total R.records = r.2.toNat + total rest := (total_perm hperm).trans total_cons
    have hsum' : total R'.records = q.2.toNat + total rest := (total_perm hperm').trans total_cons
    have hback : Backed R.heap (r :: rest) := Backed.perm hR.consistent hperm
    refine ⟨hc, fun u hu => ?_, ?_⟩
    · rw [hheap]
      rcases List.mem_cons.mp (hperm'.mem_iff.mp hu) with rfl | hold
      · rw [ClientHeap.bytes_place_self, hlen]
      · have hother : u.1 ≠ r.1 := fun heq => hback.tail.1 (heq ▸ List.mem_map_of_mem hold)
        have hlive := hback.tail.2.live u hold
        have hne : u.1 ≠ q.1 := fun heq =>
          hadm.not_live (heq ▸ ClientHeap.live_drop.mpr ⟨hother, hlive⟩)
        rw [ClientHeap.bytes_place_of_ne hne, ClientHeap.bytes_drop_of_ne hother]
        exact hR.recorded u (hperm.mem_iff.mpr (List.mem_cons_of_mem _ hold))
    · have hle : r.2 ≤ R.usage := UInt64.le_iff_toNat_le.mpr (by omega)
      rw [husage, UInt64.toNat_add, UInt64.toNat_sub_of_le _ _ hle]
      omega

/-- What a posting passes to `plat_free` was as long as it was recorded. -/
theorem Posted.freed (h : Posted cfg R R') (hR : R.Metered) :
    ∃ given, R'.heap.freed = R.heap.freed ++ given ∧ ∀ b ∈ given, GivenWhole cfg b := by
  cases h with
  | kept _ _ _ _ hfreed hgiven => exact ⟨_, hfreed, hgiven⟩
  | allocated _ _ _ _ hheap _ _ =>
    rw [hheap]
    exact ⟨[], (List.append_nil _).symm, fun _ hb => absurd hb List.not_mem_nil⟩
  | @released r _ _ hperm _ _ hfreed _ =>
    refine ⟨_, hfreed, fun b hb => ?_⟩
    obtain rfl := List.mem_singleton.mp hb
    exact ⟨r.2, R.heap.bytes r.1, hR.recorded r (hperm.mem_iff.mpr List.mem_cons_self), rfl⟩
  | resized _ _ _ _ _ hheap _ _ =>
    rw [hheap]
    exact ⟨[], (List.append_nil _).symm, fun _ hb => absurd hb List.not_mem_nil⟩

end Posting

/-! ## Every operation is a posting -/

section Step

variable {R R' : Registry} {cfg : Config} {env : Env} {o : Oracle} {op : Op} {p : Addr}
variable {r : Reply} {err : SnErrorCodes} {bytes : List UInt8} {size : UInt64}

/-- The client's memory may change where nothing is tracked. -/
theorem posted_kept (hlimit : R'.limit = R.limit) (hrecords : R'.records = R.records)
    (husage : R'.usage = R.usage) (hfreed : R'.heap.freed = R.heap.freed)
    (hlength : ∀ r ∈ R.records, (R'.heap.bytes r.1).length = (R.heap.bytes r.1).length) :
    Posted cfg R R' :=
  .kept hlimit hrecords husage hlength (hfreed.trans (List.append_nil _).symm)
    fun _ hb => absurd hb List.not_mem_nil

theorem posted_refl : Posted cfg R R := posted_kept rfl rfl rfl rfl fun _ _ => rfl

theorem posted_fail : Posted cfg R (R.fail err r).2 := posted_kept rfl rfl rfl rfl fun _ _ => rfl

theorem posted_ite {c : Prop} [Decidable c] {a b : Reply × Registry} (ha : Posted cfg R a.2)
    (hb : Posted cfg R b.2) : Posted cfg R (if c then a else b).2 := by
  split_ifs
  · exact ha
  · exact hb

/-- The lookup of a block. -/
theorem posted_find {a : Reply × Registry} {f : TrackedBlock → Reply × Registry}
    (ha : Posted cfg R a.2) (hf : ∀ t, R.find? p = some t → Posted cfg R (f t).2) :
    Posted cfg R (match R.find? p with | none => a | some t => f t).2 := by
  cases hfind : R.find? p with
  | none => exact ha
  | some t => exact hf t hfind

theorem posted_answer {f : TrackedBlock → Reply × Registry} (hf : ∀ t, Posted cfg R (f t).2) :
    Posted cfg R (R.answer o p r f).2 := by
  rw [answer]
  refine posted_ite posted_fail (posted_find posted_fail fun t _ => ?_)
  exact posted_ite (hf t) posted_refl

theorem posted_allocate (hlen : bytes.length = size.toNat) :
    Posted cfg R (R.allocate env size size bytes).2 := by
  rw [allocate]
  split_ifs with hlimit hadm
  · exact posted_fail
  · exact .allocated (r := (env.block, size)) rfl hlimit hadm hlen rfl (records_push _ _ _) rfl
  · exact posted_fail

theorem posted_malloc (hlen : bytes.length = size.toNat) :
    Posted cfg R (R.malloc env bytes size).2 := by
  rw [malloc]
  exact posted_ite posted_fail (posted_allocate hlen)

theorem posted_calloc {num : UInt64} (hcounts : R.Counts env (.calloc num size)) :
    Posted cfg R (R.step cfg env o (.calloc num size)).2 := by
  rw [step]
  split_ifs with hzero
  · exact posted_fail
  have hmore : num = 1 ∨ R.Refuses (size * num) ∨
      ¬ R.heap.Admits env.block (num.toNat * size.toNat) := by
    rcases hcounts with rfl | hone | rfl | hrest
    · exact absurd (Or.inr rfl) hzero
    · exact Or.inl hone
    · exact absurd (Or.inl rfl) hzero
    · exact Or.inr hrest
  rcases hmore with rfl | hlimit | hadm
  · rw [UInt64.mul_one]
    refine posted_allocate ?_
    rw [List.length_replicate]
    exact Nat.one_mul _
  · rw [allocate, if_pos hlimit]
    exact posted_fail
  · rw [allocate, List.length_replicate, if_neg hadm]
    exact posted_ite posted_fail posted_fail

/-- The record of a block among the others, and what they are when it is freed or rewritten. -/
theorem records_of_find? {t : TrackedBlock} (hc : R.Consistent) (hfind : R.find? p = some t) :
    ∃ rest, R.records.Perm ((p, t.size) :: rest) ∧
      ((R.entries.eraseP (·.data = p)).map TrackedBlock.record).Perm rest ∧
      ∀ f : TrackedBlock → TrackedBlock,
        (R.rewrite p f).records.Perm ((f t).record :: rest) := by
  obtain ⟨hdata, A, B, hsplit, hne⟩ := hc.split hfind
  refine ⟨(A ++ B).map TrackedBlock.record, ?_, ?_, fun f => ?_⟩
  · rw [records, hsplit, ← hdata]
    exact records_split t
  · rw [hsplit, eraseP_split hdata hne]
  · rw [records, rewrite]
    dsimp only
    rw [hsplit, map_split f hdata hne]
    exact records_split (f t)

theorem posted_realloc (hc : R.Consistent) {newSize : UInt64} :
    Posted cfg R (R.realloc env o p newSize).2 := by
  rw [realloc]
  refine posted_ite posted_fail (posted_find posted_fail fun t hfind => ?_)
  obtain ⟨rest, hperm, -, hrewrite⟩ := records_of_find? hc hfind
  dsimp only
  split_ifs with hzero hlimit hadm
  · exact posted_fail
  · exact posted_fail
  · have hlen : ((R.heap.bytes p ++ o.fresh (newSize.toNat - (R.heap.bytes p).length)).take
        newSize.toNat).length = newSize.toNat := by
      simp [Oracle.fresh]
      omega
    exact .resized (r := (p, t.size)) (q := (env.block, newSize)) rfl
      (fun hgrows hrefuses => hlimit ⟨hgrows, hrefuses⟩) hperm (by rw [hlen]; exact hadm) hlen rfl
      (hrewrite _) rfl
  · exact posted_fail

theorem posted_free (hc : R.Consistent) : Posted cfg R (R.free cfg p).2 := by
  rw [free]
  refine posted_ite posted_fail (posted_find posted_fail fun t hfind => ?_)
  obtain ⟨rest, hperm, herase, -⟩ := records_of_find? hc hfind
  exact .released (r := (p, t.size)) rfl hperm herase rfl rfl rfl

theorem posted_mountFileToRam {file : Option FileName} :
    Posted cfg R (R.mountFileToRam cfg env o file).2 := by
  cases file with
  | none => exact posted_fail
  | some path =>
    rw [mountFileToRam]
    cases (if env.fopenOk 0 = true then o.files path else none) with
    | none => exact posted_fail
    | some content =>
      refine posted_ite posted_fail (posted_ite posted_fail ?_)
      split_ifs with hshort
      · -- the buffer is allocated and freed again
        refine .kept rfl rfl rfl (fun _ _ => rfl) rfl fun b hb => ?_
        obtain rfl := List.mem_singleton.mp hb
        refine ⟨UInt64.ofNat content.length, _, ?_, rfl⟩
        rw [List.length_append, List.length_take, List.length_drop, Oracle.fresh,
          List.length_map, List.length_range]
        have hle : (UInt64.ofNat content.length).toNat ≤ content.length := by
          rw [UInt64.toNat_ofNat']
          exact Nat.mod_le _ _
        omega
      · refine posted_allocate ?_
        rw [List.length_take, UInt64.toNat_ofNat']
        exact Nat.min_eq_left (Nat.mod_le _ _)

/-- The client's own memory is off the tracked blocks. -/
theorem posted_client (hc : R.Consistent) (hok : R.Allows op)
    (hop : (∃ n, op = .clientMalloc n) ∨ (∃ q, op = .clientFree q) ∨
      ∃ q bs, op = .clientWrite q bs) :
    Posted cfg R (R.step cfg env o op).2 := by
  rcases hop with ⟨n, rfl⟩ | ⟨q, rfl⟩ | ⟨q, bs, rfl⟩
  · rw [step]
    split_ifs with hadm
    · refine posted_kept rfl rfl rfl rfl fun r hr => ?_
      have hne : r.1 ≠ env.block := fun heq => hadm.not_live (heq ▸ hc.live r hr)
      rw [ClientHeap.bytes_place_of_ne hne]
    · exact posted_refl
  · rw [step]
    split_ifs with hnull
    · exact posted_refl
    · have hnone := find?_eq_none.mp (hok.resolve_left hnull).2
      refine posted_kept rfl rfl rfl rfl fun r hr => ?_
      have hne : r.1 ≠ q := fun heq => hnone (heq ▸ List.mem_map_of_mem hr)
      rw [ClientHeap.bytes_drop_of_ne hne]
  · rw [step]
    split_ifs with hnil
    · exact posted_refl
    · have hle := (hok.resolve_left hnil).2
      refine posted_kept rfl rfl rfl rfl fun r hr => ?_
      by_cases hq : r.1 = q
      · rw [hq, ClientHeap.bytes_place_self, List.length_append, List.length_drop]
        omega
      · rw [ClientHeap.bytes_place_of_ne hq]

/-- **Every operation that counts in full is a posting**, but for the setting of the limit. -/
theorem step_posted (hc : R.Consistent) (hok : R.Allows op) (hcounts : R.Counts env op)
    (hlimit : ∀ n, op ≠ .setAllocLimit n) : Posted cfg R (R.step cfg env o op).2 := by
  have hfresh : ∀ n, (o.fresh n).length = n := fun n => by simp [Oracle.fresh]
  cases op with
  | malloc size => exact posted_malloc (hfresh _)
  | mallocPreInitialized size v => exact posted_malloc (List.length_replicate ..)
  | calloc num size => exact posted_calloc hcounts
  | realloc q newSize => exact posted_realloc hc
  | free q => exact posted_free hc
  | register q => exact hcounts.elim
  | registerSize q size =>
    rw [step]
    split_ifs with hnull hzero hfound
    · exact posted_fail
    · exact posted_fail
    · exact posted_refl
    · exact absurd ((hcounts.resolve_left hnull).resolve_left hzero) hfound
  | querySize q | requestToFastCache q =>
    exact posted_ite posted_fail (posted_find posted_fail fun _ _ => posted_refl)
  | queryTid q | getBlockId q | queryMetadata q => exact posted_answer fun _ => posted_refl
  | isTrackedBlock q => exact posted_ite posted_fail posted_refl
  | setBlockId q id =>
    refine posted_ite posted_fail (posted_answer fun _ => posted_kept rfl ?_ rfl rfl fun _ _ => rfl)
    rw [records, records, rewrite, List.map_map]
    refine List.map_congr_left fun u _ => ?_
    rw [Function.comp_apply]
    split_ifs <;> rfl
  | queryBlockId id =>
    show Posted cfg R (R.queryBlockId o id).2
    rw [queryBlockId]
    refine posted_ite posted_fail ?_
    cases R.entries.find? fun t => o.cached = some t.data ∧ t.blockId = id with
    | some t => exact posted_refl
    | none => exact posted_ite posted_refl posted_fail
  | queryStaticMetadata q =>
    refine posted_answer fun t => posted_malloc ?_
    simp [Oracle.metadata, metadataBytes, leBytes, sizeofSnMemMetadata]
  | setAllocLimit limit => exact absurd rfl (hlimit limit)
  | calculateChecksum q => exact posted_answer fun _ => posted_ite posted_fail posted_refl
  | dumpToFile file q =>
    cases file with
    | none => exact posted_fail
    | some path =>
      exact posted_ite posted_fail (posted_answer fun _ => posted_ite posted_refl posted_fail)
  | mountFileToRam file => exact posted_mountFileToRam
  | resetLastError => exact posted_kept rfl rfl rfl rfl fun _ _ => rfl
  | clientMalloc size => exact posted_client hc hok (Or.inl ⟨_, rfl⟩)
  | clientFree q => exact posted_client hc hok (Or.inr (Or.inl ⟨_, rfl⟩))
  | clientWrite q bytes => exact posted_client hc hok (Or.inr (Or.inr ⟨_, _, rfl⟩))
  | _ => exact posted_refl

/-- The account is kept by the setting of the limit too. -/
theorem Metered.step (h : R.Metered) (hok : R.Allows op) (hcounts : R.Counts env op) :
    (R.step cfg env o op).2.Metered := by
  by_cases hlimit : ∃ n, op = .setAllocLimit n
  · obtain ⟨n, rfl⟩ := hlimit
    exact ⟨h.consistent, h.recorded, h.counted⟩
  have hchange : Change R op (R.step cfg env o op).2 := step_change op
  have hposted : Posted cfg R (R.step cfg env o op).2 :=
    step_posted h.consistent hok hcounts fun n hn => hlimit ⟨n, hn⟩
  exact hposted.metered h (hchange.consistent h.consistent hok)

end Step

end Registry

/-! ## Runs -/

/-- The client respects the library, and the call counts in full what it tracks. -/
def CountsInFull (l : Env × Op) (s : Lib) : Prop := Respects l s ∧ s.registry.Counts l.1 l.2

section Runs

variable {cfg : Config} {s s' : Lib} {L : List Addr} {ls : List (Env × Op)}

theorem started_metered (h : Started s) : s.registry.Metered := by
  rw [started_registry h]
  exact ⟨backed_empty, fun _ hr => absurd hr List.not_mem_nil, rfl⟩

/-- **A run of postings** keeps the account. -/
theorem Orderly.metered (hL : Orderly L s) (hm : s.registry.Metered)
    (hok : Along (libStep cfg) CountsInFull ls s) (hrun : Logic.run (libStep cfg) ls s = some s') :
    (∃ L', Orderly L' s') ∧ s'.registry.Metered := by
  refine run_invariant (P := CountsInFull)
    (I := fun s => (∃ L, Orderly L s) ∧ s.registry.Metered) ?_
    ⟨⟨L, hL⟩, hm⟩ hok hrun
  rintro l s s' ⟨⟨L, hL⟩, hm⟩ ⟨hrespects, hcounts⟩ hstep
  obtain ⟨⟨o, hreg⟩, hend⟩ := hL.next hrespects hstep
  exact ⟨hend, hreg ▸ hm.step hrespects.1 hcounts⟩

end Runs

end LibSafetynet
