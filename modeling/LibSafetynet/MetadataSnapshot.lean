import Mathlib.Data.Nat.Digits.Lemmas
import LibSafetynet.RegistryRuns

/-!
# The static metadata is a snapshot

`sn_query_static_metadata` copies the metadata of a block into a new block of the
client's, which it also tracks. Reading the copy gives back the fields of the entry
(`readMetadata_metadataBytes`), and it goes on doing so whatever happens to the block
(`static_metadata_snapshot`): it may be freed, moved, resized or tagged.
-/

namespace LibSafetynet

open Logic

/-! ## Reading the fields -/

/-- The number in some bytes, least significant first. -/
def leValue (bytes : List UInt8) : Nat := Nat.ofDigits 256 (bytes.map UInt8.toNat)

/-- The fields of `sn_mem_metadata_t` in memory, at their offsets. -/
def readMetadata (bytes : List UInt8) : SnMemMetadata :=
  { data := leValue (bytes.take 8)
    size := UInt64.ofNat (leValue ((bytes.drop 8).take 8))
    tid := UInt64.ofNat (leValue ((bytes.drop 16).take 8))
    cached := bytes.getD 24 0 ≠ 0
    blockId := UInt16.ofNat (leValue ((bytes.drop 26).take 2)) }

@[simp] theorem leBytes_length (n v : Nat) : (leBytes n v).length = n := by
  induction n generalizing v with
  | zero => rfl
  | succ n ih => simp [leBytes, ih]

theorem leValue_leBytes (n v : Nat) : leValue (leBytes n v) = v % 256 ^ n := by
  induction n generalizing v with
  | zero => simp [leBytes, leValue, Nat.mod_one]
  | succ n ih =>
    have hbyte : (UInt8.ofNat v).toNat = v % 256 := UInt8.toNat_ofNat'
    have hrest : Nat.ofDigits 256 ((leBytes n (v / 256)).map UInt8.toNat) = v / 256 % 256 ^ n :=
      ih _
    rw [leBytes, leValue, List.map_cons, Nat.ofDigits_cons, hrest, hbyte, pow_succ', Nat.mod_mul]

theorem drop_leBytes {n m : Nat} (h : n ≤ m) (v : Nat) : (leBytes n v).drop m = [] :=
  List.drop_eq_nil_of_le (by simpa using h)

/-- **Round trip**: reading what the code wrote gives the fields of the node. -/
theorem readMetadata_metadataBytes {e : LinkedListEntry} (hdata : e.data < addressSpace) :
    readMetadata (metadataBytes e) = e.metadata := by
  -- each field starts where the ones before it end
  have haddr : (metadataBytes e).take 8 = leBytes 8 e.data := by
    simp [metadataBytes]
  have hsize : ((metadataBytes e).drop 8).take 8 = leBytes 8 e.size.toNat := by
    simp [metadataBytes]
  have htid : ((metadataBytes e).drop 16).take 8 = leBytes 8 e.tid.toNat := by
    simp [metadataBytes, List.drop_append, drop_leBytes]
  have hid : ((metadataBytes e).drop 26).take 2 = leBytes 2 e.blockId.toNat := by
    simp [metadataBytes, List.drop_append, drop_leBytes]
  have hbyte : (metadataBytes e).getD 24 0 = e.cached.toUInt8 := by
    simp [metadataBytes]
  have hcached : decide (e.cached.toUInt8 ≠ 0) = e.cached := by
    cases e.cached <;> rfl
  have hdata' : e.data % 256 ^ 8 = e.data := Nat.mod_eq_of_lt hdata
  have hsize' : e.size.toNat % 256 ^ 8 = e.size.toNat := Nat.mod_eq_of_lt e.size.toNat_lt
  have htid' : e.tid.toNat % 256 ^ 8 = e.tid.toNat := Nat.mod_eq_of_lt e.tid.toNat_lt
  have hid' : e.blockId.toNat % 256 ^ 2 = e.blockId.toNat := Nat.mod_eq_of_lt e.blockId.toNat_lt
  rw [readMetadata, haddr, hsize, htid, hid, hbyte, hcached, leValue_leBytes, leValue_leBytes,
    leValue_leBytes, leValue_leBytes, hdata', hsize', htid', hid', UInt64.ofNat_toNat,
    UInt64.ofNat_toNat, UInt16.ofNat_toNat]
  rfl

/-! ## The copy -/

/-- Where `sn_query_static_metadata` gives a copy, the registry has the block of it. -/
theorem Registry.step_queryStaticMetadata {cfg : Config} {env : Env} {o : Oracle} {ptr q : Addr}
    {R R' : Registry} (hc : R.Consistent)
    (hstep : R.step cfg env o (.queryStaticMetadata ptr) = (.addr q, R')) (hq : q ≠ NULL) :
    ∃ t, R.find? ptr = some t ∧ ¬ R.heap.Live q ∧
      R'.find? q = some ⟨q, sizeofSnMemMetadata, env.tid, 0⟩ ∧ R'.heap.bytes q = o.metadata t := by
  have hfailed : ∀ R'' : Registry, (Reply.addr NULL, R'') ≠ (.addr q, R') := by
    rintro R'' heq
    exact hq (Reply.addr.inj (congrArg Prod.fst heq)).symm
  rw [Registry.step, Registry.answer] at hstep
  by_cases hp : ptr = NULL
  · rw [if_pos hp] at hstep
    exact absurd hstep (hfailed _)
  rw [if_neg hp] at hstep
  cases hfind : R.find? ptr with
  | none =>
    rw [hfind] at hstep
    exact absurd hstep (hfailed _)
  | some t =>
    rw [hfind] at hstep
    dsimp only at hstep
    split_ifs at hstep with hcached
    swap
    · exact absurd hstep (hfailed _)
    rw [Registry.malloc, if_neg (by decide), Registry.allocate] at hstep
    split_ifs at hstep with hlimit hadm
    · exact absurd hstep (hfailed _)
    swap
    · exact absurd hstep (hfailed _)
    obtain rfl : env.block = q := Reply.addr.inj (congrArg Prod.fst hstep)
    obtain rfl := congrArg Prod.snd hstep
    refine ⟨t, rfl, hadm.not_live, ?_, ClientHeap.bytes_place_self⟩
    have hnone : R.entries.find? (·.data = env.block) = none := by
      cases hold : R.find? env.block with
      | none => exact hold
      | some u => exact absurd (hc.of_find? hold).2.1 hadm.not_live
    show (R.entries ++ [_]).find? _ = _
    rw [List.find?_append, hnone]
    simp

/-- **A snapshot**: what `sn_query_static_metadata` returned still reads as the metadata that
the block had at the call, after every run that leaves the copy itself alone. -/
theorem static_metadata_snapshot {cfg : Config} {s₀ s s₁ s' : Lib} {pre ls : List (Env × Op)}
    {os : List Reply} {env : Env} {ptr q : Addr} (h₀ : Started s₀)
    (hokPre : Along (libStep cfg) Respects pre s₀) (hpre : run (libStep cfg) pre s₀ = some s)
    (hptr : ptr < addressSpace)
    (hcall : replyStep cfg (env, .queryStaticMetadata ptr) s = some (.addr q, s₁)) (hq : q ≠ NULL)
    (hok : Along (libStep cfg) Respects ls s₁)
    (hrun : history (replyStep cfg) ls s₁ = some (os, s')) (hno : ∀ l ∈ ls, ¬ l.2.Alters q) :
    ∃ t cached, s.registry.find? ptr = some t ∧ ¬ s.heap.Live q ∧
      s'.registry.find? q = some ⟨q, sizeofSnMemMetadata, env.tid, 0⟩ ∧
        readMetadata (s'.heap.bytes q) = ⟨ptr, t.size, t.tid, cached, t.blockId⟩ := by
  obtain ⟨L, hL⟩ := (loaded_of_started h₀).orderly.run hokPre hpre
  have hrespects : Respects (env, .queryStaticMetadata ptr) s := ⟨trivial, id⟩
  obtain ⟨⟨o, hstep⟩, L₁, hL₁⟩ := hL.step hrespects hcall
  have hc := hL.registry_consistent
  obtain ⟨t, hfind, hnew, hcopy, hbytes⟩ := Registry.step_queryStaticMetadata hc hstep hq
  obtain ⟨hcopy', hbytes', -⟩ := hL₁.untouched hok hrun hcopy hno
  obtain ⟨hdata, -⟩ := hc.of_find? hfind
  refine ⟨t, o.marked, hfind, hnew, hcopy', ?_⟩
  have hread : s'.heap.bytes q = o.metadata t := hbytes'.trans hbytes
  rw [hread, Oracle.metadata, readMetadata_metadataBytes (hdata ▸ hptr)]
  rw [← hdata]
  rfl

/-- The block is cached, so that a copy is made; then it is freed. -/
theorem static_metadata_snapshot_at : ∃ s₀ s s₁ s' : Lib, Started s₀ ∧
    run (libStep ⟨true⟩) [(Env.plain 1 128 4096, .malloc 2)] s₀ = some s ∧
    replyStep ⟨true⟩ (Env.plain 1 192 8192, .queryStaticMetadata 4096) s =
      some (.addr 8192, s₁) ∧
    history (replyStep ⟨true⟩) [(Env.plain 1 0 0, .free 4096)] s₁ = some ([.none], s') ∧
    ∃ t cached, s.registry.find? 4096 = some t ∧ ¬ s.heap.Live 8192 ∧
      s'.registry.find? 8192 = some ⟨8192, sizeofSnMemMetadata, 1, 0⟩ ∧
        readMetadata (s'.heap.bytes 8192) = ⟨4096, t.size, t.tid, cached, t.blockId⟩ := by
  have hsome : ((doinit (Env.plain 1 64 0) .blank).done?.bind fun s₀ =>
      (run (libStep ⟨true⟩) [(Env.plain 1 128 4096, .malloc 2)] s₀).bind fun s =>
        (replyStep ⟨true⟩ (Env.plain 1 192 8192, .queryStaticMetadata 4096) s).bind fun q =>
          (history (replyStep ⟨true⟩) [(Env.plain 1 0 0, .free 4096)] q.2).map
            fun q' => (q.1, q'.1)) = some (.addr 8192, [.none]) := by
    decide +kernel
  obtain ⟨s₀, h₀, hrest⟩ := Option.bind_eq_some_iff.mp hsome
  obtain ⟨s, hpre, hrest⟩ := Option.bind_eq_some_iff.mp hrest
  obtain ⟨⟨r, s₁⟩, hcall, hrest⟩ := Option.bind_eq_some_iff.mp hrest
  obtain ⟨⟨os, s'⟩, hrun, hval⟩ := Option.map_eq_some_iff.mp hrest
  obtain ⟨rfl, rfl⟩ := Prod.mk.inj hval
  have hokPre : Along (libStep ⟨true⟩) Respects [(Env.plain 1 128 4096, .malloc 2)] s₀ :=
    ⟨⟨trivial, id⟩, fun _ _ => trivial⟩
  have hok : Along (libStep ⟨true⟩) Respects [(Env.plain 1 0 0, .free 4096)] s₁ :=
    ⟨⟨trivial, id⟩, fun _ _ => trivial⟩
  refine ⟨s₀, s, s₁, s', started_of_done h₀, hpre, hcall, hrun,
    static_metadata_snapshot (started_of_done h₀) hokPre hpre (by decide) hcall (by decide) hok
      hrun ?_⟩
  simp [Op.Alters]

end LibSafetynet
