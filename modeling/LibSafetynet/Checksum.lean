import LibSafetynet.BlockQueries
import LibSafetynet.CacheCoherence
import LibSafetynet.Logic.LowestBit

/-!
# The checksum

The terms of `sn_calculate_checksum` are combined by exclusive or, and the first, the
middle and the last byte enter every term. A change of an inner byte is a change of one
term. A change of the middle byte, or of the first, is followed at the lowest bit it
changes (`BitDiff`): there it flips the middle term alone, or every term but the first.

- The last byte is a factor of every term, so with last byte 0 nothing else is seen.
- `ChangedAt k x y`: the blocks `x` and `y` differ at position `k` and nowhere else.
-/

namespace LibSafetynet

open Logic Prog PlatMutex ListState AllocManager

/-! ## The sum as an exclusive or of terms -/

/-- The term of the byte `d` at index `i`. -/
def mixedTerm (mixer mid last d : UInt8) (i : Nat) : Nat :=
  ((d ^^^ mixer).toNat + mid.toNat) * last.toNat + i % 256

/-- The mixer: first, last and middle byte in one. -/
def mixerOf (data : List UInt8) : UInt8 :=
  ~~~(data.getD 0 0 ^^^ data.getD (data.length - 1) 0) ^^^ data.getD (data.length / 2) 0

/-- The term of index `i`. -/
def checksumTerm (data : List UInt8) (i : Nat) : Nat :=
  mixedTerm (mixerOf data) (data.getD (data.length / 2) 0) (data.getD (data.length - 1) 0)
    (data.getD i 0) i

theorem mixedTerm_index (mixer mid last d : UInt8) (i : Nat) :
    mixedTerm mixer mid last d i = mixedTerm mixer mid last d 0 + i % 256 := by
  simp [mixedTerm]

theorem mixedTerm_lt (mixer mid last d : UInt8) (i : Nat) :
    mixedTerm mixer mid last d i < UInt64.size := by
  have hsum : (d ^^^ mixer).toNat + mid.toNat ≤ 510 := by
    have h₁ := (d ^^^ mixer).toNat_lt
    have h₂ := mid.toNat_lt
    omega
  have hlast : last.toNat ≤ 255 := Nat.le_of_lt_succ last.toNat_lt
  have hmul := Nat.mul_le_mul hsum hlast
  have hmod : i % 256 < 256 := Nat.mod_lt i (by decide)
  rw [mixedTerm]
  exact Nat.lt_of_lt_of_le (m := 510 * 255 + 256) (by omega) (by decide)

theorem checksumLoop_toNat (mixer mid last : UInt8) (i : Nat) (data : List UInt8) (sum : UInt64) :
    (checksumLoop mixer mid last i data sum).toNat =
      xorBelow (fun j => mixedTerm mixer mid last (data.getD j 0) (i + j)) data.length ^^^
        sum.toNat := by
  induction data generalizing i sum with
  | nil => simp [checksumLoop, xorBelow]
  | cons d data ih =>
    have hterm :
        (UInt64.ofNat (mixedTerm mixer mid last d i)).toNat = mixedTerm mixer mid last d i :=
      UInt64.toNat_ofNat_of_lt' (mixedTerm_lt mixer mid last d i)
    have hshift : ∀ j, mixedTerm mixer mid last ((d :: data).getD (j + 1) 0) (i + (j + 1)) =
        mixedTerm mixer mid last (data.getD j 0) (i + 1 + j) := by
      intro j
      rw [List.getD_cons_succ, Nat.add_assoc, Nat.add_comm 1]
    show (checksumLoop mixer mid last (i + 1) data
      (UInt64.ofNat (mixedTerm mixer mid last d i) ^^^ sum)).toNat = _
    rw [ih, UInt64.toNat_xor, hterm, List.length_cons, xorBelow_succ_left]
    simp only [hshift, List.getD_cons_zero, Nat.add_zero]
    ac_rfl

theorem headD_eq_getD (data : List UInt8) : data.headD 0 = data.getD 0 0 := by
  cases data <;> rfl

theorem getLastD_eq_getD (data : List UInt8) :
    data.getLastD 0 = data.getD (data.length - 1) 0 := by
  rw [List.getLastD_eq_getLast?, List.getLast?_eq_getElem?, List.getD_eq_getElem?_getD]

/-- The checksum of a block of more than one byte. -/
theorem checksumBytes_toNat {data : List UInt8} (h : data.length ≠ 1) :
    (checksumBytes data).toNat = xorBelow (checksumTerm data) data.length := by
  rw [checksumBytes]
  simp only [if_neg h]
  rw [checksumLoop_toNat, headD_eq_getD, getLastD_eq_getD]
  simp only [UInt64.toNat_zero, Nat.xor_zero, Nat.zero_add]
  rfl

/-! ## One changed byte -/

/-- The blocks differ at position `k` and nowhere else. -/
structure ChangedAt (k : Nat) (x y : List UInt8) : Prop where
  length : x.length = y.length
  lt : k < x.length
  ne : x.getD k 0 ≠ y.getD k 0
  others : ∀ i, i ≠ k → x.getD i 0 = y.getD i 0

section Changed

variable {x y : List UInt8} {k t : Nat}

theorem exists_bitDiff_toNat {a b : UInt8} (h : a ≠ b) : ∃ t, BitDiff t true a.toNat b.toNat :=
  BitDiff.exists_of_ne fun heq => h (UInt8.toNat_inj.mp heq)

/-- The difference of two bytes shows in any byte they are mixed with. -/
theorem bitDiff_mixed {a b u v : UInt8} {c : Bool} (d : UInt8)
    (h : BitDiff t c a.toNat b.toNat) (hxor : u ^^^ v = a ^^^ b) :
    BitDiff t c (d ^^^ u).toNat (d ^^^ v).toNat := by
  have hsame : (d ^^^ u) ^^^ (d ^^^ v) = a ^^^ b := by
    rw [← hxor]
    calc (d ^^^ u) ^^^ (d ^^^ v) = (d ^^^ d) ^^^ (u ^^^ v) := by ac_rfl
      _ = u ^^^ v := by simp
  rw [BitDiff, ← UInt8.toNat_xor] at h ⊢
  rw [hsame]
  exact h

/-- What the sum, the factor and the index make of a change. -/
theorem bitDiff_term {a a' m m' l : Nat} {c c' : Bool} {s q : Nat} (i : Nat)
    (h : BitDiff t c a a') (h' : BitDiff t c' m m') (hl : l = 2 ^ s * q) (hq : Odd q) :
    BitDiff (t + s) (c ^^ c') ((a + m) * l + i % 256) ((a' + m') * l + i % 256) := by
  subst hl
  simpa using ((h.add h').mul hq).add (.refl (t + s) (i % 256))

/-- The lowest bit of the last byte. -/
theorem last_lowest {l : UInt8} (hl : l ≠ 0) : ∃ s q, Odd q ∧ l.toNat = 2 ^ s * q := by
  have hne : l.toNat ≠ 0 := fun h0 => hl (UInt8.toNat_inj.mp h0)
  obtain ⟨s, q, hq, heq⟩ := Nat.exists_eq_two_pow_mul_odd hne
  exact ⟨s, q, hq, heq⟩

/-- With last byte 0 the terms are the indices. -/
theorem checksumTerm_last_zero (h0 : x.getD (x.length - 1) 0 = 0) (i : Nat) :
    checksumTerm x i = i % 256 := by
  rw [checksumTerm, mixedTerm, h0]
  simp

theorem ChangedAt.checksum_last_zero (h : ChangedAt k x y) (hk : k + 1 < x.length)
    (h0 : x.getD (x.length - 1) 0 = 0) : checksumBytes x = checksumBytes y := by
  have hy0 : y.getD (y.length - 1) 0 = 0 := by
    rw [← h.length, ← h.others _ (by omega), h0]
  have hlen := h.length
  refine UInt64.toNat_inj.mp ?_
  rw [checksumBytes_toNat (by omega), checksumBytes_toNat (by omega), ← h.length]
  refine xorBelow_congr fun i _ => ?_
  rw [checksumTerm_last_zero h0, checksumTerm_last_zero hy0]

/-- An inner byte is in one term. -/
theorem ChangedAt.sum_inner (h : ChangedAt k x y) (hk : k + 1 < x.length) (hfirst : k ≠ 0)
    (hmid : k ≠ x.length / 2) (hl : x.getD (x.length - 1) 0 ≠ 0) :
    xorBelow (checksumTerm x) x.length ≠ xorBelow (checksumTerm y) x.length := by
  have hlast : y.getD (y.length - 1) 0 = x.getD (x.length - 1) 0 := by
    rw [← h.length, ← h.others _ (by omega)]
  have hmids : y.getD (y.length / 2) 0 = x.getD (x.length / 2) 0 := by
    rw [← h.length, ← h.others _ (Ne.symm hmid)]
  have hmixer : mixerOf y = mixerOf x := by
    rw [mixerOf, mixerOf, hlast, hmids, h.others 0 (Ne.symm hfirst)]
  refine xorBelow_ne_of_one h.lt (fun heq => ?_) fun i _ hik => ?_
  · rw [checksumTerm, checksumTerm, hlast, hmids, hmixer, mixedTerm, mixedTerm,
      Nat.add_right_cancel_iff] at heq
    have hpos : 0 < (x.getD (x.length - 1) 0).toNat :=
      Nat.pos_of_ne_zero fun h0 => hl (UInt8.toNat_inj.mp h0)
    have hbytes := Nat.add_right_cancel (Nat.eq_of_mul_eq_mul_right hpos heq)
    have hxor : x.getD k 0 ^^^ mixerOf x = y.getD k 0 ^^^ mixerOf x := UInt8.toNat_inj.mp hbytes
    refine h.ne ?_
    rw [← xor_cancel_right (x.getD k 0) (mixerOf x), hxor, xor_cancel_right]
  · rw [checksumTerm, checksumTerm, hlast, hmids, hmixer, h.others i hik]

/-- The middle byte enters every term, but at the lowest bit it changes it flips the
middle term only: the other terms have it twice. -/
theorem ChangedAt.sum_middle (h : ChangedAt k x y) (hk : k + 1 < x.length) (hfirst : k ≠ 0)
    (hmid : k = x.length / 2) (hl : x.getD (x.length - 1) 0 ≠ 0) :
    xorBelow (checksumTerm x) x.length ≠ xorBelow (checksumTerm y) x.length := by
  have hlast : y.getD (y.length - 1) 0 = x.getD (x.length - 1) 0 := by
    rw [← h.length, ← h.others _ (by omega)]
  have hzero : y.getD 0 0 = x.getD 0 0 := (h.others 0 (Ne.symm hfirst)).symm
  have hxmid : x.getD (x.length / 2) 0 = x.getD k 0 := by rw [hmid]
  have hymid : y.getD (y.length / 2) 0 = y.getD k 0 := by rw [hmid, h.length]
  obtain ⟨s, q, hq, hs⟩ := last_lowest hl
  obtain ⟨t, ht⟩ := exists_bitDiff_toNat h.ne
  generalize hc : ~~~(x.getD 0 0 ^^^ x.getD (x.length - 1) 0) = ends
  have hxm : mixerOf x = ends ^^^ x.getD k 0 := by rw [mixerOf, hxmid, hc]
  have hym : mixerOf y = ends ^^^ y.getD k 0 := by rw [mixerOf, hlast, hzero, hymid, hc]
  have hmixers : mixerOf x ^^^ mixerOf y = x.getD k 0 ^^^ y.getD k 0 := by
    rw [hxm, hym]
    calc (ends ^^^ x.getD k 0) ^^^ (ends ^^^ y.getD k 0)
        = (ends ^^^ ends) ^^^ (x.getD k 0 ^^^ y.getD k 0) := by ac_rfl
      _ = x.getD k 0 ^^^ y.getD k 0 := by simp
  have hdiff : ∀ i < x.length,
      BitDiff (t + s) (decide (i = k)) (checksumTerm x i) (checksumTerm y i) := by
    intro i _
    rw [checksumTerm, checksumTerm, hlast, hxmid, hymid, mixedTerm, mixedTerm]
    by_cases hik : i = k
    · have hbyte : x.getD i 0 ^^^ mixerOf x = y.getD i 0 ^^^ mixerOf y := by
        rw [hik, hxm, hym, xor_comm ends, xor_comm ends, xor_cancel_left, xor_cancel_left]
      rw [hbyte, decide_eq_true hik]
      exact bitDiff_term i (.refl t _) ht hs hq
    · rw [← h.others i hik, decide_eq_false hik]
      exact bitDiff_term i (bitDiff_mixed _ ht hmixers) ht hs hq
  have hsum := xorBelow_bitDiff hdiff
  rw [oddBelow_one, decide_eq_true h.lt] at hsum
  exact hsum.ne

/-- The first byte flips every term but its own at the lowest bit it changes. -/
theorem ChangedAt.sum_first (h : ChangedAt 0 x y) (hk : 1 < x.length) (heven : Even x.length)
    (hl : x.getD (x.length - 1) 0 ≠ 0) :
    xorBelow (checksumTerm x) x.length ≠ xorBelow (checksumTerm y) x.length := by
  have hlast : y.getD (y.length - 1) 0 = x.getD (x.length - 1) 0 := by
    rw [← h.length, ← h.others _ (by omega)]
  have hmids : y.getD (y.length / 2) 0 = x.getD (x.length / 2) 0 := by
    rw [← h.length, ← h.others _ (by omega)]
  obtain ⟨s, q, hq, hs⟩ := last_lowest hl
  obtain ⟨t, ht⟩ := exists_bitDiff_toNat h.ne
  have hmixers : mixerOf x ^^^ mixerOf y = x.getD 0 0 ^^^ y.getD 0 0 := by
    rw [mixerOf, mixerOf, hlast, hmids, ← UInt8.xor_neg_one, ← UInt8.xor_neg_one]
    generalize x.getD (x.length - 1) 0 = l, x.getD (x.length / 2) 0 = m
    calc ((x.getD 0 0 ^^^ l) ^^^ -1 ^^^ m) ^^^ ((y.getD 0 0 ^^^ l) ^^^ -1 ^^^ m)
        = (x.getD 0 0 ^^^ y.getD 0 0) ^^^ ((l ^^^ l) ^^^ ((-1 ^^^ -1) ^^^ (m ^^^ m))) := by ac_rfl
      _ = x.getD 0 0 ^^^ y.getD 0 0 := by simp
  obtain ⟨n, hn⟩ : ∃ n, x.length = n + 1 := ⟨x.length - 1, by omega⟩
  -- the first byte cancels out of its own term
  have hterm : checksumTerm x 0 = checksumTerm y 0 := by
    have hbyte : x.getD 0 0 ^^^ mixerOf x = y.getD 0 0 ^^^ mixerOf y := by
      calc x.getD 0 0 ^^^ mixerOf x
          = x.getD 0 0 ^^^ (mixerOf x ^^^ mixerOf y) ^^^ mixerOf y := by
            rw [xor_assoc, xor_assoc, UInt8.xor_self, xor_zero]
        _ = y.getD 0 0 ^^^ mixerOf y := by rw [hmixers, xor_cancel_left]
    rw [checksumTerm, checksumTerm, hlast, hmids, mixedTerm, mixedTerm, hbyte]
  have hdiff : ∀ i < n, BitDiff (t + s) true (checksumTerm x (i + 1)) (checksumTerm y (i + 1)) := by
    intro i _
    rw [checksumTerm, checksumTerm, hlast, hmids, mixedTerm, mixedTerm, ← h.others _ i.succ_ne_zero]
    exact bitDiff_term (i + 1) (bitDiff_mixed _ ht hmixers) (.refl t _) hs hq
  have hodd : Odd n := by
    rw [hn, Nat.even_add_one] at heven
    exact Nat.not_even_iff_odd.mp heven
  have hsum := xorBelow_bitDiff (c := fun _ => true) hdiff
  rw [oddBelow_all, decide_eq_true hodd] at hsum
  rw [hn, xorBelow_succ_left, xorBelow_succ_left, hterm]
  exact fun heq => hsum.ne (Nat.xor_right_injective heq)

/-- One byte alone is negated, which loses nothing. -/
theorem ChangedAt.single (h : ChangedAt k x y) (hone : x.length = 1) :
    checksumBytes x ≠ checksumBytes y := by
  have hlt := h.lt
  obtain rfl : k = 0 := by omega
  have hlen := h.length
  rw [checksumBytes, checksumBytes]
  simp only [if_pos hone, if_pos (hlen ▸ hone)]
  rw [headD_eq_getD, headD_eq_getD]
  intro heq
  have hbytes := congrArg UInt64.toNat heq
  have hlt₁ : (x.getD 0 0 ^^^ 255).toNat < UInt64.size :=
    Nat.lt_trans (UInt8.toNat_lt _) (by decide)
  have hlt₂ : (y.getD 0 0 ^^^ 255).toNat < UInt64.size :=
    Nat.lt_trans (UInt8.toNat_lt _) (by decide)
  rw [UInt64.toNat_ofNat_of_lt' hlt₁, UInt64.toNat_ofNat_of_lt' hlt₂, UInt8.toNat_inj] at hbytes
  refine h.ne ?_
  rw [← xor_cancel_right (x.getD 0 0) 255, hbytes, xor_cancel_right]

/-- Off the last position, and off the first in a block of odd size, a change is seen
exactly if the last byte is not 0. -/
theorem ChangedAt.checksum_ne_iff (h : ChangedAt k x y) (hk : k + 1 < x.length)
    (heven : k = 0 → Even x.length) :
    checksumBytes x ≠ checksumBytes y ↔ x.getD (x.length - 1) 0 ≠ 0 := by
  refine ⟨fun hne h0 => hne (h.checksum_last_zero hk h0), fun hl heq => ?_⟩
  have hlen := h.length
  have hsum := congrArg UInt64.toNat heq
  rw [checksumBytes_toNat (by omega), checksumBytes_toNat (by omega), ← hlen] at hsum
  by_cases hfirst : k = 0
  · subst hfirst
    exact h.sum_first hk (heven rfl) hl hsum
  · by_cases hmid : k = x.length / 2
    · exact h.sum_middle hk hfirst hmid hl hsum
    · exact h.sum_inner hk hfirst hmid hl hsum

end Changed

/-! ## The call -/

/-- `sn_calculate_checksum` finds the block at `p` in the cache, and `bytes` are its bytes. -/
structure CachedBytes (env : Env) (s : Lib) (p : Addr) (bytes : List UInt8) : Prop where
  slots : s.manager.SlotsLive s.list.nodes
  hit : ∃ v, cacheAnswer env s p = some v ∧ bytes.length = (nodeAt s.list.nodes v).size.toNat
  nonempty : bytes ≠ []
  live : s.heap.Live p
  bytes : bytes <+: s.heap.bytes p

instance (m : AllocManager) (h : NodeHeap) : Decidable (m.SlotsLive h) :=
  inferInstanceAs (Decidable
    (∀ i, m.cacheList i ≠ .empty → (h.lookup (m.cacheList i).value).isSome))

instance (env : Env) (s : Lib) (p : Addr) (bytes : List UInt8) :
    Decidable (CachedBytes env s p bytes) :=
  decidable_of_iff (s.manager.SlotsLive s.list.nodes ∧
      (∃ v ∈ cacheAnswer env s p, bytes.length = (nodeAt s.list.nodes v).size.toNat) ∧
      bytes ≠ [] ∧ s.heap.Live p ∧ bytes <+: s.heap.bytes p)
    ⟨fun h => ⟨h.1, h.2.1, h.2.2.1, h.2.2.2.1, h.2.2.2.2⟩,
      fun h => ⟨h.slots, h.hit, h.nonempty, h.live, h.bytes⟩⟩

section Call

variable {env : Env} {s : Lib} {L : List Addr} {p : Addr} {bytes : List UInt8}

theorem slotsLive_worked (hb : Base s L) (hlive : s.manager.SlotsLive s.list.nodes) :
    (s.worked env L).manager.SlotsLive (s.worked env L).list.nodes := by
  have hsame : SameList s.list (s.worked env L).list := sameList_worked hb.rep
  have hrefill : Refilled s.list.nodes L s.manager (s.worked env L).manager :=
    refilled_worked hb.rep
  exact (SlotsLive.congr hsame).mpr (hrefill.slotsLive (fun _ ha => hb.rep.live_of_mem ha) hlive)

/-- What the cache answers is an entry, if no slot dangles. -/
theorem mem_of_cacheAnswer (hb : Base s L) (hlive : s.manager.SlotsLive s.list.nodes) {v : Addr}
    (h : cacheAnswer env s p = some v) : v ∈ L := by
  unfold cacheAnswer at h
  rw [hb.rep.entries_eq] at h
  dsimp only at h
  split_ifs at h
  obtain ⟨i, hi, rfl⟩ := Option.map_eq_some_iff.mp h
  exact (base_worked hb).mem_of_slot (slotsLive_worked hb hlive i (ne_empty_of_keySlot hi))

theorem wp_snCalculateChecksum {E : Stop → Lib → Prop} (hb : Base s L) (hu : Unlocked s L)
    (h : CachedBytes env s p bytes) :
    wp (snCalculateChecksum p) env (fun c _ => c = checksumBytes bytes) E s := by
  obtain ⟨v, hhit, hsize⟩ := h.hit
  have hv : v ∈ L := mem_of_cacheAnswer hb h.slots hhit
  have hL : L ≠ [] := List.ne_nil_of_mem hv
  have hsame : SameList s.list (s.worked env L).list := sameList_worked hb.rep
  have hlen : bytes.length ≠ 0 := fun h0 => h.nonempty (List.length_eq_zero_iff.mp h0)
  rw [snCalculateChecksum, wp_bind]
  refine wp_work_entries hb hu hL (fun h' => absurd (fun _ _ _ _ hstale => ?_) h') fun _ => ?_
  · exact hstale.not_slotsLive h.slots
  rw [wp_ite]
  refine ⟨fun h0 => absurd h0 (ne_null_of_cacheAnswer hhit), fun hp => ?_⟩
  refine wp_cacheOrListByPtr_worked hb hL hp (fun w hw hgone => absurd ?_ hgone) (fun hnone => ?_)
    fun a ha hsome s₁ h₁ => ?_
  · have hsome : cacheAnswer env s p = some w := (cacheAnswer_eq_some env hb).mpr hw
    exact hb.rep.live_of_mem (mem_of_cacheAnswer hb h.slots hsome)
  · rw [hhit] at hnone
    cases hnone
  · obtain rfl : v = a := Option.some.inj (hhit.symm.trans hsome)
    rw [wp_bind, wp_onList, linkedListEntryGetSize, wp_ite]
    refine ⟨fun h0 => absurd h0 (hb.rep.ne_null ha), fun _ => ?_⟩
    rw [wp_bind]
    refine wp_deref_live ((h₁.base (base_worked hb)).rep.live_of_mem ha) ?_
    rw [wp_pure, h₁.quiet.list.size, hsame.size, wp_ite]
    refine ⟨fun h0 => absurd (hsize.trans (by rw [h0]; rfl)) hlen, fun _ => ?_⟩
    have hheap : s₁.heap = s.heap := h₁.quiet.heap
    rw [wp_bind, wp_onHeap, hheap, ← hsize]
    refine wp_memRead ⟨h.live, h.bytes.length_le⟩ ?_
    rw [wp_pure, ← List.prefix_iff_eq_take.mp h.bytes]

end Call

/-- **What the checksum detects.** For two blocks of one size that differ in exactly one
position, each found in the cache: a block of one byte always gives another checksum; off
the last position, a change is not seen if the last byte is 0; and if it is not 0 the change
is seen, unless it is at the first position of a block of odd size. -/
theorem calculateChecksum_detects {cfg : Config} {s s' : Lib} {env env' : Env} {p p' : Addr}
    {x y : List UInt8} {k : Nat} (hs : Reachable cfg s) (hs' : Reachable cfg s')
    (hx : CachedBytes env s p x) (hy : CachedBytes env' s' p' y) (h : ChangedAt k x y) :
    ∃ c c' t t', snCalculateChecksum p env s = .done c t ∧
      snCalculateChecksum p' env' s' = .done c' t' ∧
      (x.length = 1 → c ≠ c') ∧
      (k + 1 < x.length → x.getD (x.length - 1) 0 = 0 → c = c') ∧
      (k + 1 < x.length → x.getD (x.length - 1) 0 ≠ 0 → (k = 0 → Even x.length) → c ≠ c') := by
  obtain ⟨L, hb, hu⟩ := hs.base
  obtain ⟨L', hb', hu'⟩ := hs'.base
  have hwp : wp (snCalculateChecksum p) env _ (fun _ _ => False) s :=
    wp_snCalculateChecksum hb hu hx
  have hwp' : wp (snCalculateChecksum p') env' _ (fun _ _ => False) s' :=
    wp_snCalculateChecksum hb' hu' hy
  obtain ⟨c, t, hrun, rfl⟩ := hwp.exists_done
  obtain ⟨c', t', hrun', rfl⟩ := hwp'.exists_done
  refine ⟨_, _, t, t', hrun, hrun', h.single, h.checksum_last_zero, fun hk hl heven => ?_⟩
  exact (h.checksum_ne_iff hk heven).mpr hl

/-- Four cached bytes, and another second one. -/
theorem calculateChecksum_detects_at :
    ∃ s s', Reachable ⟨false⟩ s ∧ Reachable ⟨false⟩ s' ∧ ∃ c c' t t',
      snCalculateChecksum 4096 (Env.plain 1 0 0) s = .done c t ∧
      snCalculateChecksum 4096 (Env.plain 1 0 0) s' = .done c' t' ∧ c ≠ c' := by
  have hsome : ((doinit (Env.plain 1 64 0) .blank).done?.bind (run (libStep ⟨false⟩)
      [(Env.plain 1 128 4096, .malloc 4), (Env.plain 1 0 0, .requestToFastCache 4096),
        (Env.plain 1 0 0, .clientWrite 4096 [1, 2, 3, 4])])).map (fun s =>
          decide (CachedBytes (Env.plain 1 0 0) s 4096 [1, 2, 3, 4])) = some true := by
    decide +kernel
  have hsome' : ((doinit (Env.plain 1 64 0) .blank).done?.bind (run (libStep ⟨false⟩)
      [(Env.plain 1 128 4096, .malloc 4), (Env.plain 1 0 0, .requestToFastCache 4096),
        (Env.plain 1 0 0, .clientWrite 4096 [1, 9, 3, 4])])).map (fun s =>
          decide (CachedBytes (Env.plain 1 0 0) s 4096 [1, 9, 3, 4])) = some true := by
    decide +kernel
  obtain ⟨s, hs, hx⟩ := Option.map_eq_some_iff.mp hsome
  obtain ⟨s₀, h₀, hrun⟩ := Option.bind_eq_some_iff.mp hs
  obtain ⟨s', hs', hy⟩ := Option.map_eq_some_iff.mp hsome'
  obtain ⟨s₀', h₀', hrun'⟩ := Option.bind_eq_some_iff.mp hs'
  have hreach : Reachable ⟨false⟩ s := ⟨s₀, _, started_of_done h₀, hrun⟩
  have hreach' : Reachable ⟨false⟩ s' := ⟨s₀', _, started_of_done h₀', hrun'⟩
  have hchanged : ChangedAt 1 [1, 2, 3, 4] [1, 9, 3, 4] := by
    refine ⟨rfl, by decide, by decide, fun i hi => ?_⟩
    match i with
    | 0 => rfl
    | 1 => exact absurd rfl hi
    | i + 2 => rfl
  obtain ⟨c, c', t, t', hc, hc', -, -, hne⟩ := calculateChecksum_detects hreach hreach'
    (of_decide_eq_true hx) (of_decide_eq_true hy) hchanged
  exact ⟨s, s', hreach, hreach', c, c', t, t', hc, hc', hne (by decide) (by decide) nofun⟩

/-- Six bytes, the last one 0: the checksum does not see the byte at index 1. -/
theorem checksum_misses_inner_byte :
    ((doinit (Env.plain 1 64 0) .blank).done?.bind (run (libStep ⟨false⟩)
      [(Env.plain 1 128 4096, .malloc 6), (Env.plain 1 0 0, .requestToFastCache 4096),
        (Env.plain 1 0 0, .clientWrite 4096 [0, 5, 0, 0, 0, 0])])).map (fun s =>
          ((snCalculateChecksum 4096 (Env.plain 1 0 0) s).value?,
            (libStep ⟨false⟩ (Env.plain 1 0 0, .clientWrite 4096 [0, 6, 0, 0, 0, 0]) s).map
              fun s' => (snCalculateChecksum 4096 (Env.plain 1 0 0) s').value?))
      = some (some 1, some (some 1)) := by
  decide +kernel

/-! ## Changes that are not seen -/

/-- The block of `n` bytes with byte `f i` at index `i`. -/
def blockOf (f : Nat → UInt8) (n : Nat) : List UInt8 := (List.range n).map f

section Unseen

variable {f g : Nat → UInt8} {n k : Nat}

@[simp] theorem length_blockOf : (blockOf f n).length = n := by simp [blockOf]

theorem getD_blockOf {i : Nat} (hi : i < n) : (blockOf f n).getD i 0 = f i := by
  simp [blockOf, List.getD_eq_getElem?_getD, hi]

theorem changedAt_blockOf (hk : k < n) (hne : f k ≠ g k) (hother : ∀ i, i ≠ k → f i = g i) :
    ChangedAt k (blockOf f n) (blockOf g n) := by
  refine ⟨by simp, by simpa using hk, ?_, fun i hi => ?_⟩
  · rwa [getD_blockOf hk, getD_blockOf hk]
  · by_cases hin : i < n
    · rw [getD_blockOf hin, getD_blockOf hin, hother i hi]
    · simp [blockOf, List.getD_eq_getElem?_getD, hin]

theorem checksumTerm_blockOf {i : Nat} (hi : i < n) : checksumTerm (blockOf f n) i =
    mixedTerm (~~~(f 0 ^^^ f (n - 1)) ^^^ f (n / 2)) (f (n / 2)) (f (n - 1)) (f i) i := by
  rw [checksumTerm, mixerOf, length_blockOf, getD_blockOf hi, getD_blockOf (by omega),
    getD_blockOf (by omega), getD_blockOf (by omega)]

theorem checksumBytes_blockOf_eq (hn : n ≠ 1)
    (h : xorBelow (checksumTerm (blockOf f n)) n = xorBelow (checksumTerm (blockOf g n)) n) :
    checksumBytes (blockOf f n) = checksumBytes (blockOf g n) := by
  refine UInt64.toNat_inj.mp ?_
  rwa [checksumBytes_toNat (by simpa using hn), checksumBytes_toNat (by simpa using hn),
    length_blockOf, length_blockOf]

theorem index_lt (i : Nat) : i % 256 < 2 ^ 8 := Nat.mod_lt i (by decide)

/-- In every odd size from 3 on, a change of the first byte can go unseen: the terms of the
bytes 128 are the same multiple of 256 and their indices, an even number of them. -/
theorem first_byte_unseen (hn : 3 ≤ n) (hodd : Odd n) : ∃ x y, x.length = n ∧ ChangedAt 0 x y ∧
    x.getD (n - 1) 0 ≠ 0 ∧ checksumBytes x = checksumBytes y := by
  let f : UInt8 → Nat → UInt8 := fun b i => if i = 0 then b else 128
  have hrest : ∀ b i, i ≠ 0 → f b i = 128 := fun b i hi => if_neg hi
  have hsum : ∀ b a, mixedTerm (~~~(b ^^^ 128) ^^^ 128) 128 128 128 0 = 2 ^ 8 * a →
      xorBelow (checksumTerm (blockOf (f b) n)) n =
        mixedTerm (~~~(b ^^^ 128) ^^^ 128) 128 128 b 0 ^^^
          xorBelow (fun i => (i + 1) % 256) (n - 1) := by
    intro b a ha
    obtain ⟨m, hm⟩ : ∃ m, n = m + 1 := ⟨n - 1, by omega⟩
    have heven : Even m := by
      rw [hm] at hodd
      exact Nat.not_odd_iff_even.mp (Nat.odd_add_one.mp hodd)
    have hterms : ∀ i < m, checksumTerm (blockOf (f b) n) (i + 1) = 2 ^ 8 * a + (i + 1) % 256 := by
      intro i hi
      rw [checksumTerm_blockOf (by omega), hrest b (n - 1) (by omega), hrest b (n / 2) (by omega),
        hrest b (i + 1) i.succ_ne_zero, mixedTerm_index, ← ha]
      rfl
    have hfirst : checksumTerm (blockOf (f b) n) 0 =
        mixedTerm (~~~(b ^^^ 128) ^^^ 128) 128 128 b 0 := by
      rw [checksumTerm_blockOf (by omega), hrest b (n - 1) (by omega), hrest b (n / 2) (by omega)]
      rfl
    have hm' : n - 1 = m := by omega
    rw [hm', ← hfirst]
    conv => lhs; rw [hm]
    rw [xorBelow_succ_left, ← hm, xorBelow_congr hterms,
      xorBelow_add_low a (fun i => index_lt (i + 1)) heven]
  refine ⟨blockOf (f 1) n, blockOf (f 3) n, length_blockOf,
    changedAt_blockOf (by omega) (by decide) fun i hi => ?_, ?_,
    checksumBytes_blockOf_eq (by omega) ?_⟩
  · exact (if_neg hi).trans (if_neg hi).symm
  · rw [getD_blockOf (by omega), hrest 1 (n - 1) (by omega)]
    decide
  · have hfirst : mixedTerm (~~~(1 ^^^ 128) ^^^ 128) 128 128 1 0 =
        mixedTerm (~~~(3 ^^^ 128) ^^^ 128) 128 128 3 0 := by decide
    rw [hsum 1 127 (by decide), hsum 3 126 (by decide), hfirst]

/-- In every even size a change of the last byte can go unseen: the terms of the bytes 1 are
256 and their indices, an even number of them. -/
theorem last_byte_unseen_even (hn : 2 ≤ n) (heven : Even n) : ∃ x y, x.length = n ∧
    ChangedAt (n - 1) x y ∧ checksumBytes x = checksumBytes y := by
  let g : Nat → UInt8 := fun i => if i = n - 1 then 0 else 1
  refine ⟨blockOf (fun _ => 1) n, blockOf g n, length_blockOf,
    changedAt_blockOf (by omega) (by simp [g]) fun i hi => (if_neg hi).symm,
    checksumBytes_blockOf_eq (by omega) ?_⟩
  have hones : ∀ i < n, checksumTerm (blockOf (fun _ => 1) n) i = 2 ^ 8 * 1 + i % 256 := by
    intro i hi
    rw [checksumTerm_blockOf hi]
    rfl
  have hzero : (blockOf g n).getD ((blockOf g n).length - 1) 0 = 0 := by
    rw [length_blockOf, getD_blockOf (by omega)]
    exact if_pos rfl
  rw [xorBelow_congr hones, xorBelow_add_low 1 index_lt heven]
  exact (xorBelow_congr fun i _ => checksumTerm_last_zero hzero i).symm

/-- In every odd size from 3 on, too: neighbouring terms of the bytes 3 differ in the lowest
bit only, and what is left over is the same for the last bytes 17 and 113. -/
theorem last_byte_unseen_odd (hn : 3 ≤ n) (hodd : Odd n) : ∃ x y, x.length = n ∧
    ChangedAt (n - 1) x y ∧ checksumBytes x = checksumBytes y := by
  let f : UInt8 → Nat → UInt8 := fun b i => if i = n - 1 then b else if i = 0 then 1 else 3
  have hlast : ∀ b, f b (n - 1) = b := fun b => if_pos rfl
  have hfirst : ∀ b, f b 0 = 1 := fun b => (if_neg (by omega)).trans (if_pos rfl)
  have hinner : ∀ b i, i ≠ n - 1 → i ≠ 0 → f b i = 3 := fun b i h h' =>
    (if_neg h).trans (if_neg h')
  obtain ⟨m, hm⟩ : ∃ m, n = m + 1 + 1 := ⟨n - 2, by omega⟩
  have hm' : n - 1 = m + 1 := by omega
  have heven : Even (m + 1) := by
    rw [hm] at hodd
    exact Nat.not_odd_iff_even.mp (Nat.odd_add_one.mp hodd)
  -- with an even inner term `T` and a last one that is `a` times 256
  have hsum : ∀ b T a, Even T → mixedTerm (~~~(1 ^^^ b) ^^^ 3) 3 b 3 0 = T →
      mixedTerm (~~~(1 ^^^ b) ^^^ 3) 3 b b 0 = 2 ^ 8 * a →
      xorBelow (checksumTerm (blockOf (f b) n)) n =
        (mixedTerm (~~~(1 ^^^ b) ^^^ 3) 3 b 1 0 ^^^ T ^^^ 2 ^ 8 * a) ^^^
          (xorBelow (fun i => i % 256) (m + 1) ^^^ (n - 1) % 256) := by
    intro b T a hT hinnerT hlastT
    have hterm : ∀ i < n, checksumTerm (blockOf (f b) n) i =
        mixedTerm (~~~(1 ^^^ b) ^^^ 3) 3 b (f b i) i := by
      intro i hi
      rw [checksumTerm_blockOf hi, hlast, hfirst, hinner b (n / 2) (by omega) (by omega)]
    have hzero : checksumTerm (blockOf (f b) n) 0 = mixedTerm (~~~(1 ^^^ b) ^^^ 3) 3 b 1 0 := by
      rw [hterm 0 (by omega), hfirst]
    have hend : checksumTerm (blockOf (f b) n) (m + 1) = 2 ^ 8 * a + (n - 1) % 256 := by
      rw [hterm (m + 1) (by omega), ← hm', hlast, mixedTerm_index, hlastT]
    have hterms : ∀ i < m, checksumTerm (blockOf (f b) n) (i + 1) = T + (i + 1) % 256 := by
      intro i hi
      rw [hterm (i + 1) (by omega), hinner b (i + 1) (by omega) (by omega), mixedTerm_index,
        hinnerT]
    have hpairs : xorBelow (fun i => T + i % 256) (m + 1) = xorBelow (fun i => i % 256) (m + 1) :=
      xorBelow_even_offset (w := 7) hT heven
    rw [xorBelow_succ_left] at hpairs
    conv => lhs; rw [hm]
    rw [xorBelow, ← hm, xorBelow_succ_left, xorBelow_congr hterms, hzero, hend,
      add_low_eq_xor a (index_lt _)]
    generalize xorBelow (fun i => T + (i + 1) % 256) m = inner at hpairs ⊢
    rw [← hpairs, Nat.zero_mod, Nat.add_zero]
    calc _ = (T ^^^ T) ^^^ (mixedTerm (~~~(1 ^^^ b) ^^^ 3) 3 b 1 0 ^^^ inner ^^^
          (2 ^ 8 * a ^^^ (n - 1) % 256)) := by rw [Nat.xor_self, zero_xor]
      _ = _ := by ac_rfl
  refine ⟨blockOf (f 17) n, blockOf (f 113) n, length_blockOf,
    changedAt_blockOf (by omega) ?_ fun i hi => (if_neg hi).trans (if_neg hi).symm,
    checksumBytes_blockOf_eq (by omega) ?_⟩
  · rw [hlast, hlast]
    decide
  · have hrest : mixedTerm (~~~(1 ^^^ 17) ^^^ 3) 3 17 1 0 ^^^ 4114 ^^^ 2 ^ 8 * 17 =
        mixedTerm (~~~(1 ^^^ 113) ^^^ 3) 3 113 1 0 ^^^ 16498 ^^^ 2 ^ 8 * 113 := by decide
    rw [hsum 17 4114 17 (by decide) (by decide) (by decide),
      hsum 113 16498 113 (by decide) (by decide) (by decide), hrest]

end Unseen

end LibSafetynet
