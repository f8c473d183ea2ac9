import Mathlib

/-!
# The lowest changed bit

`BitDiff t c a b`: below bit `t` the numbers `a` and `b` agree, and at bit `t` they
differ exactly if `c`. Sums and exclusive ors combine such facts the same way: the
changes at bit `t` cancel in pairs. A product with a number whose lowest bit is `s`
moves the change up to bit `t + s`. So a change that is too spread out to be followed
through carries can still be followed at its lowest bit.

`xorBelow` is an exclusive or over an index range, and `xorBelow_bitDiff` says what
changes of its terms do to it.
-/

namespace LibSafetynet.Logic

/-- `a` and `b` agree below bit `t`, and differ at bit `t` exactly if `c`. -/
def BitDiff (t : Nat) (c : Bool) (a b : Nat) : Prop := (a ^^^ b) % 2 ^ (t + 1) = c.toNat * 2 ^ t

namespace BitDiff

variable {t : Nat} {c c' : Bool} {a a' b b' : Nat}

theorem refl (t a : Nat) : BitDiff t false a a := by simp [BitDiff]

theorem ne (h : BitDiff t true a b) : a ≠ b := by
  rintro rfl
  rw [BitDiff, Nat.xor_self, Nat.zero_mod, Bool.toNat_true, Nat.one_mul] at h
  exact (Nat.two_pow_pos t).ne h

theorem xor (h : BitDiff t c a b) (h' : BitDiff t c' a' b') :
    BitDiff t (c ^^ c') (a ^^^ a') (b ^^^ b') := by
  have hswap : (a ^^^ a') ^^^ (b ^^^ b') = (a ^^^ b) ^^^ (a' ^^^ b') := by ac_rfl
  rw [BitDiff, hswap, Nat.xor_mod_two_pow, h, h']
  cases c <;> cases c' <;> simp

/-- Flipping bit `t` is adding `2 ^ t`, as far as bits up to `t` go. -/
theorem xor_two_pow_modEq (t a : Nat) : a ^^^ 2 ^ t ≡ a + 2 ^ t [MOD 2 ^ (t + 1)] := by
  refine Nat.eq_of_testBit_eq fun i => ?_
  rw [Nat.testBit_mod_two_pow, Nat.testBit_mod_two_pow, Nat.testBit_xor, Nat.add_comm a]
  rcases Nat.lt_trichotomy i t with hlt | rfl | hgt
  · rw [Nat.testBit_two_pow_of_ne (by omega), Nat.testBit_two_pow_add_gt hlt, Bool.xor_false]
  · rw [Nat.testBit_two_pow_self, Nat.testBit_two_pow_add_eq, Bool.xor_true]
  · simp [show ¬ i < t + 1 by omega]

/-- The same fact about remainders. -/
theorem iff_modEq : BitDiff t c a b ↔ b ≡ a + c.toNat * 2 ^ t [MOD 2 ^ (t + 1)] := by
  have hpow : (c.toNat * 2 ^ t) % 2 ^ (t + 1) = c.toNat * 2 ^ t := by
    refine Nat.mod_eq_of_lt ?_
    cases c with
    | false => simp
    | true => simp [Nat.pow_lt_pow_succ]
  have hflip : a ^^^ (c.toNat * 2 ^ t) ≡ a + c.toNat * 2 ^ t [MOD 2 ^ (t + 1)] := by
    cases c with
    | false => simp [Nat.ModEq]
    | true => simpa using xor_two_pow_modEq t a
  have hcancel : a ^^^ (a ^^^ b) = b := xor_cancel_left a b
  constructor
  · intro h
    refine Nat.ModEq.trans ?_ hflip
    rw [Nat.ModEq, Nat.xor_mod_two_pow, hpow, ← h, ← Nat.xor_mod_two_pow, hcancel]
  · intro h
    rw [BitDiff, Nat.xor_mod_two_pow, h.trans hflip.symm, Nat.xor_mod_two_pow, hpow]
    exact xor_cancel_left _ _

theorem add (h : BitDiff t c a b) (h' : BitDiff t c' a' b') :
    BitDiff t (c ^^ c') (a + a') (b + b') := by
  rw [iff_modEq] at h h' ⊢
  refine (h.add h').trans ?_
  have hsum : (a + c.toNat * 2 ^ t) + (a' + c'.toNat * 2 ^ t) =
      a + a' + (c.toNat * 2 ^ t + c'.toNat * 2 ^ t) := by ring
  rw [hsum]
  refine Nat.ModEq.add_left _ ?_
  cases c <;> cases c' <;> simp [Nat.ModEq, pow_succ, ← Nat.mul_two]

/-- A product shifts the change by the lowest bit of the factor. -/
theorem mul {s q : Nat} (h : BitDiff t c a b) (hq : Odd q) :
    BitDiff (t + s) c (a * (2 ^ s * q)) (b * (2 ^ s * q)) := by
  rw [iff_modEq] at h ⊢
  obtain ⟨r, rfl⟩ := hq
  have hmod := h.mul_right' (2 ^ s * (2 * r + 1))
  have hdvd : 2 ^ (t + s + 1) ∣ 2 ^ (t + 1) * (2 ^ s * (2 * r + 1)) := ⟨2 * r + 1, by ring⟩
  refine (hmod.of_dvd hdvd).trans ?_
  have hsum : (a + c.toNat * 2 ^ t) * (2 ^ s * (2 * r + 1)) =
      a * (2 ^ s * (2 * r + 1)) + c.toNat * 2 ^ (t + s) + 2 ^ (t + s + 1) * (c.toNat * r) := by
    ring
  rw [hsum]
  exact Nat.add_mul_mod_self_left _ _ _

/-- Numbers that differ have a lowest bit at which they do. -/
theorem exists_of_ne (h : a ≠ b) : ∃ t, BitDiff t true a b := by
  have hne : a ^^^ b ≠ 0 := fun h0 => h (Nat.xor_eq_zero_iff.mp h0)
  obtain ⟨t, q, ⟨r, rfl⟩, hq⟩ := Nat.exists_eq_two_pow_mul_odd hne
  refine ⟨t, ?_⟩
  have hval : a ^^^ b = 2 ^ t + 2 ^ (t + 1) * r := by rw [hq]; ring
  rw [BitDiff, hval, Nat.add_mul_mod_self_left, Bool.toNat_true, Nat.one_mul]
  exact Nat.mod_eq_of_lt (Nat.pow_lt_pow_succ (by decide))

end BitDiff

/-! ## Exclusive or over a range -/

/-- The exclusive or of `f 0`, ..., `f (n - 1)`. -/
def xorBelow (f : Nat → Nat) : Nat → Nat
  | 0 => 0
  | n + 1 => xorBelow f n ^^^ f n

/-- Whether an odd number of the first `n` flags is set. -/
def oddBelow (c : Nat → Bool) : Nat → Bool
  | 0 => false
  | n + 1 => oddBelow c n ^^ c n

section Below

variable {f g : Nat → Nat} {c : Nat → Bool} {n k t : Nat}

theorem xorBelow_congr (h : ∀ i < n, f i = g i) : xorBelow f n = xorBelow g n := by
  induction n with
  | zero => rfl
  | succ n ih =>
    rw [xorBelow, xorBelow, ih fun i hi => h i (Nat.lt_succ_of_lt hi), h n n.lt_succ_self]

/-- The first term apart from the others. -/
theorem xorBelow_succ_left (f : Nat → Nat) (n : Nat) :
    xorBelow f (n + 1) = f 0 ^^^ xorBelow (fun i => f (i + 1)) n := by
  induction n with
  | zero => simp [xorBelow]
  | succ n ih => rw [xorBelow, ih, xorBelow, Nat.xor_assoc]

/-- Changes of the terms at bit `t` cancel in pairs. -/
theorem xorBelow_bitDiff (h : ∀ i < n, BitDiff t (c i) (f i) (g i)) :
    BitDiff t (oddBelow c n) (xorBelow f n) (xorBelow g n) := by
  induction n with
  | zero => exact .refl t 0
  | succ n ih => exact (ih fun i hi => h i (Nat.lt_succ_of_lt hi)).xor (h n n.lt_succ_self)

theorem oddBelow_one (k n : Nat) : oddBelow (fun i => decide (i = k)) n = decide (k < n) := by
  induction n with
  | zero => rfl
  | succ n ih =>
    rw [oddBelow, ih]
    rcases Nat.lt_trichotomy n k with h | h | h
    · simp [show ¬ k < n by omega, show ¬ n = k by omega, show ¬ k < n + 1 by omega]
    · simp [h]
    · simp [h, show ¬ n = k by omega, show k < n + 1 by omega]

theorem oddBelow_all (n : Nat) : oddBelow (fun _ => true) n = decide (Odd n) := by
  induction n with
  | zero => rfl
  | succ n ih => rw [oddBelow, ih, Bool.xor_true, ← decide_not, decide_eq_decide, Nat.odd_add_one]

/-- A change of one term alone is not lost. -/
theorem xorBelow_ne_of_one (hk : k < n) (hne : f k ≠ g k)
    (hother : ∀ i < n, i ≠ k → f i = g i) : xorBelow f n ≠ xorBelow g n := by
  obtain ⟨t, ht⟩ := BitDiff.exists_of_ne hne
  have hdiff : ∀ i < n, BitDiff t (decide (i = k)) (f i) (g i) := by
    intro i hi
    by_cases hik : i = k
    · rw [decide_eq_true hik, hik]
      exact ht
    · rw [decide_eq_false hik, hother i hi hik]
      exact .refl t _
  have hxor := xorBelow_bitDiff hdiff
  rw [oddBelow_one, decide_eq_true hk] at hxor
  exact hxor.ne

end Below

/-! ## Terms that share a high part -/

/-- A high part and a low one have no bit in common. -/
theorem add_low_eq_xor (a : Nat) {w b : Nat} (hb : b < 2 ^ w) :
    2 ^ w * a + b = 2 ^ w * a ^^^ b := by
  refine Nat.eq_of_testBit_eq fun i => ?_
  rw [Nat.testBit_two_pow_mul_add a hb, Nat.testBit_xor, Nat.testBit_two_pow_mul]
  split_ifs with hi
  · simp [Nat.not_le.mpr hi]
  · have hlow : b.testBit i = false := Nat.testBit_lt_two_pow
      (Nat.lt_of_lt_of_le hb (Nat.pow_le_pow_right (by decide) (Nat.le_of_not_lt hi)))
    simp [Nat.le_of_not_lt hi, hlow]

/-- An even number of equal high parts cancels. -/
theorem xorBelow_add_low {w : Nat} (a : Nat) {g : Nat → Nat} (hg : ∀ i, g i < 2 ^ w) {n : Nat}
    (hn : Even n) : xorBelow (fun i => 2 ^ w * a + g i) n = xorBelow g n := by
  obtain ⟨m, rfl⟩ := hn
  induction m with
  | zero => rfl
  | succ m ih =>
    have htwo : m + 1 + (m + 1) = m + m + 1 + 1 := by omega
    rw [htwo]
    simp only [xorBelow, add_low_eq_xor a (hg _)] at ih ⊢
    rw [ih]
    calc _ = (2 ^ w * a ^^^ 2 ^ w * a) ^^^
            (xorBelow g (m + m) ^^^ g (m + m) ^^^ g (m + m + 1)) := by
          ac_rfl
      _ = _ := by simp

/-- An even offset does not change what neighbours give. -/
theorem xorBelow_even_offset {T : Nat} (hT : Even T) {w n : Nat} (hn : Even n) :
    xorBelow (fun i => T + i % 2 ^ (w + 1)) n = xorBelow (fun i => i % 2 ^ (w + 1)) n := by
  have hpair : ∀ k : Nat, (2 * k) ^^^ (2 * k + 1) = 1 := by
    intro k
    have hbits := add_low_eq_xor (w := 1) k (b := 1) (by decide)
    rw [Nat.pow_one] at hbits
    rw [hbits, xor_cancel_left]
  obtain ⟨u, rfl⟩ := hT
  obtain ⟨m, rfl⟩ := hn
  induction m with
  | zero => rfl
  | succ m ih =>
    have htwo : m + 1 + (m + 1) = m + m + 1 + 1 := by omega
    -- an index and its successor differ in the lowest bit, also modulo a power of two
    obtain ⟨r, hr, hr'⟩ : ∃ r, (m + m) % 2 ^ (w + 1) = 2 * r ∧
        (m + m + 1) % 2 ^ (w + 1) = 2 * r + 1 := by
      refine ⟨m % 2 ^ w, ?_, ?_⟩
      · rw [← Nat.two_mul, pow_succ', Nat.mul_mod_mul_left]
      · have hhalf : (2 * m + 1) / 2 = m := by omega
        rw [← Nat.two_mul, pow_succ', Nat.mod_mul, hhalf]
        omega
    rw [htwo]
    simp only [xorBelow] at ih ⊢
    rw [ih, hr, hr', Nat.xor_assoc, Nat.xor_assoc, hpair r]
    have hodd : u + u + 2 * r = 2 * (u + r) := by ring
    rw [← Nat.add_assoc, hodd, hpair]

end LibSafetynet.Logic
