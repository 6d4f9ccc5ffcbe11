import Mathlib.Data.Int.Bitwise
import Mathlib.Data.Int.ModEq
import Mathlib.Tactic.LinearCombination
import Disasm68k.Bits

/-!
# Bits, masks and signs of integers

Fields and sign extension are defined by quotients and remainders. For an integer of any sign and
size they are what its infinitely many two's complement bits say: a field of one bit is a bit, a
remainder is what a mask of ones leaves, and sign extension takes the bits below the sign bit less
the sign bit. So it gives the one number with a sign and so many bits that is congruent to the
integer, and all its laws follow from this.

- `bits_one`, `bits_eq_one_iff`: a field of one bit is a bit of the integer;
- `land_ones`, `land_pow2`: what masks leave of an integer;
- `IsSignedRemainder`, `signExtend_eq_iff`: the number that sign extension gives;
- `signExtend_eq_signExtend_iff`, `signExtend_signExtend`: what it depends on, and how it composes;
- `signExtend?_gives_signed_remainder`: the results together, at integer widths.
-/

namespace Disasm68k

/-! ## Bits -/

/-- A field of one bit is the bit of the two's complement number. -/
theorem bits_eq_one_iff (value : Int) (low : Nat) :
    bits value low 1 = 1 ↔ value.testBit low = true := by
  have hpos : (0 : Int) < (2 ^ low : Nat) := Int.natCast_pos.mpr (Nat.two_pow_pos low)
  have hbit (n : Nat) : n.testBit low = true ↔ n / 2 ^ low % 2 = 1 := by
    rw [Nat.testBit_eq_decide_div_mod_eq, decide_eq_true_iff]
  show value / ((1 <<< low : Nat) : Int) % 2 = 1 ↔ _
  rw [Nat.one_shiftLeft]
  cases value with
  | ofNat n =>
    show ((n / 2 ^ low % 2 : Nat) : Int) = 1 ↔ n.testBit low = true
    rw [hbit]
    omega
  | negSucc n =>
    -- the bits of a negative number are the opposites of those of its complement
    have hquotient : Int.negSucc n / ((2 ^ low : Nat) : Int) = Int.negSucc (n / 2 ^ low) := by
      rw [Int.negSucc_ediv n hpos]
      rfl
    show _ ↔ (!n.testBit low) = true
    rw [hquotient, Bool.not_eq_true', ← Bool.not_eq_true, hbit]
    omega

theorem bits_one (value : Int) (low : Nat) : bits value low 1 = (value.testBit low).toNat := by
  have hnonneg := bits_nonneg value low 1
  have hlt : bits value low 1 < 2 := bits_lt ..
  have hone := bits_eq_one_iff value low
  cases hbit : value.testBit low with
  | true => exact hone.mpr hbit
  | false =>
    rw [hbit] at hone
    have hne : bits value low 1 ≠ 1 := fun h => Bool.false_ne_true (hone.mp h)
    show bits value low 1 = 0
    omega

/-! ## Masks -/

theorem pow2_eq_natCast (n : Nat) : pow2 n = ((2 ^ n : Nat) : Int) :=
  congrArg Int.ofNat (Nat.one_shiftLeft n)

theorem pow2_eq_two_pow (n : Nat) : pow2 n = 2 ^ n := by
  rw [pow2_eq_natCast, Int.natCast_pow]
  rfl

/-- A mask of ones leaves the remainder. -/
theorem land_ones (value : Int) (n : Nat) : value.land (pow2 n - 1) = value % pow2 n := by
  have hones : pow2 n - 1 = ((2 ^ n - 1 : Nat) : Int) := by
    rw [pow2_eq_natCast, Int.natCast_sub (Nat.two_pow_pos n)]
    rfl
  rw [hones, pow2_eq_natCast]
  cases value with
  | ofNat m => exact congrArg Int.ofNat (Nat.and_two_pow_sub_one_eq_mod m n)
  | negSucc m =>
    have hlt : m % 2 ^ n < 2 ^ n := Nat.mod_lt m (Nat.two_pow_pos n)
    -- below the end of the mask stand the opposites of the bits of the complement
    have hmask : Nat.ldiff (2 ^ n - 1) m = 2 ^ n - (m % 2 ^ n + 1) := by
      refine Nat.eq_of_testBit_eq fun i => ?_
      rw [Nat.testBit_ldiff, Nat.testBit_two_pow_sub_one, Nat.testBit_two_pow_sub_succ hlt,
        Nat.testBit_mod_two_pow]
      by_cases hi : i < n <;> simp [hi]
    show ((Nat.ldiff (2 ^ n - 1) m : Nat) : Int) = _
    rw [hmask, Int.negSucc_emod m (Int.natCast_pos.mpr (Nat.two_pow_pos n))]
    omega

/-- A mask of a single one leaves the bit in its place. -/
theorem land_pow2 (value : Int) (n : Nat) : value.land (pow2 n) = bits value n 1 * pow2 n := by
  rw [bits_one, pow2_eq_natCast]
  cases value with
  | ofNat m => exact congrArg Int.ofNat (Nat.and_two_pow m n)
  | negSucc m =>
    have hmask : Nat.ldiff (2 ^ n) m = (!m.testBit n).toNat * 2 ^ n := by
      refine Nat.eq_of_testBit_eq fun i => ?_
      rw [Nat.testBit_ldiff, Nat.testBit_two_pow]
      by_cases hi : n = i
      · subst hi
        cases m.testBit n <;> simp
      · cases m.testBit n <;> simp [hi]
    exact congrArg Int.ofNat hmask

/-- Sign extension takes the bits below the sign bit less the sign bit. -/
theorem signExtend_eq_masks (value : Int) (width : Nat) :
    signExtend value width =
      value.land (pow2 (width - 1) - 1) - value.land (pow2 (width - 1)) := by
  rw [land_ones, land_pow2, signExtend]

/-! ## The number that sign extension gives -/

/-- The number has a sign and `width` bits, and it is congruent to the value modulo the number of
values that these bits have. -/
structure IsSignedRemainder (value : Int) (width : Nat) (number : Int) : Prop where
  lower : -2 ^ (width - 1) ≤ number
  upper : number < 2 ^ (width - 1)
  modEq : number ≡ value [ZMOD 2 ^ width]

variable {value value' number number' : Int} {width narrow : Nat}

/-- There is only one such number, as the range has no more values than the modulus. -/
theorem IsSignedRemainder.unique (hwidth : 0 < width) (h : IsSignedRemainder value width number)
    (h' : IsSignedRemainder value width number') : number = number' := by
  have hspan : (2 : Int) * 2 ^ (width - 1) = 2 ^ width := mul_pow_sub_one hwidth.ne' 2
  have hsame := (h.modEq.trans h'.modEq.symm).add_right (2 ^ (width - 1))
  obtain ⟨hlower, hupper, -⟩ := h
  obtain ⟨hlower', hupper', -⟩ := h'
  -- moved up by half of the range, both numbers are their own remainders
  rw [Int.ModEq, Int.emod_eq_of_lt (by omega) (by omega), Int.emod_eq_of_lt (by omega) (by omega)]
    at hsame
  omega

/-- The bits below the sign bit, less the sign bit, are no further from zero than its weight. -/
theorem rest_sub_sign_range (value : Int) {half : Int} (hpos : 0 < half) :
    -half ≤ value % half - value / half % 2 * half ∧
      value % half - value / half % 2 * half < half := by
  have hlow := Int.emod_nonneg value (Int.ne_of_gt hpos)
  have hhigh := Int.emod_lt_of_pos value hpos
  rcases Int.emod_two_eq_zero_or_one (value / half) with hclear | hset
  · rw [hclear]
    omega
  · rw [hset]
    omega

/-- What the value has beyond that is twice the sign bit and the bits above it, all of them
multiples of twice the weight of the sign bit. -/
theorem rest_sub_sign_modEq (value half : Int) :
    value % half - value / half % 2 * half ≡ value [ZMOD 2 * half] := by
  have hvalue := Int.emod_add_mul_ediv value half
  have hquotient := Int.emod_add_mul_ediv (value / half) 2
  refine Int.modEq_iff_dvd.mpr ⟨value / half % 2 + value / half / 2, ?_⟩
  linear_combination -hvalue - half * hquotient

theorem isSignedRemainder_signExtend (value : Int) (h : 0 < width) :
    IsSignedRemainder value width (signExtend value width) := by
  have hhalf := pow2_eq_two_pow (width - 1)
  have hnumber : signExtend value width =
      value % 2 ^ (width - 1) - value / 2 ^ (width - 1) % 2 * 2 ^ (width - 1) := by
    rw [← hhalf]
    rfl
  have hrange := rest_sub_sign_range value (hhalf ▸ pow2_pos (width - 1))
  have hmodEq := rest_sub_sign_modEq value (2 ^ (width - 1))
  rw [← hnumber] at hrange hmodEq
  rw [mul_pow_sub_one h.ne'] at hmodEq
  exact ⟨hrange.1, hrange.2, hmodEq⟩

/-- **Sign extension gives the signed remainder.** -/
theorem signExtend_eq_iff (h : 0 < width) :
    signExtend value width = number ↔ IsSignedRemainder value width number := by
  have hresult := isSignedRemainder_signExtend value h
  constructor
  · rintro rfl
    exact hresult
  · intro hnumber
    exact hresult.unique h hnumber

/-! ## Laws of sign extension -/

/-- Sign extension tells integers apart as far as their remainders do. -/
theorem signExtend_eq_signExtend_iff (h : 0 < width) :
    signExtend value' width = signExtend value width ↔ value' ≡ value [ZMOD 2 ^ width] := by
  have hresult := isSignedRemainder_signExtend value h
  rw [signExtend_eq_iff h]
  constructor
  · intro hsame
    exact hsame.modEq.symm.trans hresult.modEq
  · intro hmodEq
    exact ⟨hresult.lower, hresult.upper, hresult.modEq.trans hmodEq.symm⟩

theorem signExtend_of_range (h : 0 < width) (hlower : -2 ^ (width - 1) ≤ value)
    (hupper : value < 2 ^ (width - 1)) : signExtend value width = value :=
  (signExtend_eq_iff h).mpr ⟨hlower, hupper, Int.ModEq.rfl⟩

/-- The bits that are added at a greater width do not count at a smaller one. -/
theorem signExtend_signExtend (hpos : 0 < narrow) (hle : narrow ≤ width) :
    signExtend (signExtend value width) narrow = signExtend value narrow := by
  have hwide := isSignedRemainder_signExtend value (Nat.lt_of_lt_of_le hpos hle)
  rw [signExtend_eq_signExtend_iff hpos]
  exact hwide.modEq.of_dvd (pow_dvd_pow 2 hle)

/-! ## Integer widths -/

theorem signExtend?_of_pos (value : Int) {width : Int} (h : 1 ≤ width) :
    signExtend? value width = some (signExtend value width.toNat) :=
  if_pos h

/-- **Sign extension is the signed remainder.** For every integer and every width of at least one
bit it gives a number: the bits below the sign bit less the sign bit, which is the only number of
the range with a sign that is congruent to the integer. It gives the same number for the integers
that are congruent, and for no others; it leaves the numbers of the range as they are, so that it
changes nothing the second time; and a smaller width after it gives what it gives at once. -/
theorem signExtend?_gives_signed_remainder (value width : Int) (h : 1 ≤ width) :
    ∃ number, signExtend? value width = some number ∧
      number = value.land (2 ^ (width.toNat - 1) - 1) - value.land (2 ^ (width.toNat - 1)) ∧
      IsSignedRemainder value width.toNat number ∧
      (∀ number', IsSignedRemainder value width.toNat number' → number' = number) ∧
      (∀ value', signExtend? value' width = some number ↔ value' ≡ value [ZMOD 2 ^ width.toNat]) ∧
      (-2 ^ (width.toNat - 1) ≤ value → value < 2 ^ (width.toNat - 1) → number = value) ∧
      signExtend? number width = some number ∧
      ∀ narrow, 1 ≤ narrow → narrow ≤ width →
        signExtend? number narrow = signExtend? value narrow := by
  have hpos : 0 < width.toNat := by omega
  have hresult := isSignedRemainder_signExtend value hpos
  refine ⟨signExtend value width.toNat, signExtend?_of_pos value h, ?_, hresult, ?_, ?_, ?_, ?_, ?_⟩
  · rw [← pow2_eq_two_pow]
    exact signExtend_eq_masks value width.toNat
  · intro number' hnumber'
    exact hnumber'.unique hpos hresult
  · intro value'
    rw [signExtend?_of_pos value' h, Option.some_inj]
    exact signExtend_eq_signExtend_iff hpos
  · intro hlower hupper
    exact signExtend_of_range hpos hlower hupper
  · rw [signExtend?_of_pos _ h, signExtend_signExtend hpos (Nat.le_refl _)]
  · intro narrow hnarrow hle
    rw [signExtend?_of_pos _ hnarrow, signExtend?_of_pos _ hnarrow,
      signExtend_signExtend (by omega) (by omega)]

/-- At eight bits -129 is 127, as 383 is, and at four bits both are -1. -/
theorem signExtend?_gives_signed_remainder_below_range :
    signExtend? (-129) 8 = some 127 ∧ IsSignedRemainder (-129) 8 127 ∧
      (signExtend? 383 8 = some 127 ↔ 383 ≡ -129 [ZMOD 256]) ∧ 383 ≡ -129 [ZMOD 256] ∧
      signExtend? 127 8 = some 127 ∧ signExtend? 127 4 = signExtend? (-129) 4 ∧
      signExtend? (-129) 4 = some (-1) := by
  have hvalue : signExtend? (-129) 8 = some 127 := by decide
  obtain ⟨number, hnumber, -, hremainder, -, hsame, -, hagain, hnarrow⟩ :=
    signExtend?_gives_signed_remainder (-129) 8 (by decide)
  obtain rfl : 127 = number := Option.some.inj (hvalue.symm.trans hnumber)
  exact ⟨hvalue, hremainder, hsame 383, by decide, hagain, hnarrow 4 (by decide) (by decide),
    by decide⟩

end Disasm68k
