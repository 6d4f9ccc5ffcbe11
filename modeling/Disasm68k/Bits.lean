/-!
# Bit fields of unbounded integers

Instruction words, masks and displacements are integers of any sign and size,
read as two's complement numbers with infinitely many sign bits. A field of bits
is therefore a quotient and a remainder of floor division.

- `pow2 n`: two to the power `n`;
- `bits value low count`: the field of `count` bits whose lowest bit is `low`;
- `signExtend value width`: the two's complement reading of the low `width` bits;
- `signExtend? value width`: the same for an integer width, which must be positive.

Reference: specification §3, sign extension of fields (`sign_extend`).
-/

namespace Disasm68k

/-- Two to the power `n`. -/
def pow2 (n : Nat) : Int :=
  ((1 <<< n : Nat) : Int)

/-- The unsigned field of `count` bits of `value` that starts at bit `low`. -/
def bits (value : Int) (low count : Nat) : Int :=
  value / pow2 low % pow2 count

/-- Reads the low `width` bits of `value` as a two's complement number: the bits
below the sign bit count as they stand, the sign bit counts negatively. -/
def signExtend (value : Int) (width : Nat) : Int :=
  value % pow2 (width - 1) - bits value (width - 1) 1 * pow2 (width - 1)

/-- Sign extension at an integer width; only a positive width has a sign bit. -/
def signExtend? (value width : Int) : Option Int :=
  if 0 < width then some (signExtend value width.toNat) else none

/-! ## Fields lie in their range -/

theorem pow2_pos (n : Nat) : 0 < pow2 n := by
  have : 0 < 1 <<< n := by
    rw [Nat.one_shiftLeft]
    exact Nat.two_pow_pos n
  exact Int.natCast_pos.mpr this

theorem bits_nonneg (value : Int) (low count : Nat) : 0 ≤ bits value low count :=
  Int.emod_nonneg _ (Int.ne_of_gt (pow2_pos count))

theorem bits_lt (value : Int) (low count : Nat) : bits value low count < pow2 count :=
  Int.emod_lt_of_pos _ (pow2_pos count)

/-! ## Fields of the low bits -/

theorem pow2_add (m n : Nat) : pow2 (m + n) = pow2 m * pow2 n := by
  show ((1 <<< (m + n) : Nat) : Int) = (1 <<< m : Nat) * (1 <<< n : Nat)
  rw [Nat.one_shiftLeft, Nat.one_shiftLeft, Nat.one_shiftLeft, Nat.pow_add, Int.natCast_mul]

/-- A field does not see the bits above it. -/
theorem bits_add_mul (value k : Int) (low count : Nat) :
    bits (value + pow2 (low + count) * k) low count = bits value low count := by
  have hsum : value + pow2 (low + count) * k = value + pow2 low * (pow2 count * k) := by
    rw [pow2_add, Int.mul_assoc]
  rw [bits, bits, hsum, Int.add_mul_ediv_left _ _ (Int.ne_of_gt (pow2_pos low)),
    Int.add_mul_emod_self_left]

/-- So a field is a matter of as many low bits as there are up to its end. -/
theorem bits_emod (value : Int) {low count width : Nat} (h : low + count ≤ width) :
    bits (value % pow2 width) low count = bits value low count := by
  obtain ⟨extra, rfl⟩ := Nat.exists_eq_add_of_le h
  rw [Int.emod_def, Int.sub_eq_add_neg, ← Int.mul_neg, pow2_add, Int.mul_assoc, bits_add_mul]

end Disasm68k
