import Mathlib.Algebra.Group.Nat.Defs
import Mathlib.Algebra.Ring.Int.Defs
import Disasm68k.Proofs.Hexadecimal

/-!
# Decimal text that can be read back

Operands show their numbers in decimal digits. No two integers have the same digits, with or
without a plus sign, but integers have no bound, and those that need too many digits are not written
at all.

- `Text.decimal?`: reads digits with an optional sign;
- `Numeral.decimal?_decimal`, `Numeral.decimal?_signedDecimal`: numbers can be read back;
- `Numeral.mem_decimal`: the characters of a number;
- `Numeral.TooLong`, `Numeral.isWritable_iff`: the numbers that are not written.
-/

namespace Disasm68k

/-- Reads decimal digits with an optional sign before them. -/
def Text.decimal? (chars : List Char) : Option Int :=
  signed? (digitRun? 10 false 0) chars

namespace Numeral

open HexStyle (upperDigits)

theorem toList_decimal (n : Int) :
    (decimal n).toList = (sign n).toList ++ Nat.toDigits 10 n.natAbs := by
  simp [decimal, digits]

theorem toUpper_of_isDigit {c : Char} (h : c.isDigit = true) : c.toUpper = c := by
  rw [Char.isDigit, Bool.and_eq_true, decide_eq_true_eq, decide_eq_true_eq] at h
  refine dif_neg fun hlower => ?_
  have hletter : 97 ≤ c.val.toNat := hlower.1
  have hdigit : c.val.toNat ≤ 57 := h.2
  omega

/-- Letter case makes no difference to decimal digits. -/
theorem map_toUpper_toDigits (n : Nat) :
    (Nat.toDigits 10 n).map Char.toUpper = Nat.toDigits 10 n := by
  have hkeep : ∀ c ∈ Nat.toDigits 10 n, c.toUpper = id c := by
    intro c hc
    exact toUpper_of_isDigit (Nat.isDigit_of_mem_toDigits (by decide) (by decide) hc)
  rw [List.map_congr_left hkeep, List.map_id]

theorem digitRun?_digits (n : Nat) :
    Text.digitRun? 10 false 0 (Nat.toDigits 10 n) = some n := by
  have hread := HexStyle.digitRun?_toDigits (show 2 ≤ 10 by decide) (by decide) n false []
  rw [map_toUpper_toDigits, List.append_nil] at hread
  exact hread

theorem mem_upperDigits_of_mem_digits {n : Nat} {c : Char} (h : c ∈ Nat.toDigits 10 n) :
    c ∈ upperDigits := by
  rw [← map_toUpper_toDigits] at h
  exact HexStyle.mem_upperDigits_of_mem_toDigits (by decide) (by decide) h

/-- **Decimal text can be read back.** -/
@[simp] theorem decimal?_decimal (n : Int) : Text.decimal? (decimal n).toList = some n := by
  rw [toList_decimal]
  exact HexStyle.signed?_sign (digitRun?_digits n.natAbs) Nat.toDigits_ne_nil
    fun c => mem_upperDigits_of_mem_digits

/-- A plus sign before a number that is not negative does no harm. -/
@[simp] theorem decimal?_signedDecimal (n : Int) :
    Text.decimal? (signedDecimal n).toList = some n := by
  unfold signedDecimal
  split
  · exact decimal?_decimal n
  · next hneg =>
    have hsign : sign n = "" := if_neg hneg
    have hvalue : (n.natAbs : Int) = n := by omega
    rw [String.toList_append, toList_decimal, hsign]
    show (Text.digitRun? 10 false 0 (Nat.toDigits 10 n.natAbs)).map (fun m => (m : Int)) = some n
    rw [digitRun?_digits]
    exact congrArg some hvalue

/-- A number is written in digits, with a minus sign at most. -/
theorem mem_decimal {n : Int} {c : Char} (h : c ∈ (decimal n).toList) :
    c = '-' ∨ c ∈ upperDigits := by
  rw [toList_decimal] at h
  exact (List.mem_append.mp h).imp HexStyle.mem_sign mem_upperDigits_of_mem_digits

/-! ## Numbers of too many digits -/

/-- The number has more decimal digits than a number may have. -/
def TooLong (n : Int) : Prop :=
  10 ^ maxDecimalDigits ≤ n.natAbs

variable {n : Int}

theorem isWritable_iff : isWritable n = true ↔ ¬ TooLong n := by
  rw [isWritable, decide_eq_true_eq, TooLong, Nat.not_le]
  exact Nat.length_toDigits_le_iff (by decide) (by decide)

/-- A number of ten digits is far from having too many. -/
theorem not_tooLong_of_natAbs_lt (h : n.natAbs < 10 ^ 10) : ¬ TooLong n := by
  rw [TooLong, Nat.not_le]
  exact Nat.lt_of_lt_of_le h (Nat.pow_le_pow_right (by decide) (by decide))

/-- A power of ten from the limit on has a digit too many. -/
theorem tooLong_pow_ten {k : Nat} (h : maxDecimalDigits ≤ k) : TooLong (10 ^ k) := by
  have habs : ((10 : Int) ^ k).natAbs = 10 ^ k := Int.natAbs_pow 10 k
  rw [TooLong, habs]
  exact Nat.pow_le_pow_right (by decide) h

theorem ten_le_natAbs_of_tooLong (h : TooLong n) : 10 ≤ n.natAbs :=
  Nat.le_trans (Nat.pow_le_pow_right (n := 10) (by decide) (show 1 ≤ maxDecimalDigits by decide)) h

/-- The sign does not count. -/
theorem tooLong_neg : TooLong (-n) ↔ TooLong n := by
  rw [TooLong, Int.natAbs_neg, TooLong]

variable {α : Type} {numbers : List Int} {written result : α}

theorem writing_eq_some_iff :
    writing numbers written = some result ↔
      (∀ n ∈ numbers, ¬ TooLong n) ∧ written = result := by
  have hall : numbers.all isWritable = true ↔ ∀ n ∈ numbers, ¬ TooLong n := by
    simp only [List.all_eq_true, isWritable_iff]
  rw [writing, ← hall]
  cases numbers.all isWritable <;> simp

theorem writing_eq_none_iff : writing numbers written = none ↔ ∃ n ∈ numbers, TooLong n := by
  have hall : numbers.all isWritable = false ↔ ∃ n ∈ numbers, TooLong n := by
    simp only [List.all_eq_false, isWritable_iff, Classical.not_not]
  rw [writing, ← hall]
  cases numbers.all isWritable <;> simp

theorem decimalText?_eq_none_iff : decimalText? n = none ↔ TooLong n := by
  simp [decimalText?, writing_eq_none_iff]

theorem signedDecimalText?_eq_none_iff : signedDecimalText? n = none ↔ TooLong n := by
  simp [signedDecimalText?, writing_eq_none_iff]

end Numeral

end Disasm68k
