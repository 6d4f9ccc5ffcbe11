import Disasm68k.Numeral
import Disasm68k.Text.Integer

/-!
# Hexadecimal text that can be read back

Addresses and words are printed in upper-case hexadecimal digits with zeros before them. Such text
has no blanks in it, and it spells the number: read as hexadecimal digits with a sign, it gives the
number back, however wide or negative it is. A word takes exactly four digits.

- `HexStyle.upperDigits`: the upper-case digits;
- `Text.hexadecimal?`: reads digits with an optional sign;
- `HexStyle.hexadecimal?_write`: what is written in upper case can be read back;
- `HexStyle.FourDigits`, `HexStyle.fourDigits_write`: how a word is written.
-/

namespace Disasm68k

/-- Reads hexadecimal digits with an optional sign before them. -/
def Text.hexadecimal? (chars : List Char) : Option Int :=
  signed? (digitRun? 16 false 0) chars

namespace HexStyle

/-! ## Digits -/

/-- The upper-case hexadecimal digits. -/
def upperDigits : List Char :=
  "0123456789ABCDEF".toList

/-- The upper-case digit of a number below sixteen. -/
def upperDigit (n : Nat) : Char :=
  (Nat.digitChar n).toUpper

theorem upperDigit_mem : ∀ n < 16, upperDigit n ∈ upperDigits := by
  decide

theorem alphanumericValue?_upperDigit :
    ∀ n < 16, Text.alphanumericValue? (upperDigit n) = some n := by
  decide

theorem ne_of_mem_upperDigits :
    ∀ c ∈ upperDigits, c ≠ ' ' ∧ c ≠ '-' ∧ c ≠ '+' ∧ c ≠ '_' := by
  have hall : upperDigits.all (fun c => c ≠ ' ' ∧ c ≠ '-' ∧ c ≠ '+' ∧ c ≠ '_') = true := by
    decide
  intro c hc
  exact of_decide_eq_true (List.all_eq_true.mp hall c hc)

/-- A digit that is read makes the number as many times as large as the base says and adds its
value. -/
theorem digitRun?_upperDigit {base n : Nat} (hbase : base ≤ 16) (h : n < base) (afterDigit : Bool)
    (acc : Nat) (rest : List Char) :
    Text.digitRun? base afterDigit acc (upperDigit n :: rest) =
      Text.digitRun? base true (base * acc + n) rest := by
  have hlt : n < 16 := Nat.lt_of_lt_of_le h hbase
  have hmark := (ne_of_mem_upperDigits _ (upperDigit_mem n hlt)).2.2.2
  rw [Text.digitRun?, if_neg hmark, alphanumericValue?_upperDigit n hlt]
  simp only [if_pos h]

theorem digitRun?_zeros (count : Nat) (rest : List Char) :
    Text.digitRun? 16 true 0 (List.replicate count '0' ++ rest) =
      Text.digitRun? 16 true 0 rest := by
  induction count with
  | zero => rfl
  | succ count ih =>
    rw [List.replicate_succ, List.cons_append]
    exact (digitRun?_upperDigit (n := 0) (by decide) (by decide) true 0 _).trans ih

/-- The digits of a number are read one after the other. -/
theorem digitRun?_toDigits {base : Nat} (htwo : 2 ≤ base) (hbase : base ≤ 16) (n : Nat)
    (afterDigit : Bool) (rest : List Char) :
    Text.digitRun? base afterDigit 0 ((Nat.toDigits base n).map Char.toUpper ++ rest) =
      Text.digitRun? base true n rest := by
  induction n using Nat.strongRecOn generalizing rest with
  | ind n ih =>
    by_cases hsmall : n < base
    · rw [Nat.toDigits_of_lt_base hsmall]
      have hdigit := digitRun?_upperDigit hbase hsmall afterDigit 0 rest
      rw [Nat.mul_zero, Nat.zero_add] at hdigit
      exact hdigit
    · -- All digits but the last one spell the quotient, the last one is the remainder.
      rw [Nat.toDigits_of_base_le (by omega) (by omega), List.map_append, List.append_assoc,
        ih (n / base) (Nat.div_lt_self (by omega) htwo)]
      have hdigit := digitRun?_upperDigit hbase (Nat.mod_lt n (by omega)) true (n / base) rest
      rw [Nat.div_add_mod] at hdigit
      exact hdigit

theorem mem_upperDigits_of_mem_toDigits {base : Nat} (htwo : 2 ≤ base) (hbase : base ≤ 16)
    {n : Nat} {c : Char} (h : c ∈ (Nat.toDigits base n).map Char.toUpper) : c ∈ upperDigits := by
  induction n using Nat.strongRecOn with
  | ind n ih =>
    by_cases hsmall : n < base
    · rw [Nat.toDigits_of_lt_base hsmall] at h
      cases List.mem_singleton.mp h
      exact upperDigit_mem n (by omega)
    · rw [Nat.toDigits_of_base_le (by omega) (by omega), List.map_append] at h
      rcases List.mem_append.mp h with hfirst | hlast
      · exact ih (n / base) (Nat.div_lt_self (by omega) htwo) hfirst
      · cases List.mem_singleton.mp hlast
        exact upperDigit_mem _ (Nat.lt_of_lt_of_le (Nat.mod_lt n (by omega)) hbase)

/-! ## Numbers -/

/-- The style writes upper-case digits and nothing before the number but its sign. -/
def IsPlain (style : HexStyle) : Prop :=
  style.lead = "" ∧ style.upperCase = true

variable {style : HexStyle}

/-- The zeros and digits that a style writes after the sign. -/
def magnitude (style : HexStyle) (n : Int) : List Char :=
  List.replicate (style.width - ((Numeral.sign n).length + (style.digits n.natAbs).length)) '0' ++
    style.digits n.natAbs

theorem toList_write (h : style.IsPlain) (n : Int) :
    (style.write n).toList = (Numeral.sign n).toList ++ style.magnitude n := by
  simp [write, magnitude, h.1]

theorem digits_eq (h : style.IsPlain) (n : Nat) :
    style.digits n = (Nat.toDigits 16 n).map Char.toUpper := by
  rw [digits, if_pos h.2]

theorem mem_upperDigits_of_mem_magnitude (h : style.IsPlain) {n : Int} {c : Char}
    (hc : c ∈ style.magnitude n) : c ∈ upperDigits := by
  rw [magnitude, digits_eq h] at hc
  rcases List.mem_append.mp hc with hzero | hdigit
  · rw [List.eq_of_mem_replicate hzero]
    decide
  · exact mem_upperDigits_of_mem_toDigits (by decide) (by decide) hdigit

theorem magnitude_ne_nil (h : style.IsPlain) (n : Int) : style.magnitude n ≠ [] := by
  rw [magnitude, digits_eq h]
  simp [Nat.toDigits_ne_nil]

theorem digitRun?_magnitude (h : style.IsPlain) (n : Int) :
    Text.digitRun? 16 false 0 (style.magnitude n) = some n.natAbs := by
  have hdigits (afterDigit : Bool) :=
    digitRun?_toDigits (show 2 ≤ 16 by decide) (by decide) n.natAbs afterDigit []
  rw [List.append_nil] at hdigits
  rw [magnitude, digits_eq h]
  cases style.width - ((Numeral.sign n).length + _) with
  | zero => exact hdigits false
  | succ count =>
    rw [List.replicate_succ, List.cons_append]
    exact ((digitRun?_upperDigit (n := 0) (by decide) (by decide) false 0 _).trans
      (digitRun?_zeros count _)).trans (hdigits true)

/-- A digit is not taken for a sign. -/
theorem signed?_of_mem_upperDigits {c : Char} {rest : List Char} {read : List Char → Option Nat}
    {n : Nat} (hc : c ∈ upperDigits) (hread : read (c :: rest) = some n) :
    Text.signed? read (c :: rest) = some (n : Int) := by
  obtain ⟨-, hminus, hplus, -⟩ := ne_of_mem_upperDigits c hc
  unfold Text.signed?
  split
  · next heq => exact absurd (List.cons.inj heq).1 hminus
  · next heq => exact absurd (List.cons.inj heq).1 hplus
  · rw [hread]
    rfl

theorem signed?_minus {rest : List Char} {read : List Char → Option Nat} {n : Nat}
    (hread : read rest = some n) : Text.signed? read ('-' :: rest) = some (-(n : Int)) := by
  rw [Text.signed?, hread]
  rfl

/-- A sign and digits for the size of a number are read as the number. -/
theorem signed?_sign {read : List Char → Option Nat} {digits : List Char} {n : Int}
    (hread : read digits = some n.natAbs) (hne : digits ≠ [])
    (hdigits : ∀ c ∈ digits, c ∈ upperDigits) :
    Text.signed? read ((Numeral.sign n).toList ++ digits) = some n := by
  by_cases hneg : n < 0
  · have hsign : (Numeral.sign n).toList = ['-'] := by
      rw [Numeral.sign, if_pos hneg]
      rfl
    have hvalue : -(n.natAbs : Int) = n := by omega
    rw [hsign, List.singleton_append, signed?_minus hread, hvalue]
  · have hsign : (Numeral.sign n).toList = [] := by
      rw [Numeral.sign, if_neg hneg]
      rfl
    have hvalue : (n.natAbs : Int) = n := by omega
    obtain ⟨c, rest, rfl⟩ := List.exists_cons_of_ne_nil hne
    rw [hsign, List.nil_append, signed?_of_mem_upperDigits (hdigits c List.mem_cons_self) hread,
      hvalue]

/-- **What is written in upper case can be read back.** -/
theorem hexadecimal?_write (h : style.IsPlain) (n : Int) :
    Text.hexadecimal? (style.write n).toList = some n := by
  rw [toList_write h]
  exact signed?_sign (digitRun?_magnitude h n) (magnitude_ne_nil h n)
    fun c => mem_upperDigits_of_mem_magnitude h

/-- The sign of a number is a minus sign or nothing. -/
theorem mem_sign {n : Int} {c : Char} (hc : c ∈ (Numeral.sign n).toList) : c = '-' := by
  unfold Numeral.sign at hc
  split at hc
  · exact List.mem_singleton.mp hc
  · cases hc

/-- What is written holds upper-case digits, and a minus sign at most. -/
theorem mem_write (h : style.IsPlain) {n : Int} {c : Char} (hc : c ∈ (style.write n).toList) :
    c = '-' ∨ c ∈ upperDigits := by
  rw [toList_write h] at hc
  exact (List.mem_append.mp hc).imp mem_sign (mem_upperDigits_of_mem_magnitude h)

/-! ## Words -/

theorem isPlain_address : address.IsPlain :=
  ⟨rfl, rfl⟩

theorem isPlain_word : word.IsPlain :=
  ⟨rfl, rfl⟩

/-- Four upper-case hexadecimal digits that spell the number. -/
structure FourDigits (n : Int) (chars : List Char) : Prop where
  length_eq : chars.length = 4
  mem : ∀ c ∈ chars, c ∈ upperDigits
  spells : Text.hexadecimal? chars = some n

/-- A word is written with exactly four digits. -/
theorem fourDigits_write {n : Int} (hnonneg : 0 ≤ n) (hlt : n < 0x10000) :
    FourDigits n (word.write n).toList := by
  have hsign : Numeral.sign n = "" := if_neg (Int.not_lt.mpr hnonneg)
  have hchars : (word.write n).toList = word.magnitude n := by
    rw [toList_write isPlain_word, hsign]
    rfl
  refine ⟨?_, ?_, hexadecimal?_write isPlain_word n⟩
  · have hdigits : (Nat.toDigits 16 n.natAbs).length ≤ 4 :=
      (Nat.length_toDigits_le_iff (by decide) (by decide)).mpr (by omega)
    rw [hchars, magnitude, hsign, digits_eq isPlain_word, List.length_append,
      List.length_replicate, List.length_map]
    show 4 - (0 + _) + _ = 4
    omega
  · intro c hc
    rw [hchars] at hc
    exact mem_upperDigits_of_mem_magnitude isPlain_word hc

end HexStyle

end Disasm68k
