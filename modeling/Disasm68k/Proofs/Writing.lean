import Disasm68k.Proofs.Load

/-!
# What a write leaves in memory

A write replaces a run of bytes and nothing else. So after it the run holds what was written, and
a run that lies apart from it holds what it held.

- `Memory.byte?_write_of_inside`, `Memory.byte?_write_of_outside`: the bytes one by one;
- `Memory.slice?_write`, `Memory.slice?_write_of_apart`: runs of bytes.
-/

namespace Disasm68k

namespace Memory

variable {memory other : Memory} {address start : Int} {count : Nat} {values : List UInt8}

theorem getElem?_overwrite (bytes : Array UInt8) (index k : Nat) (values : List UInt8) :
    (overwrite bytes index values)[k]? =
      if index ≤ k ∧ k < index + values.length ∧ k < bytes.size then values[k - index]?
      else bytes[k]? := by
  induction values generalizing bytes index with
  | nil =>
    rw [if_neg (by simp only [List.length_nil]; omega)]
    rfl
  | cons value values ih =>
    show (overwrite (bytes.setIfInBounds index value) (index + 1) values)[k]? = _
    rw [ih, Array.size_setIfInBounds, Array.getElem?_setIfInBounds, List.length_cons]
    by_cases hfirst : index = k
    · -- The first value is written here, and the others behind it.
      subst hfirst
      rw [if_neg (by omega), if_pos rfl]
      by_cases hsize : index < bytes.size
      · rw [if_pos hsize, if_pos (by omega), Nat.sub_self, List.getElem?_cons_zero]
      · rw [if_neg hsize, if_neg (by omega), Array.getElem?_eq_none (by omega)]
    · rw [if_neg hfirst]
      by_cases hlater : index + 1 ≤ k ∧ k < index + 1 + values.length ∧ k < bytes.size
      · have hplace : k - index = (k - (index + 1)) + 1 := by omega
        rw [if_pos hlater, if_pos (by omega), hplace, List.getElem?_cons_succ]
      · rw [if_neg hlater, if_neg (by omega)]

/-- A byte beside those written keeps its value. -/
theorem byte?_write_of_outside (hbase : memory.base ≤ start)
    (h : address < start ∨ start + values.length ≤ address) :
    (memory.write start values).byte? address = memory.byte? address := by
  unfold byte?
  show (if address < memory.base then none
    else (overwrite memory.bytes (start - memory.base).toNat values)[
      (address - memory.base).toNat]?) = _
  by_cases hbelow : address < memory.base
  · rw [if_pos hbelow, if_pos hbelow]
  · rw [if_neg hbelow, if_neg hbelow, getElem?_overwrite, if_neg (by omega)]

theorem byte?_write_of_inside (h : memory.Holds start values.length) {k : Nat}
    (hk : k < values.length) :
    (memory.write start values).byte? (start + k) = values[k]? := by
  obtain ⟨hbase, hlimit⟩ := h
  have hsize : start + values.length ≤ memory.base + memory.bytes.size := hlimit
  have hplace : (start + k - memory.base).toNat - (start - memory.base).toNat = k := by omega
  unfold byte?
  show (if start + k < memory.base then none
    else (overwrite memory.bytes (start - memory.base).toNat values)[
      (start + k - memory.base).toNat]?) = _
  rw [if_neg (by omega), getElem?_overwrite, if_pos (by omega), hplace]

/-! ## Runs of bytes -/

theorem slice?_congr (h : ∀ k < count, other.byte? (address + k) = memory.byte? (address + k)) :
    other.slice? address count = memory.slice? address count := by
  induction count generalizing address with
  | zero => rfl
  | succ count ih =>
    have hfirst : other.byte? address = memory.byte? address := by
      simpa using h 0 (Nat.succ_pos count)
    have hrest : other.slice? (address + 1) count = memory.slice? (address + 1) count := by
      refine ih fun k hk => ?_
      have hplace : address + 1 + (k : Int) = address + ((k + 1 : Nat) : Int) := by omega
      rw [hplace]
      exact h (k + 1) (Nat.succ_lt_succ hk)
    rw [slice?, slice?, hfirst, hrest]

/-- A run of bytes that can be read and is not empty lies inside the memory. -/
theorem holds_of_isSome_slice? (h : (memory.slice? address count).isSome) (hcount : 0 < count) :
    memory.Holds address count :=
  (isSome_slice?_iff.mp h).resolve_left (Nat.ne_of_gt hcount)

/-- What was written can be read again. -/
theorem slice?_write (h : (memory.slice? start values.length).isSome) :
    (memory.write start values).slice? start values.length = some values := by
  refine slice?_eq_some_iff.mpr ⟨rfl, fun k hk => ?_⟩
  exact byte?_write_of_inside (holds_of_isSome_slice? h (Nat.zero_lt_of_lt hk)) hk

/-- A run of bytes that lies apart from those written is not changed. -/
theorem slice?_write_of_apart (h : (memory.slice? start values.length).isSome)
    (hapart : address + count ≤ start ∨ start + values.length ≤ address) :
    (memory.write start values).slice? address count = memory.slice? address count := by
  cases values with
  | nil => rfl
  | cons value values =>
    have hbase := (holds_of_isSome_slice? h (Nat.succ_pos _)).1
    exact slice?_congr fun k hk => byte?_write_of_outside hbase (by omega)

end Memory

end Disasm68k
