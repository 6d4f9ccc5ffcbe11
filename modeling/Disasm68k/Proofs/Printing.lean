import Mathlib.Data.List.Forall2
import Disasm68k.Proofs.Coverage
import Disasm68k.Proofs.Hexadecimal

/-!
# Printed lines can be read back

A line is printed in columns: its address, its words in a column of fixed width, and its text. No
instruction has more than five words and no word more than four digits, so the words always fit
into their column, and nothing is lost: a reader gets the address, the words and the text back, and
from the words of a whole listing the bytes of the memory.

- `Line.PrintedAs`: the columns of a printed line;
- `Line.Printable`, `Walk.printable_of_takes`: lines whose words fit, as those of listings do;
- `Line.read?`: reads a printed line, with `Line.Printable.read?_format`: what was printed comes
  back;
- `Memory.slice?_of_follow`: lines in a row hold the bytes that they show;
- `listing_printed_losslessly`: the results together.
-/

namespace Disasm68k

/-! ## Groups between blanks -/

namespace Text

/-- The groups of characters between blanks. -/
def groups (chars : List Char) : List (List Char) :=
  (chars.splitOn ' ').filter (· ≠ [])

theorem groups_append_blank (first second : List Char) :
    groups (first ++ ' ' :: second) = groups first ++ groups second := by
  rw [groups, List.splitOn_append_cons_self, List.filter_append]
  rfl

/-- Blanks at the end do not count. -/
theorem groups_append_blanks (chars : List Char) (count : Nat) :
    groups (chars ++ List.replicate count ' ') = groups chars := by
  induction count with
  | zero => rw [List.replicate_zero, List.append_nil]
  | succ count ih =>
    have hlast := groups_append_blank (chars ++ List.replicate count ' ') []
    rw [List.append_assoc, ← List.replicate_succ'] at hlast
    rw [hlast, ih]
    exact List.append_nil _

/-- Groups with single blanks between them are told apart again. -/
theorem groups_intercalate {parts : List (List Char)} (hne : parts ≠ [])
    (h : ∀ part ∈ parts, part ≠ [] ∧ ' ' ∉ part) : groups ([' '].intercalate parts) = parts := by
  rw [groups, List.splitOn_intercalate ' ' (fun part hpart => (h part hpart).2) hne]
  refine List.filter_eq_self.mpr ?_
  intro part hpart
  exact decide_eq_true (h part hpart).1

end Text

/-! ## Columns -/

namespace HexStyle.FourDigits

variable {n : Int} {chars : List Char} {words : List Int} {groups : List (List Char)}

theorem ne_nil (h : FourDigits n chars) : chars ≠ [] := by
  rintro rfl
  cases h.length_eq

theorem blank_notMem (h : FourDigits n chars) : ' ' ∉ chars := by
  intro hblank
  exact (ne_of_mem_upperDigits ' ' (h.mem ' ' hblank)).1 rfl

theorem exists_of_mem (h : List.Forall₂ FourDigits words groups) (hmem : chars ∈ groups) :
    ∃ word, FourDigits word chars := by
  induction h with
  | nil => cases hmem
  | cons head tail ih =>
    rcases List.mem_cons.mp hmem with rfl | hlater
    · exact ⟨_, head⟩
    · exact ih hlater

/-- The numbers are read from their digits. -/
theorem mapM_hexadecimal? (h : List.Forall₂ FourDigits words groups) :
    groups.mapM Text.hexadecimal? = some words := by
  induction h with
  | nil => rfl
  | cons head tail ih => simp [List.mapM_cons, head.spells, ih]

end HexStyle.FourDigits

namespace Line

variable {line : Line} {field : List Char} {groups : List (List Char)} {blanks : Nat}

/-- The blanks between two columns. -/
def gap : List Char :=
  [' ', ' ']

/-- Groups with single blanks between them and more blanks after them. -/
def column (groups : List (List Char)) (blanks : Nat) : List Char :=
  [' '].intercalate groups ++ List.replicate blanks ' '

/-- The line is printed in columns: the field of its address, which has no blanks, then one to five
groups of four digits for its words, in a column of 24 characters, and its text. Without the words,
their column and the gap after it are left out and nothing else changes. -/
structure PrintedAs (line : Line) (field : List Char) (groups : List (List Char)) (blanks : Nat) :
    Prop where
  with_words : (line.format true).toList =
    field ++ gap ++ column groups blanks ++ gap ++ line.text.toList
  without_words : (line.format false).toList = field ++ gap ++ line.text.toList
  field_mem : ∀ c ∈ field, c = '-' ∨ c ∈ HexStyle.upperDigits
  field_spells : Text.hexadecimal? field = some line.address
  one_le : 1 ≤ groups.length
  le_five : groups.length ≤ 5
  digits : List.Forall₂ HexStyle.FourDigits line.words groups
  width : (column groups blanks).length = 24

/-- The words of the line fit into their column. -/
structure Printable (line : Line) : Prop where
  one_le : 1 ≤ line.words.length
  le_five : line.words.length ≤ 5
  range : ∀ word ∈ line.words, 0 ≤ word ∧ word < 0x10000

/-- Groups of four characters take five each, but for the blank after the last one. -/
theorem length_intercalate (hne : groups ≠ []) (h : ∀ group ∈ groups, group.length = 4) :
    ([' '].intercalate groups).length + 1 = 5 * groups.length := by
  induction groups with
  | nil => exact absurd rfl hne
  | cons first rest ih =>
    rw [List.forall_mem_cons] at h
    cases rest with
    | nil =>
      rw [List.intercalate_singleton, h.1]
      rfl
    | cons second rest =>
      have hrest := ih (List.cons_ne_nil second rest) h.2
      rw [List.intercalate_cons_cons, List.length_append, List.length_append, h.1]
      simp only [List.length_cons, List.length_nil] at hrest ⊢
      omega

/-- The groups of digits of words. -/
def digitGroups (words : List Int) : List (List Char) :=
  words.map fun word => (HexStyle.word.write word).toList

/-- The number of blanks that fill up the column of words. -/
def padding (words : List Int) : Nat :=
  wordsWidth - ([' '].intercalate (digitGroups words)).length

theorem toList_wordsColumn (words : List Int) :
    (wordsColumn words).toList = column (digitGroups words) (padding words) := by
  have htext : (" ".intercalate (words.map HexStyle.word.write)).toList =
      [' '].intercalate (digitGroups words) := by
    rw [String.toList_intercalate, List.map_map]
    rfl
  rw [wordsColumn, String.toList_append, String.toList_ofList, ← String.length_toList, htext]
  rfl

/-- Each word that fits has its group of four digits. -/
theorem Printable.forall₂_digitGroups (h : line.Printable) :
    List.Forall₂ HexStyle.FourDigits line.words (digitGroups line.words) := by
  refine List.forall₂_map_right_iff.mpr (List.forall₂_same.mpr ?_)
  intro word hword
  obtain ⟨hnonneg, hlt⟩ := h.range word hword
  exact HexStyle.fourDigits_write hnonneg hlt

/-- **A line whose words fit is printed in columns.** -/
theorem Printable.exists_printedAs (h : line.Printable) :
    ∃ field groups blanks, line.PrintedAs field groups blanks := by
  have hdigits := h.forall₂_digitGroups
  have hlength : (digitGroups line.words).length = line.words.length := hdigits.length_eq.symm
  have hone := h.one_le
  have hfive := h.le_five
  refine ⟨(HexStyle.address.write line.address).toList, digitGroups line.words,
    padding line.words, ⟨?_, ?_, ?_, ?_, by omega, by omega, hdigits, ?_⟩⟩
  · rw [← toList_wordsColumn]
    simp [format, gap]
  · simp [format, gap]
  · intro c hc
    exact HexStyle.mem_write HexStyle.isPlain_address hc
  · exact HexStyle.hexadecimal?_write HexStyle.isPlain_address line.address
  · -- Five groups take up the whole width of the column.
    have hfour : ∀ group ∈ digitGroups line.words, group.length = 4 := by
      intro group hgroup
      obtain ⟨word, hword⟩ := HexStyle.FourDigits.exists_of_mem hdigits hgroup
      exact hword.length_eq
    have hchars := length_intercalate (List.ne_nil_of_length_pos (by omega)) hfour
    rw [column, List.length_append, List.length_replicate]
    show _ + (24 - _) = 24
    omega

/-! ## Reading a line -/

/-- What a printed line tells. -/
structure Reading where
  address : Int
  words : List Int
  text : String
deriving DecidableEq, Repr

/-- Reads a printed line: the address up to the first blank, the words from the characters of their
column, and the rest as text. -/
def read? (printed : String) : Option Reading := do
  let field := printed.toList.takeWhile (· ≠ ' ')
  let rest := printed.toList.drop (field.length + gap.length)
  let address ← Text.hexadecimal? field
  let words ← (Text.groups (rest.take wordsWidth)).mapM Text.hexadecimal?
  pure ⟨address, words, String.ofList (rest.drop (wordsWidth + gap.length))⟩

/-- What is to be read from the printed line. -/
def reading (line : Line) : Reading :=
  ⟨line.address, line.words, line.text⟩

theorem PrintedAs.groups_column (h : line.PrintedAs field groups blanks) :
    Text.groups (column groups blanks) = groups := by
  have hne : groups ≠ [] := List.ne_nil_of_length_pos h.one_le
  rw [column, Text.groups_append_blanks, Text.groups_intercalate hne]
  intro group hgroup
  obtain ⟨word, hword⟩ := HexStyle.FourDigits.exists_of_mem h.digits hgroup
  exact ⟨hword.ne_nil, hword.blank_notMem⟩

theorem PrintedAs.ne_blank (h : line.PrintedAs field groups blanks) {c : Char} (hc : c ∈ field) :
    c ≠ ' ' := by
  rintro rfl
  rcases h.field_mem ' ' hc with hminus | hdigit
  · exact absurd hminus (by decide)
  · exact (HexStyle.ne_of_mem_upperDigits ' ' hdigit).1 rfl

/-- The columns tell all that the line shows. -/
theorem PrintedAs.read?_format (h : line.PrintedAs field groups blanks) :
    read? (line.format true) = some line.reading := by
  have hfield : ∀ c ∈ field, decide (c ≠ ' ') = true := by
    intro c hc
    exact decide_eq_true (h.ne_blank hc)
  have hchars : (line.format true).toList =
      field ++ (gap ++ (column groups blanks ++ (gap ++ line.text.toList))) := by
    simpa only [List.append_assoc] using h.with_words
  -- The address ends at the first blank, the other columns have their places.
  have htake : (line.format true).toList.takeWhile (· ≠ ' ') = field := by
    rw [hchars, List.takeWhile_append_of_pos hfield]
    exact List.append_nil field
  have hdrop : (line.format true).toList.drop (field.length + gap.length) =
      column groups blanks ++ (gap ++ line.text.toList) := by
    rw [hchars, ← List.append_assoc]
    exact List.drop_left' List.length_append
  have hcolumn : (column groups blanks ++ (gap ++ line.text.toList)).take wordsWidth =
      column groups blanks := List.take_left' h.width
  have htext : (column groups blanks ++ (gap ++ line.text.toList)).drop
      (wordsWidth + gap.length) = line.text.toList := by
    rw [← List.append_assoc]
    exact List.drop_left' (by rw [List.length_append, h.width]; rfl)
  simp only [read?, htake, hdrop, hcolumn, htext, h.groups_column, h.field_spells,
    HexStyle.FourDigits.mapM_hexadecimal? h.digits, String.ofList_toList]
  rfl

/-- **What is printed can be read back.** -/
theorem Printable.read?_format (h : line.Printable) :
    read? (line.format true) = some line.reading := by
  obtain ⟨field, groups, blanks, hprinted⟩ := h.exists_printedAs
  exact hprinted.read?_format

example : read? "-00002  6000 0004                 BRA 4" =
    some ⟨-2, [0x6000, 4], "BRA 4"⟩ := by
  cbv

end Line

/-- The words of a line of a listing fit into their column: no instruction has more than five. -/
theorem Walk.printable_of_takes {memory : Memory} {walk : Walk} {next : WalkStep}
    (h : walk.Takes memory next) : next.line.Printable := by
  have hrange : ∀ word ∈ next.line.words, 0 ≤ word ∧ word < 0x10000 := by
    intro word hword
    obtain ⟨k, hk⟩ := List.mem_iff_getElem?.mp hword
    exact Memory.range_of_load_uint16 (load_of_takes h hk)
  cases h with
  | @shown instruction words decoded fits read =>
    have hspans := spans_of_decodeAt decoded
    have htwo := hspans.two_le
    have hten := hspans.le_ten
    have hlength : words.length = (instruction.length / 2).toNat := length_wordsAt read
    exact ⟨show 1 ≤ words.length by omega, show words.length ≤ 5 by omega, hrange⟩
  | overrun decoded passes read => exact ⟨Nat.le_refl 1, Nat.le_add_left 1 4, hrange⟩
  | undecodable failed read => exact ⟨Nat.le_refl 1, Nat.le_add_left 1 4, hrange⟩

/-! ## Bytes from words -/

namespace ByteOrder

theorem splitLow_assembleLow (bytes : List UInt8) :
    splitLow bytes.length (assembleLow bytes) = bytes := by
  induction bytes with
  | nil => rfl
  | cons b rest ih =>
    have hb : b.toNat < 256 := b.toNat_lt
    have hlow : (((b.toNat + 256 * assembleLow rest : Nat) : Int) % 256).toNat = b.toNat := by
      omega
    have hhigh : ((b.toNat + 256 * assembleLow rest : Nat) : Int) / 256 = assembleLow rest := by
      omega
    rw [assembleLow, List.length_cons, splitLow, hlow, hhigh, ih, UInt8.ofNat_toNat]

/-- Bytes that are put together as a number come apart again as they were. -/
theorem split_assemble (order : ByteOrder) (bytes : List UInt8) :
    order.split bytes.length (order.assemble bytes) = bytes := by
  cases order with
  | big =>
    have hlow := splitLow_assembleLow bytes.reverse
    rw [List.length_reverse] at hlow
    rw [split, assemble, hlow, List.reverse_reverse]
  | little => exact splitLow_assembleLow bytes

end ByteOrder

namespace Memory

variable {memory : Memory} {address start word : Int} {words : List Int} {lines : List Line}

/-- The bytes of a word, from the number that was loaded. -/
theorem slice?_of_load_uint16 (h : memory.load .uint16 address = .ok word) :
    memory.slice? address 2 = some (memory.order.split 2 word) := by
  have hcount : Access.uint16.byteCount = 2 := rfl
  rw [load, hcount] at h
  cases hslice : memory.slice? address 2 with
  | none => simp [hslice] at h
  | some bytes =>
    rw [hslice] at h
    have hword : (memory.order.assemble bytes : Int) = word := Except.ok.inj h
    have hbytes := memory.order.split_assemble bytes
    rw [length_of_slice? hslice, hword] at hbytes
    rw [hbytes]

/-- The bytes of words in a row. -/
theorem slice?_of_words (h : ∀ (k : Nat) (word : Int), words[k]? = some word →
      memory.load .uint16 (address + 2 * k) = .ok word) :
    memory.slice? address (2 * words.length) = some (words.flatMap (memory.order.split 2)) := by
  induction words generalizing address with
  | nil => rfl
  | cons word words ih =>
    have hfirst : memory.slice? address 2 = some (memory.order.split 2 word) := by
      have hload := h 0 word rfl
      rw [Int.natCast_zero, Int.mul_zero, Int.add_zero] at hload
      exact slice?_of_load_uint16 hload
    have hrest : memory.slice? (address + 2) (2 * words.length) =
        some (words.flatMap (memory.order.split 2)) := by
      refine ih ?_
      intro k later hk
      have hload := h (k + 1) later hk
      have hplace : address + 2 * ((k + 1 : Nat) : Int) = address + 2 + 2 * (k : Int) := by omega
      rw [hplace] at hload
      exact hload
    have hcount : 2 * (word :: words).length = 2 + 2 * words.length := by
      rw [List.length_cons]
      omega
    rw [hcount, List.flatMap_cons]
    exact slice?_add_eq_some_iff.mpr ⟨_, _, hfirst, hrest, rfl⟩

/-- **Lines in a row hold the bytes that they show.** -/
theorem slice?_of_follow (hfollow : Line.Follow start lines)
    (hshows : ∀ line ∈ lines, line.Shows memory) :
    memory.slice? start (Line.after start lines - start).toNat =
      some ((lines.flatMap Line.words).flatMap (memory.order.split 2)) := by
  induction lines generalizing start with
  | nil =>
    show memory.slice? start (start - start).toNat = some []
    rw [Int.sub_self]
    rfl
  | cons line lines ih =>
    obtain ⟨rfl, hfollow⟩ := hfollow
    rw [List.forall_mem_cons] at hshows
    have hfirst := slice?_of_words hshows.1.2
    have hrest := ih hfollow hshows.2
    have hle := Line.le_after line.stop lines
    have hlength : line.stop = line.address + line.length := rfl
    have hcount : (Line.after line.address (line :: lines) - line.address).toNat =
        line.length + (Line.after line.stop lines - line.stop).toNat := by
      show (Line.after line.stop lines - line.address).toNat = _
      omega
    rw [hcount, List.flatMap_cons, List.flatMap_append]
    exact slice?_add_eq_some_iff.mpr ⟨_, _, hfirst, hrest, rfl⟩

/-- The bytes from the base on. -/
theorem eq_take_of_slice?_base {count : Nat} {bytes : List UInt8}
    (h : memory.slice? memory.base count = some bytes) :
    bytes = memory.bytes.toList.take count := by
  obtain ⟨rfl, hbytes⟩ := slice?_eq_some_iff.mp h
  refine List.ext_getElem? ?_
  intro k
  by_cases hk : k < bytes.length
  · have hplace : (memory.base + k - memory.base).toNat = k := by omega
    have hbyte := hbytes k hk
    rw [byte?, if_neg (by omega), hplace] at hbyte
    rw [← hbyte, List.getElem?_take_of_lt hk, Array.getElem?_toList]
  · rw [List.getElem?_eq_none (by omega), List.getElem?_take_eq_none (by omega)]

end Memory

/-! ## Whole listings -/

/-- The range that leaves nothing out. -/
def Range.all : Range :=
  ⟨none, none, none⟩

/-- The printed lines of a listing, with their words. -/
def printed (steps : List WalkStep) : List String :=
  steps.map fun step => step.line.format true

namespace Walk

variable {memory : Memory} {walk : Walk} {steps : List WalkStep}

theorem printable_of_runs (h : walk.Runs memory steps) {step : WalkStep} (hstep : step ∈ steps) :
    step.line.Printable := by
  obtain ⟨place, -, htakes⟩ := exists_takes_of_mem h hstep
  exact printable_of_takes htakes

/-- All printed lines of a run can be read. -/
theorem mapM_read?_printed (h : ∀ step ∈ steps, step.line.Printable) :
    (printed steps).mapM Line.read? = some (steps.map fun step => step.line.reading) := by
  induction steps with
  | nil => rfl
  | cons step steps ih =>
    rw [List.forall_mem_cons] at h
    have hrest := ih h.2
    rw [printed] at hrest
    simp [printed, List.mapM_cons, h.1.read?_format, hrest]

/-- The words of a run over the whole memory are its bytes, two by two. -/
theorem words_of_runs_all (h : (ofRange memory .all).Runs memory steps) :
    ((steps.map WalkStep.line).flatMap Line.words).flatMap (memory.order.split 2) =
      memory.bytes.toList.take (2 * (memory.bytes.size / 2)) := by
  have hshows : ∀ line ∈ steps.map WalkStep.line, line.Shows memory := by
    intro line hline
    exact (shows_of_runs h hline).1
  have hslice := Memory.slice?_of_follow (follow_of_runs h) hshows
  have hlimit : memory.limit = memory.base + memory.bytes.size := rfl
  have hafter : Line.after memory.base (steps.map WalkStep.line) =
      memory.limit - (memory.limit - memory.base) % 2 :=
    after_of_runs h (show memory.base ≤ memory.limit by omega) (by rintro n ⟨⟩)
  have hcount : (memory.limit - (memory.limit - memory.base) % 2 - memory.base).toNat =
      2 * (memory.bytes.size / 2) := by omega
  change memory.slice? memory.base (Line.after memory.base _ - memory.base).toNat = _ at hslice
  rw [hafter, hcount] at hslice
  exact Memory.eq_take_of_slice?_base hslice

end Walk

/-- **A printed listing loses nothing.** Every line of every listing is printed in its columns, and
its address, its words and its text can be read from the printed line alone. From the words that are
read from all lines of a listing of the whole memory, taken apart in its byte order, the bytes of
the memory come back, but for the last one if their number is odd. -/
theorem listing_printed_losslessly (memory : Memory) :
    (∀ range, ∃ steps, listing memory range = .ok steps ∧ ∀ step ∈ steps,
      (∃ field groups blanks, step.line.PrintedAs field groups blanks) ∧
        Line.read? (step.line.format true) = some step.line.reading) ∧
      ∃ steps readings, listing memory .all = .ok steps ∧
        (printed steps).mapM Line.read? = some readings ∧
        (readings.flatMap Line.Reading.words).flatMap (memory.order.split 2) =
          memory.bytes.toList.take (2 * (memory.bytes.size / 2)) := by
  constructor
  · intro range
    obtain ⟨steps, hrun, hruns⟩ := Walk.exists_runs (Walk.inside_ofRange memory range)
    refine ⟨steps, hrun, ?_⟩
    intro step hstep
    have hprintable := Walk.printable_of_runs hruns hstep
    exact ⟨hprintable.exists_printedAs, hprintable.read?_format⟩
  · obtain ⟨steps, hrun, hruns⟩ := Walk.exists_runs (Walk.inside_ofRange memory .all)
    have hread := Walk.mapM_read?_printed fun step hstep => Walk.printable_of_runs hruns hstep
    refine ⟨steps, _, hrun, hread, ?_⟩
    rw [← Walk.words_of_runs_all hruns, List.flatMap_map, List.flatMap_map]
    rfl

end Disasm68k
