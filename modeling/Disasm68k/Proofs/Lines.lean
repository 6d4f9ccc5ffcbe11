import Disasm68k.Proofs.Coverage

/-!
# The lines of a listing as a relation

A listing is a function that gives steps, and a step tells more than its line: where the pointer
goes, what is logged and how many lines are still wanted. To compare the lines of two listings
this module says which lines a walk prints, as a relation between a place and lines, and that the
listing of a range gives exactly these.

- `linesOf`: the lines of a range of memory;
- `Walk.Meets`: the line at a place;
- `Walk.Prints`: the lines from a place to the end of the range, with `Walk.prints_unique`;
- `linesOf_eq_ok_iff`: the lines of a range are what the walk from its start prints;
- `linesOf_from_stop`: behind the first lines, a listing goes on as one that begins there.
-/

namespace Disasm68k

/-- The lines of a range of memory. -/
def linesOf (memory : Memory) (range : Range) : Except Fault (List Line) :=
  (listing memory range).map fun steps => steps.map WalkStep.line

/-! ## Where lines end -/

namespace Line

variable {start : Int} {line last : Line} {first second lines : List Line}

theorem follow_of_append (h : Follow start (first ++ second)) : Follow start first := by
  induction first generalizing start with
  | nil => trivial
  | cons line first ih => exact ⟨h.1, ih h.2⟩

/-- Lines that follow each other end where the last of them does. -/
theorem after_eq_stop (h : Follow start lines) (hlast : lines.getLast? = some last) :
    after start lines = last.stop := by
  induction lines generalizing start with
  | nil => cases hlast
  | cons line lines ih =>
    obtain ⟨rfl, hfollow⟩ := h
    cases lines with
    | nil =>
      cases hlast
      rfl
    | cons second lines =>
      rw [List.getLast?_cons_cons] at hlast
      exact ih hfollow hlast

/-- A line begins where those before it end. -/
theorem after_eq_address (h : Follow start (first ++ line :: second)) :
    after start first = line.address := by
  induction first generalizing start with
  | nil => exact h.1.symm
  | cons other first ih =>
    obtain ⟨rfl, hfollow⟩ := h
    exact ih hfollow

end Line

/-! ## Lines at a place -/

namespace Walk

variable {memory : Memory} {walk : Walk} {line : Line} {lines : List Line}

/-- A step from the place shows the line. -/
def Meets (memory : Memory) (walk : Walk) (line : Line) : Prop :=
  ∃ next, walk.Takes memory next ∧ next.line = line

/-- The line of an instruction is as long as the instruction. -/
theorem length_ofInstruction {address : Int} {instruction : Instruction} {words : List Int}
    (hat : decodeAt memory address = .ok instruction)
    (hread : wordsAt memory address (instruction.length / 2).toNat = .ok words) :
    ((Line.ofInstruction address words instruction).length : Int) = instruction.length := by
  have hspans := spans_of_decodeAt hat
  have heven := hspans.even
  have htwo := hspans.two_le
  have hlength := length_wordsAt hread
  show ((2 * words.length : Nat) : Int) = instruction.length
  omega

/-- What a step can give is fixed by the memory and the place. -/
theorem takes_unique {next other : WalkStep} (h : walk.Takes memory next)
    (h' : walk.Takes memory other) : next = other := by
  cases h with
  | shown decoded fits read =>
    cases h' with
    | shown decoded' fits' read' =>
      cases decoded.symm.trans decoded'
      cases read.symm.trans read'
      rfl
    | overrun decoded' passes' read' =>
      cases decoded.symm.trans decoded'
      omega
    | undecodable failed' read' => cases decoded.symm.trans failed'
  | overrun decoded passes read =>
    cases h' with
    | shown decoded' fits' read' =>
      cases decoded.symm.trans decoded'
      omega
    | overrun decoded' passes' read' =>
      cases decoded.symm.trans decoded'
      cases read.symm.trans read'
      rfl
    | undecodable failed' read' => cases decoded.symm.trans failed'
  | undecodable failed read =>
    cases h' with
    | shown decoded' fits' read' => cases failed.symm.trans decoded'
    | overrun decoded' passes' read' => cases failed.symm.trans decoded'
    | undecodable failed' read' =>
      cases failed.symm.trans failed'
      cases read.symm.trans read'
      rfl

theorem meets_unique {other : Line} (h : walk.Meets memory line) (h' : walk.Meets memory other) :
    line = other := by
  obtain ⟨next, takes, rfl⟩ := h
  obtain ⟨next', takes', rfl⟩ := h'
  rw [takes_unique takes takes']

theorem address_of_meets (h : walk.Meets memory line) : line.address = walk.address := by
  obtain ⟨next, takes, rfl⟩ := h
  exact address_of_takes takes

theorem length_of_meets (h : walk.Meets memory line) (hdone : walk.isDone = false) :
    2 ≤ line.length ∧ walk.address + line.length ≤ walk.limit := by
  obtain ⟨next, takes, rfl⟩ := h
  exact length_of_takes takes hdone

/-- How many lines are wanted does not show in the line. -/
theorem meets_of_left (h : walk.Meets memory line) (left : Option Int) :
    { walk with left := left }.Meets memory line := by
  obtain ⟨next, takes, rfl⟩ := h
  cases takes with
  | shown decoded fits read => exact ⟨_, .shown decoded fits read, rfl⟩
  | overrun decoded passes read => exact ⟨_, .overrun decoded passes read, rfl⟩
  | undecodable failed read => exact ⟨_, .undecodable failed read, rfl⟩

/-- The place behind a line is in memory. -/
theorem inside_of_meets (inside : walk.Inside memory) (h : walk.Meets memory line) :
    (walk.advance line).Inside memory := by
  obtain ⟨next, takes, rfl⟩ := h
  rw [← rest_of_takes takes]
  exact inside_of_takes inside takes

/-! ## Lines to the end of the range -/

theorem isDone_of_limit_lt (h : walk.limit < walk.address + 2) : walk.isDone = true := by
  simp [isDone, h]

/-- If lines are not counted, a walk is over when the range is used up. -/
theorem isDone_eq_false_iff_of_uncounted (hleft : walk.left = none) :
    walk.isDone = false ↔ walk.address + 2 ≤ walk.limit := by
  rw [isDone_eq_false_iff, and_iff_left]
  rw [hleft]
  rintro _ ⟨⟩

theorem limit_lt_of_isDone (h : walk.isDone = true) (hleft : walk.left = none) :
    walk.limit < walk.address + 2 := by
  rw [← Int.not_le, ← isDone_eq_false_iff_of_uncounted hleft, h]
  exact Bool.noConfusion

/-- If lines are not counted, a line changes nothing but the place. -/
theorem advance_of_uncounted (hleft : walk.left = none) (line : Line) :
    walk.advance line = { walk with address := walk.address + line.length } := by
  rw [advance, hleft]
  rfl

/-- The lines from a place to the end of the range. -/
inductive Prints (memory : Memory) : Walk → List Line → Prop
  | done {walk : Walk} (finished : walk.isDone = true) : Prints memory walk []
  | line {walk : Walk} {line : Line} {lines : List Line} (unfinished : walk.isDone = false)
      (meets : walk.Meets memory line) (rest : Prints memory (walk.advance line) lines) :
      Prints memory walk (line :: lines)

theorem prints_of_runs {steps : List WalkStep} (h : walk.Runs memory steps) :
    walk.Prints memory (steps.map WalkStep.line) := by
  induction h with
  | done finished => exact .done finished
  | @step walk next steps unfinished takes rest ih =>
    rw [rest_of_takes takes] at ih
    exact .line unfinished ⟨next, takes, rfl⟩ ih

/-- What a walk prints is fixed by the memory and the place. -/
theorem prints_unique {others : List Line} (h : walk.Prints memory lines)
    (h' : walk.Prints memory others) : lines = others := by
  induction h generalizing others with
  | done finished =>
    cases h' with
    | done finished' => rfl
    | line unfinished' meets' rest' => cases finished.symm.trans unfinished'
  | line unfinished meets rest ih =>
    cases h' with
    | done finished' => cases finished'.symm.trans unfinished
    | line unfinished' meets' rest' =>
      cases meets_unique meets meets'
      rw [ih rest']

theorem exists_prints (inside : walk.Inside memory) : ∃ lines, walk.Prints memory lines := by
  obtain ⟨steps, -, hruns⟩ := exists_runs inside
  exact ⟨_, prints_of_runs hruns⟩

theorem follow_of_prints (h : walk.Prints memory lines) : Line.Follow walk.address lines := by
  induction h with
  | done finished => trivial
  | @line walk line lines unfinished meets rest ih =>
    have haddress := address_of_meets meets
    refine ⟨haddress, ?_⟩
    rw [Line.stop, haddress]
    exact ih

/-- Every line ends inside the range. -/
theorem stop_le_limit (h : walk.Prints memory lines) (hline : line ∈ lines) :
    line.stop ≤ walk.limit := by
  induction h with
  | done finished => cases hline
  | line unfinished meets rest ih =>
    rcases List.mem_cons.mp hline with rfl | hlater
    · rw [Line.stop, address_of_meets meets]
      exact (length_of_meets meets unfinished).2
    · exact ih hlater

/-- Behind the first lines, a listing goes on as one that begins there, provided that lines are
not counted. -/
theorem prints_at_after {first second : List Line} (h : walk.Prints memory (first ++ second))
    (hleft : walk.left = none) :
    { walk with address := Line.after walk.address first }.Prints memory second := by
  induction first generalizing walk with
  | nil => exact h
  | cons line first ih =>
    cases h with
    | line unfinished meets rest =>
      rw [advance_of_uncounted hleft] at rest
      exact ih rest hleft

end Walk

/-- The lines of a range are what the walk from its start prints. -/
theorem linesOf_eq_ok_iff {memory : Memory} {range : Range} {lines : List Line} :
    linesOf memory range = .ok lines ↔ (Walk.ofRange memory range).Prints memory lines := by
  obtain ⟨steps, hrun, hruns⟩ := Walk.exists_runs (Walk.inside_ofRange memory range)
  have hlines : linesOf memory range = .ok (steps.map WalkStep.line) := by
    rw [linesOf, listing, hrun]
    rfl
  have hprints := Walk.prints_of_runs hruns
  rw [hlines]
  constructor
  · rintro ⟨⟩
    exact hprints
  · intro h
    rw [Walk.prints_unique hprints h]

/-! ## Ranges -/

namespace Walk

variable {memory : Memory} {start stop : Option Int} {address : Int}

/-- A range that begins in memory is not cut at its start. -/
theorem ofRange_start (h : memory.base ≤ address) :
    ofRange memory ⟨some address, stop, none⟩ =
      { ofRange memory ⟨start, stop, none⟩ with address := address } := by
  simp only [ofRange, Int.max_eq_left h]

/-- A range that ends in memory is not cut at its end. -/
theorem ofRange_stop (h : address ≤ memory.limit) :
    ofRange memory ⟨start, some address, none⟩ =
      { ofRange memory ⟨start, stop, none⟩ with limit := address } := by
  simp only [ofRange, Int.min_eq_left h]

end Walk

/-- The lines of every range can be listed. -/
theorem exists_linesOf (memory : Memory) (range : Range) :
    ∃ lines, linesOf memory range = .ok lines := by
  obtain ⟨lines, hprints⟩ := Walk.exists_prints (Walk.inside_ofRange memory range)
  exact ⟨lines, linesOf_eq_ok_iff.mpr hprints⟩

/-- A listing that begins where another one has come to goes on like it. -/
theorem linesOf_from_stop {memory : Memory} {start stop : Option Int} {first second : List Line}
    {last : Line} (h : linesOf memory ⟨start, stop, none⟩ = .ok (first ++ second))
    (hlast : first.getLast? = some last) :
    linesOf memory ⟨some last.stop, stop, none⟩ = .ok second := by
  rw [linesOf_eq_ok_iff] at h ⊢
  have hfollow := Line.follow_of_append (Walk.follow_of_prints h)
  have hrest := Walk.prints_at_after h rfl
  -- The last line ends in memory, so that the start is not moved to the base.
  have hbase := (Walk.inside_ofRange memory ⟨start, stop, none⟩).base_le
  have hle := Line.le_after (Walk.ofRange memory ⟨start, stop, none⟩).address first
  rw [Line.after_eq_stop hfollow hlast] at hrest hle
  rw [Walk.ofRange_start (Int.le_trans hbase hle)]
  exact hrest

end Disasm68k
