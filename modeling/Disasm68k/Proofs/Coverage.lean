import Disasm68k.Proofs.Walk

/-!
# A listing shows its whole range

The lines of a listing follow each other without gap or overlap, show the words of the memory
and stop at the end of the range. Unless the number of lines is bounded they go on until no
whole word is left, so that of an odd number of bytes the last one is not shown.

- `Line.Follow`: each line begins where the one before it ends;
- `Line.Cover`: the lines show every byte of a range but an odd one at its end;
- `Line.Lists`: what is asked of the lines of a listing;
- `listing_covers_range`: every listing of every memory meets it.
-/

namespace Disasm68k

/-! ## Lines side by side -/

namespace Line

/-- The address after the line. -/
def stop (line : Line) : Int :=
  line.address + line.length

/-- The line shows some words of the memory, one after the other from its address on. -/
def Shows (memory : Memory) (line : Line) : Prop :=
  line.words ≠ [] ∧
    ∀ (k : Nat) (word : Int), line.words[k]? = some word →
      memory.load .uint16 (line.address + 2 * k) = .ok word

/-- The first line is at `start`, and each further one begins where the line before it
ends. -/
def Follow : Int → List Line → Prop
  | _, [] => True
  | start, line :: lines => line.address = start ∧ Follow line.stop lines

/-- The address after lines that begin at `start`. -/
def after : Int → List Line → Int
  | start, [] => start
  | start, line :: lines => after (start + line.length) lines

/-- The lines show exactly the bytes from `first` up to `limit`, or up to the byte before
it if their number is odd. -/
def Cover (first limit : Int) (lines : List Line) : Prop :=
  ∀ address, (∃ line ∈ lines, line.address ≤ address ∧ address < line.stop) ↔
    first ≤ address ∧ address < limit - (limit - first) % 2

/-- The lines are a listing of memory from `first` up to `limit` with at most `count`
lines. -/
structure Lists (memory : Memory) (first limit : Int) (count : Option Int)
    (lines : List Line) : Prop where
  follow : Follow first lines
  shows : ∀ line ∈ lines, line.Shows memory
  stop_le : ∀ line ∈ lines, line.stop ≤ limit
  /-- Nothing is left out, unless as many lines are there as were asked for. -/
  complete : match count with
    | none => Cover first limit lines
    | some n =>
      (lines.length : Int) ≤ max n 0 ∧ ((lines.length : Int) < max n 0 → Cover first limit lines)

theorem le_after (start : Int) (lines : List Line) : start ≤ after start lines := by
  induction lines generalizing start with
  | nil => exact Int.le_refl start
  | cons line lines ih =>
    have hrest := ih (start + line.length)
    simp only [after]
    omega

/-- Lines that follow each other show the bytes between their ends. -/
theorem exists_mem_iff_of_follow {start address : Int} {lines : List Line}
    (h : Follow start lines) :
    (∃ line ∈ lines, line.address ≤ address ∧ address < line.stop) ↔
      start ≤ address ∧ address < after start lines := by
  induction lines generalizing start with
  | nil =>
    simp only [List.not_mem_nil, false_and, exists_false, after, false_iff]
    omega
  | cons line lines ih =>
    obtain ⟨rfl, hfollow⟩ := h
    have hrest := ih hfollow
    have hle := le_after line.stop lines
    have hlength : line.stop = line.address + line.length := rfl
    simp only [List.mem_cons, or_and_right, exists_or, exists_eq_left, after]
    rw [hrest, ← hlength]
    omega

end Line

/-! ## The lines of a run -/

namespace Walk

variable {memory : Memory} {walk : Walk} {steps : List WalkStep}

theorem follow_of_runs (h : walk.Runs memory steps) :
    Line.Follow walk.address (steps.map WalkStep.line) := by
  induction h with
  | done finished => trivial
  | @step walk next steps unfinished takes rest ih =>
    have haddress := address_of_takes takes
    refine ⟨haddress, ?_⟩
    rw [rest_of_takes takes] at ih
    rw [Line.stop, haddress]
    exact ih

/-- Every line of a run shows words of the memory and ends inside the range. -/
theorem shows_of_runs (h : walk.Runs memory steps) {line : Line}
    (hline : line ∈ steps.map WalkStep.line) : line.Shows memory ∧ line.stop ≤ walk.limit := by
  induction h with
  | done finished => cases hline
  | @step walk next steps unfinished takes rest ih =>
    obtain ⟨htwo, hfits⟩ := length_of_takes takes unfinished
    have haddress := address_of_takes takes
    rcases List.mem_cons.mp hline with rfl | hlater
    · refine ⟨⟨?_, ?_⟩, ?_⟩
      · intro hnone
        rw [Line.length, hnone] at htwo
        exact absurd htwo (by decide)
      · intro k word hk
        rw [haddress]
        exact load_of_takes takes hk
      · rw [Line.stop, haddress]
        exact hfits
    · have hlast := ih hlater
      rw [rest_of_takes takes] at hlast
      exact hlast

/-- A run has no more lines than are wanted. -/
theorem length_le_of_runs (h : walk.Runs memory steps) {n : Int} (hleft : walk.left = some n) :
    (steps.length : Int) ≤ max n 0 := by
  induction h generalizing n with
  | done finished => exact Int.le_max_right n 0
  | @step walk next steps unfinished takes rest ih =>
    have hpos := (isDone_eq_false_iff.mp unfinished).2 n hleft
    have hrest := ih (n := n - 1) (by rw [rest_of_takes takes, advance, hleft]; rfl)
    rw [List.length_cons]
    omega

/-- A run that is not cut off by the number of lines goes on until no whole word is left. -/
theorem after_of_runs (h : walk.Runs memory steps) (hroom : walk.address ≤ walk.limit)
    (hfree : ∀ n, walk.left = some n → (steps.length : Int) < max n 0) :
    Line.after walk.address (steps.map WalkStep.line) =
      walk.limit - (walk.limit - walk.address) % 2 := by
  induction h with
  | @done walk finished =>
    -- Lines are still wanted, so it is the range that is used up.
    have hused : walk.limit < walk.address + 2 := by
      refine Classical.byContradiction fun hmore => ?_
      have hdone : walk.isDone = false := isDone_eq_false_iff.mpr ⟨by omega, fun n hn => by
        have := hfree n hn
        simp only [List.length_nil] at this
        omega⟩
      rw [finished] at hdone
      cases hdone
    show walk.address = walk.limit - (walk.limit - walk.address) % 2
    omega
  | @step walk next steps unfinished takes rest ih =>
    obtain ⟨-, hfits⟩ := length_of_takes takes unfinished
    rw [rest_of_takes takes] at ih
    have heven : (next.line.length : Int) % 2 = 0 := by
      rw [Line.length]
      omega
    have hlast := ih hfits (by
      intro n hn
      obtain ⟨m, hm, rfl⟩ := Option.map_eq_some_iff.mp hn
      have hlen := hfree m hm
      rw [List.length_cons] at hlen
      omega)
    show Line.after (walk.address + next.line.length) (steps.map WalkStep.line) = _
    rw [show Line.after (walk.address + next.line.length) (steps.map WalkStep.line) =
      walk.limit - (walk.limit - (walk.address + next.line.length)) % 2 from hlast]
    omega

theorem cover_of_runs (h : walk.Runs memory steps)
    (hfree : ∀ n, walk.left = some n → (steps.length : Int) < max n 0) :
    Line.Cover walk.address walk.limit (steps.map WalkStep.line) := by
  intro address
  by_cases hroom : walk.address ≤ walk.limit
  · rw [Line.exists_mem_iff_of_follow (follow_of_runs h), after_of_runs h hroom hfree]
  · -- An empty range has no lines.
    cases h with
    | done finished =>
      simp only [List.map_nil, List.not_mem_nil, false_and, exists_false, false_iff]
      omega
    | step unfinished takes rest =>
      have hmore := (isDone_eq_false_iff.mp unfinished).1
      omega

theorem lists_of_runs (h : walk.Runs memory steps) :
    Line.Lists memory walk.address walk.limit walk.left (steps.map WalkStep.line) := by
  refine ⟨follow_of_runs h, fun line hline => (shows_of_runs h hline).1,
    fun line hline => (shows_of_runs h hline).2, ?_⟩
  cases hleft : walk.left with
  | none => exact cover_of_runs h (by rw [hleft]; rintro n ⟨⟩)
  | some n =>
    have hlen : ((steps.map WalkStep.line).length : Int) = steps.length := by
      rw [List.length_map]
    show _ ∧ (_ → _)
    rw [hlen]
    refine ⟨length_le_of_runs h hleft, fun hfewer => cover_of_runs h ?_⟩
    rw [hleft]
    rintro m ⟨⟩
    exact hfewer

end Walk

/-! ## Whole listings -/

namespace Range

/-- Where a listing of the range begins: not before the memory does. -/
def first (memory : Memory) (range : Range) : Int :=
  (range.start.map (max · memory.base)).getD memory.base

/-- Where a listing of the range ends: not after the memory does. -/
def limit (memory : Memory) (range : Range) : Int :=
  (range.stop.map (min · memory.limit)).getD memory.limit

theorem address_ofRange (memory : Memory) (range : Range) :
    (Walk.ofRange memory range).address = range.first memory := by
  obtain ⟨start, stop, count⟩ := range
  cases start <;> rfl

theorem limit_ofRange (memory : Memory) (range : Range) :
    (Walk.ofRange memory range).limit = range.limit memory := by
  obtain ⟨start, stop, count⟩ := range
  cases stop <;> rfl

end Range

/-- **A listing shows its whole range.** Whatever the memory and the range, the listing comes
to its end without a fault. Its lines follow each other from the start of the range, show
words of the memory and stay inside the range, and they leave nothing out but an odd byte
at the end, unless as many lines are there as were asked for. -/
theorem listing_covers_range (memory : Memory) (range : Range) :
    ∃ steps, listing memory range = .ok steps ∧
      Line.Lists memory (range.first memory) (range.limit memory) range.count
        (steps.map WalkStep.line) := by
  obtain ⟨steps, hrun, hruns⟩ := Walk.exists_runs (Walk.inside_ofRange memory range)
  refine ⟨steps, hrun, ?_⟩
  rw [← Range.address_ofRange, ← Range.limit_ofRange]
  exact Walk.lists_of_runs hruns

end Disasm68k
