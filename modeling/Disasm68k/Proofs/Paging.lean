import Mathlib.Algebra.Ring.Nat
import Mathlib.Data.List.SplitLengths
import Disasm68k.Proofs.Lines
import Disasm68k.Session

/-!
# Listings page by page

A listing can be asked for in pages: so many lines from here on, then as many as are wanted from
where the last line ended, and so on. Nothing is lost between the pages and nothing is shown
twice, because where a listing stands is told by the address of its next line alone: neither the
pointer of the disassembler nor the lines already shown come into it.

- `Walk.prints_take`: with a bounded number of lines, a listing gives its first lines;
- `linesOf_resume`: begun at the end of the last line, it gives the others;
- `Session.pages`: what a client gets that asks a disassembler for one page after the other;
- `Session.pages_eq_splitLengths`: the pages are the pieces of the listing;
- `Session.list_by_pages`: the results together.
-/

namespace Disasm68k

/-! ## The first lines -/

/-- With a bounded number of lines, a listing gives its first lines. -/
theorem Walk.prints_take {memory : Memory} {walk : Walk} {lines : List Line}
    (h : walk.Prints memory lines) (hleft : walk.left = none) (n : Nat) :
    { walk with left := some (n : Int) }.Prints memory (lines.take n) := by
  induction h generalizing n with
  | @done walk finished =>
    rw [List.take_nil]
    have hused := limit_lt_of_isDone finished hleft
    exact .done (isDone_of_limit_lt hused)
  | @line walk line lines unfinished meets rest ih =>
    cases n with
    | zero => exact .done (by simp [isDone])
    | succ n =>
      have hroom := (isDone_eq_false_iff_of_uncounted hleft).mp unfinished
      rw [advance_of_uncounted hleft] at ih
      have hrest := ih hleft n
      refine .line (isDone_eq_false_iff.mpr ⟨hroom, ?_⟩) (meets_of_left meets _) ?_
      · rintro _ ⟨⟩
        omega
      · -- One line less is wanted after the first one.
        have hcount : ((n + 1 : Nat) : Int) - 1 = n := by omega
        simpa [advance, hcount] using hrest

/-! ## The other lines -/

/-- Where a listing is to be resumed after a page: where its last line ends, or where the page
was to begin if there are no lines in it. -/
def resume (start : Option Int) (page : List Line) : Option Int :=
  (page.getLast?.map Line.stop).or start

section

variable {memory : Memory} {start stop : Option Int} {lines : List Line}

theorem linesOf_take (h : linesOf memory ⟨start, stop, none⟩ = .ok lines) (n : Nat) :
    linesOf memory ⟨start, stop, some n⟩ = .ok (lines.take n) := by
  rw [linesOf_eq_ok_iff] at h ⊢
  exact Walk.prints_take h rfl n

theorem linesOf_resume (h : linesOf memory ⟨start, stop, none⟩ = .ok lines) (n : Nat) :
    linesOf memory ⟨resume start (lines.take n), stop, none⟩ = .ok (lines.drop n) := by
  cases hlast : (lines.take n).getLast? with
  | some last =>
    rw [resume, hlast]
    rw [← List.take_append_drop n lines] at h
    exact linesOf_from_stop h hlast
  | none =>
    -- A page without lines leaves all of them to be listed.
    have hnone : lines.take n = [] := List.getLast?_eq_none_iff.mp hlast
    have hall : lines.drop n = lines := by
      have happend := List.take_append_drop n lines
      rw [hnone] at happend
      exact happend
    rw [resume, hlast, hall]
    exact h

end

/-! ## Pages -/

namespace Session

variable {state : State} {unit : Nat}

/-- The outcomes for a client that asks a disassembler for pages of the given sizes, each from
where the one before it ended. -/
def pages (state : State) (unit : Nat) (start stop : Option Int) :
    List Nat → List (Except Failure Reply)
  | [] => []
  | size :: sizes =>
    let result := list state unit ⟨start, stop, some size⟩
    let next := match result.outcome with
      | .ok (.lines page) => resume start page
      | _ => start
    result.outcome :: pages result.state unit next stop sizes

/-- A disassembler that lists a range answers with its lines, wherever its pointer stands. -/
theorem list_of_linesOf {range : Range} {lines : List Line} (hunit : unit < state.pointers.length)
    (h : linesOf state.memory range = .ok lines) :
    ∃ log pointer, list state unit range =
      ⟨.ok (.lines lines), log, state.setPointer unit pointer⟩ := by
  unfold linesOf at h
  unfold list
  rw [List.getElem?_eq_getElem hunit]
  cases hlisting : listing state.memory range with
  | error fault => simp [hlisting, Except.map] at h
  | ok steps =>
    obtain rfl : steps.map WalkStep.line = lines := by simpa [hlisting, Except.map] using h
    exact ⟨_, _, rfl⟩

theorem outcome_list {range : Range} {lines : List Line} (hunit : unit < state.pointers.length)
    (h : linesOf state.memory range = .ok lines) :
    (list state unit range).outcome = .ok (.lines lines) := by
  obtain ⟨log, pointer, hlist⟩ := list_of_linesOf hunit h
  rw [hlist]

/-- The pages are the pieces of the listing. -/
theorem pages_eq_splitLengths {start stop : Option Int} {lines : List Line} (sizes : List Nat)
    (hunit : unit < state.pointers.length)
    (h : linesOf state.memory ⟨start, stop, none⟩ = .ok lines) :
    pages state unit start stop sizes =
      (sizes.splitLengths lines).map fun page => .ok (.lines page) := by
  induction sizes generalizing state start lines with
  | nil => rfl
  | cons size sizes ih =>
    obtain ⟨log, pointer, hlist⟩ := list_of_linesOf hunit (linesOf_take h size)
    -- The pointer has moved, which the next page does not see.
    have hlength : unit < (state.setPointer unit pointer).pointers.length := by
      simpa [State.setPointer] using hunit
    have hrest : linesOf (state.setPointer unit pointer).memory
        ⟨resume start (lines.take size), stop, none⟩ = .ok (lines.drop size) :=
      linesOf_resume h size
    rw [List.splitLengths_cons, List.map_cons, ← ih hlength hrest, pages, hlist]

/-- **A listing can be taken in pages.** Asked for `n` lines of a range, a disassembler answers
with the first `n` of the lines that it has for the whole range. If there is a last one among
them, then a disassembler of that memory which lists from its end on, wherever pointers stand,
answers with all the other lines. A client that asks for one page after the other gets the
lines of the range cut into pieces of the sizes asked for, which make up all of them again as
soon as enough lines have been asked for. -/
theorem list_by_pages (state : State) (unit : Nat) (start stop : Option Int)
    (hunit : unit < state.pointers.length) :
    ∃ lines, (list state unit ⟨start, stop, none⟩).outcome = .ok (.lines lines) ∧
      (∀ n : Nat, (list state unit ⟨start, stop, some n⟩).outcome = .ok (.lines (lines.take n))) ∧
      (∀ (n : Nat) (last : Line), (lines.take n).getLast? = some last →
        ∀ (later : State) (other : Nat), later.memory = state.memory →
          other < later.pointers.length →
          (list later other ⟨some last.stop, stop, none⟩).outcome = .ok (.lines (lines.drop n))) ∧
      ∀ sizes : List Nat, ∃ pieces : List (List Line),
        pages state unit start stop sizes = pieces.map (fun page => .ok (.lines page)) ∧
          pieces = sizes.splitLengths lines ∧
          (lines.length ≤ sizes.sum → pieces.flatten = lines) := by
  obtain ⟨lines, hlines⟩ := exists_linesOf state.memory ⟨start, stop, none⟩
  refine ⟨lines, outcome_list hunit hlines, ?_, ?_, ?_⟩
  · intro n
    exact outcome_list hunit (linesOf_take hlines n)
  · intro n last hlast later other hmemory hother
    rw [← hmemory, ← List.take_append_drop n lines] at hlines
    exact outcome_list hother (linesOf_from_stop hlines hlast)
  · intro sizes
    exact ⟨_, pages_eq_splitLengths sizes hunit hlines, rfl, List.flatten_splitLengths lines sizes⟩

/-- An instruction, an unknown word and a branch that does not fit into the range: three lines in
pages of one, no and two lines. -/
theorem list_by_pages_of_three_lines :
    let state : State :=
      ⟨⟨#[0x4E, 0x71, 0xFF, 0xFF, 0x60, 0x00, 0x00, 0x02], 0x100, .big⟩, [7, 0x104], []⟩
    let shown : Line := .ofInstruction 0x100 [0x4E71] ⟨0x100, 0x4E71, "NOP", none, [], 2, []⟩
    let unknown : Line := .ofData 0x102 0xFFFF (.unknownInstruction 0xFFFF 0x102)
    let passing : Line := .ofData 0x104 0x6000 (.pastRange "BRA *+2" 0x104 0x106)
    1 < state.pointers.length ∧
      (list state 0 ⟨some shown.stop, some 0x106, none⟩).outcome =
        .ok (.lines [unknown, passing]) ∧
      pages state 1 none (some 0x106) [1, 0, 2] =
        [.ok (.lines [shown]), .ok (.lines []), .ok (.lines [unknown, passing])] := by
  intro state shown unknown passing
  have hshown : (list state 1 ⟨none, some 0x106, none⟩).outcome =
      .ok (.lines [shown, unknown, passing]) :=
    outcome_list (by decide) (listing_of_runWithin 3 (by decide +kernel))
  obtain ⟨lines, hall, -, hrest, hpages⟩ := list_by_pages state 1 none (some 0x106) (by decide)
  obtain rfl : [shown, unknown, passing] = lines := by simpa [hshown] using hall
  obtain ⟨_, hpieces, rfl, -⟩ := hpages [1, 0, 2]
  exact ⟨by decide, hrest 1 shown rfl state 0 rfl (by decide), hpieces⟩

end Session

end Disasm68k
