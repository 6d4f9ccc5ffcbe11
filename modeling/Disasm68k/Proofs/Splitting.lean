import Mathlib.Data.List.Forall2
import Disasm68k.Proofs.Failure
import Disasm68k.Proofs.Lines

/-!
# Listings of a part of the range

The end of the range is looked at when a line is shown: an instruction that passes it is shown as
data. So a listing of a shorter range agrees with that of the whole range as long as its lines end
before the shorter range does, and where a line is cut off, its first word is shown as data. What
can differ is the end of the range that the fault of an overrun names.

- `Line.Agrees`: lines that are the same, but for that end;
- `Walk.meets_below`: a line that ends in the shorter range is shown there too;
- `Walk.meets_cut`: a line that is cut off is shown as data;
- `Walk.prints_below`: what a listing of the shorter range has in common with the whole listing;
- `linesOf_split`: a listing in two parts, cut at the end of a line or inside a line.
-/

namespace Disasm68k

/-! ## Lines that agree -/

/-- The lines are the same, but for the end of the range that the fault of an overrun names. -/
structure Line.Agrees (line other : Line) : Prop where
  address_eq : line.address = other.address
  words_eq : line.words = other.words
  text_eq : line.text = other.text
  isData_eq : line.isData = other.isData
  instruction_eq : line.instruction = other.instruction
  kind_eq : line.fault.map Fault.kind = other.fault.map Fault.kind
  fault_eq : line.fault = other.fault ∨
    ∃ text address limit limit', line.fault = some (.pastRange text address limit) ∧
      other.fault = some (.pastRange text address limit')

namespace Line

theorem Agrees.refl (line : Line) : line.Agrees line :=
  ⟨rfl, rfl, rfl, rfl, rfl, rfl, .inl rfl⟩

theorem agrees_ofData_pastRange (address word : Int) (text : String) (limit limit' : Int) :
    (ofData address word (.pastRange text address limit)).Agrees
      (ofData address word (.pastRange text address limit')) :=
  ⟨rfl, rfl, rfl, rfl, rfl, rfl, .inr ⟨text, address, limit, limit', rfl, rfl⟩⟩

theorem Agrees.length_eq {line other : Line} (h : line.Agrees other) :
    line.length = other.length := by
  rw [length, length, h.words_eq]

end Line

/-! ## Lines of a shorter range -/

namespace Walk

variable {memory : Memory} {walk : Walk} {line : Line} {stop : Int}

/-- A line that ends in the shorter range is shown there too: what is data because it passes the
end of the range passes the end of the shorter one. -/
theorem meets_below (h : walk.Meets memory line) (hstop : walk.address + line.length ≤ stop)
    (hlimit : stop ≤ walk.limit) :
    ∃ shown, { walk with limit := stop }.Meets memory shown ∧ shown.Agrees line := by
  obtain ⟨next, takes, rfl⟩ := h
  cases takes with
  | shown decoded fits read =>
    have hlength := length_ofInstruction decoded read
    have hfits : walk.address + (Line.ofInstruction _ _ _).length ≤ stop := hstop
    rw [hlength] at hfits
    exact ⟨_, ⟨_, .shown decoded hfits read, rfl⟩, .refl _⟩
  | overrun decoded passes read =>
    refine ⟨_, ⟨_, .overrun decoded (Int.lt_of_le_of_lt hlimit passes) read, rfl⟩, ?_⟩
    exact Line.agrees_ofData_pastRange ..
  | undecodable failed read => exact ⟨_, ⟨_, .undecodable failed read, rfl⟩, .refl _⟩

/-- A line that the shorter range cuts off, but not in its first word, shows an instruction, which
passes the end of the shorter range. -/
theorem meets_cut (h : walk.Meets memory line) (hword : walk.address + 2 ≤ stop)
    (hstop : stop < walk.address + line.length) :
    ∃ word, memory.load .uint16 walk.address = .ok word ∧
      { walk with limit := stop }.Meets memory
        (.ofData walk.address word (.pastRange line.text walk.address stop)) := by
  obtain ⟨next, takes, rfl⟩ := h
  cases takes with
  | shown decoded fits read =>
    have hlength := length_ofInstruction decoded read
    have hpasses : stop < walk.address + (Line.ofInstruction _ _ _).length := hstop
    rw [hlength] at hpasses
    obtain ⟨word, form, operands, hload, -⟩ := decodeAt_eq_ok_iff.mp decoded
    exact ⟨word, hload, _, .overrun decoded hpasses hload, rfl⟩
  | overrun decoded passes read =>
    change stop < walk.address + 2 at hstop
    omega
  | undecodable failed read =>
    change stop < walk.address + 2 at hstop
    omega

/-- A listing of the shorter range begins with lines that agree with those of the whole listing,
as far as these end in the shorter range, and goes on from there. -/
theorem prints_below {first second rest : List Line} (h : walk.Prints memory (first ++ second))
    (hleft : walk.left = none) (hstop : Line.after walk.address first ≤ stop)
    (hlimit : stop ≤ walk.limit)
    (hrest : { walk with address := Line.after walk.address first, limit := stop }.Prints memory
      rest) :
    ∃ shown, List.Forall₂ Line.Agrees shown first ∧
      { walk with limit := stop }.Prints memory (shown ++ rest) := by
  induction first generalizing walk with
  | nil => exact ⟨[], .nil, hrest⟩
  | cons line first ih =>
    cases h with
    | line unfinished meets others =>
      have htwo := (length_of_meets meets unfinished).1
      rw [advance_of_uncounted hleft] at others
      have hline : walk.address + line.length ≤ stop :=
        Int.le_trans (Line.le_after _ first) hstop
      obtain ⟨shown, hmeets, hagrees⟩ := meets_below meets hline hlimit
      obtain ⟨later, hlater, hprints⟩ := ih others hleft hstop hlimit hrest
      have hshorter : { walk with limit := stop }.left = none := hleft
      refine ⟨shown :: later, .cons hagrees hlater, .line ?_ hmeets ?_⟩
      · refine (isDone_eq_false_iff_of_uncounted hshorter).mpr ?_
        show walk.address + 2 ≤ stop
        omega
      · -- Both lines are equally long, so that both walks go on at the same place.
        rw [advance_of_uncounted hshorter, hagrees.length_eq]
        exact hprints

end Walk

/-! ## Listings in two parts -/

section

variable {memory : Memory} {start stop : Option Int} {cut place : Int}
  {first second rest : List Line}

/-- A listing of the shorter range begins with the lines that end in it, and how it goes on is
told by the place where they end. -/
theorem linesOf_below (h : linesOf memory ⟨start, stop, none⟩ = .ok (first ++ second))
    (hplace : Line.after (Walk.ofRange memory ⟨start, stop, none⟩).address first = place)
    (hcut : place ≤ cut) (hlimit : cut ≤ (Walk.ofRange memory ⟨start, stop, none⟩).limit)
    (hrest : { Walk.ofRange memory ⟨start, stop, none⟩ with
      address := place, limit := cut }.Prints memory rest) :
    ∃ shown, List.Forall₂ Line.Agrees shown first ∧
      linesOf memory ⟨start, some cut, none⟩ = .ok (shown ++ rest) := by
  subst hplace
  obtain ⟨shown, hagree, hshown⟩ :=
    Walk.prints_below (linesOf_eq_ok_iff.mp h) rfl hcut hlimit hrest
  refine ⟨shown, hagree, linesOf_eq_ok_iff.mpr ?_⟩
  rw [Walk.ofRange_stop (Int.le_trans hlimit (Walk.inside_ofRange memory _).le_limit)]
  exact hshown

/-- A listing up to the end of its first lines has these lines and no others. -/
theorem linesOf_up_to_stop {last : Line}
    (h : linesOf memory ⟨start, stop, none⟩ = .ok (first ++ second))
    (hlast : first.getLast? = some last) :
    ∃ shown, List.Forall₂ Line.Agrees shown first ∧
      linesOf memory ⟨start, some last.stop, none⟩ = .ok shown := by
  have hprints := linesOf_eq_ok_iff.mp h
  have hfollow := Line.follow_of_append (Walk.follow_of_prints hprints)
  have hmem : last ∈ first ++ second := List.mem_append_left _ (List.mem_of_getLast? hlast)
  obtain ⟨shown, hagree, hshown⟩ := linesOf_below h (Line.after_eq_stop hfollow hlast)
    (Int.le_refl _) (Walk.stop_le_limit hprints hmem)
    (.done (Walk.isDone_of_limit_lt (Int.lt_add_of_pos_right _ (by decide))))
  rw [List.append_nil] at hshown
  exact ⟨shown, hagree, hshown⟩

/-- A listing up to a place inside a line has the lines before it. If the first word of the line
is in the shorter range, the listing goes on with this word as data, and otherwise it is over. -/
theorem linesOf_up_to_cut {line : Line}
    (h : linesOf memory ⟨start, stop, none⟩ = .ok (first ++ line :: second))
    (hstart : line.address < cut) (hstop : cut < line.stop) :
    ∃ shown rest, linesOf memory ⟨start, some cut, none⟩ = .ok (shown ++ rest) ∧
      List.Forall₂ Line.Agrees shown first ∧
      (line.address + 2 ≤ cut → ∃ word more, memory.load .uint16 line.address = .ok word ∧
        rest = .ofData line.address word (.pastRange line.text line.address cut) :: more) ∧
      (cut < line.address + 2 → rest = []) := by
  have hprints := linesOf_eq_ok_iff.mp h
  have inside := Walk.inside_ofRange memory ⟨start, stop, none⟩
  have hplace := Line.after_eq_address (Walk.follow_of_prints hprints)
  have hlimit : cut ≤ (Walk.ofRange memory ⟨start, stop, none⟩).limit :=
    Int.le_trans (Int.le_of_lt hstop) (Walk.stop_le_limit hprints (by simp))
  by_cases hword : line.address + 2 ≤ cut
  · have hline := Walk.prints_at_after hprints rfl
    rw [hplace] at hline
    cases hline with
    | line unfinished meets others =>
      obtain ⟨word, hload, hmeets⟩ := Walk.meets_cut meets hword hstop
      -- The listing goes on behind the word, which is still in memory.
      have hbase : memory.base ≤ line.address :=
        Int.le_trans inside.base_le (hplace ▸ Line.le_after _ first)
      obtain ⟨more, hmore⟩ := Walk.exists_prints
        (Walk.inside_of_meets ⟨hbase, Int.le_trans hlimit inside.le_limit⟩ hmeets)
      obtain ⟨shown, hagree, hshown⟩ := linesOf_below h hplace (Int.le_of_lt hstart) hlimit
        (.line ((Walk.isDone_eq_false_iff_of_uncounted rfl).mpr hword) hmeets hmore)
      exact ⟨shown, _, hshown, hagree, fun _ => ⟨word, more, hload, rfl⟩, fun hless => by omega⟩
  · obtain ⟨shown, hagree, hshown⟩ := linesOf_below h hplace (Int.le_of_lt hstart) hlimit
      (.done (Walk.isDone_of_limit_lt (Int.not_le.mp hword)))
    exact ⟨shown, [], hshown, hagree, fun hmore => absurd hmore hword, fun _ => rfl⟩

end

/-- **A listing can be cut in two.** Cut at the end of a line, the listings up to there and from
there on have the lines of the whole listing one after the other, in address, words, text,
instruction and kind of fault, and nothing differs but the end of the range that an overrun names.
Cut inside a line, the listing up to there has the lines before that one; then it shows the first
word of the line as data because the instruction passes the end, if that word is still in the
range, and ends otherwise. -/
theorem linesOf_split (memory : Memory) (start stop : Option Int) :
    ∃ lines, linesOf memory ⟨start, stop, none⟩ = .ok lines ∧
      (∀ line ∈ lines, ∃ first second,
        linesOf memory ⟨start, some line.stop, none⟩ = .ok first ∧
          linesOf memory ⟨some line.stop, stop, none⟩ = .ok second ∧
          List.Forall₂ Line.Agrees (first ++ second) lines) ∧
      ∀ (before after : List Line) (line : Line) (cut : Int), lines = before ++ line :: after →
        line.address < cut → cut < line.stop →
        ∃ shown rest, linesOf memory ⟨start, some cut, none⟩ = .ok (shown ++ rest) ∧
          List.Forall₂ Line.Agrees shown before ∧
          (line.address + 2 ≤ cut → ∃ word more, memory.load .uint16 line.address = .ok word ∧
            rest = .ofData line.address word (.pastRange line.text line.address cut) :: more) ∧
          (cut < line.address + 2 → rest = []) := by
  obtain ⟨lines, hlines⟩ := exists_linesOf memory ⟨start, stop, none⟩
  refine ⟨lines, hlines, ?_, ?_⟩
  · intro line hline
    obtain ⟨before, after, rfl⟩ := List.append_of_mem hline
    rw [List.append_cons] at hlines ⊢
    have hlast : (before ++ [line]).getLast? = some line := List.getLast?_concat
    obtain ⟨first, hagree, hfirst⟩ := linesOf_up_to_stop hlines hlast
    refine ⟨first, after, hfirst, linesOf_from_stop hlines hlast, ?_⟩
    exact List.rel_append hagree (List.forall₂_same.mpr fun other _ => .refl other)
  · rintro before after line cut rfl hstart hstop
    exact linesOf_up_to_cut hlines hstart hstop

/-- Three instructions, cut behind the second one and in the middle of it. -/
theorem linesOf_split_at_branch :
    let memory : Memory := ⟨#[0x4E, 0x71, 0x66, 0x00, 0x00, 0x04, 0x4E, 0x75], 0x100, .big⟩
    let nop : Line := .ofInstruction 0x100 [0x4E71] ⟨0x100, 0x4E71, "NOP", none, [], 2, []⟩
    let branch : Line := .ofInstruction 0x102 [0x6600, 4]
      ⟨0x102, 0x6600, "BNE", none, [.branchDisp 4], 4, [Field.branchDisp.entry "disp" 2]⟩
    let back : Line := .ofInstruction 0x106 [0x4E75] ⟨0x106, 0x4E75, "RTS", none, [], 2, []⟩
    (∃ first second, linesOf memory ⟨none, some branch.stop, none⟩ = .ok first ∧
      linesOf memory ⟨some branch.stop, none, none⟩ = .ok second ∧
      List.Forall₂ Line.Agrees (first ++ second) [nop, branch, back]) ∧
    ∃ shown word more, linesOf memory ⟨none, some 0x104, none⟩ =
        .ok (shown ++ .ofData 0x102 word (.pastRange "BNE *+4" 0x102 0x104) :: more) ∧
      List.Forall₂ Line.Agrees shown [nop] := by
  intro memory nop branch back
  have hshown : linesOf memory ⟨none, none, none⟩ = .ok [nop, branch, back] :=
    listing_of_runWithin 3 (by decide +kernel)
  obtain ⟨lines, hlines, hstop, hcut⟩ := linesOf_split memory none none
  obtain rfl : [nop, branch, back] = lines := by simpa [hshown] using hlines
  refine ⟨hstop branch (by simp), ?_⟩
  obtain ⟨shown, rest, hrest, hagree, hdata, -⟩ :=
    hcut [nop] [back] branch 0x104 rfl (by decide) (by decide)
  obtain ⟨word, more, -, rfl⟩ := hdata (by decide)
  exact ⟨shown, word, more, hrest, hagree⟩

end Disasm68k
