import Disasm68k.Proofs.Reading
import Disasm68k.Stream

/-!
# What a stream of reads records

A client that drives a cursor directly never starts over: what a request has read and recorded
stays with the cursor, also when the request fails half way. So every property of the record has to
survive every step of every run. The record only grows: the cursor moves forward by whole words, and
each new entry lies behind the entries that are there.

- `Layout.Entry.Precedes`, `Layout.Ordered`: entries that lie between two offsets, one behind the
  other;
- `Cursor.Continues`: what one cursor has to do with a later one, a reflexive and transitive
  relation;
- `Fetch.Keeps`: a step leaves a cursor that continues the one before, a property that passes from
  steps to their sequence;
- `Stream.keeps_perform`: every request that reads is such a step;
- `Stream.run_keeps_record`: the cursors of a run, and the answers at each of them.
-/

namespace Disasm68k

/-! ## Entries in order -/

namespace Layout

/-- The entry takes up the bytes from offset `start` to offset `stop`, and there are some. -/
def Entry.Covers (entry : Entry) (start stop : Int) : Prop :=
  entry.offset? = some start ∧ entry.length? = some (stop - start) ∧ start < stop

/-- The first entry ends before the second begins, or where it begins. -/
def Entry.Precedes (first second : Entry) : Prop :=
  ∃ start stop start' stop', first.Covers start stop ∧ second.Covers start' stop' ∧ stop ≤ start'

/-- The entries lie between offset `low` and offset `high`, one behind the other. -/
structure Ordered (low : Int) (entries : List Entry) (high : Int) : Prop where
  inside : ∀ entry ∈ entries, ∃ start stop, entry.Covers start stop ∧ low ≤ start ∧ stop ≤ high
  pairwise : entries.Pairwise Entry.Precedes

variable {low middle high : Int} {entry : Entry} {entries entries' : List Entry}

theorem ordered_nil (low high : Int) : Ordered low [] high where
  inside := by
    intro entry hmem
    cases hmem
  pairwise := .nil

theorem ordered_singleton (h : entry.Covers low high) : Ordered low [entry] high where
  inside := by
    intro other hmem
    obtain rfl := List.mem_singleton.mp hmem
    exact ⟨low, high, h, Int.le_refl low, Int.le_refl high⟩
  pairwise := List.pairwise_singleton _ entry

theorem Ordered.append (h : Ordered low entries middle) (h' : Ordered middle entries' high)
    (hlow : low ≤ middle) (hhigh : middle ≤ high) : Ordered low (entries ++ entries') high where
  inside := by
    intro entry hmem
    rcases List.mem_append.mp hmem with hmem | hmem
    · obtain ⟨start, stop, hcovers, hstart, hstop⟩ := h.inside entry hmem
      exact ⟨start, stop, hcovers, hstart, Int.le_trans hstop hhigh⟩
    · obtain ⟨start, stop, hcovers, hstart, hstop⟩ := h'.inside entry hmem
      exact ⟨start, stop, hcovers, Int.le_trans hlow hstart, hstop⟩
  pairwise := by
    refine List.pairwise_append.mpr ⟨h.pairwise, h'.pairwise, ?_⟩
    intro first hfirst second hsecond
    obtain ⟨start, stop, hcovers, -, hstop⟩ := h.inside first hfirst
    obtain ⟨start', stop', hcovers', hstart', -⟩ := h'.inside second hsecond
    exact ⟨start, stop, start', stop', hcovers, hcovers', Int.le_trans hstop hstart'⟩

end Layout

theorem Field.covers_entry (field : Field) (key : String) (offset : Int) :
    (field.entry key offset).Covers offset (offset + field.extent) := by
  have hextent := field.extent_eq_two_or_four
  refine ⟨field.offset?_entry key offset, ?_, by omega⟩
  rw [field.length?_entry, Int.add_comm, Int.add_sub_cancel]

theorem Field.two_dvd_extent (field : Field) : 2 ∣ field.extent := by
  have hextent := field.extent_eq_two_or_four
  omega

/-! ## Cursors that continue each other -/

/-- The later cursor stands in the same instruction, some words further on, and has added to the
record what lies in between. -/
structure Cursor.Continues (before after : Cursor) : Prop where
  memory_eq : after.memory = before.memory
  pc_eq : after.pc = before.pc
  idx_le : before.idx ≤ after.idx
  even : 2 ∣ after.idx - before.idx
  recorded : ∃ added, after.layout = before.layout ++ added ∧
    Layout.Ordered before.idx added after.idx

namespace Cursor

variable {cursor middle after : Cursor}

theorem Continues.refl (cursor : Cursor) : cursor.Continues cursor where
  memory_eq := rfl
  pc_eq := rfl
  idx_le := Int.le_refl _
  even := ⟨0, Int.sub_self _⟩
  recorded := ⟨[], (List.append_nil _).symm, Layout.ordered_nil _ _⟩

theorem Continues.trans (h : cursor.Continues middle) (h' : middle.Continues after) :
    cursor.Continues after where
  memory_eq := h'.memory_eq.trans h.memory_eq
  pc_eq := h'.pc_eq.trans h.pc_eq
  idx_le := Int.le_trans h.idx_le h'.idx_le
  even := by
    have hfirst := h.even
    have hsecond := h'.even
    omega
  recorded := by
    obtain ⟨added, hlayout, hadded⟩ := h.recorded
    obtain ⟨added', hlayout', hadded'⟩ := h'.recorded
    refine ⟨added ++ added', ?_, hadded.append hadded' h.idx_le h'.idx_le⟩
    rw [hlayout', hlayout, List.append_assoc]

/-- Words may be read without being recorded. -/
theorem continues_skip (cursor : Cursor) {count : Nat} (h : 2 ∣ count) :
    cursor.Continues { cursor with idx := cursor.idx + count } where
  memory_eq := rfl
  pc_eq := rfl
  idx_le := Int.le_add_of_nonneg_right (Int.natCast_nonneg count)
  even := by
    show 2 ∣ cursor.idx + count - cursor.idx
    omega
  recorded := ⟨[], (List.append_nil _).symm, Layout.ordered_nil _ _⟩

/-- A field is read and recorded. -/
theorem continues_field (cursor : Cursor) (field : Field) (key : String) :
    cursor.Continues { cursor with
      idx := cursor.idx + field.extent
      layout := cursor.layout ++ [field.entry key cursor.idx] } where
  memory_eq := rfl
  pc_eq := rfl
  idx_le := Int.le_add_of_nonneg_right (Int.natCast_nonneg field.extent)
  even := (cursor.continues_skip field.two_dvd_extent).even
  recorded := ⟨_, rfl, Layout.ordered_singleton (field.covers_entry key cursor.idx)⟩

end Cursor

/-! ## Steps -/

namespace Fetch

variable {α β : Type}

/-- The step leaves a cursor that continues the one before, whether it succeeds or fails. -/
def Keeps (step : Fetch α) : Prop :=
  ∀ cursor : Cursor, cursor.Continues (step cursor).2

theorem keeps_pure (a : α) : Keeps (pure a : Fetch α) :=
  Cursor.Continues.refl

theorem keeps_fail (fault : Fault) : Keeps (fail fault : Fetch α) :=
  Cursor.Continues.refl

theorem keeps_worded {step : Fetch α} (h : Keeps step) : Keeps step.worded :=
  h

theorem keeps_here : Keeps here :=
  Cursor.Continues.refl

theorem keeps_ofExcept (outcome : Except Fault α) : Keeps (ofExcept outcome) :=
  Cursor.Continues.refl

theorem keeps_read {access : Access} (h : 2 ∣ access.byteCount) : Keeps (read access) := by
  intro cursor
  unfold read
  split
  · exact .refl cursor
  · exact cursor.continues_skip h

theorem keeps_bind {first : Fetch α} {next : α → Fetch β} (hfirst : Keeps first)
    (hnext : ∀ a, Keeps (next a)) : Keeps (first >>= next) := by
  intro cursor
  have hmiddle := hfirst cursor
  show cursor.Continues (Fetch.bind first next cursor).2
  unfold Fetch.bind
  split
  · next a middle heq =>
    rw [heq] at hmiddle
    exact hmiddle.trans (hnext a middle)
  · next fault middle heq =>
    rw [heq] at hmiddle
    exact hmiddle

end Fetch

/-- A field that is missing is not read, one that cannot be interpreted is read and not recorded,
and any other is read and recorded. -/
theorem Field.keeps_fetchAs {α : Type} (field : Field) (key : String)
    (interpret : Int → Except Fault α) : (field.fetchAs key interpret).Keeps := by
  intro cursor
  cases hload : cursor.memory.load field.access cursor.position with
  | error fault =>
    rw [fetchAs_of_unreadable hload]
    exact .refl cursor
  | ok raw =>
    cases hraw : interpret raw with
    | error fault =>
      rw [fetchAs_of_refused hload hraw]
      exact cursor.continues_skip field.two_dvd_extent
    | ok value =>
      rw [fetchAs_of_ok hload hraw]
      exact cursor.continues_field field key

namespace Slot

theorem keeps_fetch (slot : Slot) : slot.fetch.Keeps := by
  cases slot with
  | fixed operand => exact Fetch.keeps_pure operand
  | extension key field => exact field.keeps_fetchAs key field.operand
  | invalid fault => exact Fetch.keeps_fail fault

/-- Slots keep the record by induction on their list: the rest is read where the first has left
the cursor. -/
theorem keeps_fetchAll (slots : List Slot) : (fetchAll slots).Keeps := by
  induction slots with
  | nil => exact Fetch.keeps_pure []
  | cons slot slots ih =>
    refine Fetch.keeps_bind slot.keeps_fetch ?_
    intro operand
    refine Fetch.keeps_bind ih ?_
    intro operands
    exact Fetch.keeps_pure _

end Slot

namespace Fetch

theorem keeps_immediate (code : Option Int) (key : String) : (immediate code key).Keeps := by
  unfold immediate
  split
  · next size hsize => exact (Field.immediate size).keeps_fetchAs key _
  · exact keeps_worded (keeps_fail _)

theorem keeps_decodeWord (word : Int) : (decodeWord word).Keeps := by
  refine keeps_bind keeps_here ?_
  intro before
  refine keeps_bind (keeps_ofExcept _) ?_
  intro form
  refine keeps_bind (Slot.keeps_fetchAll form.slots) ?_
  intro operands
  refine keeps_bind keeps_here ?_
  intro after
  exact keeps_pure _

theorem keeps_decodeNext : decodeNext.Keeps :=
  keeps_bind (keeps_read (by decide)) keeps_decodeWord

variable {cursor after : Cursor} {word : Int} {instruction : Instruction}

/-- An instruction tells all that the cursor behind it has read and recorded. -/
theorem record_of_decodeWord (h : decodeWord word cursor = (.ok instruction, after)) :
    instruction.length = after.idx ∧ instruction.layout = after.layout := by
  obtain ⟨form, operands, -, -, -, rfl⟩ := decodeWord_eq_ok_iff.mp h
  exact ⟨rfl, rfl⟩

theorem record_of_decodeNext (h : decodeNext cursor = (.ok instruction, after)) :
    instruction.length = after.idx ∧ instruction.layout = after.layout := by
  obtain ⟨word, middle, -, hword⟩ := bind_eq_ok_iff.mp h
  exact record_of_decodeWord hword

end Fetch

/-! ## Runs -/

namespace Stream

variable {cursor : Cursor} {request : Request} {requests : List Request}

/-- The request reads words or decodes, which is all but recording an entry by hand. -/
def Request.Reads : Request → Prop
  | .read access => access.size ≠ .byte
  | .record _ _ _ _ => False
  | .immediate _ _ => True
  | .address _ _ _ _ => True
  | .decodeNext => True
  | .decodeWord _ => True

instance : (request : Request) → Decidable request.Reads
  | .read access => inferInstanceAs (Decidable (access.size ≠ .byte))
  | .record _ _ _ _ => inferInstanceAs (Decidable False)
  | .immediate _ _ => inferInstanceAs (Decidable True)
  | .address _ _ _ _ => inferInstanceAs (Decidable True)
  | .decodeNext => inferInstanceAs (Decidable True)
  | .decodeWord _ => inferInstanceAs (Decidable True)

/-- The request decodes an instruction. -/
def Request.Decodes (request : Request) : Prop :=
  request = .decodeNext ∨ ∃ word, request = .decodeWord word

theorem keeps_perform (h : request.Reads) : (perform request).Keeps := by
  cases request with
  | read access =>
    have heven : 2 ∣ access.byteCount := by
      obtain ⟨size, signed⟩ := access
      cases size with
      | byte => exact absurd rfl h
      | word => exact ⟨1, rfl⟩
      | long => exact ⟨2, rfl⟩
    exact Fetch.keeps_bind (Fetch.keeps_read heven) fun _ => Fetch.keeps_pure _
  | immediate code key =>
    exact Fetch.keeps_bind (Fetch.keeps_immediate code key) fun _ => Fetch.keeps_pure _
  | address mode reg code key =>
    exact Fetch.keeps_bind (Fetch.keeps_worded (Slot.keeps_fetch _)) fun _ => Fetch.keeps_pure _
  | record key kind start details => cases h
  | decodeNext => exact Fetch.keeps_bind Fetch.keeps_decodeNext fun _ => Fetch.keeps_pure _
  | decodeWord word =>
    exact Fetch.keeps_bind (Fetch.keeps_decodeWord word) fun _ => Fetch.keeps_pure _

/-- A request that reads is answered by the step that performs it. -/
theorem answer_eq (h : request.Reads) (cursor : Cursor) :
    answer request cursor =
      match perform request cursor with
      | (.ok reply, after) => (.ok reply, after)
      | (.error fault, after) => (.error (.fault fault), after) := by
  cases request with
  | record key kind start details => cases h
  | _ => rfl

theorem answer_snd (h : request.Reads) (cursor : Cursor) :
    (answer request cursor).2 = (perform request cursor).2 := by
  rw [answer_eq h]
  rcases perform request cursor with ⟨outcome, after⟩
  cases outcome <;> rfl

theorem answer_eq_ok_iff (h : request.Reads) {reply : Reply} {after : Cursor} :
    answer request cursor = (.ok reply, after) ↔ perform request cursor = (.ok reply, after) := by
  rw [answer_eq h]
  rcases perform request cursor with ⟨outcome, middle⟩
  cases outcome <;> simp

/-- A read that fails leaves the cursor as it is. -/
theorem answer_read_of_error {access : Access} {failure : Failure} {after : Cursor}
    (h : answer (.read access) cursor = (.error failure, after)) : after = cursor := by
  cases hload : cursor.memory.load access cursor.position with
  | error fault =>
    have hanswer : answer (.read access) cursor = (.error (.fault fault), cursor) := by
      simp only [answer, Request.reservedName?, perform, bind, Fetch.bind, Fetch.read, hload]
    rw [hanswer] at h
    cases h
    rfl
  | ok value =>
    have hanswer : (answer (.read access) cursor).1 = .ok (.number value) := by
      simp only [answer, Request.reservedName?, perform, bind, Fetch.bind, Fetch.read, hload]
      rfl
    rw [h] at hanswer
    cases hanswer

/-- An answer to a request to decode is an instruction that tells the whole record. -/
theorem record_of_answer (hdecodes : request.Decodes) {reply : Reply} {after : Cursor}
    (h : answer request cursor = (.ok reply, after)) :
    ∃ instruction, reply = .instruction instruction ∧ instruction.length = after.idx ∧
      instruction.layout = after.layout := by
  rcases hdecodes with rfl | ⟨word, rfl⟩
  · have hreads : Request.decodeNext.Reads := trivial
    obtain ⟨instruction, middle, hdecode, hreply⟩ :=
      Fetch.bind_eq_ok_iff.mp ((answer_eq_ok_iff hreads).mp h)
    obtain ⟨rfl, rfl⟩ := Fetch.pure_eq_ok_iff.mp hreply
    exact ⟨instruction, rfl, Fetch.record_of_decodeNext hdecode⟩
  · have hreads : (Request.decodeWord word).Reads := trivial
    obtain ⟨instruction, middle, hdecode, hreply⟩ :=
      Fetch.bind_eq_ok_iff.mp ((answer_eq_ok_iff hreads).mp h)
    obtain ⟨rfl, rfl⟩ := Fetch.pure_eq_ok_iff.mp hreply
    exact ⟨instruction, rfl, Fetch.record_of_decodeWord hdecode⟩

/-- The cursors of a run: the one that it starts at and the one after each answer. -/
def cursors (start : Cursor) (requests : List Request) : List Cursor :=
  start :: (run start requests).map Prod.snd

/-- **Step.** An answer leaves a cursor that continues the one before. -/
theorem continues_answer (h : request.Reads) (cursor : Cursor) :
    cursor.Continues (answer request cursor).2 := by
  rw [answer_snd h]
  exact keeps_perform h cursor

/-- **Run.** All cursors of a run continue the one that it starts at. -/
theorem continues_of_mem_run (h : ∀ request ∈ requests, request.Reads)
    {outcome : Except Failure Reply × Cursor} (hmem : outcome ∈ run cursor requests) :
    cursor.Continues outcome.2 := by
  induction requests generalizing cursor with
  | nil => cases hmem
  | cons request requests ih =>
    rw [List.forall_mem_cons] at h
    have hstep := continues_answer h.1 cursor
    rcases List.mem_cons.mp hmem with rfl | hmem
    · exact hstep
    · exact hstep.trans (ih h.2 hmem)

theorem pairwise_cursors (h : ∀ request ∈ requests, request.Reads) (start : Cursor) :
    (cursors start requests).Pairwise Cursor.Continues := by
  induction requests generalizing start with
  | nil => exact List.pairwise_singleton _ start
  | cons request requests ih =>
    refine List.pairwise_cons.mpr ⟨?_, ?_⟩
    · intro later hmem
      obtain ⟨outcome, houtcome, rfl⟩ := List.mem_map.mp hmem
      exact continues_of_mem_run h houtcome
    · rw [List.forall_mem_cons] at h
      exact ih h.2 (answer request start).2

/-- A request is answered at the cursor that the requests before it have left. -/
theorem exists_answer {k : Nat} (h : requests[k]? = some request) (start : Cursor) :
    ∃ before, (cursors start requests)[k]? = some before ∧
      (run start requests)[k]? = some (answer request before) := by
  induction requests generalizing start k with
  | nil => cases h
  | cons head requests ih =>
    cases k with
    | zero =>
      cases h
      exact ⟨start, rfl, rfl⟩
    | succ k => exact ih h (answer head start).2

/-- **A stream of reads only ever adds to its record.** Take any memory, any place to start at and
any requests to read or decode, of which some may fail. From each cursor of the run to each later
one the instruction is the same, the cursor moves forward by whole words, and the entries recorded
earlier stay as they are. All entries lie between the offset at the start and the present one, one
behind the other. A plain read that fails leaves the cursor as it is, and an instruction that is
decoded has the present offset as its length and the whole record as its layout. -/
theorem run_keeps_record (memory : Memory) (pc idx : Int) (requests : List Request)
    (h : ∀ request ∈ requests, request.Reads) :
    let start : Cursor := ⟨memory, pc, idx, []⟩
    (cursors start requests).Pairwise Cursor.Continues ∧
      (∀ cursor ∈ cursors start requests, Layout.Ordered idx cursor.layout cursor.idx) ∧
      ∀ (k : Nat) (request : Request), requests[k]? = some request →
        ∃ before, (cursors start requests)[k]? = some before ∧
          (run start requests)[k]? = some (answer request before) ∧
          (∀ access failure after, request = .read access →
            answer request before = (.error failure, after) → after = before) ∧
          ∀ reply after, request.Decodes → answer request before = (.ok reply, after) →
            ∃ instruction, reply = .instruction instruction ∧ instruction.length = after.idx ∧
              instruction.layout = after.layout := by
  intro start
  have hpairwise := pairwise_cursors h start
  refine ⟨hpairwise, ?_, ?_⟩
  · intro cursor hmem
    rcases List.mem_cons.mp hmem with rfl | hlater
    · exact Layout.ordered_nil idx idx
    · have hcontinues := List.rel_of_pairwise_cons hpairwise hlater
      obtain ⟨added, hlayout, hadded⟩ := hcontinues.recorded
      rw [hlayout]
      exact hadded
  · intro k request hrequest
    obtain ⟨before, hbefore, hanswer⟩ := exists_answer hrequest start
    refine ⟨before, hbefore, hanswer, ?_, ?_⟩
    · rintro access failure after rfl hfails
      exact answer_read_of_error hfails
    · intro reply after hdecodes hreply
      exact record_of_answer hdecodes hreply

/-- A byte that is none is read and not recorded, the addition behind it is decoded, and a word is
asked for where one byte is left. -/
theorem run_keeps_record_over_failures :
    let memory : Memory := ⟨#[0x01, 0x00, 0x06, 0x40, 0x00, 0x05, 0x4E], 0, .big⟩
    let start : Cursor := ⟨memory, 0, 0, []⟩
    let requests : List Request := [.immediate (some 0) "imm", .decodeNext, .read .uint16]
    let skipped := (answer (.immediate (some 0) "imm") start).2
    let decoded := (answer .decodeNext skipped).2
    (∀ request ∈ requests, request.Reads) ∧
      (cursors start requests).map Cursor.idx = [0, 2, 6, 6] ∧
      (cursors start requests).Pairwise Cursor.Continues ∧
      (∃ instruction, (answer .decodeNext skipped).1 = .ok (.instruction instruction) ∧
        instruction.length = decoded.idx ∧ instruction.layout = decoded.layout) ∧
      (answer (.read .uint16) decoded).1 = .error (.fault (.outsideMemory 2 6 0 7)) ∧
      (answer (.read .uint16) decoded).2 = decoded := by
  obtain ⟨hpairwise, -, hanswers⟩ :=
    run_keeps_record ⟨#[0x01, 0x00, 0x06, 0x40, 0x00, 0x05, 0x4E], 0, .big⟩ 0 0
      [.immediate (some 0) "imm", .decodeNext, .read .uint16] (by decide)
  refine ⟨by decide, by rfl, hpairwise, ?_, by rfl, ?_⟩
  · obtain ⟨before, hbefore, -, -, hdecodes⟩ := hanswers 1 .decodeNext rfl
    obtain rfl := Option.some.inj hbefore
    obtain ⟨instruction, hreply, hrecord⟩ := hdecodes _ _ (.inl rfl) rfl
    exact ⟨instruction, congrArg Except.ok hreply, hrecord⟩
  · obtain ⟨before, hbefore, -, hfails, -⟩ := hanswers 2 (.read .uint16) rfl
    obtain rfl := Option.some.inj hbefore
    exact hfails .uint16 _ _ rfl rfl

end Stream

end Disasm68k
