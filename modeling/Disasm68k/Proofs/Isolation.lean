import Disasm68k.Proofs.Walk
import Disasm68k.Session

/-!
# Disassemblers that share a memory

The requests for one disassembler do not disturb another one: a disassembler sees the memory,
its own pointer and its own listings, and only stores change what it shares with the others. A
listing that is produced line by line is not disturbed by anything but stores, not even by the
other requests for its own disassembler.

- `Session.trace`: a run with the state that each request meets;
- `Session.Request.unit?`, `Session.Event.concerns`: whose request it is, and which part of a
  run one disassembler takes part in;
- `Session.Effect`: what a request can do to the state, with `Session.effect_step`; every frame
  lemma is an induction on it;
- `Session.State.AgreesFor`: two states look the same to a disassembler, the invariant that
  carries the comparison of a run with what is left of it;
- `Walk.lines`: the lines of a listing from the memories it meets, with
  `Session.map_outcome_calls`: no other request shows in them.
-/

namespace Disasm68k

/-! ## Requests to the memory -/

namespace Memory

variable {memory : Memory}

theorem size_overwrite (bytes : Array UInt8) (index : Nat) (values : List UInt8) :
    (overwrite bytes index values).size = bytes.size := by
  induction values generalizing bytes index with
  | nil => rfl
  | cons value values ih =>
    show (overwrite (bytes.setIfInBounds index value) (index + 1) values).size = bytes.size
    rw [ih, Array.size_setIfInBounds]

/-- The two memories map the same addresses. -/
structure SameRegion (memory other : Memory) : Prop where
  base_eq : other.base = memory.base
  limit_eq : other.limit = memory.limit

theorem SameRegion.refl (memory : Memory) : memory.SameRegion memory :=
  ⟨rfl, rfl⟩

theorem SameRegion.trans {other third : Memory} (h : memory.SameRegion other)
    (h' : other.SameRegion third) : memory.SameRegion third :=
  ⟨h'.base_eq.trans h.base_eq, h'.limit_eq.trans h.limit_eq⟩

theorem sameRegion_write (memory : Memory) (address : Int) (bytes : List UInt8) :
    memory.SameRegion (memory.write address bytes) := by
  refine ⟨rfl, ?_⟩
  show memory.base + ((overwrite memory.bytes _ bytes).size : Int) = memory.limit
  rw [size_overwrite]
  rfl

/-- No request moves the bounds of the memory. -/
theorem sameRegion_perform (memory : Memory) (request : Request) :
    memory.SameRegion (memory.perform request).2 := by
  cases request with
  | load access address =>
    simp only [perform]
    split <;> exact .refl memory
  | store access address value =>
    have hstore : memory.SameRegion (memory.store access address value).2 := by
      unfold store
      split
      · exact .refl memory
      · split <;> exact sameRegion_write memory address _
    simp only [perform]
    split
    · next h => simpa [h] using hstore
    · next h => simpa [h] using hstore
  | size => exact .refl memory
  | limit => exact .refl memory

end Memory

/-! ## Listings of a memory that changes -/

namespace Walk

variable {memory other : Memory}

theorem inside_of_sameRegion {walk : Walk} (inside : walk.Inside memory)
    (h : memory.SameRegion other) : walk.Inside other :=
  ⟨h.base_eq ▸ inside.base_le, h.limit_eq ▸ inside.le_limit⟩

/-- Where a listing starts depends on the bounds of the memory alone. -/
theorem ofRange_of_sameRegion (h : memory.SameRegion other) (range : Range) :
    ofRange other range = ofRange memory range := by
  simp only [ofRange, h.base_eq, h.limit_eq]

/-- The lines of a listing that meets one memory after the other: a line from each of them, or
nothing once it is over. -/
def lines (walk : Walk) : List Memory → List (Option Line)
  | [] => []
  | memory :: rest =>
    match walk.step memory with
    | .ok (some step) => some step.line :: step.rest.lines rest
    | .ok none => none :: walk.lines rest
    | .error _ => none :: walk.lines rest

end Walk

/-- The lines of a range from memories with the same bounds, one line from each of them. -/
def Range.lines (range : Range) : List Memory → List (Option Line)
  | [] => []
  | memory :: rest => (Walk.ofRange memory range).lines (memory :: rest)

/-- Where the listing of a range starts can be told from the first memory that it meets. -/
theorem Walk.lines_ofRange {memory : Memory} {memories : List Memory}
    (h : ∀ other ∈ memories, memory.SameRegion other) (range : Range) :
    (ofRange memory range).lines memories = range.lines memories := by
  cases memories with
  | nil => rfl
  | cons other rest => rw [Range.lines, ofRange_of_sameRegion (h other List.mem_cons_self)]

namespace Session

/-! ## Runs -/

/-- A request at the state it meets. -/
structure Event where
  before : State
  request : Request

/-- The result of the request. -/
def Event.result (event : Event) : Result :=
  step event.before event.request

/-- The requests of a run at the states they meet. -/
def trace (state : State) : List Request → List Event
  | [] => []
  | request :: rest => ⟨state, request⟩ :: trace (step state request).state rest

theorem map_result_trace (state : State) (requests : List Request) :
    (trace state requests).map Event.result = run state requests := by
  induction requests generalizing state with
  | nil => rfl
  | cons request rest ih =>
    show step state request :: (trace (step state request).state rest).map Event.result = _
    rw [ih]
    rfl

/-- The disassembler that a request is for. It is that of the listing when a line is asked
for, and a request to the memory is for none. -/
def Request.unit? (state : State) : Request → Option Nat
  | .decode unit _ => some unit
  | .seek unit _ => some unit
  | .list unit _ => some unit
  | .openListing unit _ _ => some unit
  | .next id => (state.listing? id).map OpenListing.unit
  | .memory _ => none

/-- The name of the listing that a request begins or moves. -/
def Request.listing? : Request → Option String
  | .openListing _ id _ => some id
  | .next id => some id
  | .decode _ _ => none
  | .seek _ _ => none
  | .list _ _ => none
  | .memory _ => none

theorem Request.eq_of_listing? {request : Request} {id : String}
    (h : request.listing? = some id) :
    request = .next id ∨ ∃ unit range, request = .openListing unit id range := by
  cases request with
  | openListing unit id' range =>
    cases h
    exact .inr ⟨unit, range, rfl⟩
  | next id' =>
    cases h
    exact .inl rfl
  | decode unit address => cases h
  | seek unit address => cases h
  | list unit range => cases h
  | memory request => cases h

/-- Whether the request is not for another disassembler than the given one. -/
def Event.concerns (unit : Nat) (event : Event) : Bool :=
  (event.request.unit? event.before).all (· = unit)

theorem Event.concerns_iff {unit : Nat} {event : Event} :
    event.concerns unit = true ↔
      ∀ unit', event.request.unit? event.before = some unit' → unit' = unit := by
  unfold concerns
  cases event.request.unit? event.before with
  | none => simp
  | some unit' => simp

/-- Whether a line of the listing is asked for. -/
def Event.calls (id : String) (event : Event) : Bool :=
  event.request = .next id

/-- What a disassembler can tell of a result: the answer, the log and its own pointer. -/
def Result.seenBy (unit : Nat) (result : Result) :
    Except Failure Reply × List LogRecord × Option Int :=
  (result.outcome, result.log, result.state.pointers[unit]?)

/-! ## What a request does to the state -/

namespace State

variable {state : State} {id : String}

theorem listing?_putListing (state : State) (listing : OpenListing) (id : String) :
    (state.putListing listing).listing? id =
      if listing.id = id then some listing else state.listing? id := by
  by_cases hid : listing.id = id
  · simp [putListing, State.listing?, hid]
  · simp only [putListing, State.listing?, List.find?_cons, hid, decide_false, if_false,
      List.find?_filter]
    -- The listings that are forgotten have another name.
    congr 1
    funext other
    by_cases hother : other.id = id
    · simp [hother, Ne.symm hid]
    · simp [hother]

theorem id_of_listing? {listing : OpenListing} (h : state.listing? id = some listing) :
    listing.id = id := by
  simpa using List.find?_some h

theorem getElem?_setPointer_of_ne {unit other : Nat} (h : unit ≠ other) (state : State)
    (pointer : Int) : (state.setPointer unit pointer).pointers[other]? = state.pointers[other]? :=
  List.getElem?_set_ne h

end State

/-- What a request for a disassembler can do to the state, and a request for none: assign the
pointer of that disassembler and put a listing of it under the name, or change the bytes of the
memory. -/
inductive Effect (unit? : Option Nat) (name? : Option String) (state : State) : State → Prop
  | nothing : Effect unit? name? state state
  | pointer {state' : State} {unit : Nat} (sofar : Effect unit? name? state state')
      (owned : unit? = some unit) (pointer : Int) :
      Effect unit? name? state (state'.setPointer unit pointer)
  | listing {state' : State} {listing : OpenListing} (sofar : Effect unit? name? state state')
      (owned : unit? = some listing.unit) (named : name? = some listing.id) :
      Effect unit? name? state (state'.putListing listing)
  | memory {state' : State} (sofar : Effect unit? name? state state') (unowned : unit? = none)
      (request : Memory.Request) :
      Effect unit? name? state { state' with memory := (state'.memory.perform request).2 }

/-- **A request does nothing else to the state.** -/
theorem effect_step (state : State) (request : Request) :
    Effect (request.unit? state) request.listing? state (step state request).state := by
  cases request with
  | decode unit address =>
    show Effect (some unit) none state (decode state unit address).state
    unfold decode
    split
    · exact .nothing
    · exact .pointer .nothing rfl _
  | seek unit address =>
    by_cases hunit : unit < state.pointers.length
    · simp only [step, if_pos hunit]
      exact .pointer .nothing rfl address
    · simp only [step, if_neg hunit]
      exact .nothing
  | list unit range =>
    show Effect (some unit) none state (list state unit range).state
    unfold list
    split
    · exact .nothing
    · split
      · exact .nothing
      · exact .pointer .nothing rfl _
  | openListing unit id range =>
    by_cases hunit : unit < state.pointers.length
    · simp only [step, if_pos hunit]
      exact .listing .nothing rfl rfl
    · simp only [step, if_neg hunit]
      exact .nothing
  | next id =>
    show Effect ((state.listing? id).map OpenListing.unit) (some id) state (next state id).state
    unfold next
    split
    · exact .nothing
    · next listing hlisting =>
      split
      · exact .nothing
      · exact .nothing
      · rw [hlisting]
        obtain rfl := State.id_of_listing? hlisting
        exact .listing (.pointer .nothing rfl _) rfl rfl
  | memory request => exact .memory .nothing rfl request

namespace Effect

variable {unit? : Option Nat} {name? : Option String} {state state' : State}

theorem sameRegion (h : Effect unit? name? state state') :
    state.memory.SameRegion state'.memory := by
  induction h with
  | nothing => exact .refl _
  | pointer sofar owned pointer ih => exact ih
  | listing sofar owned named ih => exact ih
  | memory sofar unowned request ih => exact ih.trans (Memory.sameRegion_perform _ request)

/-- A listing of another name stays where it is. -/
theorem listing?_eq (h : Effect unit? name? state state') {id : String}
    (hname : name? ≠ some id) : state'.listing? id = state.listing? id := by
  induction h with
  | nothing => rfl
  | pointer sofar owned pointer ih => exact ih
  | @listing state' listing sofar owned named ih =>
    have hid : listing.id ≠ id := by
      rintro rfl
      exact hname named
    rw [State.listing?_putListing, if_neg hid, ih]
  | memory sofar unowned request ih => exact ih

end Effect

/-! ## What one disassembler can tell -/

/-- The disassembler cannot tell the states apart: it has the same memory and the same pointer
in them, and a listing of its own in the first one is as it is in the second one. -/
structure State.AgreesFor (unit : Nat) (state other : State) : Prop where
  memory_eq : other.memory = state.memory
  pointer_eq : other.pointers[unit]? = state.pointers[unit]?
  listing?_eq : ∀ id, (∀ listing, state.listing? id = some listing → listing.unit = unit) →
    other.listing? id = state.listing? id

/-- The disassembler cannot tell the results apart. -/
structure Result.AgreesFor (unit : Nat) (result other : Result) : Prop where
  outcome_eq : other.outcome = result.outcome
  log_eq : other.log = result.log
  state : result.state.AgreesFor unit other.state

theorem Result.AgreesFor.seenBy_eq {unit : Nat} {result other : Result}
    (h : result.AgreesFor unit other) : other.seenBy unit = result.seenBy unit := by
  simp only [seenBy, h.outcome_eq, h.log_eq, h.state.pointer_eq]

namespace State.AgreesFor

variable {unit : Nat} {state other : State}

theorem refl (unit : Nat) (state : State) : state.AgreesFor unit state :=
  ⟨rfl, rfl, fun _ _ => rfl⟩

theorem lt_length_iff (h : state.AgreesFor unit other) :
    unit < other.pointers.length ↔ unit < state.pointers.length := by
  rw [← Nat.not_le, ← Nat.not_le, ← List.getElem?_eq_none_iff, ← List.getElem?_eq_none_iff,
    h.pointer_eq]

/-! What the disassembler does, it does in both states. -/

theorem setPointer (h : state.AgreesFor unit other) (pointer : Int) :
    (state.setPointer unit pointer).AgreesFor unit (other.setPointer unit pointer) := by
  refine ⟨h.memory_eq, ?_, h.listing?_eq⟩
  show (other.pointers.set unit pointer)[unit]? = (state.pointers.set unit pointer)[unit]?
  simp only [List.getElem?_set_self', h.pointer_eq]

theorem putListing (h : state.AgreesFor unit other) (listing : OpenListing) :
    (state.putListing listing).AgreesFor unit (other.putListing listing) := by
  refine ⟨h.memory_eq, h.pointer_eq, ?_⟩
  intro id howned
  rw [listing?_putListing] at howned ⊢
  rw [listing?_putListing]
  by_cases hid : listing.id = id
  · rw [if_pos hid, if_pos hid]
  · rw [if_neg hid] at howned ⊢
    rw [if_neg hid]
    exact h.listing?_eq id howned

theorem setMemory (h : state.AgreesFor unit other) (memory : Memory) :
    State.AgreesFor unit { state with memory } { other with memory } :=
  ⟨rfl, h.pointer_eq, h.listing?_eq⟩

/-- **What other disassemblers do cannot be told.** -/
theorem of_effect {unit' : Nat} {name? : Option String} {state' : State}
    (h : state.AgreesFor unit other) (hne : unit' ≠ unit)
    (heffect : Effect (some unit') name? state state') : state'.AgreesFor unit other := by
  induction heffect with
  | nothing => exact h
  | pointer sofar owned pointer ih =>
    cases owned
    refine ⟨ih.memory_eq, ?_, ih.listing?_eq⟩
    rw [getElem?_setPointer_of_ne hne]
    exact ih.pointer_eq
  | @listing state' listing sofar owned named ih =>
    cases owned
    refine ⟨ih.memory_eq, ih.pointer_eq, ?_⟩
    intro id howned
    rw [listing?_putListing] at howned ⊢
    by_cases hid : listing.id = id
    · -- The name is now one of the other disassembler.
      rw [if_pos hid] at howned
      exact absurd (howned listing rfl) hne
    · rw [if_neg hid] at howned ⊢
      exact ih.listing?_eq id howned
  | memory sofar unowned request ih => cases unowned

end State.AgreesFor

namespace Result.AgreesFor

variable {unit : Nat} {state other : State}

theorem refuse (h : state.AgreesFor unit other) (failure : Failure) :
    (refuse state failure).AgreesFor unit (refuse other failure) :=
  ⟨rfl, rfl, h⟩

theorem decode (h : state.AgreesFor unit other) (address : Option Int) :
    (decode state unit address).AgreesFor unit (decode other unit address) := by
  unfold Session.decode
  rw [h.pointer_eq, h.memory_eq]
  cases state.pointers[unit]? with
  | none => exact refuse h _
  | some pointer => exact ⟨rfl, rfl, h.setPointer _⟩

theorem list (h : state.AgreesFor unit other) (range : Range) :
    (list state unit range).AgreesFor unit (list other unit range) := by
  unfold Session.list
  rw [h.pointer_eq, h.memory_eq]
  cases state.pointers[unit]? with
  | none => exact refuse h _
  | some pointer =>
    cases listing state.memory range with
    | error fault => exact refuse h _
    | ok steps => exact ⟨rfl, rfl, h.setPointer _⟩

theorem next (h : state.AgreesFor unit other) {id : String}
    (howned : ∀ listing, state.listing? id = some listing → listing.unit = unit) :
    (next state id).AgreesFor unit (next other id) := by
  unfold Session.next
  rw [h.listing?_eq id howned, h.memory_eq]
  cases hlisting : state.listing? id with
  | none => exact refuse h _
  | some listing =>
    obtain rfl := howned listing hlisting
    dsimp only
    cases listing.place.step state.memory with
    | error fault => exact refuse h _
    | ok step? =>
      cases step? with
      | none => exact ⟨rfl, rfl, h⟩
      | some step => exact ⟨rfl, rfl, (h.setPointer _).putListing _⟩

theorem askMemory (h : state.AgreesFor unit other) (request : Memory.Request) :
    (askMemory state request).AgreesFor unit (askMemory other request) := by
  unfold Session.askMemory
  rw [h.memory_eq]
  exact ⟨rfl, rfl, h.setMemory _⟩

/-- **A request of its own has the same result for the disassembler.** -/
theorem step (h : state.AgreesFor unit other) {request : Request}
    (howned : ∀ unit', request.unit? state = some unit' → unit' = unit) :
    (step state request).AgreesFor unit (step other request) := by
  cases request with
  | decode unit' address =>
    obtain rfl := howned unit' rfl
    exact decode h address
  | seek unit' address =>
    obtain rfl := howned unit' rfl
    simp only [Session.step, h.lt_length_iff]
    split
    · exact ⟨rfl, rfl, h.setPointer address⟩
    · exact refuse h _
  | list unit' range =>
    obtain rfl := howned unit' rfl
    exact list h range
  | openListing unit' id range =>
    obtain rfl := howned unit' rfl
    simp only [Session.step, h.lt_length_iff, h.memory_eq]
    split
    · exact ⟨rfl, rfl, h.putListing _⟩
    · exact refuse h _
  | next id =>
    refine next h ?_
    intro listing hlisting
    exact howned listing.unit (by simp [Request.unit?, hlisting])
  | memory request => exact askMemory h request

end Result.AgreesFor

/-- **What is left of a run gives a disassembler the results of the run.** The induction is on
the whole run; a request for another disassembler is a step of it to which no step of the other
run corresponds. -/
theorem map_seenBy_trace {unit : Nat} {state other : State} (h : state.AgreesFor unit other)
    (requests : List Request) :
    (trace other (((trace state requests).filter (Event.concerns unit)).map Event.request)).map
        (fun event => event.result.seenBy unit) =
      ((trace state requests).filter (Event.concerns unit)).map
        fun event => event.result.seenBy unit := by
  induction requests generalizing state other with
  | nil => rfl
  | cons request rest ih =>
    rw [trace]
    by_cases hconcerns : Event.concerns unit ⟨state, request⟩ = true
    · have hstep : (step state request).AgreesFor unit (step other request) :=
        .step h (Event.concerns_iff.mp hconcerns)
      rw [List.filter_cons_of_pos hconcerns, List.map_cons, List.map_cons, trace, List.map_cons,
        ih hstep.state]
      exact congrArg (· :: _) hstep.seenBy_eq
    · rw [List.filter_cons_of_neg hconcerns]
      obtain ⟨unit', hunit, hne⟩ : ∃ unit', request.unit? state = some unit' ∧ unit' ≠ unit := by
        simpa [Event.concerns_iff] using hconcerns
      -- The other run stays where it is, and the disassembler cannot tell.
      have heffect := effect_step state request
      rw [hunit] at heffect
      exact ih (h.of_effect hne heffect)

/-! ## Listings that are produced line by line -/

/-- The reply to a request for a line. -/
def Reply.ofLine : Option Line → Reply
  | none => .done
  | some shown => .line shown

variable {state : State} {id : String}

/-- The listing shows what is at its place, and goes on from there. -/
theorem step_next_of_inside {listing : OpenListing} (hlisting : state.listing? id = some listing)
    (inside : listing.place.Inside state.memory) (rest : List Memory) :
    ∃ line after, (step state (.next id)).outcome = .ok (.ofLine line) ∧
      (step state (.next id)).state.listing? id = some after ∧
      after.place.Inside state.memory ∧
      listing.place.lines (state.memory :: rest) = line :: after.place.lines rest := by
  simp only [step, next, hlisting]
  cases hdone : listing.place.isDone with
  | true =>
    have hstep : listing.place.step state.memory = .ok none := Walk.step_of_isDone hdone
    refine ⟨none, listing, ?_, ?_, inside, ?_⟩
    · simp only [hstep]
      rfl
    · simp only [hstep, hlisting]
    · simp only [Walk.lines, hstep]
  | false =>
    obtain ⟨step, hstep, htakes⟩ := Walk.exists_takes inside hdone
    refine ⟨some step.line, { listing with place := step.rest }, ?_, ?_,
      Walk.inside_of_takes inside htakes, ?_⟩
    · simp only [hstep]
      rfl
    · simp only [hstep]
      rw [State.listing?_putListing, if_pos (State.id_of_listing? hlisting)]
    · simp only [Walk.lines, hstep]

/-- **A listing shows what is in memory when a line is asked for.** No other request comes into
it, as long as the name is not given away. -/
theorem map_outcome_calls {listing : OpenListing} (hlisting : state.listing? id = some listing)
    (inside : listing.place.Inside state.memory) {requests : List Request}
    (hkept : ∀ unit range, .openListing unit id range ∉ requests) :
    ((trace state requests).filter (Event.calls id)).map (fun event => event.result.outcome) =
      (listing.place.lines (((trace state requests).filter (Event.calls id)).map
        fun event => event.before.memory)).map fun line => .ok (.ofLine line) := by
  induction requests generalizing state listing with
  | nil => rfl
  | cons request rest ih =>
    have hrest : ∀ unit range, .openListing unit id range ∉ rest := by
      intro unit range hmem
      exact hkept unit range (List.mem_cons_of_mem _ hmem)
    have hregion := (effect_step state request).sameRegion
    rw [trace]
    by_cases hcalls : request = .next id
    · subst hcalls
      rw [List.filter_cons_of_pos (by simp [Event.calls]), List.map_cons, List.map_cons]
      obtain ⟨line, after, houtcome, hafter, hinside, hlines⟩ :=
        step_next_of_inside hlisting inside _
      rw [hlines, List.map_cons, ih hafter (Walk.inside_of_sameRegion hinside hregion) hrest]
      exact congrArg (· :: _) houtcome
    · rw [List.filter_cons_of_neg (by simpa [Event.calls] using hcalls)]
      have hname : request.listing? ≠ some id := by
        intro hname
        rcases Request.eq_of_listing? hname with hnext | ⟨unit, range, rfl⟩
        · exact hcalls hnext
        · exact hkept unit range List.mem_cons_self
      have hafter := (effect_step state request).listing?_eq hname
      exact ih (hafter.trans hlisting) (Walk.inside_of_sameRegion inside hregion) hrest

theorem sameRegion_of_mem_trace {requests : List Request} {event : Event}
    (h : event ∈ trace state requests) : state.memory.SameRegion event.before.memory := by
  induction requests generalizing state with
  | nil => cases h
  | cons request rest ih =>
    rcases List.mem_cons.mp h with rfl | hmem
    · exact .refl _
    · exact (effect_step state request).sameRegion.trans (ih hmem)

/-- **Disassemblers that share a memory do not interfere.** Delete the requests for the other
disassemblers from a run and keep those to the memory: the requests that are left have the
answers and the log that they had, and leave the pointer of the disassembler where they left it.
And the lines of a listing that is produced line by line follow from its range and from the
memory at each call: decodes, assigned pointers, whole listings and other listings between the
calls, also those of its own disassembler, do not show in them, and no call fails. -/
theorem steps_do_not_interfere :
    (∀ (state : State) (unit : Nat) (requests : List Request),
      let kept := (trace state requests).filter (Event.concerns unit)
      (run state (kept.map Event.request)).map (Result.seenBy unit) =
        kept.map fun event => event.result.seenBy unit) ∧
    ∀ (state : State) (unit : Nat) (id : String) (range : Range) (requests : List Request),
      unit < state.pointers.length → (∀ unit' range', .openListing unit' id range' ∉ requests) →
      let opened := (step state (.openListing unit id range)).state
      let calls := (trace opened requests).filter (Event.calls id)
      calls.map (fun event => event.result.outcome) =
        (range.lines (calls.map fun event => event.before.memory)).map
          fun line => .ok (.ofLine line) := by
  refine ⟨?_, ?_⟩
  · intro state unit requests kept
    rw [← map_result_trace, List.map_map]
    exact map_seenBy_trace (.refl unit state) requests
  · intro state unit id range requests hunit hkept opened calls
    have hopened : opened =
        state.putListing ⟨id, unit, Walk.ofRange state.memory range⟩ := by
      simp only [opened, step, if_pos hunit]
    have hlisting : opened.listing? id =
        some ⟨id, unit, Walk.ofRange state.memory range⟩ := by
      rw [hopened, State.listing?_putListing, if_pos rfl]
    have hmemory : opened.memory = state.memory := by
      rw [hopened]
      rfl
    have hregion : ∀ memory ∈ calls.map (fun event => event.before.memory),
        state.memory.SameRegion memory := by
      intro memory hmem
      obtain ⟨event, hevent, rfl⟩ := List.mem_map.mp hmem
      rw [← hmemory]
      exact sameRegion_of_mem_trace (List.mem_filter.mp hevent).1
    rw [← Walk.lines_ofRange hregion]
    refine map_outcome_calls hlisting ?_ hkept
    rw [hmemory]
    exact Walk.inside_ofRange state.memory range

/-- A listing of two words goes on as if nothing else had been asked of its disassembler, and
shows the return that is stored after its first line. -/
theorem steps_do_not_interfere_with_open_listing :
    let state := State.ofMemory ⟨#[0x4E, 0x71, 0x4E, 0x71], 0, .big⟩ 2
    let opened := (step state (.openListing 0 "lines" ⟨none, none, none⟩)).state
    let calls := (trace opened [.next "lines", .decode 0 (some 2), .seek 0 9, .decode 0 none,
      .memory (.store .uint16 2 0x4E75), .decode 1 none, .next "lines", .next "lines"]).filter
        (Event.calls "lines")
    ∃ shown : List (Option Line),
      shown.map (Option.map Line.text) = [some "NOP", some "RTS", none] ∧
      calls.map (fun event => event.result.outcome) = shown.map fun line => .ok (.ofLine line) := by
  refine ⟨_, ?_, steps_do_not_interfere.2 _ 0 "lines" ⟨none, none, none⟩ _ (by decide) (by simp)⟩
  rfl

end Session

end Disasm68k
