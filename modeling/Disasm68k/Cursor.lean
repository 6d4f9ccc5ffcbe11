import Disasm68k.Layout
import Disasm68k.Memory

/-!
# Reading an instruction word by word

A cursor stands inside one instruction in memory. Reading moves it forward; a
failing read leaves it where it is. What a step has read before it fails stays
read, so a step gives a cursor in every case.

- `Cursor`: the memory, the address of the instruction, the bytes read so far and the
  layout recorded so far;
- `Fetch`: steps that read at a cursor, with sequencing;
- `Fetch.read`, `Fetch.record`: reading a number, and noting what it was;
- `Fetch.Advances`: a step never moves the cursor back.

Reference: specification §3, the order of extension words (`StreamCtx`).
-/

namespace Disasm68k

/-- A position inside an instruction. -/
structure Cursor where
  memory : Memory
  /-- The address of the instruction word. -/
  pc : Int
  /-- The number of bytes read so far. -/
  idx : Int
  /-- The entries recorded so far, oldest first. -/
  layout : List Layout.Entry
deriving DecidableEq

namespace Cursor

/-- A cursor before the first byte of the instruction at an address. -/
def start (memory : Memory) (pc : Int) : Cursor :=
  ⟨memory, pc, 0, []⟩

/-- The address of the next byte to be read. -/
def position (cursor : Cursor) : Int :=
  cursor.pc + cursor.idx

end Cursor

/-- A step that reads at a cursor: it has a value or a fault, and a cursor after it. -/
def Fetch (α : Type) : Type :=
  Cursor → Except Fault α × Cursor

namespace Fetch

variable {α β : Type}

/-- The step that reads nothing and gives `a`. -/
protected def pure (a : α) : Fetch α :=
  fun cursor => (.ok a, cursor)

/-- The step that fails without reading. -/
def fail (fault : Fault) : Fetch α :=
  fun cursor => (.error fault, cursor)

/-- Two steps in sequence; the second is not taken if the first fails. -/
protected def bind (first : Fetch α) (next : α → Fetch β) : Fetch β :=
  fun cursor =>
    match first cursor with
    | (.ok a, cursor') => next a cursor'
    | (.error fault, cursor') => (.error fault, cursor')

instance : Monad Fetch where
  pure := Fetch.pure
  bind := Fetch.bind

/-- The cursor itself. -/
def here : Fetch Cursor :=
  fun cursor => (.ok cursor, cursor)

/-- The step with the given outcome that reads nothing. -/
def ofExcept (outcome : Except Fault α) : Fetch α :=
  fun cursor => (outcome, cursor)

/-- Reads a number at the cursor and moves past it. -/
def read (access : Access) : Fetch Int :=
  fun cursor =>
    match cursor.memory.load access cursor.position with
    | .error fault => (.error fault, cursor)
    | .ok value => (.ok value, { cursor with idx := cursor.idx + access.byteCount })

/-- Records an entry that ends at the cursor. -/
def record (key kind : String) (start : Option Int) (details : List (String × Layout.Detail)) :
    Fetch Unit :=
  fun cursor =>
    let entry := Layout.Entry.make key kind start cursor.idx details
    (.ok (), { cursor with layout := cursor.layout ++ [entry] })

/-! ## Steps move forward -/

/-- The step never moves the cursor back, whether it succeeds or fails. -/
def Advances (step : Fetch α) : Prop :=
  ∀ cursor, cursor.idx ≤ (step cursor).2.idx

theorem advances_pure (a : α) : Advances (pure a : Fetch α) :=
  fun _ => Int.le_refl _

theorem advances_fail (fault : Fault) : Advances (fail fault : Fetch α) :=
  fun _ => Int.le_refl _

theorem advances_here : Advances here :=
  fun _ => Int.le_refl _

theorem advances_ofExcept (outcome : Except Fault α) : Advances (ofExcept outcome) :=
  fun _ => Int.le_refl _

theorem advances_record (key kind : String) (start : Option Int)
    (details : List (String × Layout.Detail)) : Advances (record key kind start details) :=
  fun _ => Int.le_refl _

theorem advances_read (access : Access) : Advances (read access) := by
  intro cursor
  unfold read
  split
  · exact Int.le_refl _
  · exact Int.le_add_of_nonneg_right (Int.natCast_nonneg _)

theorem advances_bind {first : Fetch α} {next : α → Fetch β}
    (hfirst : Advances first) (hnext : ∀ a, Advances (next a)) : Advances (first >>= next) := by
  intro cursor
  have h := hfirst cursor
  show cursor.idx ≤ (Fetch.bind first next cursor).2.idx
  unfold Fetch.bind
  split
  · next a cursor' heq =>
    rw [heq] at h
    exact Int.le_trans h (hnext a cursor')
  · next fault cursor' heq =>
    rw [heq] at h
    exact h

end Fetch

end Disasm68k
