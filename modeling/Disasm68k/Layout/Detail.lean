/-!
# Details of layout entries

An entry of a layout carries named details. Most are numbers, but whoever records an
entry may note any value: lists and named values may be nested to any depth and are kept
as they are.

- `Layout.Detail`: a value noted in an entry; equality of such values is decidable.

Reference: specification §3, the further values that `record_operand` takes.
-/

namespace Disasm68k

namespace Layout

/-- A value noted in an entry. -/
inductive Detail where
  | number (value : Int)
  | text (value : String)
  | flag (value : Bool)
  | nothing
  /-- Values in sequence. -/
  | list (items : List Detail)
  /-- Values by name. -/
  | table (fields : List (String × Detail))

namespace Detail

mutual

/-- Decides whether two values are equal. -/
def decEq : (a b : Detail) → Decidable (a = b)
  | number m, number n =>
    if h : m = n then isTrue (congrArg number h) else isFalse fun heq => h (number.inj heq)
  | text s, text t =>
    if h : s = t then isTrue (congrArg text h) else isFalse fun heq => h (text.inj heq)
  | flag p, flag q =>
    if h : p = q then isTrue (congrArg flag h) else isFalse fun heq => h (flag.inj heq)
  | nothing, nothing => isTrue rfl
  | list xs, list ys =>
    match decEqItems xs ys with
    | isTrue h => isTrue (congrArg list h)
    | isFalse h => isFalse fun heq => h (list.inj heq)
  | table xs, table ys =>
    match decEqFields xs ys with
    | isTrue h => isTrue (congrArg table h)
    | isFalse h => isFalse fun heq => h (table.inj heq)
  -- values of different kinds differ
  | number _, text _ | number _, flag _ | number _, nothing | number _, list _ | number _, table _
  | text _, number _ | text _, flag _ | text _, nothing | text _, list _ | text _, table _
  | flag _, number _ | flag _, text _ | flag _, nothing | flag _, list _ | flag _, table _
  | nothing, number _ | nothing, text _ | nothing, flag _ | nothing, list _ | nothing, table _
  | list _, number _ | list _, text _ | list _, flag _ | list _, nothing | list _, table _
  | table _, number _ | table _, text _ | table _, flag _ | table _, nothing | table _, list _ =>
    isFalse nofun

/-- Decides whether two sequences of values are equal. -/
def decEqItems : (xs ys : List Detail) → Decidable (xs = ys)
  | [], [] => isTrue rfl
  | [], _ :: _ | _ :: _, [] => isFalse nofun
  | x :: xs, y :: ys =>
    match decEq x y, decEqItems xs ys with
    | isTrue hx, isTrue hxs => isTrue (hx ▸ hxs ▸ rfl)
    | isFalse hx, _ => isFalse fun h => hx (List.cons.inj h).1
    | _, isFalse hxs => isFalse fun h => hxs (List.cons.inj h).2

/-- Decides whether two sequences of named values are equal. -/
def decEqFields : (xs ys : List (String × Detail)) → Decidable (xs = ys)
  | [], [] => isTrue rfl
  | [], _ :: _ | _ :: _, [] => isFalse nofun
  | (m, x) :: xs, (n, y) :: ys =>
    match (inferInstance : Decidable (m = n)), decEq x y, decEqFields xs ys with
    | isTrue hm, isTrue hx, isTrue hxs => isTrue (hm ▸ hx ▸ hxs ▸ rfl)
    | isFalse hm, _, _ => isFalse fun h => hm (Prod.mk.inj (List.cons.inj h).1).1
    | _, isFalse hx, _ => isFalse fun h => hx (Prod.mk.inj (List.cons.inj h).1).2
    | _, _, isFalse hxs => isFalse fun h => hxs (List.cons.inj h).2

end

instance : DecidableEq Detail :=
  decEq

end Detail

end Layout

end Disasm68k
