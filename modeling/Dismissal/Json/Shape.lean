import Dismissal.Json.Parse

/-!
# Reading JSON of a known shape

Readers for values that must be lists or null, for members that may come once, and for lists with a
fixed number of elements. A value of another shape is `mismatched`, and the reader stops there: a
value that is malformed further on is not looked at.
-/

namespace Dismissal.Json.Reader

/-- Steps over a value. -/
def skipValue (bs : Bytes) : Except Flaw Bytes :=
  (value true (bs.length + 1) bs.length bs).map (·.2)

/-- A list of values of one shape. -/
def listOf {α : Type} (element : Reader α) : Reader (List α) := fun bs =>
  match skipBlanks bs with
  | 0x5B :: rest => elements element (rest.length + 1) rest
  | bs => .error (mismatch bs)

/-- A value or null; null is read as none. -/
def optional {α : Type} (inner : Reader α) : Reader (Option α) := fun bs =>
  match skipBlanks bs with
  | 0x6E :: rest => (word [0x75, 0x6C, 0x6C] rest).map fun rest => (none, rest)
  | bs => (inner bs).map fun (x, rest) => (some x, rest)

/-- A member that may be read once: its value, read behind its name. -/
def once {α : Type} (known : Option α) (inner : Reader α) : Reader α := fun bs =>
  match known with
  | some _ => .error .mismatched
  | none => do inner (← colon bs)

/-- Steps to the next element of a list; none if the list ends here. -/
def nextElement (first : Bool) (bs : Bytes) : Except Flaw (Option Bytes) :=
  match first, skipBlanks bs with
  | _, 0x5D :: _ => .ok none
  | true, bs => .ok (some bs)
  | false, 0x2C :: rest => match skipBlanks rest with
    | 0x5D :: _ => .error .malformed
    | rest => .ok (some rest)
  | false, _ => .error .malformed

/-- The next element of a list that must not end here. -/
def element {α : Type} (first : Bool) (inner : Reader α) : Reader α := fun bs => do
  match ← nextElement first bs with
  | some bs => inner bs
  | none => .error .mismatched

/-- Takes the closing bracket of a list. -/
def closeList (bs : Bytes) : Except Flaw Bytes :=
  match skipBlanks bs with
  | 0x5D :: rest => .ok rest
  | _ => .error .malformed

end Dismissal.Json.Reader
