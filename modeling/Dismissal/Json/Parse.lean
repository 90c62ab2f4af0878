import Dismissal.Json.Reader

/-!
# Reading JSON values

* `value` reads any value. `depth` is how many containers may still be opened.
* `parse` reads bytes that are one value and nothing else.

An object may be an envelope, which stands for a value whose JSON it holds as a text. That text is
read by itself, so the containers around the envelope do not count for it.
-/

namespace Dismissal.Json.Reader

/-- A value that is no container. -/
def scalar (lenient : Bool) : Reader Json := fun bs =>
  match skipBlanks bs with
  | [] => .error .malformed
  | b :: rest =>
    if b = 0x6E then (word [0x75, 0x6C, 0x6C] rest).map fun rest => (.null, rest)
    else if b = 0x74 then (word [0x72, 0x75, 0x65] rest).map fun rest => (.bool true, rest)
    else if b = 0x66 then (word [0x61, 0x6C, 0x73, 0x65] rest).map fun rest => (.bool false, rest)
    else if b = 0x22 then (quoted lenient rest).map fun (s, rest) => (.text s, rest)
    else if b = 0x2D ∨ isDigitByte b then
      (number lenient (b :: rest)).map fun (n, rest) => (.number n, rest)
    else .error .malformed

/-- The flaw of a value of another kind than the one asked for: it is mismatched, unless it is a
word, a number or a text that is malformed itself. -/
def mismatch (bs : Bytes) : Flaw :=
  match skipBlanks bs with
  | 0x5B :: _ => .mismatched
  | 0x7B :: _ => .mismatched
  | bs => match scalar false bs with
    | .ok _ => .mismatched
    | .error flaw => flaw

/-- A text. -/
def text : Reader String := fun bs =>
  match skipBlanks bs with
  | 0x22 :: rest => quoted false rest
  | bs => .error (mismatch bs)

/-- Takes blanks up to the end of the bytes. -/
def finish {α : Type} (result : α × Bytes) : Except Flaw α :=
  match skipBlanks result.2 with
  | [] => .ok result.1
  | _ => .error .malformed

/-- How many containers may be open at once in what others send. -/
def maxDepth : Nat := 127

/-! ## Envelopes -/

/-- The name of the first member of an envelope: an object with one member, a text, which stands for
the value that the text is the JSON of. -/
def envelopeName : String := "$serde_json::private::RawValue"

/-- What follows the name of the first member of an object, if the object is an envelope. -/
def openEnvelope? (bs : Bytes) : Option Bytes :=
  match skipBlanks bs with
  | 0x22 :: rest => match quoted false rest with
    | .ok (name, rest) => if name = envelopeName then some rest else none
    | .error _ => none
  | _ => none

/-- The value in an envelope, read behind the name of its member. A text that is no JSON is
mismatched. -/
def enclosed (inner : Reader Json) : Reader Json := fun bs => do
  let (s, rest) ← text (← colon bs)
  match (inner (Bytes.ofText s)).bind finish with
  | .error _ => .error .mismatched
  | .ok v => match skipBlanks rest with
    | 0x7D :: rest => .ok (v, rest)
    | _ => .error .malformed

/-! ## Any value -/

/-- Any value. Only a strict reader opens envelopes. -/
def value (lenient : Bool) : Nat → Nat → Reader Json
  | 0, _, _ => .error .malformed
  | fuel + 1, depth, bs =>
    match skipBlanks bs with
    | 0x5B :: rest =>
      if depth = 0 then .error .malformed
      else (elements (value lenient fuel (depth - 1)) fuel rest).map fun (xs, rest) =>
        (.list xs, rest)
    | 0x7B :: rest =>
      if depth = 0 then .error .malformed
      else match if lenient then none else openEnvelope? rest with
        | some rest => enclosed (value lenient fuel maxDepth) rest
        | none =>
          let member : List (String × Json) → String → Reader (List (String × Json)) :=
            fun known name bs => do
              let bs ← colon bs
              let (v, bs) ← value lenient fuel (depth - 1) bs
              .ok (put known name v, bs)
          (members lenient member fuel [] rest).map fun (ms, rest) => (.object ms, rest)
    | bs => scalar lenient bs

/-- The value that the bytes are the text of, with at most `depth` containers open at once. -/
def parse (depth : Nat) (bs : Bytes) : Except Flaw Json :=
  (value false (bs.length + 1) depth bs).bind finish

end Dismissal.Json.Reader
