import Dismissal.Json.Basic
import Dismissal.Text.Bytes

/-!
# Reading the parts of JSON

Readers take the bytes that are left and give a value and the bytes behind it. They work from left
to right and stop at the first flaw: `malformed` where the bytes are no JSON, `mismatched` where
they are JSON of another shape than the one asked for.

Here are readers for texts and numbers, and for lists and objects around a reader for what is in
them. A `lenient` reader checks the grammar alone: its texts may hold any bytes and any escapes and
its numbers may be of any size, which is how a value is read that is only skipped.

A byte is written as the number of its ASCII character.
-/

namespace Dismissal.Json

/-- Why bytes are not the value that was asked for. -/
inductive Flaw where
  | malformed
  | mismatched
  deriving DecidableEq, Repr

/-- Takes a value off the front of the bytes. -/
abbrev Reader (α : Type) := Bytes → Except Flaw (α × Bytes)

namespace Reader

/-- Space, tab, line feed and carriage return. -/
def isBlankByte (b : UInt8) : Bool := b == 0x20 || b == 0x09 || b == 0x0A || b == 0x0D

/-- The bytes from the first one that is not blank. -/
def skipBlanks (bs : Bytes) : Bytes := bs.dropWhile isBlankByte

/-- Takes a fixed word. -/
def word (w : Bytes) (bs : Bytes) : Except Flaw Bytes :=
  if w.isPrefixOf bs then .ok (bs.drop w.length) else .error .malformed

/-! ## Texts -/

/-- The value of four hexadecimal digits. -/
def hexUnit : Bytes → Option (Nat × Bytes)
  | a :: b :: c :: d :: rest => do
    let a ← Bytes.hexValue? a
    let b ← Bytes.hexValue? b
    let c ← Bytes.hexValue? c
    let d ← Bytes.hexValue? d
    some (a * 4096 + b * 256 + c * 16 + d, rest)
  | _ => none

/-- The bytes of the character after `\u`. Two halves of a surrogate pair are one character; a half
alone is none, which a lenient reader does not look at. -/
def unicodeEscape (lenient : Bool) (bs : Bytes) : Option (Bytes × Bytes) := do
  let (unit, rest) ← hexUnit bs
  if lenient then some ([], rest)
  else if 0xDC00 ≤ unit ∧ unit ≤ 0xDFFF then none
  else if 0xD800 ≤ unit ∧ unit ≤ 0xDBFF then
    match rest with
    | 0x5C :: 0x75 :: rest =>
      let (low, rest) ← hexUnit rest
      if 0xDC00 ≤ low ∧ low ≤ 0xDFFF then
        let c := Char.ofNat ((unit - 0xD800) * 1024 + (low - 0xDC00) + 0x10000)
        some (String.utf8EncodeChar c, rest)
      else none
    | _ => none
  else some (String.utf8EncodeChar (Char.ofNat unit), rest)

/-- The bytes that an escape stands for, read behind its backslash. -/
def escape (lenient : Bool) : Bytes → Option (Bytes × Bytes)
  | 0x22 :: rest => some ([0x22], rest)
  | 0x5C :: rest => some ([0x5C], rest)
  | 0x2F :: rest => some ([0x2F], rest)
  | 0x62 :: rest => some ([0x08], rest)
  | 0x66 :: rest => some ([0x0C], rest)
  | 0x6E :: rest => some ([0x0A], rest)
  | 0x72 :: rest => some ([0x0D], rest)
  | 0x74 :: rest => some ([0x09], rest)
  | 0x75 :: rest => unicodeEscape lenient rest
  | _ => none

/-- The bytes up to the closing quote, with the escapes replaced. `fuel` bounds the steps by the
number of bytes. -/
def content (lenient : Bool) : Nat → Bytes → Option (Bytes × Bytes)
  | 0, _ => none
  | _ + 1, [] => none
  | fuel + 1, b :: rest =>
    if b = 0x22 then some ([], rest)
    else if b = 0x5C then do
      let (escaped, rest) ← escape lenient rest
      let (more, rest) ← content lenient fuel rest
      some (escaped ++ more, rest)
    else if b < 0x20 then none
    else do
      let (more, rest) ← content lenient fuel rest
      some (b :: more, rest)

/-- A text, read behind its opening quote. -/
def quoted (lenient : Bool) : Reader String := fun bs =>
  match content lenient (bs.length + 1) bs with
  | none => .error .malformed
  | some (inner, rest) =>
    if lenient then .ok ("", rest)
    else match Bytes.text? inner with
      | some s => .ok (s, rest)
      | none => .error .malformed

/-! ## Numbers -/

/-- A number as it is written; digits are numbers below 10. -/
structure Numeral where
  negative : Bool
  whole : List Nat
  fraction : Option (List Nat)
  power : Option Int

/-- Whether a byte is a decimal digit. -/
def isDigitByte (b : UInt8) : Bool := 0x30 ≤ b && b ≤ 0x39

/-- The leading digits of the bytes, and what follows them. -/
def digits (bs : Bytes) : List Nat × Bytes :=
  ((bs.takeWhile isDigitByte).map fun b => b.toNat - 0x30, bs.dropWhile isDigitByte)

/-- The number that digits stand for. -/
def digitsValue (ds : List Nat) : Nat := ds.foldl (fun n d => n * 10 + d) 0

/-- A point and the digits behind it, if a point stands here. -/
def fractionPart (bs : Bytes) : Option (Option (List Nat) × Bytes) :=
  match bs with
  | 0x2E :: rest =>
    let (ds, rest) := digits rest
    if ds.isEmpty then none else some (some ds, rest)
  | _ => some (none, bs)

/-- A power of ten, if one stands here. -/
def powerPart (bs : Bytes) : Option (Option Int × Bytes) :=
  match bs with
  | b :: rest =>
    if b = 0x65 ∨ b = 0x45 then
      let (negative, rest) := match rest with
        | 0x2B :: rest => (false, rest)
        | 0x2D :: rest => (true, rest)
        | _ => (false, rest)
      let (ds, rest) := digits rest
      if ds.isEmpty then none
      else
        let n : Int := digitsValue ds
        some (some (if negative then -n else n), rest)
    else some (none, bs)
  | [] => some (none, bs)

/-- The parts of a number. No digit may follow a leading zero. -/
def numeral (bs : Bytes) : Option (Numeral × Bytes) := do
  let (negative, bs) := match bs with
    | 0x2D :: rest => (true, rest)
    | _ => (false, bs)
  let (whole, bs) := digits bs
  match whole with
  | [] => none
  | 0 :: _ :: _ => none
  | _ => do
    let (fraction, bs) ← fractionPart bs
    let (power, bs) ← powerPart bs
    some ({ negative, whole, fraction, power }, bs)

/-- The count of numbers of 64 bits. -/
def wordCount : Nat := 18446744073709551616

/-- Appends digits to a number as long as it fits 64 bits, and counts the digits left over. -/
def absorb (n : Nat) : List Nat → Nat × Nat
  | [] => (n, 0)
  | d :: ds => if n * 10 + d < wordCount then absorb (n * 10 + d) ds else (n, ds.length + 1)

/-- The number that a numeral stands for, none if it is too large. Only as many leading digits count
as fit 64 bits. -/
def Numeral.value? (n : Numeral) : Option Number :=
  let (size, surplus) := absorb 0 n.whole
  match n.fraction, n.power, surplus with
  | none, none, 0 =>
    if !n.negative then some (.whole size)
    else if size = 0 ∨ wordCount / 2 < size then (Binary64.ofRatio size 1).map (.real true)
    else some (.whole (-size))
  | fraction, power, surplus =>
    let ds := fraction.getD []
    let (size, left) := absorb size ds
    let places : Int := (surplus : Int) - (ds.length - left : Nat) + power.getD 0
    (Binary64.ofDecimal size places).map (.real n.negative)

/-- A number. -/
def number (lenient : Bool) : Reader Number := fun bs =>
  match numeral bs with
  | none => .error .malformed
  | some (n, rest) =>
    if lenient then .ok (.whole 0, rest)
    else match n.value? with
      | some v => .ok (v, rest)
      | none => .error .malformed

/-! ## Containers -/

/-- The elements of a list behind its first one, up to the closing bracket. -/
def moreElements {α : Type} (element : Reader α) : Nat → Reader (List α)
  | 0, _ => .error .malformed
  | fuel + 1, bs =>
    match skipBlanks bs with
    | 0x5D :: rest => .ok ([], rest)
    | 0x2C :: rest => do
      let (x, rest) ← element rest
      let (xs, rest) ← moreElements element fuel rest
      .ok (x :: xs, rest)
    | _ => .error .malformed

/-- The elements of a list, read behind its opening bracket. -/
def elements {α : Type} (element : Reader α) (fuel : Nat) : Reader (List α) := fun bs =>
  match skipBlanks bs with
  | 0x5D :: rest => .ok ([], rest)
  | bs => do
    let (x, rest) ← element bs
    let (xs, rest) ← moreElements element fuel rest
    .ok (x :: xs, rest)

/-- Takes the colon between a name and its value. -/
def colon (bs : Bytes) : Except Flaw Bytes :=
  match skipBlanks bs with
  | 0x3A :: rest => .ok rest
  | _ => .error .malformed

/-- The members of an object behind its first one, up to the closing brace. `member` is given what
was gathered so far and the name, and reads from behind the name. -/
def moreMembers {σ : Type} (lenient : Bool) (member : σ → String → Reader σ) : Nat → σ → Reader σ
  | 0, _, _ => .error .malformed
  | fuel + 1, s, bs =>
    match skipBlanks bs with
    | 0x7D :: rest => .ok (s, rest)
    | 0x2C :: rest =>
      match skipBlanks rest with
      | 0x22 :: rest => do
        let (name, rest) ← quoted lenient rest
        let (s, rest) ← member s name rest
        moreMembers lenient member fuel s rest
      | _ => .error .malformed
    | _ => .error .malformed

/-- The members of an object, read behind its opening brace. -/
def members {σ : Type} (lenient : Bool) (member : σ → String → Reader σ) (fuel : Nat) (s : σ) :
    Reader σ := fun bs =>
  match skipBlanks bs with
  | 0x7D :: rest => .ok (s, rest)
  | 0x22 :: rest => do
    let (name, rest) ← quoted lenient rest
    let (s, rest) ← member s name rest
    moreMembers lenient member fuel s rest
  | _ => .error .malformed

end Reader

end Dismissal.Json
