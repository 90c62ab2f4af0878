import Dismissal.Instant.Basic
import Dismissal.Instant.Date
import Dismissal.Text.Blank
import Dismissal.Text.Digits
import Dismissal.Text.Split

/-!
# Reading instants

A `Layout` is the list of parts that a text of an instant consists of. Reading it fills in a
`Reading`, and a reading with an offset names an instant.

* `ofRecordText?` reads what records hold: RFC 3339 with blanks, short numbers and long years
  allowed.
* `ofCellText?` reads what table cells hold: exact RFC 3339, or one of a dozen layouts that may
  leave out the seconds or the zone. A cell without a zone, or with one of a day or more, counts as
  UTC.
-/

namespace Dismissal.Instant

open Text

/-- A number that a text of an instant shows. -/
inductive Field where
  | year
  | month
  | day
  | hour
  | minute
  | second
  deriving DecidableEq, Repr

/-- The digits that a field has when it is written in full. -/
def Field.width : Field → Nat
  | .year => 4
  | _ => 2

/-- One part of a layout. A `loose` number may have blanks before it and fewer digits, a loose year
also a sign and then any count of digits. An offset is loose if blanks may stand before it and
between its hours and minutes, and `zulu` if `Z` may stand for it. -/
inductive Part where
  | number (field : Field) (loose : Bool)
  | fraction
  | oneOf (choices : List Char)
  | blanks
  | offset (zulu loose : Bool)
  deriving DecidableEq, Repr

/-- The parts of a text, in order. -/
abbrev Layout := List Part

/-- What a text says about an instant; the offset is in seconds east of UTC. -/
structure Reading where
  year : Int := 0
  month : Nat := 0
  day : Nat := 0
  hour : Nat := 0
  minute : Nat := 0
  second : Nat := 0
  nanos : Nat := 0
  offset : Option Int := none
  deriving DecidableEq, Repr

/-- Fills in one field. -/
def Reading.set (r : Reading) (value : Int) : Field → Reading
  | .year => { r with year := value }
  | .month => { r with month := value.toNat }
  | .day => { r with day := value.toNat }
  | .hour => { r with hour := value.toNat }
  | .minute => { r with minute := value.toNat }
  | .second => { r with second := value.toNat }

/-- The number of a field, and what follows it. -/
def readField (field : Field) (loose : Bool) (cs : List Char) : Option (Int × List Char) :=
  if loose then
    let cs := trimStart cs
    match field, cs with
    | .year, '-' :: rest => (number 1 rest.length rest).map fun (n, rest) => (-(n : Int), rest)
    | .year, '+' :: rest => (number 1 rest.length rest).map fun (n, rest) => ((n : Int), rest)
    | _, _ => (number 1 field.width cs).map fun (n, rest) => ((n : Int), rest)
  else (number field.width field.width cs).map fun (n, rest) => ((n : Int), rest)

/-- The nanoseconds of a fraction, if a point stands here; digits after the ninth do not count. -/
def readFraction (cs : List Char) : Option (Nat × List Char) :=
  match cs with
  | '.' :: rest =>
    let digits := (rest.take 9).takeWhile Char.isDigit
    if digits.isEmpty then none
    else
      let nanos := Nat.ofDigitChars 10 digits 0 * tenTo (9 - digits.length)
      some (nanos, rest.dropWhile Char.isDigit)
  | _ => some (0, cs)

/-- Hours and minutes after the sign of an offset, in seconds. -/
def readOffsetDigits (loose : Bool) (cs : List Char) : Option (Int × List Char) := do
  let (hours, cs) ← number 2 2 cs
  let cs ← if loose then some (cs.dropWhile fun c => c == ':' || isBlank c) else dropHead? [':'] cs
  let (minutes, cs) ← number 2 2 cs
  if minutes < 60 then some (((hours * 3600 + minutes * 60 : Nat) : Int), cs) else none

/-- An offset in seconds east of UTC, and what follows it. -/
def readOffset (zulu loose : Bool) (cs : List Char) : Option (Int × List Char) :=
  let cs := if loose then trimStart cs else cs
  if zulu && loose && (cs.take 3).map Char.toUpper == ['U', 'T', 'C'] then some (0, cs.drop 3)
  else match cs with
    | [] => none
    | sign :: rest =>
      if zulu && (sign == 'Z' || sign == 'z') then some (0, rest)
      else if sign == '+' then readOffsetDigits loose rest
      else if sign == '-' || sign == '\u2212' then
        (readOffsetDigits loose rest).map fun (secs, rest) => (-secs, rest)
      else none

/-- Reads one part. -/
def Part.read (r : Reading) (cs : List Char) : Part → Option (Reading × List Char)
  | .number field loose => (readField field loose cs).map fun (n, rest) => (r.set n field, rest)
  | .fraction => (readFraction cs).map fun (n, rest) => ({ r with nanos := n }, rest)
  | .oneOf choices => match cs with
    | [] => none
    | c :: rest => if choices.contains c then some (r, rest) else none
  | .blanks => some (r, trimStart cs)
  | .offset zulu loose =>
    (readOffset zulu loose cs).map fun (secs, rest) => ({ r with offset := some secs }, rest)

/-- Reads all parts one after the other. -/
def Layout.readParts (r : Reading) (cs : List Char) : Layout → Option (Reading × List Char)
  | [] => some (r, cs)
  | part :: parts => (part.read r cs).bind fun (r, rest) => Layout.readParts r rest parts

/-- Reads a text that consists of the parts and nothing else. -/
def Layout.read (layout : Layout) (cs : List Char) : Option Reading :=
  match layout.readParts {} cs with
  | some (r, []) => some r
  | _ => none

/-- The instant of a reading that is `offset` seconds east of UTC. -/
def Reading.instant? (r : Reading) (offset : Int) : Option Instant :=
  let date : Date := ⟨r.year, r.month, r.day⟩
  if date.Valid ∧ r.hour < 24 ∧ r.minute < 60 ∧ r.second ≤ 60 then
    let minuteStart := date.dayNumber * 86400 + (r.hour * 3600 + r.minute * 60 : Nat) - offset
    if r.second = 60 then ofParts? (minuteStart + 59) (1000000000 + r.nanos)
    else ofParts? (minuteStart + r.second) r.nanos
  else none

/-- The instant of a reading with an offset of less than a day. -/
def Reading.zoned? (r : Reading) : Option Instant :=
  match r.offset with
  | some offset => if offset.natAbs < 86400 then r.instant? offset else none
  | none => none

/-- Year, month and day with hyphens between them. -/
def dateParts (loose : Bool) : Layout :=
  let gap := if loose then [.blanks] else []
  .number .year loose :: gap ++ .oneOf ['-'] :: .number .month loose ::
    gap ++ [.oneOf ['-'], .number .day loose]

/-- Hour and minute with a colon between them. -/
def minuteParts (loose : Bool) : Layout :=
  let gap := if loose then [.blanks] else []
  .number .hour loose :: gap ++ [.oneOf [':'], .number .minute loose]

/-- Hour, minute, second and fraction. -/
def secondParts (loose : Bool) : Layout :=
  let gap := if loose then [.blanks] else []
  minuteParts loose ++ gap ++ [.oneOf [':'], .number .second loose, .fraction]

/-- RFC 3339 to the letter. -/
def strictLayout : Layout :=
  dateParts false ++ .oneOf ['T', 't', ' '] :: secondParts false ++ [.offset true false]

/-- RFC 3339 with blanks, short numbers and long years. -/
def relaxedLayout : Layout :=
  dateParts true ++ .oneOf ['T', 't', ' '] :: secondParts true ++ [.offset true true, .blanks]

/-- Year, month, day, hour and the rest of a cell without blanks around its hyphens and colons. -/
def cellLayout (between : Part) (time zone : Layout) : Layout :=
  [.number .year true, .oneOf ['-'], .number .month true, .oneOf ['-'], .number .day true, between,
    .number .hour true, .oneOf [':'], .number .minute true] ++ time ++ zone

/-- The layouts of cells, in the order in which they are tried. -/
def cellLayouts : List Layout :=
  let seconds : Layout := [.oneOf [':'], .number .second true, .fraction]
  let zulu : Layout := [.oneOf ['Z']]
  let offset : Layout := [.offset false true]
  [cellLayout .blanks seconds [], cellLayout .blanks [] [], cellLayout .blanks [] zulu,
    cellLayout .blanks [] offset, cellLayout .blanks seconds zulu,
    cellLayout .blanks seconds offset,
    cellLayout (.oneOf ['T']) [] [], cellLayout (.oneOf ['T']) [] zulu,
    cellLayout (.oneOf ['T']) [] offset, cellLayout (.oneOf ['T']) seconds [],
    cellLayout (.oneOf ['T']) seconds zulu, cellLayout (.oneOf ['T']) seconds offset]

/-- The instant that a text in a record names. -/
def ofRecordText? (s : String) : Option Instant :=
  (relaxedLayout.read s.toList).bind Reading.zoned?

/-- The instant that a text in a table cell names. -/
def ofCellText? (s : String) : Option Instant :=
  match (strictLayout.read s.toList).bind Reading.zoned? with
  | some t => some t
  | none => cellLayouts.findSome? fun layout =>
    (layout.read s.toList).bind fun r => r.zoned?.or (r.instant? 0)

end Dismissal.Instant
