import Dismissal.Text.Split

/-!
# Media types

A media type is two tokens with a slash between them, and parameters behind semicolons. The last
plus sign of the second token sets a suffix apart. Case does not count.

`isJson` tells whether a text names JSON: `application/json`, or an application format with the
suffix `json`.
-/

namespace Dismissal.Http

/-- A media type without its parameters, in lower case. -/
structure MediaType where
  kind : String
  subtype : String
  suffix : Option String
  deriving DecidableEq, Repr

namespace MediaType

/-- The characters of a token. -/
def isTokenChar (c : Char) : Bool := c.isAlphanum || "!#$%&'*+-.^_`|~".toList.contains c

/-- The characters inside quotes. -/
def isQuotedChar (c : Char) : Bool := 0x20 ≤ c.toNat && c.toNat != 0x7F

/-- The characters that a header can be read with. -/
def isHeaderChar (c : Char) : Bool := (0x20 ≤ c.toNat && c.toNat < 0x7F) || c == '\t'

/-- What follows a quoted value up to the next parameter, read behind the opening quote. A quote
right behind it belongs to the value. -/
def afterQuoted : List Char → Option (List Char)
  | [] => none
  | first :: rest =>
    let rest := if isQuotedChar first then rest else []
    match rest.dropWhile fun c => isQuotedChar c && c != '"' with
    | '"' :: rest => match rest.dropWhile (· == ' ') with
      | [] => some []
      | ';' :: rest => some rest
      | _ => none
    | _ => none

/-- What follows a value up to the next parameter. -/
def afterValue : List Char → Option (List Char)
  | '"' :: rest => afterQuoted rest
  | cs => match cs.takeWhile isTokenChar, cs.dropWhile isTokenChar with
    | _, [] => some []
    | _ :: _, ';' :: rest => some rest
    | _, _ => none

/-- Whether the parameters behind a semicolon are well formed; `fuel` bounds their number. -/
def parametersValid : Nat → List Char → Bool
  | 0, _ => false
  | fuel + 1, cs =>
    match cs.dropWhile (· == ' ') with
    | [] => true
    | cs => match cs.takeWhile isTokenChar, cs.dropWhile isTokenChar with
      | _ :: _, '=' :: rest => match afterValue rest with
        | some rest => parametersValid fuel rest
        | none => false
      | _, _ => false

/-- The second token in two parts: what stands before its last plus sign, if one stands behind its
first character, and what stands after it. -/
def cutSuffix (cs : List Char) : List Char × Option (List Char) :=
  let suffix := cs.reverse.takeWhile (· != '+')
  let before := cs.reverse.drop (suffix.length + 1)
  if before.isEmpty then (cs, none) else (before.reverse, some suffix.reverse)

/-- Reads a media type. -/
def ofText? (s : String) : Option MediaType :=
  match Text.splitOnce '/' s.toList with
  | none => none
  | some (kind, rest) =>
    let subtype := rest.takeWhile isTokenChar
    let parameters := match rest.dropWhile isTokenChar with
      | [] => true
      | ';' :: cs => !subtype.isEmpty && parametersValid (cs.length + 1) cs
      | _ => false
    if kind.isEmpty || !kind.all isTokenChar || !parameters || !s.toList.all isHeaderChar then none
    else
      let (subtype, suffix) := cutSuffix subtype
      let lower (cs : List Char) := String.ofList (cs.map Char.toLower)
      some ⟨lower kind, lower subtype, suffix.map lower⟩

/-- Whether a media type is that of JSON or of a format of JSON. -/
def isJson (m : MediaType) : Bool :=
  m.kind == "application" && (m.subtype == "json" || m.suffix == some "json")

end MediaType

end Dismissal.Http
