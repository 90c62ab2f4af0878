import Dismissal.Json.Basic

/-!
# Writing JSON

`render` writes a value without blanks. A text is put in quotes with a backslash before a quote and
a backslash, the short escapes where there is one, and `\u` with four digits for the other control
characters; all else stands for itself.
-/

namespace Dismissal.Json

/-- A hexadecimal digit, in lower case. -/
def hexDigit (n : Nat) : Char := Nat.digitChar n

/-- One character inside quotes. -/
def escapeChar (c : Char) : List Char :=
  if c = '"' then ['\\', '"']
  else if c = '\\' then ['\\', '\\']
  else if 0x20 ≤ c.toNat then [c]
  else if c.toNat = 0x08 then ['\\', 'b']
  else if c.toNat = 0x09 then ['\\', 't']
  else if c.toNat = 0x0A then ['\\', 'n']
  else if c.toNat = 0x0C then ['\\', 'f']
  else if c.toNat = 0x0D then ['\\', 'r']
  else ['\\', 'u', '0', '0', hexDigit (c.toNat / 16), hexDigit (c.toNat % 16)]

/-- A text in quotes. -/
def quote (s : String) : List Char := '"' :: s.toList.flatMap escapeChar ++ ['"']

/-- A number. -/
def Number.render : Number → List Char
  | .whole n => (Text.signedDecimal n).toList
  | .real negative size => if negative then '-' :: size.text else size.text

mutual

/-- The characters of a value. -/
def renderChars : Json → List Char
  | .null => ['n', 'u', 'l', 'l']
  | .bool true => ['t', 'r', 'u', 'e']
  | .bool false => ['f', 'a', 'l', 's', 'e']
  | .number n => n.render
  | .text s => quote s
  | .list elements => '[' :: renderElements elements
  | .object members => '{' :: renderMembers members

/-- The elements of a list and its closing bracket. -/
def renderElements : List Json → List Char
  | [] => [']']
  | [v] => renderChars v ++ [']']
  | v :: w :: rest => renderChars v ++ ',' :: renderElements (w :: rest)

/-- The members of an object and its closing brace. -/
def renderMembers : List (String × Json) → List Char
  | [] => ['}']
  | [(name, v)] => quote name ++ ':' :: renderChars v ++ ['}']
  | (name, v) :: m :: rest => quote name ++ ':' :: renderChars v ++ ',' :: renderMembers (m :: rest)

end

/-- The text of a value. -/
def render (v : Json) : String := String.ofList (renderChars v)

end Dismissal.Json
