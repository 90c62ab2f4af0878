import Dismissal.Json.Binary64

/-!
# JSON values

A number is `whole` if it is written without point and power and fits 64 bits, with a sign or
without one; any other number is `real`. The members of an object that is read are in the order of
their names, and a repeated name has its last value.
-/

namespace Dismissal

namespace Json

/-- A number of JSON. -/
inductive Number where
  | whole (n : Int)
  | real (negative : Bool) (size : Binary64)
  deriving DecidableEq, Repr

end Json

/-- A value of JSON. -/
inductive Json where
  | null
  | bool (b : Bool)
  | number (n : Json.Number)
  | text (s : String)
  | list (elements : List Json)
  | object (members : List (String × Json))
  deriving Repr, Inhabited

namespace Json

/-- A whole number. -/
def nat (n : Nat) : Json := .number (.whole n)

/-- The value if there is one, else null. -/
def ofOption : Option Json → Json
  | none => .null
  | some v => v

/-- Gives a name a value, and keeps the members in the order of their names. -/
def put (members : List (String × Json)) (name : String) (value : Json) : List (String × Json) :=
  match members with
  | [] => [(name, value)]
  | m :: rest =>
    if name < m.1 then (name, value) :: m :: rest
    else if name = m.1 then (name, value) :: rest
    else m :: put rest name value

/-- The value of a member of an object. -/
def get? (v : Json) (name : String) : Option Json :=
  match v with
  | .object members => (members.find? (·.1 == name)).map (·.2)
  | _ => none

end Json

end Dismissal
