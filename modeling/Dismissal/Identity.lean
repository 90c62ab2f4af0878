import Dismissal.Failure

/-!
# Identities

A user and an item are named by identities: 1 to 64 characters, each a letter, a digit, a hyphen or
an underscore of ASCII. `Valid` is that rule, `flaw?` names the first part of it that a text breaks
(`flaw?_eq_none_iff`: none exactly on valid texts), `check` reports the flaw of a named field, and
`checkAll` the first flaw of a user and its items.

`key` flattens a user and an item into one text. The separator is no identity character, so keys of
valid identities do not collide.
-/

namespace Dismissal.Identity

/-- The longest identity, in bytes of UTF-8. -/
def maxBytes : Nat := 64

/-- The characters of an identity. -/
def isAllowed (c : Char) : Bool := c.isAlphanum || c == '-' || c == '_'

/-- The rule for identities. -/
def Valid (value : String) : Prop :=
  value ≠ "" ∧ value.utf8ByteSize ≤ maxBytes ∧ value.toList.all isAllowed = true

instance (value : String) : Decidable (Valid value) := by unfold Valid; infer_instance

/-- How a text can fail to be an identity. -/
inductive Flaw where
  | empty
  | tooLong
  | badCharacter
  deriving DecidableEq, Repr

/-- The first flaw of a text: emptiness, then length, then its characters. -/
def flaw? (value : String) : Option Flaw :=
  if value = "" then some .empty
  else if maxBytes < value.utf8ByteSize then some .tooLong
  else if value.toList.all isAllowed then none
  else some .badCharacter

/-- What is wrong with the field, in words. -/
def Flaw.reason (field : String) : Flaw → String
  | empty => field ++ " must not be empty"
  | tooLong => field ++ " must be at most 64 characters"
  | badCharacter => field ++ " must contain only letters, digits, hyphens or underscores"

/-- Accepts a valid identity and reports the flaw of any other text, naming the field. -/
def check (field value : String) : Result Unit :=
  match flaw? value with
  | none => .ok ()
  | some flaw => .error (.invalidArgument (flaw.reason field))

/-- Checks a user, then item identities one after the other. -/
def checkAll (user : String) (ids : List String) : Result Unit := do
  check "userId" user
  ids.forM (check "itemId")

/-- The one text that stands for an item of a user. -/
def key (user item : String) : String := user ++ ":" ++ item

theorem flaw?_eq_none_iff {value : String} : flaw? value = none ↔ Valid value := by
  unfold flaw? Valid
  split
  · simp_all
  · split
    · rename_i hlong
      exact ⟨fun h => by simp at h, fun h => absurd h.2.1 (Nat.not_le.2 hlong)⟩
    · split <;> simp_all

theorem check_eq_ok_iff {field value : String} : check field value = .ok () ↔ Valid value := by
  rw [← flaw?_eq_none_iff]
  unfold check
  split <;> simp_all

theorem checkAll_eq_ok_iff {user : String} {ids : List String} :
    checkAll user ids = .ok () ↔ Valid user ∧ ∀ id ∈ ids, Valid id := by
  unfold checkAll
  simp only [both_ok_iff, forM_ok_iff, check_eq_ok_iff]

theorem checkAll_one {user id : String} (huser : Valid user) (hid : Valid id) :
    checkAll user [id] = .ok () :=
  checkAll_eq_ok_iff.2 ⟨huser, by simpa using hid⟩

end Dismissal.Identity
