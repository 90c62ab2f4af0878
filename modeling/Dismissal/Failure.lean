/-!
# Failures

`Failure` is what an operation answers in place of a value. Each has a stable `code` for machines
and a `message` for people; `ofCode?` names one by its code.
-/

namespace Dismissal

/-- Why an operation did not answer. -/
inductive Failure where
  | invalidArgument (reason : String)
  | invalidState (reason : String)
  | notFound
  | itemNotFound (user item : String)
  | conflict (reason : String)
  | alreadyDismissed (user item : String)
  | notDismissed (user item : String)
  | timeout (reason : String)
  | unavailable (reason : String)
  | internal (reason : String)
  deriving DecidableEq, Repr, Inhabited

/-- A value, or the failure that took its place. -/
abbrev Result (α : Type) := Except Failure α

namespace Failure

/-- The stable name of the kind of failure. -/
def code : Failure → String
  | invalidArgument _ => "invalid_argument"
  | invalidState _ => "invalid_state"
  | notFound => "not_found"
  | itemNotFound _ _ => "item_not_found"
  | conflict _ => "conflict"
  | alreadyDismissed _ _ => "item_already_dismissed"
  | notDismissed _ _ => "item_not_dismissed"
  | timeout _ => "timeout"
  | unavailable _ => "unavailable"
  | internal _ => "internal"

/-- The text shown to people. -/
def message : Failure → String
  | invalidArgument reason => "invalid argument: " ++ reason
  | invalidState reason => "invalid state: " ++ reason
  | notFound => "not found"
  | itemNotFound user item => "item '" ++ item ++ "' not found for user '" ++ user ++ "'"
  | conflict reason => "conflict: " ++ reason
  | alreadyDismissed user item =>
    "item '" ++ item ++ "' is already dismissed for user '" ++ user ++ "'"
  | notDismissed user item => "item '" ++ item ++ "' is not dismissed for user '" ++ user ++ "'"
  | timeout reason => "timeout: " ++ reason
  | unavailable reason => "unavailable: " ++ reason
  | internal reason => "internal: " ++ reason

/-- The failure with a given code; `reason`, `user` and `item` fill what that kind carries. -/
def ofCode? (code reason user item : String) : Option Failure :=
  match code with
  | "invalid_argument" => some (invalidArgument reason)
  | "invalid_state" => some (invalidState reason)
  | "not_found" => some notFound
  | "item_not_found" => some (itemNotFound user item)
  | "conflict" => some (conflict reason)
  | "item_already_dismissed" => some (alreadyDismissed user item)
  | "item_not_dismissed" => some (notDismissed user item)
  | "timeout" => some (timeout reason)
  | "unavailable" => some (unavailable reason)
  | "internal" => some (internal reason)
  | _ => none

end Failure

section Checks

variable {ε α : Type}

/-- Two checks in a row are passed if both are. -/
theorem both_ok_iff {a b : Except ε Unit} : (do a; b) = .ok () ↔ a = .ok () ∧ b = .ok () := by
  cases a <;> simp [bind, Except.bind]

/-- A check of each element is passed if all elements pass it. -/
theorem forM_ok_iff {check : α → Except ε Unit} {xs : List α} :
    xs.forM check = .ok () ↔ ∀ x ∈ xs, check x = .ok () := by
  induction xs with
  | nil => simp [List.forM, pure, Except.pure]
  | cons x xs ih =>
    rw [List.forall_mem_cons, ← ih]
    exact both_ok_iff

end Checks

end Dismissal
