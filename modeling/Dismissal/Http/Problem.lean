import Dismissal.Failure
import Dismissal.Identity
import Dismissal.Json.Basic

/-!
# Problems

A request is refused before it reaches the service if a user or an item is badly named or if it
names too many items; `checkItem` and `checkBatch` decide that. A `Problem` is a refusal or a
failure of the service, with the status and the JSON form under which it is answered.
-/

namespace Dismissal.Http

/-- Why a request does not reach the service. -/
inductive Refusal where
  | invalidIdentity (field : String) (flaw : Identity.Flaw)
  | tooManyItems (count : Nat)
  deriving DecidableEq, Repr

namespace Refusal

/-- The largest number of items in one request. -/
def maxItems : Nat := 100

/-- What is wrong with an identity. -/
def reason (field : String) (flaw : Identity.Flaw) : String :=
  (Failure.invalidArgument (flaw.reason field)).message

/-- The text shown to people. -/
def message : Refusal → String
  | invalidIdentity field flaw => "Invalid " ++ field ++ ": " ++ reason field flaw
  | tooManyItems count => "Too many itemIds: " ++ Text.decimal count ++ " given, at most " ++
    Text.decimal maxItems ++ " allowed"

end Refusal

/-- Accepts a valid identity. -/
def checkIdentity (field value : String) : Except Refusal Unit :=
  match Identity.flaw? value with
  | none => .ok ()
  | some flaw => .error (.invalidIdentity field flaw)

/-- Accepts a valid user and a valid item. -/
def checkItem (user id : String) : Except Refusal Unit := do
  checkIdentity "userId" user
  checkIdentity "itemId" id

/-- Accepts a valid user and not too many items, all of them valid. -/
def checkBatch (user : String) (ids : List String) : Except Refusal Unit := do
  checkIdentity "userId" user
  if Refusal.maxItems < ids.length then .error (.tooManyItems ids.length)
  else ids.forM (checkIdentity "itemId")

/-- Why a request is not answered as it asks. -/
inductive Problem where
  | refused (refusal : Refusal)
  | failed (failure : Failure)
  deriving DecidableEq, Repr

namespace Problem

/-- The status of the answer. -/
def status : Problem → Nat
  | refused _ => 400
  | failed failure => match failure with
    | .invalidArgument _ => 400
    | .invalidState _ => 400
    | .notFound => 404
    | .itemNotFound _ _ => 404
    | .conflict _ => 409
    | .alreadyDismissed _ _ => 409
    | .notDismissed _ _ => 409
    | .timeout _ => 504
    | .unavailable _ => 503
    | .internal _ => 500

/-- The stable name of the kind of problem. -/
def code : Problem → String
  | refused _ => "invalid_argument"
  | failed failure => failure.code

/-- The text shown to people. -/
def message : Problem → String
  | refused refusal => refusal.message
  | failed failure => failure.message

/-- The JSON form of a problem. -/
def json (p : Problem) : Json := .object [("error", .text p.message), ("code", .text p.code)]

end Problem

end Dismissal.Http
