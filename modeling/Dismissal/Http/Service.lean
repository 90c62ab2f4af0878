import Dismissal.Feed
import Dismissal.Http.Batch
import Dismissal.Http.MediaType
import Dismissal.Http.Problem
import Dismissal.Http.Route
import Dismissal.Lifecycle.Basic

/-!
# The service over HTTP

`answer` turns a request into a response. It finds the route, looks at the method, replaces the
escapes in the path, reads the body where one is needed, checks the names, and only then runs an
action; a request that fails before that leaves the store and the listeners alone.
-/

namespace Dismissal.Http

open Lifecycle (Action State)

/-- A request. -/
structure Request where
  method : String := "GET"
  target : String
  mediaType : Option String := none
  body : Bytes := []

/-- A response: its status, the type of its body, the methods that are allowed instead, its body if
that is JSON, and the feed that it opens. -/
structure Response where
  status : Nat
  mediaType : Option String := none
  allow : List String := []
  body : Option Json := none
  feed : Option Feed.Filter := none

namespace Response

/-- A response in JSON. -/
def ofJson (status : Nat) (body : Json) : Response :=
  { status, mediaType := some "application/json", body := some body }

/-- A response in plain text. -/
def plain (status : Nat) : Response := { status, mediaType := some "text/plain; charset=utf-8" }

/-- The response to a problem. -/
def ofProblem (p : Problem) : Response := ofJson p.status p.json

/-- The response without its body. -/
def headOnly (r : Response) : Response := { r with body := r.body.map fun _ => .null }

end Response

/-- The largest body, in bytes. -/
def maxBody : Nat := 2097152

/-- Reads the body of a batch request. -/
def readBatch (r : Request) : Except Response Batch :=
  if ((r.mediaType.bind MediaType.ofText?).map MediaType.isJson).getD false then
    if maxBody < r.body.length then .error (.plain 413)
    else match Batch.ofBytes r.body with
      | .ok batch => .ok batch
      | .error .malformed => .error (.plain 400)
      | .error .mismatched => .error (.plain 422)
  else .error (.plain 415)

variable {σ : Type} [Store σ]

/-- Runs an action if the request was checked, and answers a problem otherwise. -/
def run (checked : Except Refusal Unit) (action : Action σ Response) :
    StateM (State σ) Response := do
  match checked with
  | .error refusal => pure (.ofProblem (.refused refusal))
  | .ok () => match ← action.run with
    | .ok response => pure response
    | .error failure => pure (.ofProblem (.failed failure))

/-- Answers a batch request. -/
def answerBatch (now : Instant) (user : String) (r : Request) : StateM (State σ) Response :=
  match readBatch r with
  | .error response => pure response
  | .ok batch => run (checkBatch user batch.ids) do
    let items ← Lifecycle.getOrCreateMany now user batch.ids batch.context
    pure (.ofJson 200 (.object [("items", .list (items.map Presented.json))]))

/-- Answers a request about one item. -/
def answerItem (now : Instant) (method user id : String) : StateM (State σ) Response :=
  run (checkItem user id) do
    match method with
    | "DELETE" => do
      let t ← Lifecycle.dismiss now user id none
      pure (.ofJson 200 t.json)
    | "POST" => do
      let t ← Lifecycle.restore now user id none
      pure (.ofJson 200 t.json)
    | _ => do
      let p ← Lifecycle.getOrCreate now user id none
      pure (.ofJson (if p.created then 201 else 200) p.json)

/-- Answers a request whose route and method are known. -/
def answerRoute (now : Instant) (r : Request) (query : Option (List Char)) :
    Route → StateM (State σ) Response
  | .health => pure (.ofJson 200 (.object [("message", .text "OK")]))
  | .events =>
    pure { status := 200, mediaType := some "text/event-stream", feed := some (.ofQuery query) }
  | .batch user => answerBatch now user r
  | .item user id => answerItem now r.method user id
  | .adminItem user id => run (checkItem user id) do
    Lifecycle.deleteItem now user id
    pure { status := 204 }
  | .adminItems => run (.ok ()) do
    Lifecycle.reset now
    pure { status := 204 }

/-- Answers a request. -/
def answer (now : Instant) (r : Request) : StateM (State σ) Response :=
  let target := Target.ofText r.target
  match Route.ofPath? target.path with
  | none => pure { status := 404 }
  | some route =>
    if !route.methods.contains r.method then pure { status := 405, allow := route.methods }
    else match route.unescape? with
      | none => pure (.plain 400)
      | some route => do
        let response ← answerRoute now r target.query route
        pure (if r.method = "HEAD" then response.headOnly else response)

end Dismissal.Http
