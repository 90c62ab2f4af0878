import Dismissal.Proofs.Lifecycle.Exec
import Dismissal.Session.Basic

/-!
# What a request asks of the service

A request comes to one of two things (`Plan`): it is answered without the service, or it makes one
call, and the response is the form that the call's result takes.

* `answer_eq`: requests are answered by carrying out what they come to.
-/

namespace Dismissal.Http

open Lifecycle (Action Call Outcome State exec)

/-- What a request comes to. -/
inductive Plan where
  /-- It is answered without the service. -/
  | reply (response : Response)
  /-- It makes a call. -/
  | call (c : Call)

/-- The response to a call. -/
def Response.ofResult : Result Outcome → Response
  | .ok (.presented p) => .ofJson (if p.created then 201 else 200) p.json
  | .ok (.batch answers) => .ofJson 200 (.object [("items", .list (answers.map Presented.json))])
  | .ok (.transition t) => .ofJson 200 t.json
  | .ok .done => { status := 204 }
  | .error failure => .ofProblem (.failed failure)

/-- The response as it is sent: only its head if no more is asked for. -/
def Request.trim (r : Request) (response : Response) : Response :=
  if r.method = "HEAD" then response.headOnly else response

namespace Plan

/-- A call that is made if the request passes a check. -/
def checked (check : Except Refusal Unit) (c : Call) : Plan :=
  match check with
  | .error refusal => reply (.ofProblem (.refused refusal))
  | .ok () => call c

/-- The call that a request about one item makes. -/
def itemCall (method user id : String) : Call :=
  if method = "DELETE" then .dismiss user id none
  else if method = "POST" then .restore user id none
  else .getOrCreate user id none

/-- What a request for a route comes to. -/
def ofRoute (r : Request) (query : Option (List Char)) : Route → Plan
  | .health => reply (.ofJson 200 (.object [("message", .text "OK")]))
  | .events => reply
    { status := 200, mediaType := some "text/event-stream", feed := some (.ofQuery query) }
  | .batch user => match readBatch r with
    | .error response => reply response
    | .ok batch =>
      checked (checkBatch user batch.ids) (.getOrCreateMany user batch.ids batch.context)
  | .item user id => checked (checkItem user id) (itemCall r.method user id)
  | .adminItem user id => checked (checkItem user id) (.deleteItem user id)
  | .adminItems => call .reset

/-- The plan with its reply as it is sent. -/
def trim (r : Request) : Plan → Plan
  | reply response => reply (r.trim response)
  | call c => call c

/-- What a request comes to. -/
def ofRequest (r : Request) : Plan :=
  let target := Target.ofText r.target
  match Route.ofPath? target.path with
  | none => reply { status := 404 }
  | some route =>
    if !route.methods.contains r.method then reply { status := 405, allow := route.methods }
    else match route.unescape? with
      | none => reply (.plain 400)
      | some route => (ofRoute r target.query route).trim r

variable {σ : Type} [Store σ]

/-- Carries out a plan; `send` is done to the response of a call. -/
def carryOut (now : Instant) (send : Response → Response) (s : State σ) :
    Plan → Response × State σ
  | reply response => (response, s)
  | call c =>
    let (result, s) := c.perform now s
    (send (.ofResult result), s)

section Lemmas

variable {now : Instant} {α : Type} {s : State σ}

/-- An action that a call stands for is run by making the call. -/
theorem run_checked (check : Except Refusal Unit) {action : Action σ α} {c : Call}
    {wrap : α → Outcome}
    (hperform : c.perform now s = ((exec action s).1.map wrap, (exec action s).2)) :
    (run check (action >>= fun a => pure (.ofResult (.ok (wrap a))))).run s =
      (checked check c).carryOut now id s := by
  cases check with
  | error refusal => rfl
  | ok =>
    have hrun : (action >>= fun a => pure (Response.ofResult (.ok (wrap a)))).run.run s =
        ((exec action s).1.map fun a => Response.ofResult (.ok (wrap a)), (exec action s).2) :=
      Lifecycle.exec_map _ _
    simp only [run, StateT.run_bind, hrun, checked, carryOut, hperform]
    cases (exec action s).1 <;> rfl

theorem answerRoute_eq (now : Instant) (r : Request) (query : Option (List Char)) (route : Route)
    (s : State σ) :
    (answerRoute now r query route).run s = (ofRoute r query route).carryOut now id s := by
  cases route with
  | health => rfl
  | events => rfl
  | batch user =>
    simp only [answerRoute, answerBatch, ofRoute]
    cases readBatch r with
    | error response => rfl
    | ok batch =>
      exact run_checked _ (Call.perform_getOrCreateMany now user batch.ids batch.context s)
  | item user id =>
    simp only [answerRoute, answerItem, ofRoute]
    generalize r.method = method
    split
    · exact run_checked _ (Call.perform_dismiss now user id none s)
    · exact run_checked _ (Call.perform_restore now user id none s)
    · rename_i hdelete hpost
      rw [itemCall, if_neg hdelete, if_neg hpost]
      exact run_checked _ (Call.perform_getOrCreate now user id none s)
  | adminItem user id =>
    have hperform : (Call.deleteItem user id).perform now s =
        ((exec (Lifecycle.deleteItem now user id) s).1.map fun _ => .done,
          (exec (Lifecycle.deleteItem now user id) s).2) := Lifecycle.exec_map _ _
    exact run_checked _ hperform
  | adminItems =>
    have hperform : Call.reset.perform now s =
        ((exec (Lifecycle.reset now) s).1.map fun _ => .done, (exec (Lifecycle.reset now) s).2) :=
      Lifecycle.exec_map _ _
    exact run_checked (.ok ()) hperform

/-- **A request is answered by carrying out what it comes to.** -/
theorem answer_eq (now : Instant) (r : Request) (s : State σ) :
    (answer now r).run s = (ofRequest r).carryOut now r.trim s := by
  simp only [answer, ofRequest]
  cases Route.ofPath? (Target.ofText r.target).path with
  | none => rfl
  | some route =>
    simp only
    split
    · rfl
    · cases route.unescape? with
      | none => rfl
      | some route =>
        have hroute := answerRoute_eq now r (Target.ofText r.target).query route s
        simp only [StateT.run_bind, hroute]
        cases ofRoute r (Target.ofText r.target).query route <;> rfl

theorem feed_ofResult (result : Result Outcome) : (Response.ofResult result).feed = none := by
  cases result with
  | error failure => rfl
  | ok o => cases o <;> rfl

/-- A plan whose reply opens no feed opens none when it is carried out. -/
theorem feed_carryOut_checked (check : Except Refusal Unit) (c : Call) (r : Request)
    (hget : r.method = "GET") :
    (((checked check c).trim r).carryOut now r.trim s).1.feed = none := by
  have htrim (response : Response) : r.trim response = response := if_neg (by rw [hget]; decide)
  cases check with
  | error refusal =>
    show (r.trim _).feed = none
    rw [htrim]
    rfl
  | ok =>
    show (r.trim _).feed = none
    rw [htrim, feed_ofResult]

/-- **A feed is opened at the events only**, with the filter of the query. -/
theorem feed_answer (target : String) (s : State σ) :
    ((answer now { target }).run s).1.feed =
      if Route.ofPath? (Target.ofText target).path = some .events
      then some (.ofQuery (Target.ofText target).query) else none := by
  rw [answer_eq]
  simp only [ofRequest]
  cases Route.ofPath? (Target.ofText target).path with
  | none => rfl
  | some route =>
    cases route with
    | health => rfl
    | events => rfl
    | batch user => rfl
    | item user id =>
      simp only [Route.unescape?]
      cases Text.unescape? user with
      | none => rfl
      | some user' =>
        cases Text.unescape? id with
        | none => rfl
        | some id' => exact feed_carryOut_checked (checkItem user' id') _ { target } rfl
    | adminItem user id => rfl
    | adminItems => rfl

end Lemmas

end Plan

end Dismissal.Http

namespace Dismissal

/-- A session answers a request by carrying out what it comes to. -/
theorem Session.respond_eq (s : Session) (r : Http.Request) :
    s.respond r =
      let (response, state) := (Http.Plan.ofRequest r).carryOut s.clock r.trim ⟨s.bench, []⟩
      (response,
        { s with bench := state.store, channel := s.channel.sendAll state.published }) := by
  unfold respond perform
  rw [Http.Plan.answer_eq]

end Dismissal
