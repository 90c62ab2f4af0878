import Dismissal.Proofs.Http.Plan
import Dismissal.Proofs.Lifecycle.Blameless
import Dismissal.Proofs.Lifecycle.Refinement

/-!
# What is refused at the door

A request about items is checked before it reaches the service, and the service checks the same
identities once more. Both draw the same line (`checkItem_ok_iff`, `checkBatch_ok_iff`); the door
alone counts the items of a batch as well. A request that is refused at the door changes nothing,
and one that is let in is not told afterwards that an argument is invalid, if the store is in order
and nothing is made to go wrong with it.

* `Request.check?`: the check of a request, if it gets so far.
* `Plan.ofRequest_refused`, `Plan.ofRequest_admitted`: what a request comes to that is refused, and
  one that is not.
* `Session.door_agrees_with_service`: all of it, over all sessions.
-/

namespace Dismissal.Http

open Lifecycle (Call Outcome State exec)

section Checks

variable {user id : String} {ids : List String}

theorem checkIdentity_ok_iff {field value : String} :
    checkIdentity field value = .ok () ↔ Identity.Valid value := by
  rw [← Identity.flaw?_eq_none_iff]
  unfold checkIdentity
  split <;> simp_all

theorem checkItem_ok_iff :
    checkItem user id = .ok () ↔ Identity.Valid user ∧ Identity.Valid id := by
  unfold checkItem
  rw [both_ok_iff, checkIdentity_ok_iff, checkIdentity_ok_iff]

theorem checkBatch_ok_iff : checkBatch user ids = .ok () ↔
    ids.length ≤ Refusal.maxItems ∧ Identity.Valid user ∧ ∀ id ∈ ids, Identity.Valid id := by
  unfold checkBatch
  rw [both_ok_iff, checkIdentity_ok_iff]
  split
  · simp [Nat.not_le.2 ‹_›]
  · simp only [Nat.not_lt.1 ‹_›, true_and, forM_ok_iff, checkIdentity_ok_iff]

end Checks

/-! ## Requests -/

/-- The route that a request gets to, with the escapes in its parts replaced. -/
def Request.route? (r : Request) : Option Route :=
  match Route.ofPath? (Target.ofText r.target).path with
  | none => none
  | some route => if route.methods.contains r.method then route.unescape? else none

/-- The check of a request at a route. The one of a batch needs a body that can be read. -/
def Route.check? (r : Request) : Route → Option (Except Refusal Unit)
  | .batch user => match readBatch r with
    | .error _ => none
    | .ok asked => some (checkBatch user asked.ids)
  | .item user id => some (checkItem user id)
  | .adminItem user id => some (checkItem user id)
  | _ => none

/-- The check of a request, if it gets so far. -/
def Request.check? (r : Request) : Option (Except Refusal Unit) := r.route?.bind (Route.check? r)

/-- The code in a body, by which problems are told apart. -/
def Response.code? (response : Response) : Option String :=
  match response.body.bind fun body => body.get? "code" with
  | some (.text code) => some code
  | _ => none

section Codes

variable {r : Request} {response : Response}

theorem Response.code?_ofProblem (p : Problem) : (Response.ofProblem p).code? = some p.code := rfl

theorem Response.code?_ofResult_ok (o : Outcome) : (Response.ofResult (.ok o)).code? = none := by
  cases o <;> rfl

/-- A head has no code. -/
theorem Response.code?_headOnly (response : Response) : response.headOnly.code? = none := by
  unfold code? headOnly
  cases response.body <;> rfl

theorem Request.code?_trim {code : String} (h : response.code? ≠ some code) :
    (r.trim response).code? ≠ some code := by
  unfold trim
  split
  · rw [Response.code?_headOnly]
    exact nofun
  · exact h

/-- Only a failure for an invalid argument is answered as one. -/
theorem Response.blames_of_code? {result : Result Outcome}
    (h : (Response.ofResult result).code? = some "invalid_argument") : Blames result := by
  cases result with
  | ok o =>
    rw [code?_ofResult_ok] at h
    cases h
  | error e =>
    have hcode : e.code = "invalid_argument" := Option.some.inj h
    cases e with
    | invalidArgument reason => exact ⟨reason, rfl⟩
    | _ => simp [Failure.code] at hcode

end Codes

/-! ## Plans -/

namespace Plan

variable {r : Request} {route : Route} {query : Option (List Char)} {refusal : Refusal}

/-- What is not refused at the door: a reply that names no problem, or a call whose identities are
in order. -/
inductive Admitted : Plan → Prop where
  | reply {response : Response} : response.code? = none → Admitted (reply response)
  | call {c : Call} : c.check = .ok () → Admitted (call c)

theorem Admitted.trim {plan : Plan} (h : plan.Admitted) (r : Request) : (plan.trim r).Admitted := by
  cases h with
  | call hcheck => exact .call hcheck
  | @reply response hcode =>
    refine .reply ?_
    unfold Request.trim
    split
    · exact Response.code?_headOnly response
    · exact hcode

/-- A call is made after a check if the check implies its own. -/
theorem Admitted.checked {check : Except Refusal Unit} {c : Call}
    (h : ∀ refusal, check ≠ .error refusal) (hc : check = .ok () → c.check = .ok ()) :
    (Plan.checked check c).Admitted := by
  cases check with
  | error refusal => exact absurd rfl (h refusal)
  | ok => exact .call (hc rfl)

theorem itemCall_isAbout (method user id : String) : (itemCall method user id).IsAbout user id := by
  unfold itemCall
  split
  · exact .dismiss none
  · split
    · exact .restore none
    · exact .getOrCreate none

/-- What cannot be read as a batch is answered in plain text. -/
theorem readBatch_error {response : Response} (h : readBatch r = .error response) :
    response.code? = none := by
  unfold readBatch at h
  split at h
  · split at h
    · cases h
      rfl
    · split at h <;> cases h <;> rfl
  · cases h
    rfl

theorem ofRoute_refused (h : route.check? r = some (.error refusal)) :
    ofRoute r query route = .reply (.ofProblem (.refused refusal)) := by
  cases route with
  | batch user =>
    unfold Route.check? at h
    unfold ofRoute
    cases hbatch : readBatch r with
    | error response =>
      rw [hbatch] at h
      cases h
    | ok batch =>
      rw [hbatch] at h
      simp only [Option.some.inj h, Plan.checked]
  | item user id => simp only [ofRoute, Option.some.inj h, Plan.checked]
  | adminItem user id => simp only [ofRoute, Option.some.inj h, Plan.checked]
  | _ => cases h

theorem ofRoute_admitted (h : ∀ refusal, route.check? r ≠ some (.error refusal)) :
    (ofRoute r query route).Admitted := by
  have hone {user id : String} (h : checkItem user id = .ok ()) :
      Identity.checkAll user [id] = .ok () :=
    Identity.checkAll_one (checkItem_ok_iff.1 h).1 (checkItem_ok_iff.1 h).2
  cases route with
  | health => exact .reply rfl
  | events => exact .reply rfl
  | batch user =>
    unfold Route.check? at h
    unfold ofRoute
    cases hbatch : readBatch r with
    | error response => exact .reply (readBatch_error hbatch)
    | ok batch =>
      rw [hbatch] at h
      refine .checked (fun refusal hrefused => h refusal (congrArg some hrefused)) fun hok => ?_
      exact Identity.checkAll_eq_ok_iff.2 (checkBatch_ok_iff.1 hok).2
  | item user id =>
    refine .checked (fun refusal hrefused => h refusal (congrArg some hrefused)) fun hok => ?_
    rw [(itemCall_isAbout r.method user id).check_eq, hone hok]
  | adminItem user id =>
    exact .checked (fun refusal hrefused => h refusal (congrArg some hrefused)) hone
  | adminItems => exact .call rfl

/-- What a request comes to is what its route asks for, if it gets to one. -/
theorem ofRequest_routed (h : r.route? = some route) :
    ofRequest r = (ofRoute r (Target.ofText r.target).query route).trim r := by
  unfold Request.route? at h
  unfold ofRequest
  cases hpath : Route.ofPath? (Target.ofText r.target).path with
  | none =>
    rw [hpath] at h
    cases h
  | some found =>
    simp only [hpath] at h ⊢
    split at h
    · rename_i hmethod
      simp only [hmethod, h, Bool.not_true, Bool.false_eq_true, if_false]
    · cases h

/-- Without a route there is no problem to tell of. -/
theorem ofRequest_unrouted (h : r.route? = none) : (ofRequest r).Admitted := by
  unfold Request.route? at h
  unfold ofRequest
  cases hpath : Route.ofPath? (Target.ofText r.target).path with
  | none =>
    simp only [hpath]
    exact .reply rfl
  | some found =>
    simp only [hpath] at h ⊢
    split at h
    · rename_i hmethod
      simp only [hmethod, h, Bool.not_true, Bool.false_eq_true, if_false]
      exact .reply rfl
    · rename_i hmethod
      simp only [hmethod, Bool.not_false, if_true]
      exact .reply rfl

/-- **A request that is refused is answered without the service.** -/
theorem ofRequest_refused (h : r.check? = some (.error refusal)) :
    ofRequest r = .reply (r.trim (.ofProblem (.refused refusal))) := by
  obtain ⟨route, hroute, hcheck⟩ := Option.bind_eq_some_iff.1 h
  rw [ofRequest_routed hroute, ofRoute_refused hcheck]
  rfl

/-- **A request that is not refused makes a call that passes its check**, if it makes one. -/
theorem ofRequest_admitted (h : ∀ refusal, r.check? ≠ some (.error refusal)) :
    (ofRequest r).Admitted := by
  cases hroute : r.route? with
  | none => exact ofRequest_unrouted hroute
  | some route =>
    rw [ofRequest_routed hroute]
    refine Admitted.trim (ofRoute_admitted fun refusal hrefused => h refusal ?_) r
    unfold Request.check?
    rw [hroute]
    exact hrefused

end Plan

end Dismissal.Http

namespace Dismissal

open Lifecycle (Call State)

/-- A call that does not pass its check is answered that an argument is invalid, and has no
effect. -/
theorem Lifecycle.Call.perform_blamed {σ : Type} [Store σ] {c : Call} (h : c.check ≠ .ok ())
    (now : Instant) (s : State σ) : Blames (c.perform now s).1 ∧ (c.perform now s).2 = s := by
  have hrefused {user : String} {ids : List String} (h : Identity.checkAll user ids ≠ .ok ()) :
      Blames (Identity.checkAll user ids) := by
    rw [Identity.checkAll_eq] at h ⊢
    split at h
    · exact ⟨_, rfl⟩
    · exact absurd rfl h
  have hblames : Blames c.check := by
    cases c with
    | reset => exact absurd rfl h
    | _ => exact hrefused h
  obtain ⟨reason, hreason⟩ := hblames
  rw [Call.perform_refused hreason]
  exact ⟨⟨reason, rfl⟩, rfl⟩

namespace Session

open Http (Plan Refusal Response checkBatch checkItem)

/-- No fault is queued, and the backend is in order. -/
structure InOrder (s : Session) : Prop where
  faultless : s.bench.inner.faults = []
  consistent : s.bench.backend.Consistent

variable {s : Session} {r : Http.Request}

/-- In a session that is in order, a call that passes its check blames nobody. -/
theorem InOrder.spares (h : s.InOrder) {c : Call} (hcheck : c.check = .ok ()) :
    ¬Blames (c.perform s.clock ⟨s.bench, []⟩).1 :=
  Call.spares Backend.accepting.timed.faulty.timed hcheck s.clock ⟨s.bench, []⟩
    ⟨h.consistent.readable, h.faultless⟩

/-- A request that is refused at the door leaves the session as it is. -/
theorem respond_refused {refusal : Refusal} (h : r.check? = some (.error refusal)) :
    s.respond r = (r.trim (.ofProblem (.refused refusal)), s) := by
  rw [respond_eq, Plan.ofRequest_refused h]
  rfl

/-- A request that is let in is not told of an invalid argument by a session in order. -/
theorem InOrder.respond_admitted (h : s.InOrder)
    (hadmitted : ∀ refusal, r.check? ≠ some (.error refusal)) :
    (s.respond r).1.code? ≠ some "invalid_argument" := by
  have hplan := Plan.ofRequest_admitted hadmitted
  rw [respond_eq]
  cases hrequest : Plan.ofRequest r with
  | reply response =>
    rw [hrequest] at hplan
    cases hplan with
    | reply hcode =>
      show response.code? ≠ _
      rw [hcode]
      exact nofun
  | call c =>
    rw [hrequest] at hplan
    cases hplan with
    | call hcheck =>
      exact Http.Request.code?_trim fun hcode => h.spares hcheck (Response.blames_of_code? hcode)

/-- **The door and the service draw the same line, and what is refused has no effect.** The check of
a request about one item is passed exactly if the check of each call about it is, and if an item can
be made of the identities; that of a batch exactly if it has at most 100 items and the check of its
call is passed. A call that does not pass its check is answered that an argument is invalid, and
changes nothing; one that passes it is not answered so by a session in order. A request that is
refused at the door is answered that an argument is invalid as well, and leaves the whole session as
it is. A request that is let in makes only calls that pass their check, and is not answered so by a
session in order. -/
theorem door_agrees_with_service :
    (∀ user id,
      (∀ c : Call, c.IsAbout user id → (checkItem user id = .ok () ↔ c.check = .ok ())) ∧
        ∀ created dismissed, (∃ item, Item.create id user created dismissed = .ok item) ↔
          checkItem user id = .ok () ∧ ∀ at_ ∈ dismissed, created ≤ at_) ∧
      (∀ user ids context, checkBatch user ids = .ok () ↔
        ids.length ≤ 100 ∧ (Call.getOrCreateMany user ids context).check = .ok ()) ∧
      (∀ (s : Session) (c : Call),
        (c.check ≠ .ok () → Blames (c.perform s.clock ⟨s.bench, []⟩).1 ∧
          (c.perform s.clock ⟨s.bench, []⟩).2 = ⟨s.bench, []⟩) ∧
        (s.InOrder → c.check = .ok () → ¬Blames (c.perform s.clock ⟨s.bench, []⟩).1)) ∧
      (∀ (s : Session) (r : Http.Request) (refusal : Refusal), r.check? = some (.error refusal) →
        let response := Response.ofProblem (.refused refusal)
        s.respond r = (r.trim response, s) ∧ (r.trim response).status = 400 ∧
          response.code? = some "invalid_argument") ∧
      ∀ (s : Session) (r : Http.Request), s.InOrder →
        (∀ refusal, r.check? ≠ some (.error refusal)) →
          (s.respond r).1.code? ≠ some "invalid_argument" ∧
            ∀ c, Plan.ofRequest r = .call c → c.check = .ok () := by
  refine ⟨fun user id => ⟨fun c habout => ?_, fun created dismissed => ?_⟩,
    fun user ids context => ?_,
    fun s c => ⟨fun hcheck => c.perform_blamed hcheck s.clock _, fun h => h.spares⟩,
    fun s r refusal h => ⟨respond_refused h, ?_, Response.code?_ofProblem _⟩,
    fun s r h hadmitted => ⟨h.respond_admitted hadmitted, fun c hplan => ?_⟩⟩
  · rw [habout.check_eq, Http.checkItem_ok_iff, Identity.checkAll_eq_ok_iff,
      List.forall_mem_singleton]
  · rw [Item.create_eq_ok_iff, Http.checkItem_ok_iff]
    exact ⟨fun h => ⟨⟨h.2.1, h.1⟩, h.2.2⟩, fun h => ⟨h.1.2, h.1.1, h.2⟩⟩
  · rw [Http.checkBatch_ok_iff, ← Identity.checkAll_eq_ok_iff]
    rfl
  · unfold Http.Request.trim
    split <;> rfl
  · have hcall := Plan.ofRequest_admitted hadmitted
    rw [hplan] at hcall
    cases hcall with
    | call hcheck => exact hcheck

/-- A service over an empty cache. -/
def overCache : Session where
  setup := { place := .memory 2 (.ofMillis 1000) none, disk := ⟨[], [], []⟩ }
  clock := .origin
  bench := ⟨{ inner := ⟨.cache (Cache.ofLimits 2 (.ofMillis 1000)), none⟩ }, none⟩
  channel := .ofCapacity 1

theorem overCache_inOrder : overCache.InOrder where
  faultless := rfl
  consistent := {
    intact := .cache (Cache.orderly_ofLimits 2 (.ofMillis 1000))
    kept := by
      rintro c hcache
      cases hcache
      exact Cache.kept_ofLimits 2 (.ofMillis 1000) }

/-- An item with a bad name is refused at the door, one with a good name is not told off. -/
theorem door_agrees_with_service_overCache :
    let asked (target : String) : Http.Request := { target }
    overCache.respond (asked "/v1/users/u/items/a%21") =
        (.ofProblem (.refused (.invalidIdentity "itemId" .badCharacter)), overCache) ∧
      (overCache.respond (asked "/v1/users/u/items/a")).1.code? ≠ some "invalid_argument" := by
  intro asked
  have hrefused : (asked "/v1/users/u/items/a%21").check? =
      some (.error (.invalidIdentity "itemId" .badCharacter)) := by decide +kernel
  have hadmitted : (asked "/v1/users/u/items/a").check? = some (.ok ()) := by decide +kernel
  refine ⟨(door_agrees_with_service.2.2.2.1 overCache _ _ hrefused).1,
    (door_agrees_with_service.2.2.2.2 overCache _ overCache_inOrder fun refusal h => ?_).1⟩
  rw [hadmitted] at h
  cases h

end Session

end Dismissal
