import Dismissal.Store.Basic

/-!
# Injected faults

A `Faulty` store takes a while over each request and has faults queued for some of them. A request
first lets the delay pass, then takes the oldest fault queued for its kind, if there is one, and
then goes to the store behind. A fault that makes no sense for a request does nothing but leave the
queue.
-/

namespace Dismissal

/-- What can be made to go wrong with one request. -/
inductive Fault where
  /-- The request fails and does not reach the store. -/
  | fail (failure : Failure)
  /-- A look finds nothing and does not reach the store. -/
  | hide
  /-- The store does as it is asked, and a failure is answered in place of a success. -/
  | failAfter (failure : Failure)
  /-- The last item of a batch is left out of the answer. -/
  | dropLast
  /-- Nothing goes wrong. -/
  | pass
  deriving DecidableEq, Repr

namespace Fault

/-- The answer that hides what is there, for the requests that look. -/
def nothing : (request : Request) → Option request.Answer
  | .get _ _ => some none
  | .getMany _ _ => some ∅
  | _ => none

/-- The answer without its last item, for the creation of a batch. -/
def shorten : (request : Request) → request.Answer → request.Answer
  | .createMany _, items => items.dropLast
  | .get _ _, answer => answer
  | .getMany _ _, answer => answer
  | .create _, answer => answer
  | .update _, answer => answer
  | .delete _ _, answer => answer
  | .deleteAll, answer => answer

/-- What a fault makes of a request that `run` answers. -/
def apply {σ : Type} (fault : Fault) (request : Request) (run : σ → Result request.Answer × σ)
    (s : σ) : Result request.Answer × σ :=
  match fault with
  | fail failure => (.error failure, s)
  | hide => match nothing request with
    | some answer => (.ok answer, s)
    | none => run s
  | failAfter failure => match run s with
    | (.ok _, s) => (.error failure, s)
    | failed => failed
  | dropLast => match run s with
    | (.ok answer, s) => (.ok (shorten request answer), s)
    | failed => failed
  | pass => run s

end Fault

/-- Faults in the order in which they were queued, each for a kind of request. -/
abbrev Faults := List (Method × Fault)

namespace Faults

/-- The oldest fault for a kind of request, and the queue without it. -/
def take (method : Method) : Faults → Option Fault × Faults
  | [] => (none, [])
  | (m, fault) :: rest =>
    if m = method then (some fault, rest)
    else
      let (found, rest) := take method rest
      (found, (m, fault) :: rest)

end Faults

/-- A store behind a delay in milliseconds and a queue of faults. `elapsed` counts the milliseconds
that have passed so far. -/
structure Faulty (σ : Type) where
  inner : σ
  delay : Nat := 0
  faults : Faults := []
  elapsed : Nat := 0

namespace Faulty

variable {σ : Type} [Store σ]

/-- Lets time pass. -/
def pass (now : Instant) (ms : Nat) (f : Faulty σ) : Faulty σ :=
  { f with inner := Store.pass now ms f.inner, elapsed := f.elapsed + ms }

/-- Answers a request. -/
def serve (now : Instant) (request : Request) (f : Faulty σ) : Result request.Answer × Faulty σ :=
  let f := if f.delay = 0 then f else f.pass now f.delay
  match f.faults.take request.method with
  | (none, _) =>
    let (answer, inner) := Store.serve now request f.inner
    (answer, { f with inner })
  | (some fault, faults) =>
    let (answer, inner) := fault.apply request (Store.serve now request) f.inner
    (answer, { f with inner, faults })

instance : Store (Faulty σ) where
  serve := serve
  latency f := f.delay
  pass := pass

end Faulty

end Dismissal
