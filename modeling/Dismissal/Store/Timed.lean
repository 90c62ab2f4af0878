import Dismissal.Store.Basic
import Dismissal.Text.Digits

/-!
# Time limits

A `Timed` store gives up on a request that takes longer than its limit. A request that is given up
has not reached the store behind it; one that takes just as long as the limit is answered.
-/

namespace Dismissal

/-- A store with a limit in milliseconds, or without one. -/
structure Timed (σ : Type) where
  inner : σ
  limit : Option Nat

namespace Timed

variable {σ : Type} [Store σ]

/-- The failure of a request that was given up. -/
def expired (method : Method) (ms : Nat) : Failure :=
  .timeout (method.name ++ " did not complete within " ++ Text.decimal ms ++ "ms")

/-- Hands a request on to the store behind the limit. -/
def forward (now : Instant) (request : Request) (t : Timed σ) : Result request.Answer × Timed σ :=
  let (answer, inner) := Store.serve now request t.inner
  (answer, { t with inner })

/-- Answers a request. -/
def serve (now : Instant) (request : Request) (t : Timed σ) : Result request.Answer × Timed σ :=
  match t.limit with
  | none => t.forward now request
  | some ms =>
    if ms < Store.latency t.inner then
      (.error (expired request.method ms), { t with inner := Store.pass now ms t.inner })
    else t.forward now request

instance : Store (Timed σ) where
  serve := serve
  latency t := (t.limit.map fun ms => min ms (Store.latency t.inner)).getD (Store.latency t.inner)
  pass now ms t := { t with inner := Store.pass now ms t.inner }

end Timed

end Dismissal
