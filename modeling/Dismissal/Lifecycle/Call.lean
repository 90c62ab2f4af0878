import Dismissal.Lifecycle.Basic

/-!
# Calls

A `Call` is a request to the service as a value, with its arguments, and an `Outcome` is what it
answers. Two kinds of calls manage the store and tell nobody; the others belong to the lifecycle.

`Call.run` is the action of a call, and `Call.perform` runs it on a state.
-/

namespace Dismissal.Lifecycle

/-- A request to the service. -/
inductive Call where
  | getOrCreate (user id : String) (context : Option Json)
  | getOrCreateMany (user : String) (ids : List String) (context : Option Json)
  | dismiss (user id : String) (context : Option Json)
  | restore (user id : String) (context : Option Json)
  | deleteItem (user id : String)
  | reset

/-- What a call answers if it does not fail. -/
inductive Outcome where
  | presented (p : Presented)
  | batch (answers : List Presented)
  | transition (t : Transition)
  | done
  deriving DecidableEq

variable {σ : Type} [Store σ]

/-- The action of a call. -/
def Call.run (now : Instant) : Call → Action σ Outcome
  | getOrCreate user id context => do
    let p ← Lifecycle.getOrCreate now user id context
    pure (.presented p)
  | getOrCreateMany user ids context => do
    let answers ← Lifecycle.getOrCreateMany now user ids context
    pure (.batch answers)
  | dismiss user id context => do
    let t ← Lifecycle.dismiss now user id context
    pure (.transition t)
  | restore user id context => do
    let t ← Lifecycle.restore now user id context
    pure (.transition t)
  | deleteItem user id => do
    Lifecycle.deleteItem now user id
    pure .done
  | reset => do
    Lifecycle.reset now
    pure .done

/-- Runs a call on a state. -/
def Call.perform (now : Instant) (c : Call) (s : State σ) : Result Outcome × State σ :=
  (c.run now).run.run s

end Dismissal.Lifecycle
