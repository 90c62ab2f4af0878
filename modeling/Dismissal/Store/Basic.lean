import Dismissal.Item
import Std.Data.ExtTreeMap

/-!
# Stores

A store keeps items under their user and item identities. It is asked by a `Request`, whose type
fixes the type of the answer, and it is a state that every request may change: `Store.serve` gives
the answer, or a failure, and the next state. A failure leaves a state behind as well.

`Store.latency` is how long a store takes over each request, and `Store.pass` is what it does by
itself while time passes; the clock that the items' instants come from need not move with that time.
-/

namespace Dismissal

/-- Items by their identity. -/
abbrev Found := Std.ExtTreeMap String Item

/-- What a store can be asked for. -/
inductive Request where
  | get (user id : String)
  | getMany (user : String) (ids : List String)
  | create (item : Item)
  | createMany (items : List Item)
  | update (item : Item)
  | delete (user id : String)
  | deleteAll
  deriving DecidableEq

/-- The kinds of requests. -/
inductive Method where
  | get
  | getMany
  | create
  | createMany
  | update
  | delete
  | deleteAll
  deriving DecidableEq, Repr

/-- The name of a kind of request. -/
def Method.name : Method → String
  | get => "get"
  | getMany => "get_many"
  | create => "create"
  | createMany => "create_many"
  | update => "update"
  | delete => "delete"
  | deleteAll => "delete_all"

/-- The kind of request with a given name. -/
def Method.ofName? (name : String) : Option Method :=
  [get, getMany, create, createMany, update, delete, deleteAll].find? (·.name == name)

namespace Request

/-- What a store answers to a request if nothing fails. -/
abbrev Answer : Request → Type
  | get _ _ => Option Item
  | getMany _ _ => Found
  | create _ => Item
  | createMany _ => List Item
  | update _ => Item
  | delete _ _ => Unit
  | deleteAll => Unit

/-- The kind of a request. -/
def method : Request → Method
  | get _ _ => .get
  | getMany _ _ => .getMany
  | create _ => .create
  | createMany _ => .createMany
  | update _ => .update
  | delete _ _ => .delete
  | deleteAll => .deleteAll

end Request

/-- States that answer requests. The instant is the reading of the clock, `ms` counts milliseconds
of passing time. -/
class Store (σ : Type) where
  serve : Instant → (request : Request) → σ → Result request.Answer × σ
  latency : σ → Nat
  pass : Instant → (ms : Nat) → σ → σ

end Dismissal
