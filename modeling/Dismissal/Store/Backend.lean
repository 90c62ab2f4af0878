import Dismissal.Cache.Basic
import Dismissal.Store.Table
import Dismissal.Store.Tree

/-!
# Backends

A `Backend` is one of the three kinds of store. Whatever is asked of it is asked of that store.
-/

namespace Dismissal

/-- A store of one of the three kinds. -/
inductive Backend where
  | cache (c : Cache)
  | tree (t : Tree)
  | table (t : Table)

namespace Backend

/-- Answers a request. -/
def serve (now : Instant) (request : Request) : Backend → Result request.Answer × Backend
  | cache c =>
    let (answer, c) := Store.serve now request c
    (answer, cache c)
  | tree t =>
    let (answer, t) := Store.serve now request t
    (answer, tree t)
  | table t =>
    let (answer, t) := Store.serve now request t
    (answer, table t)

/-- Lets time pass. -/
def pass (now : Instant) (ms : Nat) : Backend → Backend
  | cache c => cache (c.pass now ms)
  | tree t => tree t
  | table t => table t

instance : Store Backend where
  serve := serve
  latency _ := 0
  pass := pass

/-- Does what is due right now, when everybody else is done. -/
def settle (now : Instant) : Backend → Backend
  | cache c => cache (c.settle now)
  | tree t => tree t
  | table t => table t

/-- A line about the backend for people who look into the service. -/
def describe : Backend → String
  | cache c => c.describe
  | tree t => t.describe
  | table t => t.describe

end Backend

end Dismissal
