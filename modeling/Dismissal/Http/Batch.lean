import Dismissal.Json.Shape

/-!
# The body of a batch request

A batch request is an object with the list `itemIds` and, if it likes, a `context` of any value; or
a list of the two. Neither member may be there twice, other members are skipped, and a context of
null is none.
-/

namespace Dismissal.Http

open Json (Reader Flaw)

/-- What a batch request asks for. -/
structure Batch where
  ids : List String
  context : Option Json
  deriving Inhabited

namespace Batch

open Json.Reader

/-- The members of a batch request that were read so far. -/
structure Draft where
  ids : Option (List String) := none
  context : Option (Option Json) := none

/-- A context, which is inside of one container already. -/
def anyContext : Reader (Option Json) := fun bs =>
  optional (value false (bs.length + 1) (maxDepth - 1)) bs

/-- Reads one member. -/
def member (d : Draft) (name : String) : Reader Draft := fun bs =>
  match name with
  | "itemIds" =>
    (once d.ids (listOf text) bs).map fun (v, bs) => ({ d with ids := some v }, bs)
  | "context" =>
    (once d.context anyContext bs).map fun (v, bs) => ({ d with context := some v }, bs)
  | _ => do
    let bs ← skipValue (← colon bs)
    .ok (d, bs)

/-- The batch, if all members are there that must be. -/
def Draft.finish (d : Draft) : Except Flaw Batch :=
  match d.ids with
  | some ids => .ok ⟨ids, d.context.getD none⟩
  | none => .error .mismatched

/-- A batch request in either form. -/
def read : Reader Batch := fun bs =>
  match skipBlanks bs with
  | 0x7B :: rest => do
    let (d, rest) ← members false member (rest.length + 1) {} rest
    .ok (← d.finish, rest)
  | 0x5B :: rest => do
    let (ids, rest) ← element true (listOf text) rest
    match ← nextElement false rest with
    | none => .ok (⟨ids, none⟩, ← closeList rest)
    | some rest => do
      let (context, rest) ← anyContext rest
      .ok (⟨ids, context⟩, ← closeList rest)
  | bs => .error (mismatch bs)

/-- The batch request that the bytes are. -/
def ofBytes (bs : Bytes) : Except Flaw Batch := do finish (← read bs)

end Batch

end Dismissal.Http
