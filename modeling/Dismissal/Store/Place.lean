import Dismissal.Settings
import Dismissal.Store.Backend
import Dismissal.Store.TableFile
import Dismissal.Store.TreeFolder

/-!
# Places

A `Place` says where a backend is found and how it is limited. `Place.start` finds out whether a
disk has room for the backend and opens it with what was there before, its `Seed`. `Place.restart`
is what is left of a backend when the service ends and starts again: a cache is empty, and so is a
table that is kept nowhere.
-/

namespace Dismissal

/-- Where a backend is found. A table is waited for with some patience, in milliseconds. -/
inductive Place where
  | memory (capacity : Nat) (lifetime : Span) (sweep : Option Nat)
  | tree (path : String)
  | table (url : String) (patience : Nat)
  deriving DecidableEq, Repr

namespace Place

/-- The place that settings ask for. -/
def ofStorage : Storage → Place
  | .memory maxItems ttl sweep => memory maxItems (Span.ofMillis ttl) sweep
  | .tree path _ => tree path
  | .table url timeout => table url timeout

/-- What was there before a backend was opened: the rows of a tree, and the rows of a table at the
path of its file, where `..` does not stand. -/
structure Seed where
  tree : List (Bytes × Bytes) := []
  table : Option (Path × TableFile.Rows) := none

/-- The disk with the file of the table. -/
def Seed.fill (seed : Seed) (d : Disk) : Disk :=
  (seed.table.map fun (file, _) => d.withFile file).getD d

/-! ## Tables -/

/-- Makes the folder of a table, unless its address looks like one of a table kept nowhere. -/
def tableFolder (d : Disk) (url : String) : Result Disk :=
  if Address.mentionsMemory url then .ok d
  else match Address.databasePath? url with
    | none => .ok d
    | some path => match d.makeParent path with
      | some d => .ok d
      | none => .error (.unavailable ("Failed to create database directory for " ++ path))

/-- The failure of waiting for a table. -/
def tableTimeout : Failure := .timeout "Timed out waiting for a SQLite connection"

/-- The failure of opening a table. -/
def tableFailure (reason : String) : Failure := .unavailable ("SQLite error: " ++ reason)

/-- The longest patience that a table knows, in milliseconds. -/
def maxPatience : Nat := 2147483647

/-- Opens a table. Its file is on the disk already, if there is one. -/
def openTable (d : Disk) (seed : Seed) (url : String) (patience : Nat) : Result Table := do
  let d ← tableFolder d url
  match Address.ofText? url with
  | none => .error (.invalidArgument ("Invalid SQLite URL '" ++ url ++ "'"))
  | some address =>
    if patience = 0 then .error tableTimeout
    else if maxPatience < patience then .error (tableFailure "the time limit is too long")
    else match Location.ofAddress? address with
      | none => .error (tableFailure "there is no such location")
      | some l => match TableFile.openAt? d seed.table l with
        | none => .error (tableFailure "unable to open the database file")
        | some t => .ok t

/-- Whether a table stays at an address when nobody uses it, and is found there again. -/
def keepsTable (url : String) : Bool :=
  (Address.ofText? url).any fun address => address.path != Address.memoryName &&
    (Location.ofAddress? address).any (·.isLasting)

/-! ## Backends -/

/-- The cache of a place in memory. -/
def freshCache (capacity : Nat) (lifetime : Span) (sweep : Option Nat) : Cache :=
  (Cache.ofLimits capacity lifetime).startSweep (sweep.getD 0)

/-- Opens the backend of a place. -/
def start (d : Disk) (seed : Seed) : Place → Result Backend
  | memory capacity lifetime sweep => .ok (.cache (freshCache capacity lifetime sweep))
  | tree path => do
    TreeFolder.claim d path
    .ok (.tree (Tree.ofRows seed.tree))
  | table url patience => do .ok (.table (← openTable (seed.fill d) seed url patience))

/-- What a backend is after the end and the next start of the service. -/
def restart (place : Place) (b : Backend) : Backend :=
  match place, b with
  | memory capacity lifetime sweep, _ => .cache (freshCache capacity lifetime sweep)
  | _, .tree t => .tree t.reopen
  | table url _, .table t => .table (if keepsTable url then t.reopen else {})
  | _, b => b

end Place

end Dismissal
