import Dismissal.Text.Percent

/-!
# Addresses of tables

An address tells where a table is kept: `sqlite://` or `sqlite:`, the path of a file, and options
behind a question mark. The path `:memory:` and the option `mode=memory` name a table that is kept
nowhere.

Two questions are answered from the text of an address alone, without reading it properly:
`mentionsMemory` is true if it looks like an address of a table that is kept nowhere, and
`databasePath?` is the path as it stands there. `Address.ofText?` reads an address: escapes in the
path are replaced, and unknown options refused. `Address.fileName` is the name of the file under
which the table is then looked for.
-/

namespace Dismissal

/-- Where a table is kept, and how it is opened. -/
structure Address where
  path : String
  inMemory : Bool := false
  readOnly : Bool := false
  immutable : Bool := false
  system : Option String := none
  deriving DecidableEq, Repr

namespace Address

/-- The longer of the two ways in which an address can begin. -/
def longHead : List Char := "sqlite://".toList

/-- The shorter of the two ways in which an address can begin. -/
def shortHead : List Char := "sqlite:".toList

/-- Whether a text looks like the address of a table that is kept nowhere. -/
def mentionsMemory (url : String) : Bool :=
  Text.occursIn ":memory:".toList url.toList || Text.occursIn "mode=memory".toList url.toList

/-- What stands in a text behind the beginning of an address, if it begins as one. -/
def afterHead? (url : String) : Option (List Char) :=
  (Text.dropHead? longHead url.toList).or (Text.dropHead? shortHead url.toList)

/-- The path in an address as it stands there, if it begins as an address does. -/
def databasePath? (url : String) : Option String :=
  match (afterHead? url).map (Text.before '?') with
  | none => none
  | some [] => none
  | some path => some (String.ofList path)

/-- Reads one option. -/
def withOption (a : Address) : Option String × Option String → Option Address
  | (some "mode", some "ro") => some { a with readOnly := true }
  | (some "mode", some "rw") => some a
  | (some "mode", some "rwc") => some a
  | (some "mode", some "memory") => some { a with inMemory := true }
  | (some "cache", some "private") => some a
  | (some "cache", some "shared") => some a
  | (some "immutable", some "true") => some { a with immutable := true }
  | (some "immutable", some "1") => some { a with immutable := true }
  | (some "immutable", some "false") => some { a with immutable := false }
  | (some "immutable", some "0") => some { a with immutable := false }
  | (some "vfs", some system) => some { a with system := some system }
  | (some "vfs", none) => some { a with system := some "\ufffd" }
  | _ => none

/-- The name of the file that a table in memory would be in. A real name is never used twice. -/
def memoryName : String := "file:in-memory"

/-- The address without options that has a given path. -/
def ofPath? (path : String) : Option Address :=
  if path = ":memory:" then some { path := memoryName, inMemory := true }
  else (Text.unescape? path).map fun path => { path }

/-- Reads an address. -/
def ofText? (url : String) : Option Address := do
  let rest := Text.dropHeads shortHead (Text.dropHeads longHead url.toList)
  let (path, options) := (Text.splitOnce '?' rest).getD (rest, [])
  (Text.formFields options).foldlM withOption (← ofPath? (String.ofList path))

/-- The options of an address that belong to the name of the file. -/
def nameOptions (a : Address) : List String :=
  (if a.immutable then ["immutable=true"] else []) ++ (a.system.map ("vfs=" ++ ·)).toList

/-- The name of the file: its path, or a locator if there are options to go with it. In a locator
the path is escaped, the options stand as they are. -/
def fileName (a : Address) : String :=
  if a.nameOptions.isEmpty then a.path
  else "file:" ++ Text.escape a.path ++ "?" ++ "&".intercalate a.nameOptions

end Address

end Dismissal
