import Dismissal.Store.Address

/-!
# Locations of tables

A `Location` is what the name of a file comes down to: a path, the system of files that it belongs
to, and what may be done there. `Location.ofName?` reads names. One that starts with `file:` is a
locator: it may name a host, which can only be this one, before the path, has options behind a
question mark, and drops what stands behind a hash. Escapes are replaced in each part by itself, and
a zero among them ends the part. Any other name is a path as it stands.

An option can take rights away that the address gives, but not add to them.
-/

namespace Dismissal

/-- What may be done with a file; each kind of access includes those before it. -/
inductive Access where
  | read
  | write
  | create
  deriving DecidableEq, Repr

namespace Access

/-- The place of a kind of access among the others. -/
def rank : Access → Nat
  | read => 0
  | write => 1
  | create => 2

end Access

/-- Where a table is found, and what may be done there. A `model` is a path whose rights the file
gets. -/
structure Location where
  path : String
  access : Access
  inMemory : Bool := false
  immutable : Bool := false
  unlocked : Bool := false
  system : String := "unix"
  model : Option String := none
  deriving DecidableEq, Repr

namespace Location

/-! ## Locators -/

/-- What stands behind the host of a locator, if there is none or it is this one. -/
def dropHost? : List Char → Option (List Char)
  | '/' :: '/' :: rest =>
    match String.ofList (Text.before '/' rest) with
    | "" => some rest
    | "localhost" => some (rest.drop 9)
    | _ => none
  | rest => some rest

/-- The text of a part of a locator. Bytes that are no text count one by one. -/
def partText (cs : List Char) : String :=
  let bytes := (Text.unescapeBytes (Bytes.ofText (String.ofList cs))).takeWhile (· != 0)
  (Bytes.text? bytes).getD (String.ofList (bytes.map fun b => Char.ofNat b.toNat))

/-- The options of a locator; one without a name does not count, one without a value has an empty
one. -/
def optionsOf (cs : List Char) : List (String × String) :=
  let fields := (Text.splitOn '&' cs).map fun field =>
    let (name, value) := (Text.splitOnce '=' field).getD (field, [])
    (partText name, partText value)
  fields.filter (·.1 != "")

/-- The location with a kind of access that it allows. A table in memory allows all of them, and is
then one in a file. -/
def withAccess? (l : Location) (access : Access) : Option Location :=
  if l.inMemory || access.rank ≤ l.access.rank then some { l with access, inMemory := false }
  else none

/-- Reads one option; those that are not known do not count. -/
def withOption? (l : Location) : String × String → Option Location
  | ("vfs", system) => some { l with system }
  | ("mode", "ro") => l.withAccess? .read
  | ("mode", "rw") => l.withAccess? .write
  | ("mode", "rwc") => l.withAccess? .create
  | ("mode", "memory") => some { l with access := .create, inMemory := true }
  | ("mode", _) => none
  | ("cache", "shared") => some l
  | ("cache", "private") => some l
  | ("cache", _) => none
  | _ => some l

/-- Appends the leading digits of bytes to a number, in a number system with a given base. -/
def appendDigits (base n : Nat) : Bytes → Nat
  | [] => n
  | b :: rest => match Bytes.hexValue? b with
    | none => n
    | some d => if d < base then appendDigits base (n * base + d) rest else n

/-- The largest number that the value of an option can be. -/
def maxNumber : Nat := 2147483647

/-- The number that a value begins with, which is hexadecimal behind `0x`; none that is too large
counts. -/
def numberOf (value : Bytes) : Nat :=
  let n := match value with
    | 0x30 :: 0x78 :: rest => appendDigits 16 0 rest
    | 0x30 :: 0x58 :: rest => appendDigits 16 0 rest
    | _ => appendDigits 10 0 value
  if n ≤ maxNumber then n else 0

/-- Whether the value of an option is true: a number whose lowest byte is not zero, or a word for
it. -/
def isTrue (value : String) : Bool :=
  if (value.toList.take 1).any Char.isDigit then numberOf (Bytes.ofText value) % 256 != 0
  else ["on", "yes", "true"].contains (String.ofList (value.toList.map Char.toLower))

/-- Whether an option is there and true. The first one of a name counts. -/
def isSet (options : List (String × String)) (name : String) : Bool :=
  ((options.lookup name).map isTrue).getD false

/-- Reads a locator behind its `file:`. -/
def ofLocator? (access : Access) (inMemory : Bool) (cs : List Char) : Option Location := do
  let cs := Text.before '#' (← dropHost? cs)
  let (path, options) := (Text.splitOnce '?' cs).getD (cs, [])
  let options := optionsOf options
  let l : Location := { path := partText path, access, inMemory }
  let l ← options.foldlM withOption? l
  some { l with
    immutable := isSet options "immutable"
    unlocked := isSet options "nolock"
    model := options.lookup "modeof" }

/-! ## Names -/

/-- The systems of files that are known. -/
def systems : List String := ["unix", "unix-excl", "unix-dotfile", "unix-none", "memdb"]

/-- Reads the name of a file. No name holds a zero, and its system must be known. -/
def ofName? (access : Access) (inMemory : Bool) (name : String) : Option Location := do
  if name.toList.contains '\x00' then none
  let l ← match Text.dropHead? "file:".toList name.toList with
    | some rest => ofLocator? access inMemory rest
    | none => some { path := name, access, inMemory }
  if systems.contains l.system then some l else none

/-- The location that an address leads to. -/
def ofAddress? (a : Address) : Option Location :=
  ofName? (if a.readOnly then .read else .create) a.inMemory a.fileName

/-- Whether a location is a file of its system, and not merely some memory. -/
def isFile (l : Location) : Bool := !l.inMemory && l.path != "" && l.path != ":memory:"

/-- Whether a table stays at a location when nobody uses it. -/
def isLasting (l : Location) : Bool := l.isFile && l.system != "memdb"

/-- Whether a table at a location cannot be changed. -/
def isFrozen (l : Location) : Bool := l.access = .read || (l.isFile && l.immutable)

/-- Whether tables can be opened whose latest changes stand in a log beside them. -/
def readsLogs (l : Location) : Bool :=
  l.immutable || (!l.unlocked && l.system != "unix-none" && l.system != "unix-dotfile")

/-- Whether the users of a table at a location share the index of its log. -/
def sharesIndex (l : Location) : Bool := l.system == "unix" && !l.unlocked

end Location

end Dismissal
