import Dismissal.Disk.Path
import Dismissal.Text.Blank
import Dismissal.Text.Digits

/-!
# Settings

The service is set up by variables, each a text under a name. `Settings.ofLookup` gives the settings
of any source of variables. A number that is missing or no number counts as its default, and so does
an unknown backend; blanks around numbers and backend names do not count, nor does the case of a
backend name.
-/

namespace Dismissal

namespace Text

/-- The text with the letters of ASCII in lower case. No other letter has a lower case that stands
in the name of a backend. -/
def lowerCase (s : String) : String := String.ofList (s.toList.map Char.toLower)

end Text

/-- Where items are kept. Times are in milliseconds. -/
inductive Storage where
  | memory (maxItems ttl : Nat) (sweep : Option Nat)
  | tree (path : String) (timeout : Nat)
  | table (url : String) (timeout : Nat)
  deriving DecidableEq, Repr

namespace Storage

/-- The name under which a backend is chosen. -/
def name : Storage → String
  | memory .. => "memory"
  | tree .. => "sled"
  | table .. => "sqlite"

/-- The milliseconds that a call may take, if there is a limit. -/
def limit? : Storage → Option Nat
  | memory .. => none
  | tree _ timeout => some timeout
  | table _ timeout => some timeout

/-- Room for 5000 items, each for six hours, never swept. -/
def memoryDefault : Storage := memory 5000 21600000 none

end Storage

/-- How the service is set up. -/
structure Settings where
  host : String
  port : Nat
  storage : Storage
  eventBuffer : Nat
  deriving DecidableEq, Repr

namespace Settings

/-- The largest number of 16 bits. -/
def max16 : Nat := 65535

/-- The largest number of 64 bits. -/
def max64 : Nat := 18446744073709551615

/-- The number under a name, or its default. -/
def numberOr (lookup : String → Option String) (name : String) (limit default : Nat) : Nat :=
  match lookup name with
  | none => default
  | some raw => (Text.whole? limit (Text.trim raw).toList).getD default

/-- The directory for data on disk. -/
def dataDir (lookup : String → Option String) : String :=
  (lookup "DISMISSIBLE_DATA_DIR").getD "./data"

/-- The milliseconds that a call on a disk backend may take. -/
def storeTimeout (lookup : String → Option String) : Nat :=
  numberOr lookup "DISMISSIBLE_STORE_TIMEOUT_MS" max64 5000

/-- The address of the database if none is given. -/
def defaultUrl (dir : String) : String := "sqlite://" ++ dir ++ "/items.db"

/-- The backend that the variables choose. -/
def storageOf (lookup : String → Option String) : Storage :=
  match Text.lowerCase (Text.trim ((lookup "DISMISSIBLE_STORAGE").getD "memory")) with
  | "sled" => .tree (Path.join (dataDir lookup) "items.sled") (storeTimeout lookup)
  | "sqlite" =>
    .table ((lookup "DISMISSIBLE_SQLITE_URL").getD (defaultUrl (dataDir lookup)))
      (storeTimeout lookup)
  | _ =>
    let sweep := numberOr lookup "DISMISSIBLE_CACHE_SWEEP_MS" max64 0
    .memory (numberOr lookup "DISMISSIBLE_CACHE_MAX_ITEMS" max64 5000)
      (numberOr lookup "DISMISSIBLE_CACHE_TTL_MS" max64 21600000)
      (if sweep = 0 then none else some sweep)

/-- The settings that the variables give. -/
def ofLookup (lookup : String → Option String) : Settings where
  host := (lookup "DISMISSIBLE_HOST").getD "0.0.0.0"
  port := numberOr lookup "DISMISSIBLE_HTTP_PORT" max16 8080
  storage := storageOf lookup
  eventBuffer := numberOr lookup "DISMISSIBLE_EVENT_BUFFER" max64 1000

/-- The address to listen on. -/
def bindAddress (s : Settings) : String := s.host ++ ":" ++ Text.decimal s.port

end Settings

end Dismissal
