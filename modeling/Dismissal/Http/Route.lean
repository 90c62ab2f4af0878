import Dismissal.Text.Percent

/-!
# Routes

A target is a path, perhaps a query behind a question mark, and perhaps a fragment behind a hash,
which is dropped. A scheme and a host may stand before the path and do not count. A `Route` is a
path that the service knows, with the users and the items that it names, as they stand in the path.
`methods` are the methods that a route answers to.
-/

namespace Dismissal.Http

/-- The path and the query of a request. -/
structure Target where
  path : List Char
  query : Option (List Char)

namespace Target

/-- What stands behind the first `://`, if there is one. -/
def afterScheme? : List Char → Option (List Char)
  | [] => none
  | ':' :: '/' :: '/' :: rest => some rest
  | _ :: rest => afterScheme? rest

/-- What stands behind a scheme and a host. A text with neither a slash at its start nor a scheme is
a host, and names no path. -/
def afterHost : List Char → List Char
  | '/' :: rest => '/' :: rest
  | cs => ((afterScheme? cs).getD []).dropWhile fun c => c != '/' && c != '?' && c != '#'

/-- Takes the text of a target apart. -/
def ofText (s : String) : Target :=
  let cs := Text.before '#' (afterHost s.toList)
  match Text.splitOnce '?' cs with
  | some (path, query) => ⟨path, some query⟩
  | none => ⟨cs, none⟩

end Target

/-- A path that is known. -/
inductive Route where
  | health
  | events
  | batch (user : String)
  | item (user id : String)
  | adminItem (user id : String)
  | adminItems
  deriving DecidableEq, Repr

namespace Route

/-- The route of a path, given by what stands between its slashes. The last part of a path may not
be empty. -/
def ofParts? : List String → Option Route
  | ["", "health"] => some health
  | ["", "events"] => some events
  | ["", "v1", "users", user, "items"] => some (batch user)
  | ["", "v1", "users", user, "items", id] => if id = "" then none else some (item user id)
  | ["", "admin", "users", user, "items", id] =>
    if id = "" then none else some (adminItem user id)
  | ["", "admin", "items"] => some adminItems
  | _ => none

/-- The route of a path. -/
def ofPath? (path : List Char) : Option Route :=
  ofParts? ((Text.splitOn '/' path).map String.ofList)

/-- The methods that a route answers to, in alphabetical order. -/
def methods : Route → List String
  | health => ["GET", "HEAD"]
  | events => ["GET", "HEAD"]
  | batch _ => ["POST"]
  | item _ _ => ["DELETE", "GET", "HEAD", "POST"]
  | adminItem _ _ => ["DELETE"]
  | adminItems => ["DELETE"]

/-- The route with the escapes in its parts replaced; none if a part is then no text. -/
def unescape? : Route → Option Route
  | batch user => (Text.unescape? user).map batch
  | item user id => do return item (← Text.unescape? user) (← Text.unescape? id)
  | adminItem user id => do return adminItem (← Text.unescape? user) (← Text.unescape? id)
  | route => some route

end Route

end Dismissal.Http
