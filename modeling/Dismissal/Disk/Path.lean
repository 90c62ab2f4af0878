import Dismissal.Text.Split

/-!
# Paths

A path names a file or a folder by the folders on the way to it. `Path.join` appends a name to the
text of a path, `Path.ofText` takes a text apart, and `Path.folderText` is the text of the folder
that a path lies in. Empty parts and single dots name nothing, but they count for the size of a
text.

The text of a path that starts at the outermost folder starts with a slash. Names and paths cannot
be of any length, and no name holds a zero.
-/

namespace Dismissal

/-- The parts of a path, the outermost folder first. A part may be `..`. -/
abbrev Path := List String

namespace Path

/-- The text of `name` inside the folder `dir`; an empty folder is left out, and so is the slash
where there is one already. A name that starts with a slash stands for itself. -/
def join (dir name : String) : String :=
  match name.toList with
  | '/' :: _ => name
  | _ => match dir.toList.getLast? with
    | none => name
    | some '/' => dir ++ name
    | some _ => dir ++ "/" ++ name

/-- What stands between the slashes of a text. -/
def pieces (s : String) : List String := (Text.splitOn '/' s.toList).map String.ofList

/-- Whether a piece of a text names nothing. -/
def isIdle (piece : String) : Bool := piece == "" || piece == "."

/-- The parts of a text. -/
def ofText (s : String) : Path := (pieces s).filter (!isIdle ·)

/-- Leaves out the pieces at the end that name nothing. -/
def trimEnd (pieces : List String) : List String := (pieces.reverse.dropWhile isIdle).reverse

/-- The text of the folder that the path in a text lies in. What stands before the end of that
folder stays as it is. -/
def folderText (s : String) : String := "/".intercalate (trimEnd (trimEnd (pieces s)).dropLast)

/-- Whether the path in a text starts at the outermost folder. -/
def isAbsolute (s : String) : Bool := s.toList.head? == some '/'

/-- The folders on the way to a path, the outermost one and the path included. -/
def onTheWay (p : Path) : List Path := (List.range (p.length + 1)).map p.take

/-- The bytes that a name can have. -/
def maxName : Nat := 255

/-- The bytes that the text of a path can have. -/
def maxSize : Nat := 4095

/-- Whether a text is short enough for a path. -/
def fits (s : String) : Bool := s.utf8ByteSize ≤ maxSize

/-- Whether something in a folder can have a name. -/
def isName (part : String) : Bool := part.utf8ByteSize ≤ maxName && !part.toList.contains '\x00'

/-- The bytes of a path from the outermost folder on, with a slash before each part. -/
def size (p : Path) : Nat := p.foldl (fun size part => size + part.utf8ByteSize + 1) 0

end Path

end Dismissal
