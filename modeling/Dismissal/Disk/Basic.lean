import Dismissal.Disk.Path

/-!
# Disks

A `Disk` knows which paths are folders and which are files, and where paths start that do not start
with a slash. It is asked before a store is opened: folders can be made where no file is in the way
and every name is one, and a file can be put where there is a folder for it and nothing else of that
name.
-/

namespace Dismissal

/-- The folders and the files that are there, and the folder in which the service runs; all of them
are paths without `..`. -/
structure Disk where
  folders : List Path
  files : List Path
  home : Path

namespace Disk

/-- A disk on which the service runs in the folder `home`, with one more folder and files of given
names in it. -/
def ofFolder (home folder : Path) (names : List String) : Disk where
  folders := [home, folder, ["dev"]].flatMap Path.onTheWay
  files := ["dev", "null"] :: names.map fun name => folder ++ Path.ofText name
  home := home

/-- The disk with one more file. -/
def withFile (d : Disk) (p : Path) : Disk := { d with files := p :: d.files }

/-- Where the path that a text gives starts. -/
def start (d : Disk) (text : String) : Path := if Path.isAbsolute text then [] else d.home

/-- Whether a path is a file. -/
def isFile (d : Disk) (p : Path) : Bool := d.files.contains p

/-- Whether a path is a folder. -/
def isFolder (d : Disk) (p : Path) : Bool := d.folders.contains p

/-- Makes the folders `parts` inside one another, from the folder `here` on; none if that cannot be
done. -/
def makeFrom (d : Disk) (here : Path) : Path → Option Disk
  | [] => some d
  | part :: parts =>
    if part = ".." then d.makeFrom here.dropLast parts
    else
      let next := here ++ [part]
      if d.isFile next || !Path.isName part then none
      else if d.isFolder next then d.makeFrom next parts
      else { d with folders := next :: d.folders }.makeFrom next parts

/-- Makes the folder that a text gives, and all folders on the way to it. -/
def makeFolder (d : Disk) (text : String) : Option Disk :=
  if Path.fits text then d.makeFrom (d.start text) (Path.ofText text) else none

/-- Makes the folder that the path in a text lies in. -/
def makeParent (d : Disk) (text : String) : Option Disk := d.makeFolder (Path.folderText text)

/-- Follows `parts` from `here` on, where `..` takes the part before it away. The way may lead
through folders that are not there, but not through a file, not by a name that is none, and nowhere
beyond a `limit` in bytes. -/
def follow (d : Disk) (limit : Nat) (here : Path) : Path → Option Path
  | [] => some here
  | part :: parts =>
    if part = ".." then d.follow limit here.dropLast parts
    else
      let next := here ++ [part]
      if d.isFile here || (d.isFolder here && !Path.isName part) || limit < next.size then none
      else d.follow limit next parts

/-- The path without `..` that `parts` lead to from `here` on, if there are folders all the way. -/
def find? (d : Disk) (here : Path) : Path → Option Path
  | [] => some here
  | part :: parts =>
    if !d.isFolder here then none
    else if part = ".." then d.find? here.dropLast parts
    else d.find? (here ++ [part]) parts

/-- The path without `..` that a text gives, if there are folders all the way; the empty text gives
none. -/
def at? (d : Disk) (text : String) : Option Path :=
  if text != "" && Path.fits text then d.find? (d.start text) (Path.ofText text) else none

/-- Whether something is there at a path without `..`. -/
def holds (d : Disk) (p : Path) : Bool := d.isFile p || d.isFolder p

/-- Whether something is there at the path in a text. -/
def has (d : Disk) (text : String) : Bool := (d.at? text).any d.holds

/-- Whether a folder is there at the path in a text. -/
def hasFolder (d : Disk) (text : String) : Bool := (d.at? text).any d.isFolder

/-- The names in a folder. -/
def namesIn (d : Disk) (folder : Path) : List String :=
  ((d.files ++ d.folders).filter fun p => p != [] && p.dropLast == folder).map (·.getLastD "")

/-- Whether something that is no folder can be put at a path, where `..` does not stand. -/
def hasRoom (d : Disk) (p : Path) : Bool :=
  !p.isEmpty && !d.holds p && d.isFolder p.dropLast

end Disk

end Dismissal
