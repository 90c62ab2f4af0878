import Dismissal.Disk.Basic
import Dismissal.Failure

/-!
# Folders of trees

A tree has a folder of its own, with its settings, its records and a folder for large values in it,
and with states that it had before. `TreeFolder.claim` makes that folder and finds out whether the
rest can be made. Settings and states that stand there already are not those of the tree and keep it
from being opened. So do folders that have the names of its other files; files with these names are
written anew.
-/

namespace Dismissal

namespace TreeFolder

/-- The name of the folder for large values, inside the folder of a tree. -/
def valuesName : String := "blobs"

/-- The name of the settings of a tree. -/
def settingsName : String := "conf"

/-- The name of the settings of a tree until they are complete. -/
def draftName : String := "conf.tmp"

/-- The name of the records of a tree. -/
def recordsName : String := "db"

/-- The beginning of the names of former states of a tree. -/
def stateBeginning : String := "snap."

/-- The ending of the names of states that are not complete. -/
def draftEnding : String := ".generating"

/-- Whether a name is the one of a former state. -/
def isStateName (name : String) : Bool :=
  stateBeginning.toList.isPrefixOf name.toList && !draftEnding.toList.isSuffixOf name.toList

/-- Makes the folder of a tree with the one for large values in it, unless something of that name
is there. -/
def make (d : Disk) (path : String) : Option Disk :=
  let values := Path.join path valuesName
  if d.has values then some d else d.makeFolder values

/-- Whether something in the folder of a tree looks like a former state. States are told by how
their texts begin, so none is found if the text of the folder ends with what names nothing. -/
def hasState (d : Disk) (path : String) : Bool :=
  let beginning := Path.join path stateBeginning
  let folder := Path.folderText beginning
  Path.join folder stateBeginning == beginning &&
    (d.at? folder).any fun folder => (d.namesIn folder).any isStateName

/-- Whether what is there in the folder of a tree keeps its files from being made or read. -/
def isBlocked (d : Disk) (path : String) : Bool :=
  !Path.fits (Path.join path draftName) || d.hasFolder (Path.join path draftName) ||
    d.has (Path.join path settingsName) || d.hasFolder (Path.join path recordsName) ||
    hasState d path

/-- Makes room for a tree at the path in a text. -/
def claim (d : Disk) (path : String) : Result Unit :=
  match d.makeParent path with
  | none => .error (.unavailable ("Failed to create directory: no folder can be made for " ++ path))
  | some d =>
    if (make d path).any fun d => !isBlocked d path then .ok ()
    else .error (.unavailable ("Failed to open Sled database: it cannot be at " ++ path))

end TreeFolder

end Dismissal
