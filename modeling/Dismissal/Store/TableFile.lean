import Dismissal.Disk.Basic
import Dismissal.Store.Location
import Dismissal.Store.Table

/-!
# Files of tables

A table is one file with other names beside it: a journal, a log of the latest changes with an
index, and a lock in some systems. `TableFile.openAt?` opens the table at a location. The file that
was there before is given with its rows; where there is none, an empty table is made if the location
allows it.
-/

namespace Dismissal

namespace TableFile

/-- The rows that a file holds. -/
abbrev Rows := List (Table.Key × Table.Row)

/-- The ending of the longest name beside a table, where its changes can be taken back from. -/
def journalEnding : String := "-journal"

/-- The ending of the name of the log beside a table, where its latest changes stand. -/
def logEnding : String := "-wal"

/-- The ending of the name of the index of that log. -/
def indexEnding : String := "-shm"

/-- The ending of the name beside a table that tells that somebody uses it, in systems without other
locks. -/
def lockEnding : String := ".lock"

/-- The path of a file whose name has one more ending. -/
def beside (file : Path) (ending : String) : Path :=
  file.dropLast ++ [file.getLastD "" ++ ending]

/-- The bytes that the path of a table can have, the ending of its journal included. -/
def maxSize : Nat := 512

/-- The file of a table at a path, if its names are short enough. -/
def ofPath? (d : Disk) (path : String) : Option Path := do
  let file ← d.follow (maxSize - 1) (d.start path) (Path.ofText path)
  if Path.isName (file.getLastD "" ++ journalEnding) &&
      file.size + journalEnding.length ≤ maxSize then some file
  else none

/-- Whether what is beside a table keeps it from being opened: a lock, a folder in the place of its
journal or its log, or changes that would have to be taken back first where nothing may be
written. None of that counts for a table that nobody changes. -/
def isBlocked (d : Disk) (l : Location) (file : Path) : Bool :=
  let isLocked := l.system == "unix-dotfile" && !l.unlocked && d.holds (beside file lockEnding)
  let lacksLogs := d.isFolder (beside file journalEnding) || d.isFolder (beside file logEnding)
  let isUndone := l.access = .read && d.isFile (beside file journalEnding)
  !l.immutable && (isLocked || lacksLogs || isUndone)

/-- Whether a folder is in the place of the index that the users of a table share. -/
def lacksIndex (d : Disk) (l : Location) (file : Path) : Bool :=
  l.sharesIndex && d.isFolder (beside file indexEnding)

/-- The rows of the table in a file, if it is the one that was found. -/
def rowsIn? (found : Option (Path × Rows)) (file : Path) : Option Rows :=
  (found.filter (·.1 == file)).map (·.2)

/-- The table at a location when it is opened, if that can be done. What the file takes for a model
must be there. Without the index of its log a table can be read, but not written or made. -/
def openAt? (d : Disk) (found : Option (Path × Rows)) (l : Location) : Option Table :=
  if !l.isLasting then if l.isFrozen then none else some {}
  else if !l.model.all d.has then none
  else do
    let file ← ofPath? d l.path
    if isBlocked d l file then none
    else match rowsIn? found file with
      | some rows =>
        if l.readsLogs then
          some { Table.ofRows rows with frozen := l.isFrozen || lacksIndex d l file }
        else none
      | none =>
        if d.hasRoom file && l.access = .create && !l.isFrozen && !lacksIndex d l file then some {}
        else none

end TableFile

end Dismissal
