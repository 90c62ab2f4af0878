import Dismissal.Proofs.Disk.Join
import Dismissal.Settings
import Dismissal.Store.Address
import Mathlib.Data.List.TakeWhile

/-!
# The address of a table if none is given

Without an address the settings put the directory for data into one, as it is. Two things are told
from the text of that address alone: whether it looks like one of a table that is kept nowhere
(`Address.mentionsMemory`), and the path that stands in it (`Address.databasePath?`). By these it
leads into the directory if the text of the directory is not empty, holds no question mark, and does
not look like the address of a table that is kept nowhere itself (`default_address_iff`). A tree is
always put into the directory, whatever its text is.

The table is opened where `Address.ofText?` reads that it is. That replaces escapes in the path and
leaves out further heads, so it may be elsewhere if the text of the directory has a percent sign in
it or begins as an address does.
-/

namespace Dismissal.Settings

/-- The text of an address leads to a file: it does not look like one of a table that is kept
nowhere, and the path that stands in it names the file. -/
def LeadsTo (url file : String) : Prop :=
  Address.mentionsMemory url = false ∧
    ∃ path, Address.databasePath? url = some path ∧ Path.SameFile path file

/-- The text of a directory does not change what is told from the text of an address. -/
structure Plain (dir : String) : Prop where
  nonempty : dir ≠ ""
  options : '?' ∉ dir.toList
  memoryPath : ¬":memory:".toList <:+: dir.toList
  memoryOption : ¬"mode=memory".toList <:+: dir.toList

theorem plain_iff {dir : String} : Plain dir ↔ dir ≠ "" ∧ '?' ∉ dir.toList ∧
    Text.occursIn ":memory:".toList dir.toList = false ∧
    Text.occursIn "mode=memory".toList dir.toList = false := by
  rw [← Bool.not_eq_true, ← Bool.not_eq_true, Text.occursIn_iff, Text.occursIn_iff]
  exact ⟨fun h => ⟨h.1, h.2, h.3, h.4⟩, fun h => ⟨h.1, h.2.1, h.2.2.1, h.2.2.2⟩⟩

instance (dir : String) : Decidable (Plain dir) := decidable_of_iff _ plain_iff.symm

/-- The variables with another backend chosen. -/
def choosing (backend : String) (lookup : String → Option String) (name : String) :
    Option String :=
  if name = "DISMISSIBLE_STORAGE" then some backend else lookup name

variable {dir : String}

/-- What has no slash in it stands in the address if it stands in the directory, or in one of the
parts that the address has besides. -/
theorem occursIn_defaultUrl {part : List Char} (hslash : '/' ∉ part)
    (hhead : Text.occursIn part "sqlite:".toList = false)
    (hname : Text.occursIn part "items.db".toList = false) :
    Text.occursIn part (defaultUrl dir).toList = false ↔ ¬part <:+: dir.toList := by
  rw [← Bool.not_eq_true, Text.occursIn_iff] at hhead hname ⊢
  have hurl : (defaultUrl dir).toList = "sqlite:".toList ++
      '/' :: ([] ++ '/' :: (dir.toList ++ '/' :: "items.db".toList)) := by
    simp [defaultUrl]
  have hnone : ¬part <:+: [] := fun h => hhead (h.trans List.nil_infix)
  rw [hurl, Text.infix_append_sep hslash, Text.infix_append_sep hslash,
    Text.infix_append_sep hslash]
  simp only [hhead, hnone, hname, false_or, or_false]

theorem mentionsMemory_defaultUrl : Address.mentionsMemory (defaultUrl dir) = false ↔
    ¬":memory:".toList <:+: dir.toList ∧ ¬"mode=memory".toList <:+: dir.toList := by
  unfold Address.mentionsMemory
  rw [Bool.or_eq_false_iff, occursIn_defaultUrl (by decide) (by decide) (by decide),
    occursIn_defaultUrl (by decide) (by decide) (by decide)]

/-- The path in the address is the text up to the first question mark, if it is not empty. -/
theorem databasePath?_defaultUrl {path : String} :
    Address.databasePath? (defaultUrl dir) = some path ↔
      path ≠ "" ∧ path.toList = Text.before '?' (dir ++ "/items.db").toList := by
  have hrest : Address.afterHead? (defaultUrl dir) = some (dir ++ "/items.db").toList := by
    have hurl : (defaultUrl dir).toList = Address.longHead ++ (dir ++ "/items.db").toList := by
      unfold defaultUrl Address.longHead
      rw [String.append_assoc, String.toList_append]
    unfold Address.afterHead?
    rw [hurl, Text.dropHead?_append, Option.some_or]
  unfold Address.databasePath?
  rw [hrest, Option.map_some]
  cases Text.before '?' (dir ++ "/items.db").toList with
  | nil => simp
  | cons c cs =>
    simp only [Option.some.injEq]
    constructor
    · rintro rfl
      simp
    · rintro ⟨-, hpath⟩
      rw [← hpath, String.ofList_toList]

theorem ofText_items (dir : String) :
    Path.ofText (Path.join dir "items.db") = Path.ofText dir ++ ["items.db"] :=
  Path.ofText_join (by decide)

/-- **The text of the address leads into the directory exactly if that of the directory is plain.**
-/
theorem leadsTo_defaultUrl_iff :
    LeadsTo (defaultUrl dir) (Path.join dir "items.db") ↔ Plain dir := by
  have hstart : Path.isAbsolute (Path.join dir "items.db") = Path.isAbsolute dir :=
    Path.isAbsolute_join (by decide)
  have htext : dir ++ "/items.db" = dir ++ "/" ++ "items.db" := by
    rw [String.append_assoc]
    rfl
  unfold LeadsTo
  rw [mentionsMemory_defaultUrl]
  simp only [databasePath?_defaultUrl]
  constructor
  · rintro ⟨⟨hpath, hoption⟩, path, ⟨-, hbefore⟩, hsame⟩
    refine ⟨?_, ?_, hpath, hoption⟩
    · rintro rfl
      have habsolute := hsame.start.trans hstart
      unfold Path.isAbsolute at habsolute
      rw [hbefore] at habsolute
      cases habsolute
    · intro hmark
      obtain ⟨part, hpart, hin⟩ := (Path.mem_parts_iff (by decide) (by decide)).2 hmark
      have hthere : part ∈ Path.ofText path := by
        rw [hsame.parts, ofText_items]
        exact List.mem_append_left _ hpart
      have hleft : '?' ∈ path.toList :=
        (Path.mem_parts_iff (by decide) (by decide)).1 ⟨part, hthere, hin⟩
      rw [hbefore] at hleft
      unfold Text.before at hleft
      exact absurd (List.mem_takeWhile_imp hleft) (by decide)
  · rintro ⟨hne, hmark, hpath, hoption⟩
    refine ⟨⟨hpath, hoption⟩, dir ++ "/items.db", ⟨?_, ?_⟩, ?_, ?_⟩
    · simp
    · refine (List.takeWhile_eq_self_iff.2 fun c hc => ?_).symm
      rw [String.toList_append, List.mem_append] at hc
      rw [bne_iff_ne]
      rintro rfl
      exact hc.elim hmark (by decide)
    · rw [hstart, Path.isAbsolute_append hne]
    · rw [ofText_items, htext, Path.ofText_append]
      rfl

/-! ## Variables -/

section Lookup

variable {lookup : String → Option String} {raw : String}

theorem storage_table (hraw : lookup "DISMISSIBLE_STORAGE" = some raw)
    (hchosen : Text.lowerCase (Text.trim raw) = "sqlite")
    (hurl : lookup "DISMISSIBLE_SQLITE_URL" = none) : (ofLookup lookup).storage =
      .table (defaultUrl (dataDir lookup)) (storeTimeout lookup) := by
  simp only [ofLookup, storageOf, hraw, Option.getD_some, hchosen, hurl, Option.getD_none]

/-- Another backend would use the same directory. -/
theorem storage_choosing_tree (lookup : String → Option String) :
    (ofLookup (choosing "sled" lookup)).storage =
      .tree (Path.join (dataDir lookup) "items.sled") (storeTimeout lookup) := by
  have hchosen : Text.lowerCase (Text.trim "sled") = "sled" := by decide
  simp only [ofLookup, storageOf,
    show choosing "sled" lookup "DISMISSIBLE_STORAGE" = some "sled" from rfl,
    Option.getD_some, hchosen]
  rfl

/-- **Without an address, one is made up whose text leads into the directory for data exactly if the
text of the directory is plain**: not empty, without a question mark, and without what tells in an
address that a table is kept nowhere. This is about the path as it stands in the address, and not
about what `Address.ofText?` makes of it when the table is opened. A tree would be kept in the same
folder, whatever the text is. -/
theorem default_address_iff (hraw : lookup "DISMISSIBLE_STORAGE" = some raw)
    (hchosen : Text.lowerCase (Text.trim raw) = "sqlite")
    (hurl : lookup "DISMISSIBLE_SQLITE_URL" = none) :
    let dir := dataDir lookup
    ∃ url path, (ofLookup lookup).storage = .table url (storeTimeout lookup) ∧
      (ofLookup (choosing "sled" lookup)).storage = .tree path (storeTimeout lookup) ∧
      Path.SameFolder (Path.join dir "items.db") path ∧
      (LeadsTo url (Path.join dir "items.db") ↔ Plain dir) :=
  ⟨_, _, storage_table hraw hchosen hurl, storage_choosing_tree lookup,
    Path.sameFolder_join (by decide) (by decide) rfl rfl, leadsTo_defaultUrl_iff⟩

end Lookup

/-- Variables that choose a table, in a directory. -/
def tableIn (dir : String) (name : String) : Option String :=
  if name = "DISMISSIBLE_STORAGE" then some " SQLite\n"
  else if name = "DISMISSIBLE_DATA_DIR" then some dir
  else none

theorem default_address_iff_absolute : ∃ url, (ofLookup (tableIn "/srv/a:b=c")).storage =
    .table url 5000 ∧ LeadsTo url (Path.join "/srv/a:b=c" "items.db") := by
  have hraw : tableIn "/srv/a:b=c" "DISMISSIBLE_STORAGE" = some " SQLite\n" := rfl
  obtain ⟨url, _, hstorage, -, -, hiff⟩ := default_address_iff hraw (by decide) rfl
  exact ⟨url, hstorage, hiff.2 (by decide)⟩

/-- **Not into every directory does the address lead**: a question mark in its text cuts the path
off. -/
theorem marked_directory_missed : ¬∀ (lookup : String → Option String) (raw url : String)
    (timeout : Nat), lookup "DISMISSIBLE_STORAGE" = some raw →
    Text.lowerCase (Text.trim raw) = "sqlite" → lookup "DISMISSIBLE_SQLITE_URL" = none →
    (ofLookup lookup).storage = .table url timeout →
    LeadsTo url (Path.join (dataDir lookup) "items.db") := by
  intro hall
  have hleads := hall (tableIn "why?") " SQLite\n" (defaultUrl "why?") 5000 rfl (by decide) rfl
    (storage_table rfl (by decide) rfl)
  exact (leadsTo_defaultUrl_iff.1 hleads).options (by decide)

end Dismissal.Settings
