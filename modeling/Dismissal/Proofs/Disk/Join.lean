import Dismissal.Disk.Path
import Dismissal.Proofs.Text.Pieces

/-!
# Joined paths

A name that is joined to the text of a folder is a path in that folder, whatever the text is: the
parts of the folder come first, and it starts where the folder starts.

* `ofText_join`, `isAbsolute_join`: the parts of a joined path, and where it starts.
-/

namespace Dismissal.Path

/-- Two texts name the same file: they start at the same place, and have the same parts. -/
structure SameFile (a b : String) : Prop where
  start : isAbsolute a = isAbsolute b
  parts : ofText a = ofText b

/-- Two texts name files in the same folder. -/
structure SameFolder (a b : String) : Prop where
  start : isAbsolute a = isAbsolute b
  folders : (ofText a).dropLast = (ofText b).dropLast

variable {dir name : String}

/-- The parts on both sides of a slash. -/
theorem ofText_append (a b : String) : ofText (a ++ "/" ++ b) = ofText a ++ ofText b := by
  have hlist : (a ++ "/" ++ b).toList = a.toList ++ '/' :: b.toList := by simp
  unfold ofText pieces
  rw [hlist, Text.splitOn_append, List.map_append, List.filter_append]

/-- What is in the text of a path, and is neither a slash nor a dot, is in its parts. -/
theorem mem_parts_iff {s : String} {c : Char} (hslash : c ≠ '/') (hdot : c ≠ '.') :
    (∃ part ∈ ofText s, c ∈ part.toList) ↔ c ∈ s.toList := by
  rw [← Text.mem_pieces_iff hslash]
  unfold ofText pieces
  constructor
  · rintro ⟨part, hpart, hc⟩
    obtain ⟨piece, hpiece, rfl⟩ := List.mem_map.1 (List.mem_of_mem_filter hpart)
    exact ⟨piece, hpiece, by simpa using hc⟩
  · rintro ⟨piece, hpiece, hc⟩
    refine ⟨String.ofList piece, List.mem_filter.2 ⟨List.mem_map_of_mem hpiece, ?_⟩,
      by simpa using hc⟩
    -- a piece that names nothing is empty, or a dot
    unfold isIdle
    rw [Bool.not_eq_true', Bool.or_eq_false_iff, beq_eq_false_iff_ne, beq_eq_false_iff_ne]
    constructor
    · intro hempty
      have hlist : piece = [] := by simpa using congrArg String.toList hempty
      rw [hlist] at hc
      cases hc
    · intro hdots
      have hlist : piece = ['.'] := by simpa using congrArg String.toList hdots
      rw [hlist, List.mem_singleton] at hc
      exact hdot hc

theorem isAbsolute_append {a : String} (h : a ≠ "") (b : String) :
    isAbsolute (a ++ b) = isAbsolute a := by
  unfold isAbsolute
  rw [String.toList_append]
  cases hlist : a.toList with
  | nil => exact absurd (String.toList_inj.1 hlist) h
  | cons c cs => rfl

section Join

variable (hname : name.toList.head? ≠ some '/')
include hname

/-- A slash is put between a folder and a name, where there is none and the folder is not empty. -/
theorem join_cases (dir : String) : (dir = "" ∧ join dir name = name) ∨
    (∃ front, dir = front ++ "/" ∧ join dir name = front ++ "/" ++ name) ∨
    (dir ≠ "" ∧ join dir name = dir ++ "/" ++ name) := by
  unfold join
  split
  · rename_i hslash
    rw [hslash] at hname
    exact absurd rfl hname
  · split
    · rename_i hlast
      exact .inl ⟨String.toList_inj.1 (List.getLast?_eq_none_iff.1 hlast), rfl⟩
    · rename_i hlast
      obtain ⟨front, hfront⟩ := List.getLast?_eq_some_iff.1 hlast
      refine .inr (.inl ⟨String.ofList front, ?_, ?_⟩)
      · exact String.toList_inj.1 (by simp [hfront])
      · exact String.toList_inj.1 (by simp [hfront])
    · rename_i hlast
      refine .inr (.inr ⟨?_, rfl⟩)
      rintro rfl
      cases hlast

/-- **A joined path has the parts of the folder and those of the name.** -/
theorem ofText_join : ofText (join dir name) = ofText dir ++ ofText name := by
  have hempty : ofText "" = [] := rfl
  rcases join_cases hname dir with ⟨rfl, hjoin⟩ | ⟨front, rfl, hjoin⟩ | ⟨-, hjoin⟩
  · rw [hjoin, hempty, List.nil_append]
  · have hfront : ofText (front ++ "/") = ofText front := by
      have hslash := ofText_append front ""
      rwa [String.append_empty, hempty, List.append_nil] at hslash
    rw [hjoin, ofText_append, hfront]
  · rw [hjoin, ofText_append]

/-- **A joined path starts where the folder starts.** -/
theorem isAbsolute_join : isAbsolute (join dir name) = isAbsolute dir := by
  rcases join_cases hname dir with ⟨rfl, hjoin⟩ | ⟨front, rfl, hjoin⟩ | ⟨hne, hjoin⟩
  · rw [hjoin]
    unfold isAbsolute
    simpa using hname
  · rw [hjoin, isAbsolute_append (by simp)]
  · rw [hjoin, String.append_assoc, isAbsolute_append hne]

end Join

/-- Two names that are joined to one folder name files in the same folder. -/
theorem sameFolder_join {name other : String} (hname : name.toList.head? ≠ some '/')
    (hother : other.toList.head? ≠ some '/') (hone : ofText name = [name])
    (hone' : ofText other = [other]) : SameFolder (join dir name) (join dir other) := by
  constructor
  · rw [isAbsolute_join hname, isAbsolute_join hother]
  · rw [ofText_join hname, ofText_join hother, hone, hone', List.dropLast_concat,
      List.dropLast_concat]

end Dismissal.Path
