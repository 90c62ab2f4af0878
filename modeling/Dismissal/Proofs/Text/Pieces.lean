import Dismissal.Text.Split
import Mathlib.Data.List.Basic

/-!
# Pieces of texts

What the pieces between separators are, said without cutting a list up, and how lists that are put
together with a separator between them are cut and searched.

* `mem_splitOn_iff`: the pieces of a list.
* `splitOn_append`: the pieces of two lists with a separator between them.
* `infix_append_sep`: what has no separator in it stands in one of two such lists.
-/

namespace Dismissal

namespace Text

variable {sep : Char} {piece front cs : List Char}

/-- The piece has no separator in it, and stands between two of them if one more is put at each end
of the list. -/
structure IsPiece (sep : Char) (piece cs : List Char) : Prop where
  whole : sep ∉ piece
  placed : sep :: (piece ++ [sep]) <:+: sep :: (cs ++ [sep])

/-- What stands before the first separator is determined. -/
theorem eq_of_append_sep {rest tail : List Char} (hpiece : sep ∉ piece) (hfront : sep ∉ front)
    (h : piece ++ sep :: rest = front ++ sep :: tail) : piece = front := by
  rcases List.append_eq_append_iff.1 h with ⟨middle, rfl, hrest⟩ | ⟨middle, rfl, hrest⟩
  · cases middle with
    | nil => simp
    | cons c middle =>
      obtain ⟨rfl, -⟩ := List.cons.inj hrest
      simp at hfront
  · cases middle with
    | nil => simp
    | cons c middle =>
      obtain ⟨rfl, -⟩ := List.cons.inj hrest
      simp at hpiece

/-- A piece between separators comes first, or after the first separator. -/
theorem between_iff {tail : List Char} (hpiece : sep ∉ piece) (hfront : sep ∉ front) :
    sep :: (piece ++ [sep]) <:+: sep :: (front ++ sep :: tail) ↔
      piece = front ∨ sep :: (piece ++ [sep]) <:+: sep :: tail := by
  constructor
  · rintro ⟨left, right, h⟩
    cases left with
    | nil =>
      have heq : piece ++ sep :: right = front ++ sep :: tail := by simpa using h
      exact .inl (eq_of_append_sep hpiece hfront heq)
    | cons c left =>
      have htail : left ++ (sep :: (piece ++ [sep]) ++ right) = front ++ sep :: tail := by
        simpa using (List.cons.inj h).2
      right
      rcases List.append_eq_append_iff.1 htail with ⟨middle, rfl, hrest⟩ | ⟨middle, rfl, hrest⟩
      · cases middle with
        | nil => exact ⟨[], right, hrest⟩
        | cons c middle =>
          obtain ⟨rfl, -⟩ := List.cons.inj hrest
          simp at hfront
      · exact ⟨middle, right, by rw [hrest, List.append_assoc]⟩
  · rintro (rfl | ⟨left, right, h⟩)
    · exact ⟨[], tail, by simp⟩
    · exact ⟨sep :: front ++ left, right, by simp [← h]⟩

theorem splitOn_of_not_mem (h : sep ∉ cs) : splitOn sep cs = [cs] := by
  induction cs with
  | nil => rfl
  | cons c cs ih =>
    rw [List.mem_cons, not_or] at h
    rw [splitOn, if_neg (Ne.symm h.1), ih h.2]

theorem splitOn_ne_nil (sep : Char) (cs : List Char) : splitOn sep cs ≠ [] := by
  intro hnil
  have hlength : (splitOn sep cs).length = cs.count sep + 1 := length_splitOn
  rw [hnil] at hlength
  cases hlength

/-- A separator between two lists is where they are cut apart. -/
theorem splitOn_append (sep : Char) (cs rest : List Char) :
    splitOn sep (cs ++ sep :: rest) = splitOn sep cs ++ splitOn sep rest := by
  induction cs with
  | nil => exact if_pos rfl
  | cons c cs ih =>
    rw [List.cons_append, splitOn, splitOn, ih]
    split
    · rfl
    · cases hsplit : splitOn sep cs with
      | nil => exact absurd hsplit (splitOn_ne_nil sep cs)
      | cons first pieces => rfl

theorem splitOn_append_sep (h : sep ∉ front) (rest : List Char) :
    splitOn sep (front ++ sep :: rest) = front :: splitOn sep rest := by
  rw [splitOn_append, splitOn_of_not_mem h, List.singleton_append]

/-- All that is in a list but the separators is in its pieces. -/
theorem mem_pieces_iff {c : Char} (hc : c ≠ sep) :
    (∃ piece ∈ splitOn sep cs, c ∈ piece) ↔ c ∈ cs := by
  induction cs with
  | nil => simp [splitOn]
  | cons d cs ih =>
    rw [splitOn, List.mem_cons, ← ih]
    split
    · rename_i hd
      simp [hd, hc]
    · cases hsplit : splitOn sep cs with
      | nil => exact absurd hsplit (splitOn_ne_nil sep cs)
      | cons first pieces => simp [or_assoc]

/-- **A list is split into its pieces.** -/
theorem mem_splitOn_iff : piece ∈ splitOn sep cs ↔ IsPiece sep piece cs := by
  by_cases hpiece : sep ∈ piece
  · exact ⟨fun h => absurd hpiece (not_mem_of_mem_splitOn h), fun h => absurd hpiece h.whole⟩
  have hplaced : IsPiece sep piece cs ↔ sep :: (piece ++ [sep]) <:+: sep :: (cs ++ [sep]) :=
    ⟨IsPiece.placed, IsPiece.mk hpiece⟩
  rw [hplaced]
  clear hplaced
  -- the list is cut at its first separator, and what follows is shorter
  induction hlength : cs.length using Nat.strongRecOn generalizing cs with
  | ind n ih =>
    by_cases hmem : sep ∈ cs
    · obtain ⟨front, rest, rfl, hfront⟩ := List.eq_append_cons_of_mem hmem
      have hshorter : rest.length < n := by
        simp only [List.length_append, List.length_cons] at hlength
        omega
      have hrest : piece ∈ splitOn sep rest ↔
          sep :: (piece ++ [sep]) <:+: sep :: (rest ++ [sep]) := ih rest.length hshorter rfl
      rw [splitOn_append_sep hfront, List.mem_cons, hrest, List.append_assoc, List.cons_append,
        between_iff hpiece hfront]
    · rw [splitOn_of_not_mem hmem, List.mem_singleton, between_iff hpiece hmem]
      constructor
      · exact .inl
      · rintro (h | h)
        · exact h
        · have hle := h.length_le
          simp at hle

theorem splitOnce_append_sep (h : sep ∉ front) (rest : List Char) :
    splitOnce sep (front ++ sep :: rest) = some (front, rest) := by
  induction front with
  | nil => exact if_pos rfl
  | cons c front ih =>
    rw [List.mem_cons, not_or] at h
    rw [List.cons_append, splitOnce, if_neg (Ne.symm h.1), ih h.2]
    rfl

/-- **A list is cut at its first separator.** -/
theorem splitOnce_eq_some_iff {left right : List Char} :
    splitOnce sep cs = some (left, right) ↔ cs = left ++ sep :: right ∧ sep ∉ left := by
  constructor
  · intro h
    have hmem : sep ∈ cs := by simp [eq_of_splitOnce h]
    obtain ⟨front, rest, hcut, hfront⟩ := List.eq_append_cons_of_mem hmem
    rw [hcut, splitOnce_append_sep hfront] at h
    cases h
    exact ⟨hcut, hfront⟩
  · rintro ⟨rfl, hleft⟩
    exact splitOnce_append_sep hleft right

/-! ## Lists in lists -/

theorem occursIn_iff {part : List Char} : occursIn part cs = true ↔ part <:+: cs := by
  induction cs with
  | nil => simp [occursIn]
  | cons c cs ih =>
    rw [occursIn, Bool.or_eq_true, ih, List.isPrefixOf_iff_prefix, List.infix_cons_iff]

/-- **What has no separator in it stands on one side of a separator.** -/
theorem infix_append_sep {part rest : List Char} (hsep : sep ∉ part) :
    part <:+: cs ++ sep :: rest ↔ part <:+: cs ∨ part <:+: rest := by
  constructor
  · rintro ⟨left, right, h⟩
    rw [List.append_assoc] at h
    rcases List.append_eq_append_iff.1 h with ⟨more, rfl, hpart⟩ | ⟨more, rfl, hrest⟩
    · -- it begins before the separator, and ends there, or it would hold the separator
      rcases List.append_eq_append_iff.1 hpart with ⟨more, rfl, -⟩ | ⟨inside, rfl, hinside⟩
      · exact .inl ⟨left, more, by simp⟩
      · cases inside with
        | nil => exact .inl ⟨left, [], by simp⟩
        | cons c inside =>
          obtain ⟨rfl, -⟩ := List.cons.inj hinside
          simp at hsep
    · cases more with
      | nil =>
        cases part with
        | nil => exact .inl (List.nil_infix)
        | cons c part =>
          obtain ⟨rfl, -⟩ := List.cons.inj hrest
          simp at hsep
      | cons c more =>
        obtain ⟨-, rfl⟩ := List.cons.inj hrest
        exact .inr ⟨more, right, by simp⟩
  · rintro (⟨left, right, rfl⟩ | ⟨left, right, rfl⟩)
    · exact ⟨left, right ++ sep :: rest, by simp⟩
    · exact ⟨cs ++ sep :: left, right, by simp⟩

/-- What stands behind a head is what is left without it. -/
theorem dropHead?_append (head cs : List Char) : dropHead? head (head ++ cs) = some cs := by
  unfold dropHead?
  rw [if_pos (List.isPrefixOf_iff_prefix.2 (List.prefix_append head cs)), List.drop_left]

end Text

end Dismissal
