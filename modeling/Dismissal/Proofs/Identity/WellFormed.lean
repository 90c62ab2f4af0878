import Dismissal.Identity

/-!
# Well-formed identities

The rule for identities limits the bytes of a text, and names the characters by their classes. Told
for people, an identity has 1 to 64 characters out of `A-Z`, `a-z`, `0-9`, `-` and `_`. This is the
same, since each of these characters is one byte.

* `valid_iff`: an identity is valid exactly if it is well-formed.
-/

namespace Dismissal.Identity

/-- One of the characters out of which identities are made. -/
def IsPlain (c : Char) : Prop :=
  ('A' ≤ c ∧ c ≤ 'Z') ∨ ('a' ≤ c ∧ c ≤ 'z') ∨ ('0' ≤ c ∧ c ≤ '9') ∨ c = '-' ∨ c = '_'

/-- 1 to 64 plain characters. -/
def WellFormed (value : String) : Prop :=
  1 ≤ value.length ∧ value.length ≤ 64 ∧ ∀ c ∈ value.toList, IsPlain c

section Characters

variable {c : Char} {cs : List Char}

theorem isAllowed_iff : isAllowed c = true ↔ IsPlain c := by
  have hupper : c.isUpper = true ↔ 'A' ≤ c ∧ c ≤ 'Z' := decide_eq_true_iff
  have hlower : c.isLower = true ↔ 'a' ≤ c ∧ c ≤ 'z' :=
    Bool.and_eq_true_iff.trans (and_congr decide_eq_true_iff decide_eq_true_iff)
  have hdigit : c.isDigit = true ↔ '0' ≤ c ∧ c ≤ '9' :=
    Bool.and_eq_true_iff.trans (and_congr decide_eq_true_iff decide_eq_true_iff)
  have halphanum : c.isAlphanum = (c.isUpper || c.isLower || c.isDigit) := rfl
  unfold isAllowed IsPlain
  rw [halphanum, ← hupper, ← hlower, ← hdigit]
  simp [or_assoc]

/-- A plain character is one byte. -/
theorem utf8Size_of_plain (h : IsPlain c) : c.utf8Size = 1 := by
  have hbound : ∀ d : Char, d ≤ 'z' → d.utf8Size = 1 := by
    intro d hd
    rw [Char.utf8Size_eq_one_iff]
    exact UInt32.le_trans hd (by decide)
  rcases h with ⟨-, h⟩ | ⟨-, h⟩ | ⟨-, h⟩ | rfl | rfl
  · exact hbound c (Char.le_trans h (by decide))
  · exact hbound c h
  · exact hbound c (Char.le_trans h (by decide))
  · rfl
  · rfl

theorem utf8ByteSize_of_plain (h : ∀ c ∈ cs, IsPlain c) :
    (String.ofList cs).utf8ByteSize = cs.length := by
  induction cs with
  | nil => rfl
  | cons c cs ih =>
    obtain ⟨hc, hcs⟩ := List.forall_mem_cons.1 h
    rw [← List.singleton_append, String.ofList_append, String.utf8ByteSize_append, ih hcs]
    have hsingle : (String.ofList [c]).utf8ByteSize = 1 :=
      (String.utf8ByteSize_singleton (c := c)).trans (utf8Size_of_plain hc)
    rw [hsingle, List.length_append, List.length_singleton]

end Characters

/-- **Valid identities are the well-formed ones.** -/
theorem valid_iff {value : String} : Valid value ↔ WellFormed value := by
  obtain ⟨cs, rfl⟩ : ∃ cs, value = String.ofList cs := ⟨value.toList, String.ofList_toList.symm⟩
  unfold Valid WellFormed
  have hplain : (String.ofList cs).toList.all isAllowed = true ↔
      ∀ c ∈ (String.ofList cs).toList, IsPlain c := by
    simp only [List.all_eq_true, isAllowed_iff]
  rw [hplain]
  have hempty : String.ofList cs ≠ "" ↔ 1 ≤ (String.ofList cs).length := by
    rw [← String.length_toList]
    cases cs <;> simp
  rw [hempty]
  refine and_congr_right fun _ => and_congr_left fun hall => ?_
  rw [utf8ByteSize_of_plain (by simpa using hall), ← String.length_toList, String.toList_ofList]
  rfl

/-! ## The identities in examples -/

theorem valid_a : Valid "a" := by decide

theorem valid_b : Valid "b" := by decide

theorem valid_c : Valid "c" := by decide

theorem valid_u : Valid "u" := by decide

end Dismissal.Identity
