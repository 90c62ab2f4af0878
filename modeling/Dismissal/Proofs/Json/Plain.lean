import Dismissal.Json.Printer
import Dismissal.Json.Shape
import Mathlib.Data.List.Basic

/-!
# Plain texts in JSON

A text is plain if all its characters are of ASCII, none is a control character, a quote or a
backslash. JSON writes it as it stands, between quotes, and reads it back from there.

* `renderChars_text`: no character of a plain text is escaped.
* `text_quotedBytes`: a reader takes a plain text and its quotes off the front.
* `members_quotedBytes`, `moreMembers_quotedBytes`: so do the readers of members with the names of
  members, and go on with what stands behind.
-/

namespace Dismissal

namespace Bytes

theorem ofText_ofList (cs : List Char) :
    ofText (String.ofList cs) = cs.flatMap String.utf8EncodeChar := by
  simp [ofText, List.utf8Encode]

theorem ofText_eq_flatMap (s : String) : ofText s = s.toList.flatMap String.utf8EncodeChar := by
  rw [← ofText_ofList, String.ofList_toList]

end Bytes

namespace Json

/-- Characters that stand for themselves in JSON, in one byte. -/
def isPlain (c : Char) : Bool := 0x20 ≤ c.toNat && c.toNat < 0x80 && c != '"' && c != '\\'

/-- A text of plain characters. -/
def Plain (s : String) : Prop := ∀ c ∈ s.toList, isPlain c = true

instance (s : String) : Decidable (Plain s) := List.decidableBAll (isPlain · = true) s.toList

/-- A text between quotes, in bytes. -/
def quotedBytes (s : String) : Bytes := 0x22 :: (Bytes.ofText s ++ [0x22])

section Plain

variable {c : Char} {s : String}

theorem isPlain_iff : isPlain c = true ↔ 0x20 ≤ c.toNat ∧ c.toNat < 0x80 ∧ c ≠ '"' ∧ c ≠ '\\' := by
  simp [isPlain, and_assoc]

theorem isPlain_of_isDigit (h : c.isDigit = true) : isPlain c = true := by
  simp only [Char.isDigit, Bool.and_eq_true, decide_eq_true_eq, ge_iff_le,
    UInt32.le_iff_toNat_le] at h
  change 48 ≤ c.toNat ∧ c.toNat ≤ 57 at h
  refine isPlain_iff.2 ⟨by omega, by omega, ?_, ?_⟩
  · rintro rfl
    exact absurd h (by decide)
  · rintro rfl
    exact absurd h (by decide)

theorem utf8EncodeChar_of_isPlain (h : isPlain c = true) :
    String.utf8EncodeChar c = [UInt8.ofNat c.toNat] := by
  obtain ⟨-, hlt, -, -⟩ := isPlain_iff.1 h
  have hsize : c.utf8Size = 1 := by
    have hle : c.val ≤ 0x7F := by
      rw [UInt32.le_iff_toNat_le]
      change c.toNat ≤ 127
      omega
    unfold Char.utf8Size
    exact if_pos hle
  rw [String.utf8EncodeChar_eq_singleton hsize]
  rfl

theorem escapeChar_of_isPlain (h : isPlain c = true) : escapeChar c = [c] := by
  obtain ⟨hle, -, hquote, hslash⟩ := isPlain_iff.1 h
  unfold escapeChar
  rw [if_neg hquote, if_neg hslash, if_pos hle]

theorem renderChars_text (h : Plain s) : renderChars (.text s) = '"' :: (s.toList ++ ['"']) := by
  have hid : s.toList.flatMap escapeChar = s.toList.flatMap fun c => [c] :=
    List.flatMap_congr fun c hc => escapeChar_of_isPlain (h c hc)
  unfold renderChars quote
  rw [hid, List.flatMap_singleton']
  rfl

/-- A byte that stands for itself between quotes. -/
def Stands (b : UInt8) : Prop := b ≠ 0x22 ∧ b ≠ 0x5C ∧ ¬b < 0x20

theorem stands_of_mem_ofText (h : Plain s) {b : UInt8} (hb : b ∈ Bytes.ofText s) : Stands b := by
  rw [Bytes.ofText_eq_flatMap] at hb
  obtain ⟨c, hc, hb⟩ := List.mem_flatMap.1 hb
  rw [utf8EncodeChar_of_isPlain (h c hc), List.mem_singleton] at hb
  obtain ⟨hle, hlt, hquote, hslash⟩ := isPlain_iff.1 (h c hc)
  have hnat : b.toNat = c.toNat := by
    rw [hb]
    exact UInt8.toNat_ofNat_of_lt' (Nat.lt_trans hlt (by decide))
  refine ⟨fun e => hquote ?_, fun e => hslash ?_, fun e => ?_⟩
  · exact Char.ext (UInt32.toNat_inj.1 (by rw [e] at hnat; exact hnat.symm))
  · exact Char.ext (UInt32.toNat_inj.1 (by rw [e] at hnat; exact hnat.symm))
  · have : b.toNat < 32 := UInt8.lt_iff_toNat_lt.1 e
    omega

end Plain

namespace Reader

section Readers

variable {s : String} {rest : Bytes} {lenient : Bool}

theorem skipBlanks_cons {b : UInt8} (h : isBlankByte b = false) (bs : Bytes) :
    skipBlanks (b :: bs) = b :: bs := by
  simp [skipBlanks, h]

/-- The content of a text ends at the first quote, if all bytes before it stand for themselves. -/
theorem content_append {body : Bytes} (h : ∀ b ∈ body, Stands b) {fuel : Nat}
    (hf : body.length < fuel) :
    content lenient fuel (body ++ 0x22 :: rest) = some (body, rest) := by
  induction body generalizing fuel with
  | nil =>
    obtain ⟨k, rfl⟩ : ∃ k, fuel = k + 1 := ⟨fuel - 1, by omega⟩
    simp [content]
  | cons b body ih =>
    obtain ⟨k, rfl⟩ : ∃ k, fuel = k + 1 := ⟨fuel - 1, by omega⟩
    obtain ⟨hquote, hslash, hcontrol⟩ := h b (by simp)
    have hrec : content lenient k (body ++ 0x22 :: rest) = some (body, rest) :=
      ih (fun b hb => h b (List.mem_cons_of_mem _ hb)) (by simpa using hf)
    simp only [List.cons_append, content, hquote, hslash, hcontrol, ↓reduceIte, hrec]
    rfl

theorem quoted_ofText (h : Plain s) :
    quoted false (Bytes.ofText s ++ 0x22 :: rest) = .ok (s, rest) := by
  have hfuel : (Bytes.ofText s).length < (Bytes.ofText s ++ 0x22 :: rest).length + 1 := by
    rw [List.length_append]
    omega
  unfold quoted
  rw [content_append (fun b hb => stands_of_mem_ofText h hb) hfuel]
  simp only [Bool.false_eq_true, ↓reduceIte, Bytes.text?_ofText]

theorem quotedBytes_append (s : String) (rest : Bytes) :
    quotedBytes s ++ rest = 0x22 :: (Bytes.ofText s ++ 0x22 :: rest) := by
  simp [quotedBytes]

theorem text_quotedBytes (h : Plain s) : text (quotedBytes s ++ rest) = .ok (s, rest) := by
  unfold text
  rw [quotedBytes_append, skipBlanks_cons (by decide)]
  exact quoted_ofText h

section Members

variable {σ : Type} {member : σ → String → Reader σ} {a b : σ} {name : String} {bs : Bytes}

/-- The first member of an object is read, then those behind it. -/
theorem members_quotedBytes (h : Plain name) {fuel : Nat} (hm : member a name bs = .ok (b, rest)) :
    members false member fuel a (quotedBytes name ++ bs) =
      moreMembers false member fuel b rest := by
  unfold members
  rw [quotedBytes_append, skipBlanks_cons (by decide)]
  simp only [quoted_ofText h, bind, Except.bind, hm]

/-- A further member of an object is read, then those behind it. -/
theorem moreMembers_quotedBytes (h : Plain name) {fuel : Nat}
    (hm : member a name bs = .ok (b, rest)) :
    moreMembers false member (fuel + 1) a (0x2C :: (quotedBytes name ++ bs)) =
      moreMembers false member fuel b rest := by
  rw [moreMembers, quotedBytes_append, skipBlanks_cons (by decide)]
  simp only [skipBlanks_cons (show isBlankByte 0x22 = false by decide), quoted_ofText h, bind,
    Except.bind, hm]

theorem moreMembers_close {fuel : Nat} :
    moreMembers false member (fuel + 1) a (0x7D :: rest) = .ok (a, rest) := by
  rw [moreMembers, skipBlanks_cons (by decide)]
  rfl

end Members

end Readers

end Reader

end Json

end Dismissal
