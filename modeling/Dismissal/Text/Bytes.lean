/-!
# Text as bytes

`Bytes.ofText` is the UTF-8 form of a text and `Bytes.text?` reads it back; bytes that are no UTF-8
have no text.

* `text?_ofText`: reading gives the written text.
* `ofText_inj`: no two texts have one form.
-/

namespace Dismissal

/-- A sequence of bytes. -/
abbrev Bytes := List UInt8

namespace Bytes

/-- The UTF-8 form of a text. -/
def ofText (s : String) : Bytes := s.toUTF8.data.toList

/-- The text that the bytes are the UTF-8 form of. -/
def text? (bytes : Bytes) : Option String := String.fromUTF8? ⟨bytes.toArray⟩

/-- The value of a hexadecimal digit. -/
def hexValue? (b : UInt8) : Option Nat :=
  if 0x30 ≤ b && b ≤ 0x39 then some (b.toNat - 0x30)
  else if 0x41 ≤ b && b ≤ 0x46 then some (b.toNat - 0x41 + 10)
  else if 0x61 ≤ b && b ≤ 0x66 then some (b.toNat - 0x61 + 10)
  else none

theorem text?_ofText (s : String) : text? (ofText s) = some s := by
  have h : (⟨s.toUTF8.data.toList.toArray⟩ : ByteArray) = s.toUTF8 := by simp
  unfold text? ofText
  rw [h]
  unfold String.fromUTF8?
  split
  · rfl
  · rename_i hv
    exact absurd s.isValidUTF8 (by simpa using hv)

theorem ofText_inj {s t : String} (h : ofText s = ofText t) : s = t := by
  have hs := text?_ofText s
  rw [h, text?_ofText] at hs
  exact (Option.some.inj hs).symm

end Bytes

end Dismissal
