import Dismissal.Text.Bytes
import Dismissal.Text.Split

/-!
# Percent escapes

A percent sign and two hexadecimal digits stand for a byte; a percent sign without them stands for
itself. In a form, a plus sign is a space, and fields are set apart by ampersands.

`escape` writes a text with escapes for all bytes but the plain ones.

* `unescapeBytes_escapeBytes`: replacing the escapes gives the bytes back.
-/

namespace Dismissal.Text

/-- Replaces the escapes in bytes. -/
def unescapeBytes : Bytes → Bytes
  | [] => []
  | [a] => [a]
  | [a, b] => [a, b]
  | a :: b :: c :: rest =>
    if a = 0x25 then
      match Bytes.hexValue? b, Bytes.hexValue? c with
      | some high, some low => UInt8.ofNat (high * 16 + low) :: unescapeBytes rest
      | _, _ => a :: unescapeBytes (b :: c :: rest)
    else a :: unescapeBytes (b :: c :: rest)

/-- The text with its escapes replaced, if it is one. -/
def unescape? (s : String) : Option String := Bytes.text? (unescapeBytes (Bytes.ofText s))

/-- Whether a byte can stand for itself everywhere: an ASCII letter or digit, or one of `-._~`. -/
def isPlainByte (b : UInt8) : Bool :=
  (0x30 ≤ b && b ≤ 0x39) || (0x41 ≤ b && b ≤ 0x5A) || (0x61 ≤ b && b ≤ 0x7A) ||
    b == 0x2D || b == 0x2E || b == 0x5F || b == 0x7E

/-- The hexadecimal digit for a number below 16, in upper case. -/
def hexByte (n : Nat) : UInt8 := UInt8.ofNat (if n < 10 then 0x30 + n else 0x37 + n)

/-- The escape for a byte, or the byte itself if it is plain. -/
def escapeByte (b : UInt8) : Bytes :=
  if isPlainByte b then [b] else [0x25, hexByte (b.toNat / 16), hexByte (b.toNat % 16)]

/-- Writes bytes with escapes. -/
def escapeBytes (bytes : Bytes) : Bytes := bytes.flatMap escapeByte

/-- Writes a text with escapes. -/
def escape (s : String) : String :=
  String.ofList ((escapeBytes (Bytes.ofText s)).map fun b => Char.ofNat b.toNat)

/-- The text of one half of a form's field. -/
def unescapeForm? (cs : List Char) : Option String :=
  unescape? (String.ofList (cs.map fun c => if c = '+' then ' ' else c))

/-- The fields of a form, each a name and a value; a field without a value has an empty one. -/
def formFields (cs : List Char) : List (Option String × Option String) :=
  ((splitOn '&' cs).filter (· != [])).map fun field =>
    match splitOnce '=' field with
    | some (name, value) => (unescapeForm? name, unescapeForm? value)
    | none => (unescapeForm? field, some "")

section Lemmas

theorem hexValue?_hexByte {n : Nat} (h : n < 16) : Bytes.hexValue? (hexByte n) = some n := by
  have all : ∀ n : Fin 16, Bytes.hexValue? (hexByte n) = some n.val := by decide
  exact all ⟨n, h⟩

theorem unescapeBytes_cons {b : UInt8} (h : b ≠ 0x25) (rest : Bytes) :
    unescapeBytes (b :: rest) = b :: unescapeBytes rest := by
  match rest with
  | [] => rfl
  | [_] => rfl
  | _ :: _ :: _ => simp [unescapeBytes, h]

theorem unescapeBytes_escape {high low : Nat} (hh : high < 16) (hl : low < 16) (rest : Bytes) :
    unescapeBytes (0x25 :: hexByte high :: hexByte low :: rest) =
      UInt8.ofNat (high * 16 + low) :: unescapeBytes rest := by
  simp [unescapeBytes, hexValue?_hexByte hh, hexValue?_hexByte hl]

theorem unescapeBytes_escapeBytes (bytes : Bytes) : unescapeBytes (escapeBytes bytes) = bytes := by
  induction bytes with
  | nil => rfl
  | cons b bytes ih =>
    unfold escapeBytes at ih ⊢
    rw [List.flatMap_cons, escapeByte]
    split
    · rename_i hp
      have hb : b ≠ 0x25 := fun hb => by simp [hb, isPlainByte] at hp
      rw [List.singleton_append, unescapeBytes_cons hb, ih]
    · have hb := b.toNat_lt
      rw [List.cons_append, List.cons_append, List.cons_append, List.nil_append,
        unescapeBytes_escape (by omega) (Nat.mod_lt _ (by decide)), ih, Nat.div_add_mod']
      simp

end Lemmas

end Dismissal.Text
