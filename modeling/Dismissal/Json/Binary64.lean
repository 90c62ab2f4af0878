import Dismissal.Text.Digits

/-!
# Binary floating point with 53 digits

A `Binary64` is a nonnegative number `mantissa * 2 ^ exponent` as IEEE 754 stores it in 64 bits.
`ofRatio` rounds a quotient to the nearest such number, ties to an even mantissa. `ofDecimal` gives
the number that a JSON text with up to twenty digits stands for, with one rounding for the digits,
one for the power of ten and one for their product. `shortest` is the shortest decimal that rounds
back to the number.
-/

namespace Dismissal.Json

/-- A nonnegative number in binary floating point. -/
structure Binary64 where
  mantissa : Nat
  exponent : Int
  deriving DecidableEq, Repr

namespace Binary64

/-- A power of two. -/
def twoTo (power : Nat) : Nat := Nat.pow 2 power

/-- The quotient rounded to a whole number, a tie to the even one. -/
def roundDiv (num den : Nat) : Nat :=
  let q := num / den
  let r := num % den
  if 2 * r < den ∨ (2 * r = den ∧ q % 2 = 0) then q else q + 1

/-- The quotient in units of `2 ^ scale`, rounded. -/
def atScale (num den : Nat) (scale : Int) : Nat :=
  if 0 ≤ scale then roundDiv num (den * twoTo scale.toNat)
  else roundDiv (num * twoTo (-scale).toNat) den

/-- The number nearest to a quotient, none if that is beyond the largest. -/
def ofRatio (num den : Nat) : Option Binary64 :=
  if num = 0 then some ⟨0, 0⟩
  else
    let s : Int := (num.log2 : Int) - den.log2
    let reached := if 0 ≤ s then den * twoTo s.toNat ≤ num else den ≤ num * twoTo (-s).toNat
    let scale := max ((if reached then s else s - 1) - 52) (-1074)
    let m := atScale num den scale
    if m = 0 then some ⟨0, 0⟩
    else
      let n : Binary64 := if m = twoTo 53 then ⟨twoTo 52, scale + 1⟩ else ⟨m, scale⟩
      if 971 < n.exponent then none else some n

/-- The number as a quotient. -/
def ratio (x : Binary64) : Nat × Nat :=
  if 0 ≤ x.exponent then (x.mantissa * twoTo x.exponent.toNat, 1)
  else (x.mantissa, twoTo (-x.exponent).toNat)

/-- The rounded product of two numbers. -/
def mul (x y : Binary64) : Option Binary64 :=
  ofRatio (x.ratio.1 * y.ratio.1) (x.ratio.2 * y.ratio.2)

/-- The rounded quotient of two numbers. -/
def div (x y : Binary64) : Option Binary64 :=
  ofRatio (x.ratio.1 * y.ratio.2) (x.ratio.2 * y.ratio.1)

/-- Scales a number by a power of ten, at most 308 places at a time; `steps` bounds how often. -/
def scale10 (x : Binary64) (power : Int) : Nat → Option Binary64
  | 0 => some ⟨0, 0⟩
  | steps + 1 =>
    if x.mantissa = 0 then some x
    else if 308 < power then none
    else if 0 ≤ power then (ofRatio (Text.tenTo power.toNat) 1).bind x.mul
    else if -308 ≤ power then (ofRatio (Text.tenTo (-power).toNat) 1).bind x.div
    else ((ofRatio (Text.tenTo 308) 1).bind x.div).bind fun y => y.scale10 (power + 308) steps

/-- The number that `digits * 10 ^ power` stands for, none if it is too large. -/
def ofDecimal (digits : Nat) (power : Int) : Option Binary64 :=
  (ofRatio digits 1).bind fun x => x.scale10 power 4

/-- The least number of places by which `num / den` has to be raised to reach 1. -/
def placesBelowOne (num den : Nat) : Nat → Nat
  | 0 => 0
  | bound + 1 => if den ≤ num then 0 else placesBelowOne (num * 10) den bound + 1

/-- The power of ten of the first digit of a positive quotient. -/
def leadingPower (num den : Nat) : Int :=
  if den ≤ num then ((Nat.toDigits 10 (num / den)).length : Int) - 1
  else -(placesBelowOne num den 400 : Int)

/-- The whole numbers on both sides of a quotient, the nearer one first. -/
def sides (num den : Nat) : List Nat :=
  let near := roundDiv num den
  let low := num / den
  [near, if near = low then low + 1 else low]

/-- A decimal with one zero less at the end of its digits, if there is one. -/
def dropZero (d : Nat × Int) : Nat × Int := if d.1 % 10 = 0 then (d.1 / 10, d.2 + 1) else d

/-- The decimals with `count` digits on both sides of a quotient, the nearer one first, as digits
and power of ten. The upper one can be the next power of ten. -/
def decimals (num den count : Nat) : List (Nat × Int) :=
  let power := leadingPower num den - count + 1
  let digits :=
    if 0 ≤ power then sides num (den * Text.tenTo power.toNat)
    else sides (num * Text.tenTo (-power).toNat) den
  digits.map fun n => dropZero (n, power)

/-- Whether a decimal rounds to the number. -/
def readsBack (x : Binary64) (d : Nat × Int) : Bool :=
  let y :=
    if 0 ≤ d.2 then ofRatio (d.1 * Text.tenTo d.2.toNat) 1
    else ofRatio d.1 (Text.tenTo (-d.2).toNat)
  y == some x

/-- The shortest decimal that rounds to the number, and of two of them the nearer one. Seventeen
digits are always enough. -/
def shortest (x : Binary64) : Nat × Int :=
  let (num, den) := x.ratio
  let candidates := (List.range 17).flatMap fun n => decimals num den (n + 1)
  if x.mantissa = 0 then (0, 0) else (candidates.find? x.readsBack).getD (0, 0)

/-- The text of a number: from 0.00001 up to below 10^16 with a point and a digit behind it at
least, else with one digit before the point and a power of ten with its sign. -/
def text (x : Binary64) : List Char :=
  let (digits, power) := x.shortest
  let ds := Nat.toDigits 10 digits
  let lead := power + ds.length - 1
  if digits = 0 then ['0', '.', '0']
  else if 0 ≤ power ∧ lead < 16 then ds ++ List.replicate power.toNat '0' ++ ['.', '0']
  else if 0 ≤ lead ∧ lead < 16 then ds.take (lead.toNat + 1) ++ '.' :: ds.drop (lead.toNat + 1)
  else if -5 ≤ lead ∧ lead < 0 then '0' :: '.' :: List.replicate ((-lead).toNat - 1) '0' ++ ds
  else
    let fraction := if ds.length = 1 then [] else '.' :: ds.drop 1
    let mark := if lead < 0 then ['e'] else ['e', '+']
    ds.take 1 ++ fraction ++ mark ++ (Text.signedDecimal lead).toList

end Binary64

end Dismissal.Json
