import Dismissal.Instant.Layout
import Dismissal.Proofs.Instant.Calendar
import Mathlib.Algebra.Group.Nat.Defs

/-!
# What is written is read back

The text of an instant names that instant again, for every instant there is: leap seconds, the
years before year 0 and those of five or six digits included.

* `ofRecordText?_zuluText`: records, whose texts end in `Z`.
* `ofCellText?_offsetText`: table cells, whose texts end in `+00:00`. A year of four digits is read
  to the letter of RFC 3339; any other year falls through to the last of the cell layouts, and none
  of those tried before it takes the text for something else.
-/

namespace Dismissal

namespace Text

variable {w n : Nat} {c : Char}

/-- No digit stands at the front. -/
def NoDigit (cs : List Char) : Prop := ∀ c ∈ cs.head?, c.isDigit = false

theorem takeWhile_take_append {p : Char → Bool} {ds rest : List Char} {most : Nat}
    (hd : ∀ c ∈ ds, p c = true) (hm : ds.length ≤ most)
    (hr : ds.length = most ∨ ∀ c ∈ rest.head?, p c = false) :
    ((ds ++ rest).take most).takeWhile p = ds := by
  rw [List.take_append, List.take_of_length_le hm, List.takeWhile_append_of_pos hd]
  rcases hr with hr | hr
  · simp [hr]
  · cases rest with
    | nil => simp
    | cons c rest =>
      cases most - ds.length with
      | zero => simp
      | succ k => simp [hr c (by simp)]

/-- Digits at the front are read as their number, if their count is right and no more follow. -/
theorem number_append {least most : Nat} {ds rest : List Char}
    (hd : ∀ c ∈ ds, c.isDigit = true) (hl : least ≤ ds.length) (hm : ds.length ≤ most)
    (hr : ds.length = most ∨ NoDigit rest) :
    number least most (ds ++ rest) = some (Nat.ofDigitChars 10 ds 0, rest) := by
  unfold number
  rw [takeWhile_take_append hd hm hr]
  simp only [Nat.not_lt.2 hl, ↓reduceIte, List.drop_left]

theorem isDigit_of_mem_padded (h : c ∈ padded w n) : c.isDigit = true := by
  unfold padded List.leftpad at h
  rcases List.mem_append.1 h with h | h
  · rw [List.eq_of_mem_replicate h]
    decide
  · exact Nat.isDigit_of_mem_toDigits (by decide) (by decide) h

theorem length_padded (hw : 0 < w) (h : n < 10 ^ w) : (padded w n).length = w := by
  have := (Nat.length_toDigits_le_iff (b := 10) (by decide) hw).2 h
  unfold padded
  rw [List.length_leftpad]
  exact Nat.max_eq_left this

theorem le_length_padded : 1 ≤ (padded w n).length := by
  have := Nat.length_toDigits_pos (b := 10) (n := n)
  unfold padded
  rw [List.length_leftpad]
  omega

theorem ofDigitChars_padded : Nat.ofDigitChars 10 (padded w n) 0 = n := by
  simp [padded, List.leftpad, Nat.ofDigitChars_append]

/-- A number that fills its width is read in that width. -/
theorem number_padded (hw : 0 < w) (h : n < 10 ^ w) {least : Nat} (hl : least ≤ w)
    (rest : List Char) : number least w (padded w n ++ rest) = some (n, rest) := by
  have hlen := length_padded hw h
  rw [number_append (fun _ => isDigit_of_mem_padded) (by omega) (by omega) (.inl hlen),
    ofDigitChars_padded]

theorem exists_padded_cons (w n : Nat) : ∃ c cs, padded w n = c :: cs ∧ c.isDigit = true := by
  cases h : padded w n with
  | nil =>
    have := le_length_padded (w := w) (n := n)
    simp [h] at this
  | cons c cs => exact ⟨c, cs, rfl, isDigit_of_mem_padded (w := w) (n := n) (by simp [h])⟩

theorem not_isBlank_of_isDigit (h : c.isDigit = true) : isBlank c = false := by
  simp only [Char.isDigit, Bool.and_eq_true, decide_eq_true_eq, ge_iff_le,
    UInt32.le_iff_toNat_le] at h
  change 48 ≤ c.toNat ∧ c.toNat ≤ 57 at h
  simp only [isBlank, Bool.or_eq_false_iff, Bool.and_eq_false_iff, decide_eq_false_iff_not,
    beq_eq_false_iff_ne]
  omega

theorem trimStart_padded (rest : List Char) :
    trimStart (padded w n ++ rest) = padded w n ++ rest := by
  obtain ⟨c, cs, h, hc⟩ := exists_padded_cons w n
  simp [h, trimStart, not_isBlank_of_isDigit hc]

end Text

namespace Instant

open Text

/-! ## Fields -/

section Fields

variable {n : Nat} {rest : List Char} {loose : Bool}

/-- A field of two digits is read back, loose or not. -/
theorem readField_padded {field : Field} (hf : field ≠ .year) (h : n < 100) :
    readField field loose (padded 2 n ++ rest) = some ((n : Int), rest) := by
  have hwidth : field.width = 2 := by cases field <;> first | rfl | exact absurd rfl hf
  have hnum {least : Nat} (hl : least ≤ 2) :
      number least 2 (padded 2 n ++ rest) = some (n, rest) := number_padded (by decide) h hl rest
  unfold readField
  cases loose with
  | false =>
    simp only [Bool.false_eq_true, ↓reduceIte, hwidth, hnum (Nat.le_refl 2), Option.map_some]
  | true =>
    simp only [↓reduceIte, trimStart_padded]
    split
    · exact absurd rfl hf
    · exact absurd rfl hf
    · simp only [hwidth, hnum (Nat.le_succ 1), Option.map_some]

/-- A year of four digits is read back, loose or not. -/
theorem readField_year {y : Int} (h : 0 ≤ y ∧ y ≤ 9999) :
    readField .year loose (yearText y ++ rest) = some (y, rest) := by
  have hy : yearText y = padded 4 y.toNat := by simp [yearText, h]
  have hback : ((y.toNat : Nat) : Int) = y := Int.toNat_of_nonneg h.1
  have hnum {least : Nat} (hl : least ≤ 4) :
      number least 4 (padded 4 y.toNat ++ rest) = some (y.toNat, rest) :=
    number_padded (by decide) (by omega) hl rest
  rw [hy]
  unfold readField
  cases loose with
  | false =>
    simp only [Bool.false_eq_true, ↓reduceIte, Field.width, hnum (Nat.le_refl 4), Option.map_some,
      hback]
  | true =>
    obtain ⟨c, cs, hcons, hc⟩ := exists_padded_cons 4 y.toNat
    simp only [↓reduceIte, trimStart_padded]
    split
    · rename_i heq
      simp only [hcons, List.cons_append, List.cons.injEq] at heq
      exact absurd hc (by rw [heq.1]; decide)
    · rename_i heq
      simp only [hcons, List.cons_append, List.cons.injEq] at heq
      exact absurd hc (by rw [heq.1]; decide)
    · simp only [Field.width, hnum (show 1 ≤ 4 by decide), Option.map_some, hback]

/-- Any year is read back by a loose reader. Behind a sign there is no bound on its digits. -/
theorem readField_year_loose {y : Int} (hr : NoDigit rest) :
    readField .year true (yearText y ++ rest) = some (y, rest) := by
  by_cases h : 0 ≤ y ∧ y ≤ 9999
  · exact readField_year h
  · have hnum : number 1 (padded 4 y.natAbs ++ rest).length (padded 4 y.natAbs ++ rest) =
        some (y.natAbs, rest) := by
      rw [number_append (fun _ => isDigit_of_mem_padded) le_length_padded (by simp) (.inr hr),
        ofDigitChars_padded]
    unfold yearText readField
    simp only [h, ↓reduceIte, List.cons_append]
    by_cases hneg : y < 0
    · have hback : -((y.natAbs : Nat) : Int) = y := by omega
      have htrim : trimStart ('-' :: (padded 4 y.natAbs ++ rest)) =
          '-' :: (padded 4 y.natAbs ++ rest) := rfl
      simp only [hneg, ↓reduceIte, htrim, hnum, Option.map_some, hback]
    · have hback : ((y.natAbs : Nat) : Int) = y := by omega
      have htrim : trimStart ('+' :: (padded 4 y.natAbs ++ rest)) =
          '+' :: (padded 4 y.natAbs ++ rest) := rfl
      simp only [hneg, ↓reduceIte, htrim, hnum, Option.map_some, hback]

/-- A strict reader takes no year that needs a sign. -/
theorem readField_year_strict {y : Int} (h : ¬(0 ≤ y ∧ y ≤ 9999)) :
    readField .year false (yearText y ++ rest) = none := by
  unfold yearText readField number
  by_cases hneg : y < 0 <;> simp [h, hneg, Field.width]

/-- A fraction is read back, whatever count of digits it is written with. -/
theorem readFraction_fractionText (h : n < 1000000000) (hr : NoDigit rest)
    (hdot : rest.head? ≠ some '.') : readFraction (fractionText n ++ rest) = some (n, rest) := by
  have hpart {w m : Nat} (hw : 0 < w) (hw9 : w ≤ 9) (hm : m < 10 ^ w) :
      readFraction ('.' :: padded w m ++ rest) = some (m * tenTo (9 - w), rest) := by
    have hlen := length_padded hw hm
    have htake : ((padded w m ++ rest).take 9).takeWhile Char.isDigit = padded w m :=
      takeWhile_take_append (fun _ => isDigit_of_mem_padded) (by omega) (.inr hr)
    have hdrop : (padded w m ++ rest).dropWhile Char.isDigit = rest := by
      rw [List.dropWhile_append_of_pos fun _ => isDigit_of_mem_padded]
      cases rest with
      | nil => rfl
      | cons c rest => simp [hr c (by simp)]
    have hne : (padded w m).isEmpty = false := by
      rw [List.isEmpty_eq_false_iff, ← List.length_pos_iff]
      omega
    unfold readFraction
    simp only [List.cons_append, htake, hne, Bool.false_eq_true, ↓reduceIte, ofDigitChars_padded,
      hlen, hdrop]
  unfold fractionText
  split
  · rename_i h0
    unfold readFraction
    rw [List.nil_append, h0]
    split
    · simp at hdot
    · rfl
  split
  · rw [hpart (by decide) (by decide) (show n / 1000000 < 10 ^ 3 by omega)]
    simp only [tenTo, Nat.reduceSub, Nat.pow_eq, Nat.reducePow, Option.some.injEq, Prod.mk.injEq,
      and_true]
    omega
  split
  · rw [hpart (by decide) (by decide) (show n / 1000 < 10 ^ 6 by omega)]
    simp only [tenTo, Nat.reduceSub, Nat.pow_eq, Nat.reducePow, Option.some.injEq, Prod.mk.injEq,
      and_true]
    omega
  · rw [hpart (by decide) (by decide) (show n < 10 ^ 9 by omega)]
    simp [tenTo]

end Fields

/-! ## Layouts -/

section Layouts

variable {r : Reading} {cs rest : List Char} {c : Char} {parts gap : Layout} {loose : Bool}

theorem readParts_number {field : Field} {n : Int}
    (h : readField field loose cs = some (n, rest)) :
    Layout.readParts r cs (.number field loose :: parts) =
      Layout.readParts (r.set n field) rest parts := by
  simp only [Layout.readParts, Part.read, h, Option.map_some, Option.bind_some]

theorem readParts_oneOf {choices : List Char} (h : choices.contains c = true) :
    Layout.readParts r (c :: cs) (.oneOf choices :: parts) = Layout.readParts r cs parts := by
  simp only [Layout.readParts, Part.read, h, ↓reduceIte, Option.bind_some]

/-- A gap that may hold blanks takes nothing off a text without any. -/
theorem readParts_gap (hgap : gap = [] ∨ gap = [.blanks]) (hc : isBlank c = false) :
    Layout.readParts r (c :: cs) (gap ++ parts) = Layout.readParts r (c :: cs) parts := by
  rcases hgap with rfl | rfl
  · rfl
  · simp [Layout.readParts, Part.read, trimStart, hc]

variable (gap) in
/-- The parts of a written date. -/
theorem readParts_date {d : Date} (hgap : gap = [] ∨ gap = [.blanks])
    (hloose : loose = true ∨ (0 ≤ d.year ∧ d.year ≤ 9999)) (hmonth : d.month < 100)
    (hday : d.day < 100) :
    Layout.readParts r (dateText d ++ rest)
      (.number .year loose :: (gap ++ .oneOf ['-'] :: .number .month loose ::
        (gap ++ .oneOf ['-'] :: .number .day loose :: parts))) =
      Layout.readParts { r with year := d.year, month := d.month, day := d.day } rest parts := by
  have hyear (cs : List Char) : readField .year loose (yearText d.year ++ '-' :: cs) =
      some (d.year, '-' :: cs) := by
    rcases hloose with rfl | h
    · exact readField_year_loose (fun c h => by cases h; rfl)
    · exact readField_year h
  unfold dateText
  simp only [List.append_assoc, List.cons_append]
  rw [readParts_number (hyear _), readParts_gap hgap (by decide), readParts_oneOf (by decide),
    readParts_number (readField_padded (by decide) hmonth), readParts_gap hgap (by decide),
    readParts_oneOf (by decide), readParts_number (readField_padded (by decide) hday)]
  simp only [Reading.set, Int.toNat_natCast]

/-- The parts of a written hour and minute. -/
theorem readParts_minute {hour minute : Nat} (hgap : gap = [] ∨ gap = [.blanks])
    (hhour : hour < 100) (hminute : minute < 100) :
    Layout.readParts r (padded 2 hour ++ ':' :: (padded 2 minute ++ rest))
      (.number .hour loose :: (gap ++ .oneOf [':'] :: .number .minute loose :: parts)) =
      Layout.readParts { r with hour, minute } rest parts := by
  rw [readParts_number (readField_padded (by decide) hhour), readParts_gap hgap (by decide),
    readParts_oneOf (by decide), readParts_number (readField_padded (by decide) hminute)]
  simp only [Reading.set, Int.toNat_natCast]

/-- The parts of a written second with its fraction. -/
theorem readParts_second {second nanos : Nat} (hgap : gap = [] ∨ gap = [.blanks])
    (hsecond : second < 100) (hnanos : nanos < 1000000000) (hr : NoDigit rest)
    (hdot : rest.head? ≠ some '.') :
    Layout.readParts r (':' :: (padded 2 second ++ (fractionText nanos ++ rest)))
      (gap ++ .oneOf [':'] :: .number .second loose :: .fraction :: parts) =
      Layout.readParts { r with second, nanos } rest parts := by
  rw [readParts_gap hgap (by decide), readParts_oneOf (by decide),
    readParts_number (readField_padded (by decide) hsecond)]
  simp only [Layout.readParts, Part.read, readFraction_fractionText hnanos hr hdot, Option.map_some,
    Option.bind_some, Reading.set, Int.toNat_natCast]

end Layouts

/-! ## Instants -/

section Instants

variable (t : Instant)

/-- What the text of an instant says. -/
def reading (t : Instant) : Reading where
  year := (Date.ofDay t.day).year
  month := (Date.ofDay t.day).month
  day := (Date.ofDay t.day).day
  hour := t.secondOfDay / 3600
  minute := t.secondOfDay / 60 % 60
  second := t.secondOfDay % 60 + t.nanos / 1000000000
  nanos := t.nanos % 1000000000

theorem valid_date : (Date.ofDay t.day).Valid := by
  have hlo := t.first_le
  have hhi := t.le_last
  unfold day
  exact Date.valid_ofDay (by omega) (by omega)

theorem secondOfDay_lt : t.secondOfDay < 86400 := by
  unfold secondOfDay
  omega

/-- The reading of a text of an instant names the instant. -/
theorem instant?_reading (offset : Option Int) :
    ({ t.reading with offset } : Reading).instant? 0 = some t := by
  have hsod := t.secondOfDay_lt
  have hdate : (⟨t.reading.year, t.reading.month, t.reading.day⟩ : Date) = Date.ofDay t.day := rfl
  have hnum : (Date.ofDay t.day).dayNumber = t.secs / 86400 := Date.dayNumber_ofDay _
  have hsecs : ((t.secondOfDay : Nat) : Int) = t.secs % 86400 := by
    unfold secondOfDay
    omega
  have hlt := t.nanos_lt
  unfold Reading.instant?
  simp only [hdate, hnum, valid_date, true_and]
  unfold reading
  dsimp only
  by_cases hleap : 1000000000 ≤ t.nanos
  · -- A leap second is the second half of second 59.
    have h59 : t.secondOfDay % 60 = 59 := by
      have := t.leap hleap
      omega
    have hcarry : t.nanos / 1000000000 = 1 := by omega
    have hback : 1000000000 + t.nanos % 1000000000 = t.nanos := by omega
    rw [h59, hcarry, if_pos ⟨by omega, by omega, by omega⟩, if_pos rfl, hback]
    rw [show t.secs / 86400 * 86400 +
      ((t.secondOfDay / 3600 * 3600 + t.secondOfDay / 60 % 60 * 60 : Nat) : Int) - 0 + 59 =
        t.secs by omega]
    exact ofParts?_self t
  · have hcarry : t.nanos / 1000000000 = 0 := by omega
    have hback : t.nanos % 1000000000 = t.nanos := by omega
    rw [hcarry, hback, if_pos ⟨by omega, by omega, by omega⟩, if_neg (by omega)]
    rw [show t.secs / 86400 * 86400 +
      ((t.secondOfDay / 3600 * 3600 + t.secondOfDay / 60 % 60 * 60 : Nat) : Int) - 0 +
        ((t.secondOfDay % 60 + 0 : Nat) : Int) = t.secs by omega]
    exact ofParts?_self t

theorem zoned?_reading : ({ t.reading with offset := some 0 } : Reading).zoned? = some t := by
  simpa [Reading.zoned?] using t.instant?_reading (some 0)

theorem month_lt : (Date.ofDay t.day).month < 100 := by
  obtain ⟨-, ⟨-, hmonth⟩, -⟩ := t.valid_date
  omega

theorem dayOfMonth_lt : (Date.ofDay t.day).day < 100 := by
  obtain ⟨-, -, -, hday⟩ := t.valid_date
  unfold Date.daysIn at hday
  split at hday <;> (try split at hday) <;> omega

/-- What stands behind the minute of a written instant. -/
def behindMinute (zone : List Char) (t : Instant) : List Char :=
  ':' :: (padded 2 t.reading.second ++ (fractionText t.reading.nanos ++ zone))

section Parts

variable {gap parts : Layout} {loose : Bool} {choices zone : List Char}

variable (gap) in
/-- Reading the written text up to its minute. -/
theorem readParts_write_minute (hgap : gap = [] ∨ gap = [.blanks])
    (hloose : loose = true ∨ (0 ≤ t.reading.year ∧ t.reading.year ≤ 9999))
    (hchoices : choices.contains 'T' = true) :
    Layout.readParts {} (t.write zone)
      (.number .year loose :: (gap ++ .oneOf ['-'] :: .number .month loose ::
        (gap ++ .oneOf ['-'] :: .number .day loose :: .oneOf choices :: .number .hour loose ::
          (gap ++ .oneOf [':'] :: .number .minute loose :: parts)))) =
      Layout.readParts { t.reading with second := 0, nanos := 0 } (t.behindMinute zone) parts := by
  have hsod := t.secondOfDay_lt
  unfold write timeText
  simp only [List.append_assoc, List.cons_append]
  rw [readParts_date gap hgap hloose t.month_lt t.dayOfMonth_lt, readParts_oneOf hchoices,
    readParts_minute hgap (by omega) (by omega)]
  rfl

variable (gap) in
/-- Reading the written text up to its zone. -/
theorem readParts_write (hgap : gap = [] ∨ gap = [.blanks])
    (hloose : loose = true ∨ (0 ≤ t.reading.year ∧ t.reading.year ≤ 9999))
    (hchoices : choices.contains 'T' = true) (hzone : NoDigit zone)
    (hdot : zone.head? ≠ some '.') :
    Layout.readParts {} (t.write zone)
      (.number .year loose :: (gap ++ .oneOf ['-'] :: .number .month loose ::
        (gap ++ .oneOf ['-'] :: .number .day loose :: .oneOf choices :: .number .hour loose ::
          (gap ++ .oneOf [':'] :: .number .minute loose ::
            (gap ++ .oneOf [':'] :: .number .second loose :: .fraction :: parts))))) =
      Layout.readParts t.reading zone parts := by
  have hlt := t.nanos_lt
  have hnanos : t.reading.nanos < 1000000000 := Nat.mod_lt _ (by decide)
  have hsecond : t.reading.second < 100 := by
    unfold reading
    dsimp only
    omega
  rw [t.readParts_write_minute gap hgap hloose hchoices]
  unfold behindMinute
  rw [readParts_second hgap hsecond hnanos hzone hdot]

end Parts

/-- A text without its zone is left to be read, so a layout that ends before it does not fit. -/
private theorem read_of_readParts {layout : Layout} {cs : List Char} {o : Option Reading}
    (h : layout.readParts {} cs = o.map (·, [])) : layout.read cs = o := by
  unfold Layout.read
  rw [h]
  cases o <;> rfl

theorem ofRecordText?_zuluText : ofRecordText? t.zuluText = some t := by
  have h : relaxedLayout.readParts {} (t.write ['Z']) =
      Layout.readParts t.reading ['Z'] [.offset true true, .blanks] :=
    t.readParts_write [.blanks] (.inr rfl) (.inl rfl) (by decide)
      (fun c hc => by cases hc; rfl) (by decide)
  have hread : relaxedLayout.read (t.write ['Z']) = some { t.reading with offset := some 0 } :=
    read_of_readParts h
  unfold ofRecordText? zuluText
  rw [String.toList_ofList, hread, Option.bind_some, zoned?_reading]

/-- The zone of table cells. -/
private abbrev offsetZone : List Char := ['+', '0', '0', ':', '0', '0']

private theorem noDigit_offsetZone : NoDigit offsetZone := fun c hc => by cases hc; rfl

/-- A four-digit year makes the cell's text one of RFC 3339. -/
theorem strictLayout_read (h : 0 ≤ t.reading.year ∧ t.reading.year ≤ 9999) :
    strictLayout.read (t.write offsetZone) = some { t.reading with offset := some 0 } := by
  have hparts : strictLayout.readParts {} (t.write offsetZone) =
      Layout.readParts t.reading offsetZone [.offset true false] :=
    t.readParts_write [] (.inl rfl) (.inr h) (by decide) noDigit_offsetZone (by decide)
  exact read_of_readParts hparts

theorem strictLayout_read_none (h : ¬(0 ≤ t.reading.year ∧ t.reading.year ≤ 9999)) :
    strictLayout.read (t.write offsetZone) = none := by
  unfold Layout.read strictLayout dateParts write dateText
  simp only [List.append_assoc, List.cons_append, Layout.readParts, Part.read]
  rw [show (Date.ofDay t.day).year = t.reading.year from rfl, readField_year_strict h]
  rfl

/-- A layout with blanks before the hour does not fit: a `T` stands there. -/
theorem cellLayout_blanks_read (time zone : Layout) :
    (cellLayout .blanks time zone).read (t.write offsetZone) = none := by
  have h (rest : List Char) (parts : Layout) :
      Layout.readParts {} (dateText (Date.ofDay t.day) ++ rest)
        (.number .year true :: .oneOf ['-'] :: .number .month true :: .oneOf ['-'] ::
          .number .day true :: parts) = Layout.readParts _ rest parts :=
    readParts_date [] (.inl rfl) (.inl rfl) t.month_lt t.dayOfMonth_lt
  unfold Layout.read cellLayout write
  simp only [List.append_assoc, List.cons_append, List.nil_append] at h ⊢
  rw [h]
  rfl

/-- A layout without seconds does not fit: their colon is left over. -/
theorem cellLayout_minute_read {zone : Layout}
    (hzone : zone = [] ∨ zone = [.oneOf ['Z']] ∨ zone = [.offset false true]) :
    (cellLayout (.oneOf ['T']) [] zone).read (t.write offsetZone) = none := by
  have h : (cellLayout (.oneOf ['T']) [] zone).readParts {} (t.write offsetZone) =
      zone.readParts { t.reading with second := 0, nanos := 0 } (t.behindMinute offsetZone) :=
    t.readParts_write_minute [] (.inl rfl) (.inl rfl) (by decide)
  unfold Layout.read
  rw [h]
  rcases hzone with rfl | rfl | rfl <;> rfl

/-- With seconds, it is the zone that decides. -/
theorem cellLayout_second_readParts (zone : Layout) :
    (cellLayout (.oneOf ['T']) [.oneOf [':'], .number .second true, .fraction] zone).readParts {}
      (t.write offsetZone) = zone.readParts t.reading offsetZone :=
  t.readParts_write [] (.inl rfl) (.inl rfl) (by decide) noDigit_offsetZone (by decide)

theorem ofCellText?_offsetText : ofCellText? t.offsetText = some t := by
  unfold ofCellText? offsetText
  rw [String.toList_ofList]
  by_cases h : 0 ≤ t.reading.year ∧ t.reading.year ≤ 9999
  · rw [t.strictLayout_read h, Option.bind_some, zoned?_reading]
  · have hplain : (cellLayout (.oneOf ['T']) [.oneOf [':'], .number .second true, .fraction]
        []).read (t.write offsetZone) = none := by
      unfold Layout.read
      rw [cellLayout_second_readParts]
      rfl
    have hzulu : (cellLayout (.oneOf ['T']) [.oneOf [':'], .number .second true, .fraction]
        [.oneOf ['Z']]).read (t.write offsetZone) = none := by
      unfold Layout.read
      rw [cellLayout_second_readParts]
      rfl
    have hoffset : (cellLayout (.oneOf ['T']) [.oneOf [':'], .number .second true, .fraction]
        [.offset false true]).read (t.write offsetZone) =
          some { t.reading with offset := some 0 } := by
      unfold Layout.read
      rw [cellLayout_second_readParts]
      rfl
    rw [t.strictLayout_read_none h]
    simp only [Option.bind_none, cellLayouts, List.findSome?_cons, cellLayout_blanks_read,
      t.cellLayout_minute_read (.inl rfl), t.cellLayout_minute_read (.inr (.inl rfl)),
      t.cellLayout_minute_read (.inr (.inr rfl)), hplain, hzulu, hoffset, Option.bind_some,
      zoned?_reading, Option.some_or]

end Instants

end Instant

end Dismissal
