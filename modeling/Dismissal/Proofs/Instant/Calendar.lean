import Dismissal.Instant.Text

/-!
# The calendar, back and forth

Every day that an instant can fall on has a date, and the date leads back to the day.

* `yearOfCycle_bounds`: the year found for a day of a cycle is the one that the day lies in.
* `dayNumber_ofDay`: counting the days of a date undoes naming the date of a day.
* `valid_ofDay`: the date of a day is a date of the calendar.
-/

namespace Dismissal.Date

/-- The year of a day in a cycle starts no later than the day, and the next year starts after it.
The last day of a cycle is left out: it is the leap day of the four hundredth year. -/
theorem yearOfCycle_bounds {n : Nat} (h : n < 146096) :
    daysBeforeYear (yearOfCycle n) ≤ n ∧ n < daysBeforeYear (yearOfCycle n + 1) ∧
      yearOfCycle n < 400 := by
  unfold daysBeforeYear yearOfCycle
  have hlast : n / 146096 = 0 := by omega
  rw [hlast]
  obtain ⟨c, hc⟩ : ∃ c, c = n / 36524 := ⟨_, rfl⟩
  obtain ⟨g, hg⟩ : ∃ g, g = n / 1460 := ⟨_, rfl⟩
  rw [← hc, ← hg]
  have hc1 : 36524 * c ≤ n ∧ n < 36524 * c + 36524 := by omega
  have hc4 : c < 4 := by omega
  have hg1 : 1460 * g ≤ n ∧ n < 1460 * g + 1460 := by omega
  clear hc hg hlast
  obtain ⟨y, hy⟩ : ∃ y, y = (n - g + c - 0) / 365 := ⟨_, rfl⟩
  rw [← hy]
  have hy1 : 365 * y + g ≤ n + c ∧ n + c < 365 * y + 365 + g := by omega
  clear hy
  -- The centuries of `y` are those of `n`, so only the leap days of the fourth years are left.
  have hcent : y / 100 = c := by omega
  have hnext : (y + 1) / 100 = if y + 1 = 100 * (c + 1) then c + 1 else c := by split <;> omega
  rw [hcent, hnext]
  refine ⟨by omega, ?_, by omega⟩
  split <;> omega

/-- A year of a cycle that has a leap day at its end. -/
private def endsLeap (y : Nat) : Prop := (y + 1) % 4 = 0 ∧ ((y + 1) % 100 ≠ 0 ∨ (y + 1) % 400 = 0)

/-- The day within its year: at most the last one, which only some years have. -/
private theorem dayOfYear_bounds {n : Nat} (h : n < 146097) :
    daysBeforeYear (yearOfCycle n) ≤ n ∧ yearOfCycle n < 400 ∧
      (n ≤ daysBeforeYear (yearOfCycle n) + 364 ∨
        (n = daysBeforeYear (yearOfCycle n) + 365 ∧ endsLeap (yearOfCycle n))) := by
  by_cases hn : n = 146096
  · subst hn
    exact ⟨by decide, by decide, .inr ⟨by decide, by decide, .inr (by decide)⟩⟩
  · obtain ⟨hle, hlt, hy⟩ := yearOfCycle_bounds (n := n) (by omega)
    refine ⟨hle, hy, ?_⟩
    unfold daysBeforeYear endsLeap at *
    by_cases h4 : (yearOfCycle n + 1) % 4 = 0
    · by_cases h100 : (yearOfCycle n + 1) % 100 = 0 <;> omega
    · have hfours : (yearOfCycle n + 1) / 4 = yearOfCycle n / 4 := by omega
      have hcents : yearOfCycle n / 100 ≤ (yearOfCycle n + 1) / 100 := by omega
      omega

/-- The month of a day within its year, both counted from March. -/
private theorem month_bounds {d : Nat} (h : d ≤ 365) :
    daysBeforeMonth ((5 * d + 2) / 153) ≤ d ∧ (5 * d + 2) / 153 ≤ 11 ∧
      d < daysBeforeMonth ((5 * d + 2) / 153 + 1) := by
  unfold daysBeforeMonth
  omega

section OfDay

variable {n : Int}

/-- The cycle of a day, its year in the cycle, and its day in the year. -/
private theorem exists_parts (n : Int) : ∃ (cycle : Int) (y d : Nat),
    n + 719468 = cycle * 146097 + ((daysBeforeYear y + d : Nat) : Int) ∧ y < 400 ∧
    (d ≤ 364 ∨ (d = 365 ∧ endsLeap y)) ∧
    ofDay n =
      { year := cycle * 400 + y + (if (5 * d + 2) / 153 < 10 then 0 else 1)
        month := if (5 * d + 2) / 153 < 10 then (5 * d + 2) / 153 + 3 else (5 * d + 2) / 153 - 9
        day := d - daysBeforeMonth ((5 * d + 2) / 153) + 1 } := by
  have hlt : ((n + 719468) % 146097).toNat < 146097 := by omega
  obtain ⟨hle, hy, hd⟩ := dayOfYear_bounds hlt
  refine ⟨(n + 719468) / 146097, yearOfCycle ((n + 719468) % 146097).toNat,
    ((n + 719468) % 146097).toNat - daysBeforeYear (yearOfCycle ((n + 719468) % 146097).toNat),
    ?_, hy, ?_, rfl⟩
  · rw [Nat.add_sub_cancel' hle]
    omega
  · rcases hd with hd | ⟨hd, hleap⟩
    · exact .inl (by omega)
    · exact .inr ⟨by omega, hleap⟩

theorem dayNumber_ofDay (n : Int) : (ofDay n).dayNumber = n := by
  obtain ⟨cycle, y, d, hn, hy, hd, heq⟩ := exists_parts n
  rw [heq]
  have hd' : d ≤ 365 := by omega
  obtain ⟨hm, hm11, -⟩ := month_bounds hd'
  generalize (5 * d + 2) / 153 = m at *
  unfold dayNumber
  by_cases hm10 : m < 10
  · have hyear : ((cycle * 400 + y + 0) % 400).toNat = y := by omega
    have hcycle : (cycle * 400 + (y : Int) + 0) / 400 = cycle := by omega
    have hgt : ¬m + 3 ≤ 2 := by omega
    simp only [hm10, ↓reduceIte, hgt, hyear, hcycle, Nat.add_sub_cancel]
    omega
  · have hyear : ((cycle * 400 + y + 1 - 1) % 400).toNat = y := by omega
    have hcycle : (cycle * 400 + (y : Int) + 1 - 1) / 400 = cycle := by omega
    have hle : m - 9 ≤ 2 := by omega
    have hback : m - 9 + 9 = m := by omega
    simp only [hm10, ↓reduceIte, hle, hyear, hcycle, hback]
    omega

/-- The last day of a February needs a leap year. -/
private theorem isLeapYear_of_endsLeap {cycle : Int} {y : Nat} (h : endsLeap y) :
    isLeapYear (cycle * 400 + y + 1) = true := by
  unfold endsLeap at h
  unfold isLeapYear
  simp only [beq_iff_eq, bne_iff_ne, Bool.and_eq_true, Bool.or_eq_true]
  omega

theorem valid_ofDay (hlo : -96465292 ≤ n) (hhi : n ≤ 95026236) : (ofDay n).Valid := by
  obtain ⟨cycle, y, d, hn, hy, hd, heq⟩ := exists_parts n
  have hleap : d = 365 → isLeapYear (cycle * 400 + y + 1) = true := by
    rintro rfl
    exact isLeapYear_of_endsLeap (by rcases hd with hd | ⟨-, hd⟩; omega; exact hd)
  have hd' : d ≤ 365 := by omega
  obtain ⟨hm, hm11, hnext⟩ := month_bounds hd'
  have hmd : (5 * d + 2) / 153 < 10 ↔ d ≤ 305 := by omega
  rw [heq]
  generalize (5 * d + 2) / 153 = m at *
  refine ⟨?_, ?_, ?_⟩
  · -- The first and the last year of instants are cut where the months from March turn over.
    unfold daysBeforeYear at hn
    have hcycle : -656 ≤ cycle ∧ cycle ≤ 655 := by omega
    dsimp only
    by_cases hfirst : cycle = -656
    · split <;> omega
    · by_cases hlast : cycle = 655 <;> split <;> omega
  · dsimp only
    split <;> omega
  · clear hn hd heq
    refine ⟨Nat.le_add_left 1 _, ?_⟩
    dsimp only
    unfold daysBeforeMonth at *
    have hcases : m = 0 ∨ m = 1 ∨ m = 2 ∨ m = 3 ∨ m = 4 ∨ m = 5 ∨ m = 6 ∨ m = 7 ∨ m = 8 ∨
        m = 9 ∨ m = 10 ∨ m = 11 := by omega
    rcases hcases with rfl | rfl | rfl | rfl | rfl | rfl | rfl | rfl | rfl | rfl | rfl | rfl <;>
      simp only [daysIn, Nat.reduceLT, ↓reduceIte, Nat.reduceAdd, Nat.reduceSub, Nat.reduceEqDiff,
        Nat.reduceMul, Nat.reduceDiv, or_false, or_true] at * <;>
      try omega
    -- February
    by_cases h : d = 365
    · rw [hleap h]
      simp [h]
    · split <;> omega

end OfDay

end Dismissal.Date
