import Dismissal.Instant.Basic

/-!
# Later instants

An instant that is a span later is later, if the span takes any time at all. This is so inside of
leap seconds and across them, and also where adding stops at `latest`; only of `latest` itself it is
not so.

Adding two spans one after the other is adding both at once (`add?_add`): a leap second is left
once, and from then on nanoseconds are carried over as always. Adding stops at most once, too, for
nothing is later than `latest`, so that it does not matter in how many steps a clock is advanced.

* `lt_advance`: what is a span later is later.
* `advance_composes`: how far clocks are advanced, and in how many steps.
-/

namespace Dismissal

namespace Span

variable {d : Span}

instance : Zero Span := ⟨⟨0⟩⟩

instance : Add Span := ⟨fun a b => ⟨a.nanos + b.nanos⟩⟩

@[simp] theorem nanos_zero : (0 : Span).nanos = 0 := rfl

@[simp] theorem nanos_add (a b : Span) : (a + b).nanos = a.nanos + b.nanos := rfl

theorem cap_pos (h : 0 < d.nanos) : 0 < d.cap.nanos := by
  unfold cap
  split
  · exact h
  · decide

end Span

namespace Instant

variable {t later : Instant} {d : Span}

theorem lt_iff_parts : t < later ↔
    t.secs < later.secs ∨ (t.secs = later.secs ∧ t.nanos < later.nanos) := by
  rw [lt_iff_not_le, le_iff_parts]
  omega

/-- What can be added without an end leads to a later instant. -/
theorem lt_of_add? (hpos : 0 < d.nanos) (h : t.add? d = some later) : t < later := by
  rw [lt_iff_parts]
  unfold add? at h
  split at h
  · -- the leap second goes on
    obtain ⟨hsecs, hnanos⟩ := ofParts?_eq_some h
    omega
  · rename_i hout
    obtain ⟨hsecs, hnanos⟩ := ofParts?_eq_some h
    have hlt := t.nanos_lt
    -- out of a leap second, at least one second is carried over
    omega

/-- **What is a span later is later**, before the last instant. -/
theorem lt_advance (hpos : 0 < d.nanos) (h : t < latest) : t < t.advance d := by
  unfold advance
  cases hadd : t.add? d.cap with
  | none => exact h
  | some later => exact lt_of_add? (Span.cap_pos hpos) hadd

/-! ## Adding without an end -/

section Parts

variable {secs : Int} {nanos : Nat}

/-- Nanoseconds below a second name an instant in every second that is not too late. -/
theorem ofParts?_plain (hnanos : nanos < 1000000000) (hfirst : t.secs ≤ secs) :
    (secs ≤ latest.secs ∧ ∃ later, ofParts? secs nanos = some later) ∨
      (latest.secs < secs ∧ ofParts? secs nanos = none) := by
  have hle := t.first_le
  unfold ofParts?
  by_cases hlast : secs ≤ 8210266876799
  · exact .inl ⟨hlast, _, dif_pos ⟨⟨by omega, hlast⟩, by omega, by omega⟩⟩
  · exact .inr ⟨Int.not_le.1 hlast, dif_neg fun h => hlast h.1.2⟩

/-- Nanoseconds of a leap second name an instant in the same second. -/
theorem ofParts?_leap (hleap : 1000000000 ≤ t.nanos) (hnanos : nanos < 2000000000) :
    ∃ later, ofParts? t.secs nanos = some later := by
  unfold ofParts?
  exact ⟨_, dif_pos ⟨⟨t.first_le, t.le_last⟩, hnanos, fun _ => t.leap hleap⟩⟩

end Parts

/-- The span stays inside of the leap second in which an instant is. -/
def StaysLeap (t : Instant) (d : Span) : Prop :=
  1000000000 ≤ t.nanos ∧ t.nanos + d.nanos < 2000000000

theorem add?_leap (h : t.StaysLeap d) :
    ∃ later, t.add? d = some later ∧ later.secs = t.secs ∧ later.nanos = t.nanos + d.nanos := by
  obtain ⟨later, hlater⟩ := ofParts?_leap h.1 h.2
  exact ⟨later, (if_pos h).trans hlater, ofParts?_eq_some hlater⟩

/-- Out of a leap second a span is added as always, and stops if there is no such second. -/
theorem add?_plain (h : ¬t.StaysLeap d) :
    let total := t.nanos % 1000000000 + d.nanos
    let secs := t.secs + (total / 1000000000 : Nat)
    (secs ≤ latest.secs ∧ ∃ later, t.add? d = some later ∧ later.secs = secs ∧
        later.nanos = total % 1000000000) ∨
      (latest.secs < secs ∧ t.add? d = none) := by
  intro total secs
  have hadd : t.add? d = ofParts? secs (total % 1000000000) := if_neg h
  have hnanos : total % 1000000000 < 1000000000 := Nat.mod_lt _ (by decide)
  have hfirst : t.secs ≤ secs := by omega
  rcases ofParts?_plain hnanos hfirst with ⟨hlast, later, hlater⟩ | ⟨hlate, hnone⟩
  · exact .inl ⟨hlast, later, hadd.trans hlater, ofParts?_eq_some hlater⟩
  · exact .inr ⟨hlate, hadd.trans hnone⟩

theorem eq_of_parts {a b : Instant} (hsecs : a.secs = b.secs) (hnanos : a.nanos = b.nanos) :
    a = b := rank_inj (by rw [rank, rank, hsecs, hnanos])

/-- **Two spans are added one after the other or at once.** -/
theorem add?_add (t : Instant) (a b : Span) : t.add? (a + b) = (t.add? a).bind (·.add? b) := by
  by_cases hstays : t.StaysLeap a
  · obtain ⟨mid, hmid, hsecs, hnanos⟩ := add?_leap hstays
    obtain ⟨hleap, hlt⟩ := hstays
    have hleap' : 1000000000 ≤ t.nanos + a.nanos := by omega
    have hrest : (t.nanos + a.nanos) % 1000000000 = t.nanos % 1000000000 + a.nanos := by omega
    -- the first span does not leave the leap second, so the second one does what both do
    rw [hmid, Option.bind_some]
    unfold add?
    simp only [hsecs, hnanos, hrest, Span.nanos_add, Nat.add_assoc, hleap, hleap', true_and]
  · have hsum : ¬t.StaysLeap (a + b) := fun h => hstays ⟨h.1, by
      have := h.2
      rw [Span.nanos_add] at this
      omega⟩
    have hboth := add?_plain hsum
    rcases add?_plain hstays with ⟨-, mid, hmid, hsecs, hnanos⟩ | ⟨hlate, hnone⟩
    · -- the first span leads out of any leap second, and the second one is added as always
      have hout : ¬mid.StaysLeap b := fun h => by
        have := h.1
        omega
      have hthen := add?_plain hout
      rw [hmid, Option.bind_some]
      rw [Span.nanos_add] at hboth
      rcases hboth with ⟨hlast, later, hlater, hsecs', hnanos'⟩ | ⟨hlate, hnone⟩
      · rcases hthen with ⟨-, later', hlater', hsecs'', hnanos''⟩ | ⟨hlate', -⟩
        · rw [hlater, hlater', eq_of_parts (a := later) (b := later') (by omega) (by omega)]
        · omega
      · rcases hthen with ⟨hlast', -⟩ | ⟨-, hnone'⟩
        · omega
        · rw [hnone, hnone']
    · rw [hnone, Option.bind_none]
      rcases hboth with ⟨hlast, -⟩ | ⟨-, hnone'⟩
      · rw [Span.nanos_add] at hlast
        omega
      · exact hnone'

/-! ## Adding up to the end -/

/-- Spans above the longest one come to the same end as that one. -/
theorem advance_eq (t : Instant) (d : Span) : t.advance d = (t.add? d).getD latest := by
  unfold advance Span.cap
  split
  · rfl
  · rename_i hlong
    have hnone {d : Span} (h : Span.longest.nanos ≤ d.nanos) : t.add? d = none := by
      have hfirst := t.first_le
      have hlongest : Span.longest.nanos = 9223372036854775807000000 := by decide
      have hlatest : latest.secs = 8210266876799 := rfl
      have hout : ¬t.StaysLeap d := fun hstays => by
        have := hstays.2
        omega
      rcases add?_plain hout with ⟨hlast, -⟩ | ⟨-, hnone⟩
      · omega
      · exact hnone
    rw [hnone (Nat.le_refl _), hnone (by omega)]

theorem add?_zero (t : Instant) : t.add? 0 = some t := by
  by_cases hstays : t.StaysLeap 0
  · obtain ⟨later, hlater, hsecs, hnanos⟩ := add?_leap hstays
    rw [hlater, eq_of_parts hsecs hnanos]
  · have hplain : t.nanos < 1000000000 := by
      have hlt := t.nanos_lt
      refine Nat.lt_of_not_le fun hleap => hstays ⟨hleap, hlt⟩
    have hlast : t.secs ≤ latest.secs := t.le_last
    rcases add?_plain hstays with ⟨-, later, hlater, hsecs, hnanos⟩ | ⟨hlate, -⟩
    · rw [Span.nanos_zero] at hsecs hnanos
      rw [hlater, eq_of_parts (a := later) (b := t) (by omega) (by omega)]
    · rw [Span.nanos_zero] at hlate
      omega

/-- Adding goes no further than the last instant, if it starts there or before. -/
theorem add?_le_latest (h : t ≤ latest) (hadd : t.add? d = some later) : later ≤ latest := by
  rw [le_iff_parts] at h ⊢
  have hlatest : latest.nanos = 999999999 := rfl
  by_cases hstays : t.StaysLeap d
  · obtain ⟨later', hlater, hsecs, -⟩ := add?_leap hstays
    cases hadd.symm.trans hlater
    have hleap := hstays.1
    omega
  · rcases add?_plain hstays with ⟨hlast, later', hlater, hsecs, hnanos⟩ | ⟨-, hnone⟩
    · cases hadd.symm.trans hlater
      omega
    · cases hadd.symm.trans hnone

@[simp] theorem advance_zero (t : Instant) : t.advance 0 = t := by
  rw [advance_eq, add?_zero, Option.getD_some]

theorem advance_le_latest (h : t ≤ latest) (d : Span) : t.advance d ≤ latest := by
  rw [advance_eq]
  cases hadd : t.add? d with
  | none => exact le_refl _
  | some later => exact add?_le_latest h hadd

theorem le_advance (h : t ≤ latest) (d : Span) : t ≤ t.advance d := by
  rw [advance_eq]
  cases hadd : t.add? d with
  | none => exact h
  | some later =>
    rcases Nat.eq_zero_or_pos d.nanos with hzero | hpos
    · obtain rfl : d = 0 := congrArg Span.mk hzero
      cases hadd.symm.trans t.add?_zero
      exact le_refl _
    · exact Int.le_of_lt (lt_of_add? hpos hadd)

/-- Nothing is added to the last instant. -/
theorem advance_latest (d : Span) : latest.advance d = latest :=
  le_antisymm (advance_le_latest (le_refl _) d) (le_advance (le_refl _) d)

theorem advance_add (t : Instant) (a b : Span) : (t.advance a).advance b = t.advance (a + b) := by
  rw [advance_eq t a, advance_eq t (a + b), add?_add]
  cases t.add? a with
  | none => exact advance_latest b
  | some mid => exact advance_eq mid b

/-- **A clock is never moved back and never beyond the last instant, not moved by no time at all,
and it does not matter in how many steps it is advanced.** This holds of all instants up to the last
one, inside of leap seconds as well, and of all spans, however long. -/
theorem advance_composes (h : t ≤ latest) (a b : Span) :
    t ≤ t.advance a ∧ t.advance a ≤ latest ∧ t.advance 0 = t ∧
      (t.advance a).advance b = t.advance (a + b) :=
  ⟨le_advance h a, advance_le_latest h a, advance_zero t, advance_add t a b⟩

/-- The middle of the leap second at the end of 2016. -/
def leapOf2016 : Instant :=
  ⟨1483228799, 1500000000, by decide, by decide, by decide, by decide⟩

/-- Two steps out of a leap second, of which the first one does not leave it. -/
theorem advance_composes_leap : leapOf2016 ≤ latest ∧
    (leapOf2016.advance (.ofMillis 400)).advance (.ofMillis 200) =
      leapOf2016.advance (.ofMillis 400 + .ofMillis 200) := by
  have hbefore : leapOf2016 ≤ latest := by decide
  exact ⟨hbefore, (advance_composes hbefore (.ofMillis 400) (.ofMillis 200)).2.2.2⟩

end Instant

end Dismissal
