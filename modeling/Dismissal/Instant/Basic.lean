/-!
# Instants and spans

An `Instant` counts seconds since 1970-01-01T00:00:00 UTC in the proleptic Gregorian calendar, from
the first second of year -262143 to the last of year 262142, with nanoseconds. A leap second is the
second half of a `:59` second: its nanoseconds run from 1000000000 to 1999999999. Instants are
ordered by `rank`, seconds first.

`advance` adds a `Span` and stops at `latest`; spans above `Span.longest` count as that span.

* `rank_inj`: the order tells any two instants apart.
* `le_total`, `le_trans`, `lt_iff_not_le`: the order is linear.
-/

namespace Dismissal

/-- A length of time in nanoseconds. -/
structure Span where
  nanos : Nat
  deriving DecidableEq, Repr

namespace Span

/-- A span of whole milliseconds. -/
def ofMillis (ms : Nat) : Span := ⟨ms * 1000000⟩

/-- A span of seconds and nanoseconds. -/
def ofParts (secs nanos : Nat) : Span := ⟨secs * 1000000000 + nanos⟩

/-- The longest span that time arithmetic works with: 2^63 - 1 milliseconds. -/
def longest : Span := ofParts 9223372036854775 807000000

/-- The span itself, or the longest one in place of anything longer. -/
def cap (d : Span) : Span := if d.nanos ≤ longest.nanos then d else longest

/-- The whole seconds of a span. -/
def wholeSecs (d : Span) : Nat := d.nanos / 1000000000

/-- What a span has beyond its whole seconds. -/
def subsecNanos (d : Span) : Nat := d.nanos % 1000000000

end Span

/-- A point in time, to the nanosecond. -/
structure Instant where
  secs : Int
  nanos : Nat
  first_le : -8334601228800 ≤ secs
  le_last : secs ≤ 8210266876799
  nanos_lt : nanos < 2000000000
  leap : 1000000000 ≤ nanos → secs % 60 = 59
  deriving DecidableEq, Repr

namespace Instant

/-- The instant with the given parts, if they name one. -/
def ofParts? (secs : Int) (nanos : Nat) : Option Instant :=
  if h : (-8334601228800 ≤ secs ∧ secs ≤ 8210266876799) ∧ nanos < 2000000000 ∧
      (1000000000 ≤ nanos → secs % 60 = 59) then
    some ⟨secs, nanos, h.1.1, h.1.2, h.2.1, h.2.2⟩
  else none

/-- The instant of 2024-01-01T00:00:00 UTC, at which a clock starts if nothing else is said. -/
def origin : Instant := ⟨1704067200, 0, by decide, by decide, by decide, by decide⟩

/-- The last nanosecond of the last year, where adding stops. -/
def latest : Instant := ⟨8210266876799, 999999999, by decide, by decide, by decide, by decide⟩

/-- The place of an instant in the order of time. -/
def rank (t : Instant) : Int := t.secs * 2000000000 + t.nanos

instance : LE Instant := ⟨fun a b => a.rank ≤ b.rank⟩

instance : LT Instant := ⟨fun a b => a.rank < b.rank⟩

instance (a b : Instant) : Decidable (a ≤ b) := inferInstanceAs (Decidable (a.rank ≤ b.rank))

instance (a b : Instant) : Decidable (a < b) := inferInstanceAs (Decidable (a.rank < b.rank))

/-- The instant a span later, if there is one. Inside a leap second nothing is carried over; a span
that leads out of it counts the leap second as part of the second that it extends. -/
def add? (t : Instant) (d : Span) : Option Instant :=
  if 1000000000 ≤ t.nanos ∧ t.nanos + d.nanos < 2000000000 then
    ofParts? t.secs (t.nanos + d.nanos)
  else
    let total := t.nanos % 1000000000 + d.nanos
    ofParts? (t.secs + (total / 1000000000 : Nat)) (total % 1000000000)

/-- The instant a span later, or `latest` where there is none. -/
def advance (t : Instant) (d : Span) : Instant := (t.add? d.cap).getD latest

section Order

variable {a b c : Instant}

theorem le_iff : a ≤ b ↔ a.rank ≤ b.rank := Iff.rfl

theorem lt_iff : a < b ↔ a.rank < b.rank := Iff.rfl

/-- The order is by seconds, then by nanoseconds. -/
theorem le_iff_parts : a ≤ b ↔ a.secs < b.secs ∨ (a.secs = b.secs ∧ a.nanos ≤ b.nanos) := by
  have ha := a.nanos_lt
  have hb := b.nanos_lt
  rw [le_iff, rank, rank]
  omega

theorem rank_inj (h : a.rank = b.rank) : a = b := by
  have ha := a.nanos_lt
  have hb := b.nanos_lt
  obtain ⟨sa, na⟩ := a
  obtain ⟨sb, nb⟩ := b
  simp only [rank] at h ha hb
  have hs : sa = sb := by omega
  have hn : na = nb := by omega
  subst hs hn
  rfl

theorem le_refl (a : Instant) : a ≤ a := Int.le_refl _

theorem le_trans (hab : a ≤ b) (hbc : b ≤ c) : a ≤ c := Int.le_trans hab hbc

theorem le_total (a b : Instant) : a ≤ b ∨ b ≤ a := Int.le_total _ _

theorem le_antisymm (hab : a ≤ b) (hba : b ≤ a) : a = b := rank_inj (Int.le_antisymm hab hba)

theorem lt_iff_not_le : a < b ↔ ¬b ≤ a := Int.not_le.symm

end Order

theorem ofParts?_eq_some {secs : Int} {nanos : Nat} {t : Instant}
    (h : ofParts? secs nanos = some t) : t.secs = secs ∧ t.nanos = nanos := by
  unfold ofParts? at h
  split at h
  · obtain rfl := Option.some.inj h
    exact ⟨rfl, rfl⟩
  · simp at h

theorem ofParts?_self (t : Instant) : ofParts? t.secs t.nanos = some t := by
  unfold ofParts?
  rw [dif_pos ⟨⟨t.first_le, t.le_last⟩, t.nanos_lt, t.leap⟩]

end Instant

end Dismissal
