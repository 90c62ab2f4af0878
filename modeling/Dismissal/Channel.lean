/-!
# Broadcast channels

A `Channel` passes values to any number of readers and keeps the newest `capacity` of them. A reader
is the count of values that it has seen or missed: `read` gives what a reader has not seen yet, and
how many of those are gone because the channel keeps no more.

* `Admissible`: the capacities a channel can be asked for. It has the next power of two.
* `length_kept_send_le`: a channel never keeps more than its capacity.
-/

namespace Dismissal

/-- A channel with the newest values, oldest first, and the count of all values sent so far. -/
structure Channel (α : Type) where
  capacity : Nat
  sent : Nat
  kept : List α

namespace Channel

variable {α : Type}

/-- The capacities that a channel can be asked for: at least one, at most half of 64 bits. -/
def Admissible (capacity : Nat) : Prop := 1 ≤ capacity ∧ capacity ≤ 9223372036854775807

instance (capacity : Nat) : Decidable (Admissible capacity) := by unfold Admissible; infer_instance

/-- An empty channel with room for at least `capacity` values. -/
def ofCapacity (capacity : Nat) : Channel α := ⟨capacity.nextPowerOfTwo, 0, []⟩

/-- Sends a value; the oldest one goes if there is no room. -/
def send (c : Channel α) (x : α) : Channel α :=
  let kept := c.kept ++ [x]
  { c with sent := c.sent + 1, kept := kept.drop (kept.length - c.capacity) }

/-- Sends values in order. -/
def sendAll (c : Channel α) (xs : List α) : Channel α := xs.foldl send c

/-- The reader that sees only what is sent from now on. -/
def subscribe (c : Channel α) : Nat := c.sent

/-- How many values a reader has missed, and those that it has not seen and can still see. -/
def read (c : Channel α) (reader : Nat) : Nat × List α :=
  let oldest := c.sent - c.kept.length
  (oldest - reader, c.kept.drop (reader - oldest))

theorem length_kept_send_le (c : Channel α) (x : α) : (c.send x).kept.length ≤ c.capacity := by
  simp only [send, List.length_drop, List.length_append]
  omega

theorem capacity_sendAll (c : Channel α) (xs : List α) : (c.sendAll xs).capacity = c.capacity := by
  induction xs generalizing c with
  | nil => rfl
  | cons x xs ih => exact ih (c.send x)

end Channel

end Dismissal
