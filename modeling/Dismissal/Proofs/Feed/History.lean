import Dismissal.Feed

/-!
# What a channel keeps of its history

A channel with everything that was ever sent over it: it has counted all of that and kept the newest
part. What a reader gets from it depends only on what was sent since the reader's last turn.

* `Records.send`: sending keeps the count and the newest values right.
* `Records.read`: a reader gets the newest of what it has not seen, and the count of the rest.
-/

namespace Dismissal

namespace Channel

variable {α : Type}

/-- The last `room` values of a list. -/
def newest (room : Nat) (values : List α) : List α := values.drop (values.length - room)

/-- The channel is what it is after `history` was sent over it. -/
structure Records (c : Channel α) (history : List α) : Prop where
  sent : c.sent = history.length
  kept : c.kept = newest c.capacity history

section Newest

variable {room : Nat} {values more : List α}

theorem newest_of_le (h : values.length ≤ room) : newest room values = values := by
  unfold newest
  rw [Nat.sub_eq_zero_of_le h, List.drop_zero]

theorem length_newest : (newest room values).length = min room values.length := by
  unfold newest
  rw [List.length_drop]
  omega

/-- What is among the newest later was among the newest before, or came in between. -/
theorem newest_append :
    newest room (newest room values ++ more) = newest room (values ++ more) := by
  unfold newest
  simp only [List.drop_append, List.drop_drop, List.length_append, List.length_drop]
  congr 2 <;> omega

/-- What is skipped of the newest values counts from the oldest of them. -/
theorem drop_newest (skipped : Nat) : (newest room values).drop
    (skipped - (values.length - room)) = newest room (values.drop skipped) := by
  unfold newest
  rw [List.drop_drop, List.drop_drop, List.length_drop]
  congr 1
  omega

end Newest

section Records

variable {c : Channel α} {history : List α}

theorem Records.ofCapacity (capacity : Nat) : (ofCapacity (α := α) capacity).Records [] :=
  ⟨rfl, by simp [Channel.ofCapacity, newest]⟩

theorem Records.send (h : c.Records history) (x : α) : (c.send x).Records (history ++ [x]) := by
  constructor
  · simp [Channel.send, h.sent]
  · show newest c.capacity (c.kept ++ [x]) = newest c.capacity (history ++ [x])
    rw [h.kept, newest_append]

theorem Records.sendAll (h : c.Records history) (xs : List α) :
    (c.sendAll xs).Records (history ++ xs) := by
  induction xs generalizing c history with
  | nil =>
    rw [List.append_nil]
    exact h
  | cons x xs ih =>
    have hrest := ih (h.send x)
    rw [List.append_assoc] at hrest
    exact hrest

/-- **A reader gets the newest of what it has not seen**, and the count of what is gone. -/
theorem Records.read (h : c.Records history) (reader : Nat) :
    c.read reader = ((history.drop reader).length - c.capacity,
      newest c.capacity (history.drop reader)) := by
  have holdest : c.sent - c.kept.length = history.length - c.capacity := by
    rw [h.sent, h.kept, length_newest]
    omega
  unfold Channel.read
  simp only [holdest]
  rw [h.kept, drop_newest, List.length_drop]
  congr 1
  omega

end Records

end Channel

end Dismissal
