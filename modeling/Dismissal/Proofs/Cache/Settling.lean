import Dismissal.Proofs.Store.Stable
import Dismissal.Session.Basic

/-!
# Backends that have settled

No sweep purges a cache all the time: there is at least a millisecond between two purges. So when a
backend has done what was due at an instant, there is nothing more to do for it then.

* `Timely.settle`: a backend has settled when it has done what was due.
* `Settled.settle_eq`: a backend that has settled stays as it is.
-/

namespace Dismissal

namespace Cache

variable {c : Cache} {now : Instant}

/-- There is some time between two purges of a sweep. -/
def Timely (c : Cache) : Prop := ∀ s ∈ c.sweeps, 0 < s.every

/-- No purge is due. -/
def Settled (c : Cache) : Prop := ∀ s ∈ c.sweeps, 0 < s.every ∧ 0 < s.left

theorem Settled.timely (h : c.Settled) : c.Timely := fun s hs => (h s hs).1

theorem sweeps_look {key : String} {found : Lookup} {c' : Cache}
    (h : c.look key now = (found, c')) : c'.sweeps = c.sweeps := by
  have hlook : (c.look key now).2.sweeps = c.sweeps := rfl
  rw [h] at hlook
  exact hlook

theorem sweeps_lookAll (now : Instant) (user : String) (found : Found) (ids : List String)
    (c : Cache) : (c.lookAll now user found ids).2.sweeps = c.sweeps := by
  induction ids generalizing c found with
  | nil => rfl
  | cons id ids ih =>
    unfold lookAll
    split <;> rename_i hlook <;> rw [ih, sweeps_look hlook]

/-- Requests leave the sweeps alone. -/
theorem sweeps_serve (now : Instant) (request : Request) (c : Cache) :
    (Store.serve now request c).2.sweeps = c.sweeps := by
  show (serve now request c).2.sweeps = c.sweeps
  cases request with
  | get user id =>
    simp only [serve, get]
    split
    · rfl
    · split <;> rename_i hlook <;> exact sweeps_look hlook
  | getMany user ids =>
    simp only [serve, getMany]
    split
    · rfl
    · exact sweeps_lookAll now user ∅ ids c
  | create item => rfl
  | createMany items =>
    simp only [serve, createMany]
    induction items generalizing c with
    | nil => rfl
    | cons item items ih => exact ih (c.create now item)
  | update item =>
    simp only [serve, update]
    split
    · rename_i hlook
      have hsweeps := sweeps_look hlook
      split <;> exact hsweeps
    · rename_i hlook
      have hsweeps := sweeps_look hlook
      exact hsweeps
  | delete user id =>
    simp only [serve, delete]
    split <;> rfl
  | deleteAll => rfl

theorem every_after (s : Sweep) (ms : Nat) : (s.after ms).every = s.every := by
  unfold Sweep.after
  split <;> rfl

/-- A cache has settled when it has done what was due. -/
theorem Timely.settle (h : c.Timely) (now : Instant) : (c.settle now).Settled := by
  intro s hs
  obtain ⟨before, hbefore, rfl⟩ := List.mem_map.1 hs
  have hevery := h before hbefore
  split
  · exact ⟨hevery, hevery⟩
  · exact ⟨hevery, by omega⟩

/-- A cache that has settled stays as it is. -/
theorem Settled.settle_eq (h : c.Settled) (now : Instant) : c.settle now = c := by
  have hnone : ¬c.sweeps.any (·.left = 0) := by
    rw [List.any_eq_true]
    rintro ⟨s, hs, hdue⟩
    have hleft := (h s hs).2
    simp only [decide_eq_true_eq] at hdue
    omega
  have hsame : c.sweeps.map (fun s => if s.left = 0 then { s with left := s.every } else s) =
      c.sweeps := by
    refine (List.map_congr_left fun s hs => ?_).trans (List.map_id _)
    have hleft := (h s hs).2
    rw [if_neg (by omega), id]
  unfold settle
  rw [hsame, purgeIf, if_neg hnone]

/-- A sweep that starts is not due yet. -/
theorem Settled.startSweep (h : c.Settled) (every : Nat) : (c.startSweep every).Settled := by
  unfold Cache.startSweep
  split
  · exact h
  · intro s hs
    rcases List.mem_append.1 hs with hs | hs
    · exact h s hs
    · rw [List.mem_singleton.1 hs]
      show 0 < every ∧ 0 < every
      omega

theorem settled_freshCache (capacity : Nat) (lifetime : Span) (sweep : Option Nat) :
    (Place.freshCache capacity lifetime sweep).Settled := by
  have hempty : (ofLimits capacity lifetime).Settled := fun _ hs => by cases hs
  exact hempty.startSweep _

end Cache

namespace Backend

variable {b : Backend}

/-- There is some time between two purges, if the backend is a cache. -/
def Timely : Backend → Prop
  | cache c => c.Timely
  | tree _ => True
  | table _ => True

/-- Nothing is due. -/
def Settled : Backend → Prop
  | cache c => c.Settled
  | tree _ => True
  | table _ => True

theorem Settled.timely (h : b.Settled) : b.Timely := by
  cases b with
  | cache c => exact Cache.Settled.timely h
  | tree t => trivial
  | table t => trivial

/-- A backend has settled when it has done what was due. -/
theorem Timely.settle (h : b.Timely) (now : Instant) : (b.settle now).Settled := by
  cases b with
  | cache c => exact Cache.Timely.settle h now
  | tree t => trivial
  | table t => trivial

/-- A backend that has settled stays as it is. -/
theorem Settled.settle_eq (h : b.Settled) (now : Instant) : b.settle now = b := by
  cases b with
  | cache c => exact congrArg cache (Cache.Settled.settle_eq h now)
  | tree t => rfl
  | table t => rfl

/-- Requests and time leave it at some time between two purges. -/
theorem stable_timely : Stable Timely := by
  constructor
  · intro now request b h
    cases b with
    | cache c =>
      intro s hs
      have hsame : s ∈ (Store.serve now request c).2.sweeps := hs
      rw [Cache.sweeps_serve] at hsame
      exact h s hsame
    | tree t => trivial
    | table t => trivial
  · intro now ms b h
    cases b with
    | cache c =>
      intro s hs
      obtain ⟨before, hbefore, rfl⟩ := List.mem_map.1 hs
      rw [Cache.every_after]
      exact h before hbefore
    | tree t => trivial
    | table t => trivial

/-- A backend has settled when it is opened. -/
theorem settled_start {d : Disk} {seed : Place.Seed} {place : Place}
    (h : place.start d seed = .ok b) : b.Settled := by
  cases place with
  | memory capacity lifetime sweep =>
    cases h
    exact Cache.settled_freshCache capacity lifetime sweep
  | tree path =>
    simp only [Place.start] at h
    cases hclaim : TreeFolder.claim d path with
    | error e =>
      rw [hclaim] at h
      cases h
    | ok =>
      rw [hclaim] at h
      cases h
      trivial
  | table url patience =>
    simp only [Place.start] at h
    cases hopen : Place.openTable (seed.fill d) seed url patience with
    | error e =>
      rw [hopen] at h
      cases h
    | ok t =>
      rw [hopen] at h
      cases h
      trivial

/-- A backend has settled when its service starts again. -/
theorem Settled.restart (h : b.Settled) (place : Place) : (place.restart b).Settled := by
  unfold Place.restart
  split
  · exact Cache.settled_freshCache _ _ _
  · trivial
  · trivial
  · exact h

end Backend

end Dismissal
