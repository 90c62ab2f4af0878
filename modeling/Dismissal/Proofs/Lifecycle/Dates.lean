import Dismissal.Proofs.Lifecycle.Substitution
import Dismissal.Proofs.Lifecycle.Transitions
import Dismissal.Proofs.Store.FaultyLaws
import Dismissal.Proofs.Store.Rows

/-!
# Creation dates are written once

What a call of the lifecycle does to the rows of a tree or a table, behind faults of any kind. To
present items adds rows and leaves the others alone, for it only looks and creates. A transition
writes a version that was derived from what it read, so it changes the dismissal of that item and
nothing else, also if a fault reports that it failed.

* `created_once`: both hold for each call of each run from an empty tree or an empty table; so no
  row is lost, and each tells the same creation as before.
-/

namespace Dismissal

open Faulty Backend

namespace Lifecycle

section Calls

variable {f : Faulty Backend} {now : Instant} {context : Option Json} {user id : String}

/-- What a request leads to was led to by requests, whatever a fault made of it. -/
theorem Reachable.faced (h : f.inner.Reachable) (now : Instant) (request : Request) :
    (Store.serve now request f).2.inner.Reachable := by
  have hsound : f.Sound := h.sound
  obtain ⟨hfaced, -⟩ := serve_faced hsound now request
  rcases hfaced.inner_eq with heq | heq
  · rwa [heq]
  · rw [heq]
    exact h.serve now request

/-- A look leaves the backend behind the faults alone, and finds what has the name. -/
theorem look_faced (h : f.inner.Reachable) {answer : Result (Option Item)} {f' : Faulty Backend}
    (hget : Store.serve now (.get user id) f = (answer, f')) :
    f'.inner = f.inner ∧
      ∀ item, answer = .ok (some item) → item.user = user ∧ item.id = id := by
  have hsound : f.Sound := h.sound
  obtain ⟨hfaced, -⟩ := serve_faced hsound now (.get user id)
  obtain ⟨-, -, hfound⟩ := Faulty.serve_get hsound hget
  rw [hget] at hfaced
  constructor
  · rcases hfaced.inner_eq with heq | heq
    · exact heq
    · rw [heq, Durable.serve_get now user id h.sound]
  · intro item hitem
    exact Durable.look_named h.sound (hfound item hitem)

/-- What was led to by requests, with the rows of a backend as they were there. -/
def Since (b : Backend) (f : Faulty Backend) : Prop := f.inner.Reachable ∧ b.RowsStay f.inner

/-- Looks and creations leave all rows as they are. -/
theorem keeps_since (b : Backend) (now : Instant) {request : Request} (hadds : request.Adds) :
    Keeps (Since b) (ask now request) := by
  intro s h
  have hsound : s.store.Sound := h.1.sound
  obtain ⟨hfaced, -⟩ := serve_faced hsound now request
  refine ⟨Reachable.faced h.1 now request, ?_⟩
  show b.RowsStay (Store.serve now request s.store).2.inner
  rcases hfaced.inner_eq with heq | heq
  · rw [heq]
    exact h.2
  · rw [heq]
    exact h.2.trans (h.1.orderly.serve_adds now hadds)

/-- A transition changes the dismissal of its item at most, however it ends. -/
theorem Transited.onlyRedates {s s' : State (Faulty Backend)} {derive : Item → Result Item}
    {change : Item → Change} {answer : Result Transition} (h : s.store.inner.Reachable)
    (hderive : ∀ item next, derive item = .ok next →
      next.id = item.id ∧ next.user = item.user ∧ next.created = item.created)
    (hrun : Transited now context user id derive change s answer s') :
    OnlyRedates (s.store.inner.slot user id) s.store.inner s'.store.inner := by
  have hsame := h.orderly.onlyRedates_refl (s.store.inner.slot user id)
  -- however the write ends, it is the only thing that was done behind the faults
  have hwrite {store store' : Faulty Backend} {current next : Item} {written : Result Item}
      (hget : Store.serve now (.get user id) s.store = (.ok (some current), store))
      (hnext : derive current = .ok next)
      (hserve : Store.serve now (.update next) store = (written, store')) :
      OnlyRedates (s.store.inner.slot user id) s.store.inner store'.inner := by
    obtain ⟨hinner, hnamed⟩ := look_faced h hget
    obtain ⟨huser, hid⟩ := hnamed current rfl
    obtain ⟨hid', huser', -⟩ := hderive current next hnext
    have hreach : store.inner.Reachable := hinner ▸ h
    have hsound : store.Sound := hreach.sound
    obtain ⟨hfaced, -⟩ := serve_faced hsound now (.update next)
    rw [hserve] at hfaced
    rcases hfaced.inner_eq with heq | heq
    · rw [heq, hinner]
      exact hsame
    · rw [heq, hinner, ← huser, ← hid, ← huser', ← hid']
      exact h.orderly.serve_update now next
  cases hrun with
  | malformed e _ => exact hsame
  | unread e hget => exact (look_faced h hget).1 ▸ hsame
  | missing hget => exact (look_faced h hget).1 ▸ hsame
  | unsuited e hget _ => exact (look_faced h hget).1 ▸ hsame
  | unwritten e hget hnext hserve => exact hwrite hget hnext hserve
  | written hget hnext hserve => exact hwrite hget hnext hserve

/-- What a call of the lifecycle may do to the rows. -/
def Call.Alters (c : Call) (b b' : Backend) : Prop :=
  match c with
  | getOrCreate _ _ _ => b.RowsStay b'
  | getOrCreateMany _ _ _ => b.RowsStay b'
  | dismiss user id _ => OnlyRedates (b.slot user id) b b'
  | restore user id _ => OnlyRedates (b.slot user id) b b'
  | deleteItem _ _ => True
  | reset => True

/-- A call that removes rows on purpose. -/
def Call.Removes : Call → Prop
  | deleteItem _ _ => True
  | reset => True
  | _ => False

/-- **Each call of the lifecycle does no more than it may.** -/
theorem Call.alters (now : Instant) (c : Call) {s : State (Faulty Backend)}
    (h : s.store.inner.Reachable) : c.Alters s.store.inner (c.perform now s).2.store.inner := by
  have hstart : Since s.store.inner s.store := ⟨h, RowsStay.refl _⟩
  cases c with
  | getOrCreate user id context =>
    rw [Call.perform_getOrCreate]
    exact (Keeps.getOrCreate (fun _ => keeps_since _ now) user id context s hstart).2
  | getOrCreateMany user ids context =>
    rw [Call.perform_getOrCreateMany]
    exact (Keeps.getOrCreateMany (fun _ => keeps_since _ now) user ids context s hstart).2
  | dismiss user id context =>
    rw [Call.perform_dismiss]
    exact (dismiss_run now context user id s).onlyRedates h fun _ _ => dismissal_kept
  | restore user id context =>
    rw [Call.perform_restore]
    exact (restore_run now context user id s).onlyRedates h fun _ _ => restoration_kept
  | deleteItem user id => trivial
  | reset => trivial

/-- Each row is there afterwards and tells the same creation. -/
def DatesStay (b b' : Backend) : Prop :=
  ∀ slot row, b.row? slot = some row → ∃ row' created, b'.row? slot = some row' ∧
    row.created? = some created ∧ row'.created? = some created

theorem RowsStay.dates {b b' : Backend} (horderly : b.Orderly) (h : b.RowsStay b') :
    DatesStay b b' := by
  intro slot row hrow
  obtain ⟨created, hcreated⟩ := horderly.created hrow
  exact ⟨row, created, h slot row hrow, hcreated, hcreated⟩

theorem OnlyRedates.dates {b b' : Backend} (horderly : b.Orderly) {only : Slot}
    (h : OnlyRedates only b b') : DatesStay b b' := by
  intro slot row hrow
  obtain ⟨created, hcreated⟩ := horderly.created hrow
  by_cases heq : slot = only
  · subst heq
    have hredated := h.redated
    rw [hrow] at hredated
    generalize b'.row? slot = after at hredated
    cases hredated with
    | some hredated => exact ⟨_, created, rfl, hcreated, hredated.created_eq.trans hcreated⟩
  · exact ⟨row, created, (h.others slot heq).trans hrow, hcreated, hcreated⟩

/-- No call but those that remove rows on purpose loses a row or changes when it was created. -/
theorem Call.Alters.dates {c : Call} {b b' : Backend} (horderly : b.Orderly)
    (h : c.Alters b b') (hc : ¬c.Removes) : DatesStay b b' := by
  cases c with
  | getOrCreate user id context => exact RowsStay.dates horderly h
  | getOrCreateMany user ids context => exact RowsStay.dates horderly h
  | dismiss user id context => exact OnlyRedates.dates horderly h
  | restore user id context => exact OnlyRedates.dates horderly h
  | deleteItem user id => exact absurd trivial hc
  | reset => exact absurd trivial hc

end Calls

/-! ## Runs -/

/-- A service starts over an empty tree or an empty table, with any delay and any faults queued. -/
def StartsEmpty (f : Faulty Backend) : Prop := f.inner = .tree {} ∨ f.inner = .table {}

theorem StartsEmpty.reachable {f : Faulty Backend} (h : StartsEmpty f) : f.inner.Reachable := by
  rcases h with h | h
  · rw [h]
    exact .tree
  · rw [h]
    exact .table

/-- **Creation dates are written once.** After any moves from an empty tree or an empty table,
behind faults of any kind, each call of the lifecycle keeps all rows and the creations that they
tell. Calls that present items change no row that is there, and transitions change the dismissal of
their item at most, whether they fail or not. -/
theorem created_once {f : Faulty Backend} (hempty : StartsEmpty f) (clock : Instant)
    (moves : List Move) (c : Call) :
    let r := Course.serve clock f moves
    let b := r.state.store.inner
    let b' := (c.perform r.clock r.state).2.store.inner
    c.Alters b b' ∧ (¬c.Removes → DatesStay b b') := by
  intro r b b'
  have hcall (now : Instant) (c : Call) (s : State (Faulty Backend))
      (h : s.store.inner.Reachable) : (c.perform now s).2.store.inner.Reachable :=
    Keeps.call (P := fun f : Faulty Backend => f.inner.Reachable)
      (fun request s h => Reachable.faced h now request) c s h
  have hreach : b.Reachable :=
    Course.follow_keeps Call.perform
      (P := fun s : State (Faulty Backend) => s.store.inner.Reachable) hcall hempty.reachable moves
  have halters : c.Alters b b' := c.alters r.clock hreach
  exact ⟨halters, halters.dates hreach.orderly⟩

/-- An empty tree, behind a fault that answers an update with a failure. -/
def lossy : Faulty Backend where
  inner := .tree {}
  faults := [(.update, .failAfter .notFound)]

/-- A dismissal that was done but is reported to have failed changes the dismissal only. -/
theorem created_once_lossy : StartsEmpty lossy ∧
    let r := Course.serve .origin lossy [.call (.getOrCreate "u" "b" none)]
    let b := r.state.store.inner
    let dismissed := (Call.dismiss "u" "b" none).perform r.clock r.state
    (∃ item, b.look "u" "b" = .ok (some item)) ∧ dismissed.1 = .error .notFound ∧
      OnlyRedates (b.slot "u" "b") b dismissed.2.store.inner ∧
      DatesStay b dismissed.2.store.inner := by
  have hempty : StartsEmpty lossy := .inl rfl
  obtain ⟨halters, hdates⟩ := created_once hempty .origin [.call (.getOrCreate "u" "b" none)]
    (.dismiss "u" "b" none)
  exact ⟨hempty, ⟨_, rfl⟩, rfl, halters, hdates fun h => h⟩

end Lifecycle

end Dismissal
