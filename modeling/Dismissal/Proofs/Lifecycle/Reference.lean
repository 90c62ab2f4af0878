import Dismissal.Lifecycle.Call
import Dismissal.Proofs.Store.Durable
import Mathlib.Data.List.Basic

/-!
# The reference machine

What the calls are meant to do, told without a store: a `Machine` has a `Ledger`, a finite map from
the names of items to their versions, and the list of all events told so far. A malformed identity
is refused before anything else happens. A batch is its distinct items one after the other.

`Course` follows a list of moves: calls, and settings of the clock in between. It is the same for
the machine and for a service on a store, so that the two can be compared move by move.
-/

namespace Dismissal

/-- The name of an item: two valid identities. -/
structure Name where
  user : String
  id : String
  user_valid : Identity.Valid user
  id_valid : Identity.Valid id

/-- When an item was created, and when it was dismissed if it is. -/
structure Version where
  created : Instant
  dismissed : Option Instant
  created_le : ∀ at_ ∈ dismissed, created ≤ at_

namespace Name

theorem eq_iff {a b : Name} : a = b ↔ b.user = a.user ∧ b.id = a.id := by
  obtain ⟨ua, ia, _, _⟩ := a
  obtain ⟨ub, ib, _, _⟩ := b
  rw [mk.injEq]
  exact and_congr eq_comm eq_comm

instance : DecidableEq Name := fun _ _ => decidable_of_iff _ eq_iff.symm

instance : Ord Name := ⟨compareLex (compareOn Name.user) (compareOn Name.id)⟩

instance : Std.TransOrd Name :=
  inferInstanceAs (Std.TransCmp (compareLex (compareOn Name.user) (compareOn Name.id)))

instance : Std.LawfulEqOrd Name where
  eq_of_compare {a b} h := by
    obtain ⟨ua, ia, _, _⟩ := a
    obtain ⟨ub, ib, _, _⟩ := b
    obtain ⟨hu, hi⟩ := Ordering.then_eq_eq.1 h
    simp only [mk.injEq]
    exact ⟨Std.LawfulEqOrd.eq_of_compare hu, Std.LawfulEqOrd.eq_of_compare hi⟩

/-- A version of an item, under its name. -/
def item (n : Name) (v : Version) : Item :=
  ⟨n.id, n.user, v.created, v.dismissed, n.id_valid, n.user_valid, v.created_le⟩

/-- The names of items of a user. -/
def all (user : String) (huser : Identity.Valid user) (ids : List String)
    (hids : ∀ id ∈ ids, Identity.Valid id) : List Name :=
  ids.pmap (fun id hid => ⟨user, id, huser, hid⟩) hids

end Name

theorem Version.le_none (created : Instant) : ∀ at_ ∈ (none : Option Instant), created ≤ at_ := by
  simp

/-- The version that was created at an instant. -/
def Version.new (now : Instant) : Version := ⟨now, none, le_none now⟩

section Names

variable {user : String} {huser : Identity.Valid user} {ids : List String}
  {hids : ∀ id ∈ ids, Identity.Valid id} {names : List Name} {now : Instant}

@[simp] theorem Name.map_id_all : (Name.all user huser ids hids).map Name.id = ids := by
  unfold all
  rw [List.map_pmap]
  exact List.pmap_eq_self.2 fun _ _ => rfl

theorem Name.user_of_mem_all {n : Name} (hmem : n ∈ Name.all user huser ids hids) :
    n.user = user := by
  obtain ⟨_, _, rfl⟩ := List.mem_pmap.1 hmem
  rfl

theorem Name.create (n : Name) (now : Instant) :
    Item.create n.id n.user now none = .ok (n.item (.new now)) :=
  Item.create_self (n.item (.new now))

variable (now) in
/-- New items of a user are made for all names. -/
theorem Name.mapM_create (huser : ∀ n ∈ names, n.user = user) :
    (names.map Name.id).mapM (fun id => Item.create id user now none) =
      (.ok (names.map fun n => n.item (.new now)) : Result (List Item)) := by
  induction names with
  | nil => rfl
  | cons n names ih =>
    rw [List.map_cons, List.mapM_cons,
      ih fun other hmem => huser other (List.mem_cons_of_mem _ hmem),
      ← huser n List.mem_cons_self, n.create]
    rfl

end Names

/-- Versions by the names of their items. -/
abbrev Ledger := Std.ExtTreeMap Name Version

/-- What is wrong with the first malformed identity of a user and some items, in words. -/
def malformed? (user : String) (ids : List String) : Option String :=
  match Identity.flaw? user with
  | some flaw => some (flaw.reason "userId")
  | none => (ids.findSome? Identity.flaw?).map fun flaw => flaw.reason "itemId"

theorem malformed?_eq_none_iff {user : String} {ids : List String} :
    malformed? user ids = none ↔ Identity.Valid user ∧ ∀ id ∈ ids, Identity.Valid id := by
  unfold malformed?
  cases huser : Identity.flaw? user with
  | some flaw =>
    have hbad : ¬Identity.Valid user := fun h => by
      rw [Identity.flaw?_eq_none_iff.2 h] at huser
      cases huser
    simp [hbad]
  | none => simp [Identity.flaw?_eq_none_iff.1 huser, Identity.flaw?_eq_none_iff]

/-- A ledger, and all events told so far. -/
structure Machine where
  ledger : Ledger := ∅
  published : List Event := []

namespace Machine

open Lifecycle

/-- Puts a version on record and tells of it. -/
def record (m : Machine) (now : Instant) (context : Option Json) (n : Name) (v : Version)
    (change : Change) : Machine where
  ledger := m.ledger.insert n v
  published := m.published ++ [⟨change, n.user, n.id, n.item v, context, now⟩]

/-- What is on record is retrieved; what is not is created now. -/
def present (m : Machine) (now : Instant) (context : Option Json) (n : Name) :
    Presented × Machine :=
  match m.ledger[n]? with
  | some v =>
    (⟨n.item v, false⟩, { m with
      published := m.published ++ [⟨.retrieved, n.user, n.id, n.item v, context, now⟩] })
  | none => (⟨n.item (.new now), true⟩, m.record now context n (.new now) .created)

/-- Presents items one after the other. -/
def presentEach (m : Machine) (now : Instant) (context : Option Json) :
    List Name → List Presented × Machine
  | [] => ([], m)
  | n :: ns =>
    let (p, m) := m.present now context n
    let (ps, m) := m.presentEach now context ns
    (p :: ps, m)

/-- Dismisses an item on record that is not dismissed, but not before it was created. -/
def dismiss (m : Machine) (now : Instant) (context : Option Json) (n : Name) :
    Result Transition × Machine :=
  match m.ledger[n]? with
  | none => (.error (.itemNotFound n.user n.id), m)
  | some v =>
    if v.dismissed.isSome then (.error (.alreadyDismissed n.user n.id), m)
    else if h : v.created ≤ now then
      let next : Version := ⟨v.created, some now, by simpa using h⟩
      (.ok ⟨n.item next, n.item v⟩, m.record now context n next (.dismissed (n.item v)))
    else
      (.error (.invalidState ("cannot dismiss item '" ++ n.id ++ "' at " ++ now.offsetText ++
        " before it was created at " ++ v.created.offsetText)), m)

/-- Restores an item on record that is dismissed. -/
def restore (m : Machine) (now : Instant) (context : Option Json) (n : Name) :
    Result Transition × Machine :=
  match m.ledger[n]? with
  | none => (.error (.itemNotFound n.user n.id), m)
  | some v =>
    if v.dismissed.isSome then
      let next : Version := ⟨v.created, none, by simp⟩
      (.ok ⟨n.item next, n.item v⟩, m.record now context n next (.restored (n.item v)))
    else (.error (.notDismissed n.user n.id), m)

/-- Goes on with the name of an item if it is well-formed. A malformed one is refused and changes
nothing. -/
def named (m : Machine) (user id : String) (act : Name → Result Outcome × Machine) :
    Result Outcome × Machine :=
  match h : malformed? user [id] with
  | some reason => (.error (.invalidArgument reason), m)
  | none =>
    have hvalid := malformed?_eq_none_iff.1 h
    act ⟨user, id, hvalid.1, hvalid.2 id List.mem_cons_self⟩

/-- Presents the items of a user, each once, if all of them are well-formed. -/
def presentAll (m : Machine) (now : Instant) (context : Option Json) (user : String)
    (ids : List String) : Result Outcome × Machine :=
  match h : malformed? user ids with
  | some reason => (.error (.invalidArgument reason), m)
  | none =>
    have hvalid := malformed?_eq_none_iff.1 h
    let names := Name.all user hvalid.1 ids.eraseDups fun id hid =>
      hvalid.2 id (List.mem_eraseDups.1 hid)
    let (ps, m) := m.presentEach now context names
    (.ok (.batch ps), m)

/-- Does what a call asks for. -/
def perform (now : Instant) (c : Call) (m : Machine) : Result Outcome × Machine :=
  match c with
  | .getOrCreate user id context => m.named user id fun n =>
    let (p, m) := m.present now context n
    (.ok (.presented p), m)
  | .getOrCreateMany user ids context => m.presentAll now context user ids
  | .dismiss user id context => m.named user id fun n =>
    let (answer, m) := m.dismiss now context n
    (answer.map .transition, m)
  | .restore user id context => m.named user id fun n =>
    let (answer, m) := m.restore now context n
    (answer.map .transition, m)
  | .deleteItem user id => m.named user id fun n =>
    (.ok .done, { m with ledger := m.ledger.erase n })
  | .reset => (.ok .done, { m with ledger := ∅ })

end Machine

/-! ## Courses -/

/-- A move: a call, or one of the two ways to set the clock. -/
inductive Move where
  | call (c : Lifecycle.Call)
  | setClock (t : Instant)
  | advance (d : Span)

/-- The clock, what the calls work on, and what they have answered so far. -/
structure Course (α : Type) where
  clock : Instant
  state : α
  answers : List (Result Lifecycle.Outcome) := []

namespace Course

variable {α : Type} (perform : Instant → Lifecycle.Call → α → Result Lifecycle.Outcome × α)

/-- Makes a move. -/
def move (r : Course α) : Move → Course α
  | .call c =>
    let (answer, state) := perform r.clock c r.state
    { r with state, answers := r.answers ++ [answer] }
  | .setClock t => { r with clock := t }
  | .advance d => { r with clock := r.clock.advance d }

/-- Makes moves in order. -/
def follow (r : Course α) (moves : List Move) : Course α := moves.foldl (move perform) r

/-- What calls keep is kept along every list of moves. -/
theorem follow_keeps {P : α → Prop} (hcall : ∀ now c s, P s → P (perform now c s).2)
    {r : Course α} (h : P r.state) (moves : List Move) : P (r.follow perform moves).state := by
  induction moves generalizing r with
  | nil => exact h
  | cons m moves ih =>
    refine ih ?_
    cases m with
    | call c => exact hcall r.clock c r.state h
    | setClock t => exact h
    | advance d => exact h

end Course

section Simulation

variable {α β : Type}
  {perform : Instant → Lifecycle.Call → α → Result Lifecycle.Outcome × α}
  {perform' : Instant → Lifecycle.Call → β → Result Lifecycle.Outcome × β} {R : α → β → Prop}

/-- Two courses stand at the same time, have had the same answers, and their states are related. -/
structure Course.Alike (R : α → β → Prop) (r : Course α) (r' : Course β) : Prop where
  clock : r.clock = r'.clock
  state : R r.state r'.state
  answers : r.answers = r'.answers

variable {r : Course α} {r' : Course β}

/-- One move keeps the courses alike, if it is no call or a call that keeps the states related. -/
theorem Course.Alike.move (h : Alike R r r') {m : Move}
    (hcall : ∀ c, m = .call c →
      (perform r.clock c r.state).1 = (perform' r.clock c r'.state).1 ∧
        R (perform r.clock c r.state).2 (perform' r.clock c r'.state).2) :
    Alike R (r.move perform m) (r'.move perform' m) := by
  obtain ⟨hclock, hstate, hanswers⟩ := h
  cases m with
  | call c =>
    obtain ⟨hanswer, hnext⟩ := hcall c rfl
    rw [hclock] at hanswer hnext
    exact ⟨hclock, by simpa only [Course.move, hclock] using hnext,
      by simp only [Course.move, hclock, hanswer, hanswers]⟩
  | setClock t => exact ⟨rfl, hstate, hanswers⟩
  | advance d => exact ⟨congrArg (·.advance d) hclock, hstate, hanswers⟩

/-- States that calls keep related, with equal answers, are related along every list of moves. -/
theorem Course.Alike.follow
    (hcall : ∀ now c s s', R s s' → (perform now c s).1 = (perform' now c s').1 ∧
      R (perform now c s).2 (perform' now c s').2)
    (h : Alike R r r') (moves : List Move) :
    Alike R (r.follow perform moves) (r'.follow perform' moves) := by
  induction moves generalizing r r' with
  | nil => exact h
  | cons m moves ih => exact ih (h.move fun c _ => hcall r.clock c r.state r'.state h.state)

end Simulation

end Dismissal
