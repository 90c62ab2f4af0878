import Dismissal.Proofs.Cache.Looks

/-!
# What operations did

The replies of a cache tell what was done to it: which keys were looked at and whether they were
found, which items were written, what was dropped (`Op.deeds`). So a run leaves a `timeline` of
deeds behind, each with the reading of the clock.

Done to the plain list one by one, the deeds of a run take it where the run takes it, and each of
them is what it says it is (`Recency.run_done`).
-/

namespace Dismissal.Cache

open Recency

/-- What was done to a cache at a key, or to all of it. -/
inductive Deed where
  | look (key : String) (hit : Bool)
  /-- An update found an item at a key, and could not be merged with it. -/
  | refuse (key : String)
  | write (item : Item)
  | drop (key : String)
  | clear
  | purge
  deriving DecidableEq

/-- What an operation did, in order, as its reply tells. One that is refused for a malformed
identity did nothing. -/
def Op.deeds : (op : Op) → op.Reply → List Deed
  | .ask (.get user id), .ok found => [.look (Identity.key user id) found.isSome]
  | .ask (.getMany user ids), .ok found =>
    ids.map fun id => .look (Identity.key user id) (found.contains id)
  | .ask (.create _), .ok item => [.write item]
  | .ask (.createMany _), .ok items => items.map .write
  | .ask (.update _), .ok merged => [.write merged]
  | .ask (.update item), .error _ => [.refuse item.key]
  | .ask (.delete user id), .ok _ => [.drop (Identity.key user id)]
  | .ask .deleteAll, .ok _ => [.clear]
  | .purge, _ => [.purge]
  | _, _ => []

/-- What operations did, with the reading of the clock at the time. -/
def timeline (ops : List (Instant × Op)) (replies : List ((op : Op) × op.Reply)) :
    List (Instant × Deed) :=
  (ops.zip replies).flatMap fun x => (x.2.1.deeds x.2.2).map (x.1.1, ·)

namespace Recency

/-! ## Deeds, done one by one -/

/-- Does one thing to the list. -/
def enact (l : Recency) (now : Instant) : Deed → Recency
  | .look key _ => (l.look key now).2
  | .refuse key => (l.look key now).2
  | .write item => l.write now item
  | .drop key => { l with entries := without l.entries key }
  | .clear => { l with entries := [] }
  | .purge => { l with entries := (sweep l.entries now).2 }

/-- A deed is what it says: a look finds an item exactly if it is a hit, and an update is refused
for an item that is there. -/
def Admits (l : Recency) (now : Instant) : Deed → Prop
  | .look key hit => l.hits key now = hit
  | .refuse key => l.hits key now = true
  | _ => True

/-- Deeds that were done one after the other, each being what it says. -/
inductive Done : Recency → List (Instant × Deed) → Recency → Prop where
  | nil (l : Recency) : Done l [] l
  | cons {l l' : Recency} {now : Instant} {d : Deed} {ds : List (Instant × Deed)} :
    l.Admits now d → Done (l.enact now d) ds l' → Done l ((now, d) :: ds) l'

section Runs

variable {l l' l'' : Recency} {now : Instant} {ds ds' : List (Instant × Deed)}

theorem Done.one {d : Deed} (h : l.Admits now d) : Done l [(now, d)] (l.enact now d) :=
  .cons h (.nil _)

theorem Done.append (h : Done l ds l') (h' : Done l' ds' l'') : Done l (ds ++ ds') l'' := by
  induction h with
  | nil => exact h'
  | cons hadmits _ ih => exact .cons hadmits (ih h')

/-- No deed changes the limits. -/
theorem Done.limits (h : Done l ds l') : l'.capacity = l.capacity ∧ l'.lifetime = l.lifetime := by
  induction h with
  | nil => exact ⟨rfl, rfl⟩
  | @cons l l' now d ds _ _ ih =>
    have hone : (l.enact now d).capacity = l.capacity ∧ (l.enact now d).lifetime = l.lifetime := by
      cases d <;> exact ⟨rfl, rfl⟩
    exact ⟨ih.1.trans hone.1, ih.2.trans hone.2⟩

theorem lookAll_done (user : String) (before : Found) {ids : List String} {hit : String → Bool}
    (h : ∀ id ∈ ids, l.hits (Identity.key user id) now = hit id) :
    Done l ((ids.map fun id => .look (Identity.key user id) (hit id)).map (now, ·))
      (l.lookAll now user before ids).2 := by
  induction ids generalizing l before with
  | nil => exact .nil l
  | cons id ids ih =>
    have hrest : ∀ other ∈ ids, (l.look (Identity.key user id) now).2.hits
        (Identity.key user other) now = hit other := by
      intro other hmem
      rw [hits_look]
      exact h other (List.mem_cons_of_mem _ hmem)
    rw [lookAll_cons]
    exact .cons (h id List.mem_cons_self) (ih _ hrest)

theorem writeAll_done (items : List Item) :
    Done l ((items.map .write).map (now, ·)) (items.foldl (write · now) l) := by
  induction items generalizing l with
  | nil => exact .nil l
  | cons item items ih => exact .cons trivial ih

theorem get_done (now : Instant) (user id : String) :
    Done l ((Op.deeds (.ask (.get user id)) (l.get now user id).1).map (now, ·))
      (l.get now user id).2 := by
  cases hcheck : Identity.checkAll user [id] with
  | error e =>
    unfold get
    rw [hcheck]
    exact .nil l
  | ok _ =>
    rw [get_eq hcheck]
    exact .one (isSome_found?_look ..).symm

theorem getMany_done (now : Instant) (user : String) (ids : List String) :
    Done l ((Op.deeds (.ask (.getMany user ids)) (l.getMany now user ids).1).map (now, ·))
      (l.getMany now user ids).2 := by
  unfold getMany
  cases Identity.checkAll user ids with
  | error e => exact .nil l
  | ok _ =>
    refine lookAll_done user ∅ fun id hmem => ?_
    simp [contains_lookAll, hmem]

/-- An update writes what it answers, unless it is refused for the item that it finds. -/
theorem update_done (h : l.Tidy) (now : Instant) (item : Item) :
    Done l ((Op.deeds (.ask (.update item)) (l.update now item).1).map (now, ·))
      (l.update now item).2 := by
  rw [h.update_eq]
  cases hfound : found? (l.look item.key now).1 with
  | none => exact .one trivial
  | some stored =>
    simp only
    cases Item.create stored.id stored.user stored.created item.dismissed with
    | ok merged => exact .one trivial
    | error refusal =>
      have hhit := isSome_found?_look l item.key now
      rw [hfound] at hhit
      exact .one hhit.symm

theorem delete_done (now : Instant) (user id : String) :
    Done l ((Op.deeds (.ask (.delete user id)) (l.delete user id).1).map (now, ·))
      (l.delete user id).2 := by
  unfold delete
  cases Identity.checkAll user [id] with
  | error e => exact .nil l
  | ok _ => exact .one trivial

/-- An operation does what its reply tells. -/
theorem step_done (h : l.Tidy) (now : Instant) (op : Op) :
    Done l ((op.deeds (step now op l).1).map (now, ·)) (step now op l).2 := by
  cases op with
  | purge => exact .one trivial
  | ask request =>
    cases request with
    | get user id => exact get_done now user id
    | getMany user ids => exact getMany_done now user ids
    | create item => exact .one trivial
    | createMany items => exact writeAll_done items
    | update item => exact update_done h now item
    | delete user id => exact delete_done now user id
    | deleteAll => exact .one trivial

/-- **A run does what its timeline tells.** -/
theorem run_done (h : l.Tidy) (ops : List (Instant × Op)) :
    Done l (timeline ops (run step ops l).1) (run step ops l).2 := by
  induction ops generalizing l with
  | nil => exact .nil l
  | cons timed ops ih =>
    obtain ⟨now, op⟩ := timed
    exact (step_done h now op).append (ih (h.step op))

end Runs

end Recency

end Dismissal.Cache
