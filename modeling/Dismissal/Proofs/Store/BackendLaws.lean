import Dismissal.Proofs.Store.TableLaws
import Dismissal.Proofs.Store.TreeLaws
import Dismissal.Store.Backend

/-!
# Durable backends

A backend that is a tree or a table has the laws of durable stores from that store; a cache is never
sound, for it may forget. What requests make of an empty tree and of an empty table is `Reachable`,
and all of it is sound.
-/

namespace Dismissal.Backend

/-- The backend is a sound store of a durable kind. -/
def Sound : Backend → Prop
  | cache _ => False
  | tree t => Durable.Sound t
  | table t => Durable.Sound t

/-- What the store holds. -/
def look : Backend → Contents
  | cache _ => fun _ _ => .ok none
  | tree t => Durable.look t
  | table t => Durable.look t

/-- An answer with the next state of one of the stores behind a backend. -/
private def wrap {σ α : Type} (kind : σ → Backend) (r : Result α × σ) : Result α × Backend :=
  (r.1, kind r.2)

instance : Durable Backend where
  Sound := Sound
  look := look
  look_named {b} _ _ _ h := by
    cases b with
    | cache c => exact h.elim
    | tree t => exact Durable.look_named (s := t) h
    | table t => exact Durable.look_named (s := t) h
  pass_eq {b} _ _ h := by
    cases b with
    | cache c => exact h.elim
    | tree t => rfl
    | table t => rfl
  serve_sound {b} now request h := by
    cases b with
    | cache c => exact h.elim
    | tree t => exact Durable.serve_sound (s := t) now request h
    | table t => exact Durable.serve_sound (s := t) now request h
  serve_get {b} now user id h := by
    cases b with
    | cache c => exact h.elim
    | tree t => exact congrArg (wrap tree) (Durable.serve_get now user id h)
    | table t => exact congrArg (wrap table) (Durable.serve_get now user id h)
  serve_getMany {b} now user ids h := by
    cases b with
    | cache c => exact h.elim
    | tree t =>
      obtain ⟨answer, heq, hgathers⟩ := Durable.serve_getMany now user ids h
      exact ⟨answer, congrArg (wrap tree) heq, hgathers⟩
    | table t =>
      obtain ⟨answer, heq, hgathers⟩ := Durable.serve_getMany now user ids h
      exact ⟨answer, congrArg (wrap table) heq, hgathers⟩
  serve_create {b} now _ h hvacant := by
    cases b with
    | cache c => exact h.elim
    | tree t =>
      obtain ⟨t', heq, hlook⟩ := Durable.serve_create now h hvacant
      exact ⟨tree t', congrArg (wrap tree) heq, hlook⟩
    | table t =>
      obtain ⟨t', heq, hlook⟩ := Durable.serve_create now h hvacant
      exact ⟨table t', congrArg (wrap table) heq, hlook⟩
  serve_create_taken {b} now _ h htaken := by
    cases b with
    | cache c => exact h.elim
    | tree t =>
      obtain ⟨reason, heq⟩ := Durable.serve_create_taken now h htaken
      exact ⟨reason, congrArg (wrap tree) heq⟩
    | table t =>
      obtain ⟨reason, heq⟩ := Durable.serve_create_taken now h htaken
      exact ⟨reason, congrArg (wrap table) heq⟩
  serve_createMany {b} now _ h hfresh := by
    cases b with
    | cache c => exact h.elim
    | tree t =>
      obtain ⟨t', heq, hlook⟩ := Durable.serve_createMany now h hfresh
      exact ⟨tree t', congrArg (wrap tree) heq, hlook⟩
    | table t =>
      obtain ⟨t', heq, hlook⟩ := Durable.serve_createMany now h hfresh
      exact ⟨table t', congrArg (wrap table) heq, hlook⟩
  serve_createMany_taken {b} now _ h htaken := by
    cases b with
    | cache c => exact h.elim
    | tree t =>
      obtain ⟨reason, heq⟩ := Durable.serve_createMany_taken now h htaken
      exact ⟨reason, congrArg (wrap tree) heq⟩
    | table t =>
      obtain ⟨reason, heq⟩ := Durable.serve_createMany_taken now h htaken
      exact ⟨reason, congrArg (wrap table) heq⟩
  serve_update {b} now _ _ h hstored hcreated := by
    cases b with
    | cache c => exact h.elim
    | tree t =>
      obtain ⟨t', heq, hlook⟩ := Durable.serve_update now h hstored hcreated
      exact ⟨tree t', congrArg (wrap tree) heq, hlook⟩
    | table t =>
      obtain ⟨t', heq, hlook⟩ := Durable.serve_update now h hstored hcreated
      exact ⟨table t', congrArg (wrap table) heq, hlook⟩
  serve_delete {b} now _ _ h huser hid := by
    cases b with
    | cache c => exact h.elim
    | tree t =>
      obtain ⟨t', heq, hlook⟩ := Durable.serve_delete now h huser hid
      exact ⟨tree t', congrArg (wrap tree) heq, hlook⟩
    | table t =>
      obtain ⟨t', heq, hlook⟩ := Durable.serve_delete now h huser hid
      exact ⟨table t', congrArg (wrap table) heq, hlook⟩
  serve_deleteAll {b} now h := by
    cases b with
    | cache c => exact h.elim
    | tree t =>
      obtain ⟨t', heq, hlook⟩ := Durable.serve_deleteAll now h
      exact ⟨tree t', congrArg (wrap tree) heq, hlook⟩
    | table t =>
      obtain ⟨t', heq, hlook⟩ := Durable.serve_deleteAll now h
      exact ⟨table t', congrArg (wrap table) heq, hlook⟩

/-- What an empty tree or an empty table can become by requests. -/
inductive Reachable : Backend → Prop where
  | tree : Reachable (tree {})
  | table : Reachable (table {})
  | serve {b : Backend} (now : Instant) (request : Request) :
    Reachable b → Reachable (Store.serve now request b).2

theorem Reachable.sound {b : Backend} (h : Reachable b) : Durable.Sound b := by
  induction h with
  | tree =>
    intro key bytes item hrow
    cases hrow
  | table => exact ⟨rfl, rfl⟩
  | serve now request _ ih => exact Durable.serve_sound now request ih

end Dismissal.Backend
