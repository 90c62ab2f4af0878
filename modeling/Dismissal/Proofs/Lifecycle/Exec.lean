import Dismissal.Lifecycle.Call
import Dismissal.Proofs.Store.Durable

/-!
# Runs of actions

`exec` runs an action on a state. An action that is put together runs as its parts do, one after the
other and up to the first failure; the lemmas here are the equations for that.

* `Keeps.call`: what every request keeps true of the store, every call keeps true.
* `Silent.createMissing`: missing items are created without telling anybody.
-/

namespace Dismissal.Lifecycle

section Exec

variable {σ α β : Type} {s s' : State σ} {now : Instant}

/-- Runs an action on a state. -/
def exec (action : Action σ α) (s : State σ) : Result α × State σ := action.run.run s

@[simp] theorem exec_pure (a : α) : exec (pure a : Action σ α) s = (.ok a, s) := rfl

@[simp] theorem exec_throw (e : Failure) : exec (throw e : Action σ α) s = (.error e, s) := rfl

@[simp] theorem exec_lift (r : Result α) : exec (liftM r : Action σ α) s = (r, s) := rfl

@[simp] theorem exec_attempt (action : Action σ α) :
    exec (attempt action) s = (.ok (exec action s).1, (exec action s).2) := rfl

@[simp] theorem exec_publish (event : Event) :
    exec (publish event) s = (.ok (), { s with published := s.published ++ [event] }) := rfl

theorem exec_ask [Store σ] (request : Request) :
    exec (ask now request) s = ((Store.serve now request s.store).1,
      { s with store := (Store.serve now request s.store).2 }) := rfl

theorem exec_bind (action : Action σ α) (f : α → Action σ β) :
    exec (action >>= f) s = match exec action s with
      | (.ok a, s') => exec (f a) s'
      | (.error e, s') => (.error e, s') := by
  unfold exec
  rw [ExceptT.run_bind, StateT.run_bind]
  generalize StateT.run (ExceptT.run action) s = r
  obtain ⟨_ | _, _⟩ := r <;> rfl

/-- After a part that went well the rest follows. -/
theorem exec_bind_ok {action : Action σ α} {a : α} (h : exec action s = (.ok a, s'))
    (f : α → Action σ β) : exec (action >>= f) s = exec (f a) s' := by
  rw [exec_bind, h]

/-- Nothing follows a part that failed. -/
theorem exec_bind_error {action : Action σ α} {e : Failure} (h : exec action s = (.error e, s'))
    (f : α → Action σ β) : exec (action >>= f) s = (.error e, s') := by
  rw [exec_bind, h]

/-- A result that is needed first is either the failure of the whole or goes into the rest. -/
theorem exec_lift_bind (r : Result α) (f : α → Action σ β) :
    exec (liftM r >>= f) s = match r with
      | .ok a => exec (f a) s
      | .error e => (.error e, s) := by
  rw [exec_bind, exec_lift]
  cases r <;> rfl

theorem exec_map (action : Action σ α) (f : α → β) :
    exec (action >>= fun a => pure (f a)) s = ((exec action s).1.map f, (exec action s).2) := by
  rw [exec_bind]
  rcases exec action s with ⟨_ | _, _⟩ <;> rfl

end Exec

/-- A call is performed by running its action. -/
theorem Call.perform_eq_exec {σ : Type} [Store σ] (now : Instant) (c : Call) (s : State σ) :
    c.perform now s = exec (c.run now) s := rfl

theorem Call.perform_getOrCreate {σ : Type} [Store σ] (now : Instant) (user id : String)
    (context : Option Json) (s : State σ) :
    (Call.getOrCreate user id context).perform now s =
      ((exec (Lifecycle.getOrCreate now user id context) s).1.map .presented,
        (exec (Lifecycle.getOrCreate now user id context) s).2) := exec_map _ _

theorem Call.perform_getOrCreateMany {σ : Type} [Store σ] (now : Instant) (user : String)
    (ids : List String) (context : Option Json) (s : State σ) :
    (Call.getOrCreateMany user ids context).perform now s =
      ((exec (Lifecycle.getOrCreateMany now user ids context) s).1.map .batch,
        (exec (Lifecycle.getOrCreateMany now user ids context) s).2) := exec_map _ _

theorem Call.perform_dismiss {σ : Type} [Store σ] (now : Instant) (user id : String)
    (context : Option Json) (s : State σ) :
    (Call.dismiss user id context).perform now s =
      ((exec (Lifecycle.dismiss now user id context) s).1.map .transition,
        (exec (Lifecycle.dismiss now user id context) s).2) := exec_map _ _

theorem Call.perform_restore {σ : Type} [Store σ] (now : Instant) (user id : String)
    (context : Option Json) (s : State σ) :
    (Call.restore user id context).perform now s =
      ((exec (Lifecycle.restore now user id context) s).1.map .transition,
        (exec (Lifecycle.restore now user id context) s).2) := exec_map _ _

/-! ## What calls keep -/

section Keeps

variable {σ α β : Type} {P : σ → Prop} {now : Instant}

/-- If the store has a property, it has it after the action. -/
def Keeps (P : σ → Prop) (action : Action σ α) : Prop :=
  ∀ s : State σ, P s.store → P (exec action s).2.store

theorem Keeps.pure (a : α) : Keeps P (pure a : Action σ α) := fun _ h => h

theorem Keeps.throw (e : Failure) : Keeps P (throw e : Action σ α) := fun _ h => h

theorem Keeps.lift (r : Result α) : Keeps P (liftM r : Action σ α) := fun _ h => h

theorem Keeps.publish (event : Event) : Keeps P (publish event) := fun _ h => h

theorem Keeps.attempt {action : Action σ α} (h : Keeps P action) : Keeps P (attempt action) := h

theorem Keeps.bind {action : Action σ α} {f : α → Action σ β} (h : Keeps P action)
    (hf : ∀ a, Keeps P (f a)) : Keeps P (action >>= f) := by
  intro s hs
  have hs' := h s hs
  rw [exec_bind]
  cases hrun : exec action s with
  | mk answer s' =>
    rw [hrun] at hs'
    cases answer with
    | error e => exact hs'
    | ok a => exact hf a s' hs'

theorem Keeps.mapM_lift (f : α → Result β) (xs : List α) :
    Keeps P (xs.mapM fun x => (liftM (f x) : Action σ β)) := by
  induction xs with
  | nil => exact Keeps.pure []
  | cons x xs ih =>
    rw [List.mapM_cons]
    exact (Keeps.lift _).bind fun y => ih.bind fun ys => Keeps.pure _

theorem Keeps.answerEach {context : Option Json} (found : Found) (settled : Settled)
    (ids : List String) : Keeps P (answerEach (σ := σ) now context found settled ids) := by
  induction ids with
  | nil => exact Keeps.pure []
  | cons id ids ih =>
    exact (Keeps.lift _).bind fun p => (Keeps.publish _).bind fun _ => ih.bind fun ps =>
      Keeps.pure _

section Presenting

variable [Store σ]
  (hask : ∀ request : Request, request.Adds → Keeps P (ask (σ := σ) now request))
include hask

theorem Keeps.insertOrReread (item : Item) : Keeps P (insertOrReread (σ := σ) now item) := by
  refine (hask (.create item) trivial).attempt.bind fun answer => ?_
  cases answer with
  | ok created => exact Keeps.pure _
  | error e =>
    cases e with
    | conflict reason =>
      refine (hask (.get item.user item.id) trivial).bind fun found => ?_
      cases found with
      | none => exact Keeps.throw _
      | some existing => exact Keeps.pure _
    | _ => exact Keeps.throw _

theorem Keeps.settleEach (settled : Settled) (items : List Item) :
    Keeps P (settleEach (σ := σ) now settled items) := by
  induction items generalizing settled with
  | nil => exact Keeps.pure settled
  | cons item items ih =>
    exact (Keeps.insertOrReread hask item).bind fun p => ih (settled.add p)

theorem Keeps.createMissing (missing : List Item) :
    Keeps P (createMissing (σ := σ) now missing) := by
  unfold Lifecycle.createMissing
  split
  · exact Keeps.pure _
  · refine (hask (.createMany missing) trivial).attempt.bind fun answer => ?_
    cases answer with
    | ok items => exact Keeps.pure _
    | error e =>
      cases e with
      | conflict reason => exact Keeps.settleEach hask ∅ missing
      | _ => exact Keeps.throw _

theorem Keeps.getOrCreate (user id : String) (context : Option Json) :
    Keeps P (getOrCreate (σ := σ) now user id context) := by
  refine (Keeps.lift _).bind fun _ => (hask (.get user id) trivial).bind fun found => ?_
  cases found with
  | none =>
    exact (Keeps.lift _).bind fun item => (Keeps.insertOrReread hask item).bind fun p =>
      (Keeps.publish _).bind fun _ => Keeps.pure p
  | some existing => exact (Keeps.publish _).bind fun _ => Keeps.pure _

theorem Keeps.getOrCreateMany (user : String) (ids : List String) (context : Option Json) :
    Keeps P (getOrCreateMany (σ := σ) now user ids context) := by
  refine (Keeps.lift _).bind fun _ => ?_
  show Keeps P (if ids.eraseDups.isEmpty then _ else _)
  split
  · exact Keeps.pure _
  · exact (hask (.getMany user ids.eraseDups) trivial).bind fun found => (Keeps.mapM_lift _ _).bind
      fun missing => (Keeps.createMissing hask missing).bind fun settled =>
        Keeps.answerEach found settled _

end Presenting

variable [Store σ] (hask : ∀ request, Keeps P (ask (σ := σ) now request))
include hask

theorem Keeps.existing (user id : String) : Keeps P (existing (σ := σ) now user id) := by
  refine (hask (.get user id)).bind fun found => ?_
  cases found with
  | none => exact Keeps.throw _
  | some item => exact Keeps.pure item

theorem Keeps.transit (change : Item → Change) (user id : String) (context : Option Json)
    (current next : Item) : Keeps P (transit (σ := σ) now change user id context current next) :=
  (hask (.update next)).bind fun _ => (Keeps.publish _).bind fun _ => Keeps.pure _

theorem Keeps.dismiss (user id : String) (context : Option Json) :
    Keeps P (dismiss (σ := σ) now user id context) := by
  refine (Keeps.lift _).bind fun _ => (Keeps.existing hask user id).bind fun current => ?_
  split
  · exact Keeps.throw _
  · exact (Keeps.lift _).bind fun next => Keeps.transit hask _ user id context current next

theorem Keeps.restore (user id : String) (context : Option Json) :
    Keeps P (restore (σ := σ) now user id context) := by
  refine (Keeps.lift _).bind fun _ => (Keeps.existing hask user id).bind fun current => ?_
  split
  · exact Keeps.transit hask _ user id context current _
  · exact Keeps.throw _

/-- What every request keeps, every call keeps. -/
theorem Keeps.call (c : Call) : Keeps P (c.run (σ := σ) now) := by
  cases c with
  | getOrCreate user id context =>
    exact (Keeps.getOrCreate (fun request _ => hask request) user id context).bind fun _ =>
      Keeps.pure _
  | getOrCreateMany user ids context =>
    exact (Keeps.getOrCreateMany (fun request _ => hask request) user ids context).bind fun _ =>
      Keeps.pure _
  | dismiss user id context =>
    exact (Keeps.dismiss hask user id context).bind fun _ => Keeps.pure _
  | restore user id context =>
    exact (Keeps.restore hask user id context).bind fun _ => Keeps.pure _
  | deleteItem user id =>
    exact ((Keeps.lift _).bind fun _ => hask (.delete user id)).bind fun _ => Keeps.pure _
  | reset => exact (hask .deleteAll).bind fun _ => Keeps.pure _

end Keeps

/-! ## What is not told -/

section Silent

variable {σ α β : Type} {now : Instant} {action : Action σ α} {f : α → Action σ β}

/-- An action tells of nothing. -/
def Silent (action : Action σ α) : Prop := ∀ s, (exec action s).2.published = s.published

theorem Silent.pure (a : α) : Silent (pure a : Action σ α) := fun _ => rfl

theorem Silent.throw (e : Failure) : Silent (throw e : Action σ α) := fun _ => rfl

theorem Silent.lift (r : Result α) : Silent (liftM r : Action σ α) := fun _ => rfl

theorem Silent.ask [Store σ] (request : Request) : Silent (ask (σ := σ) now request) :=
  fun _ => rfl

theorem Silent.attempt (h : Silent action) : Silent (attempt action) := h

theorem Silent.bind (h : Silent action) (hf : ∀ a, Silent (f a)) : Silent (action >>= f) := by
  intro s
  have hs := h s
  rw [exec_bind]
  cases hrun : exec action s with
  | mk answer s' =>
    rw [hrun] at hs
    cases answer with
    | error e => exact hs
    | ok a => exact (hf a s').trans hs

variable [Store σ]

theorem Silent.insertOrReread (item : Item) : Silent (insertOrReread (σ := σ) now item) := by
  refine (Silent.ask (.create item)).attempt.bind fun answer => ?_
  cases answer with
  | ok created => exact Silent.pure _
  | error e =>
    cases e with
    | conflict reason =>
      refine (Silent.ask (.get item.user item.id)).bind fun found => ?_
      cases found with
      | none => exact Silent.throw _
      | some existing => exact Silent.pure _
    | _ => exact Silent.throw _

theorem Silent.settleEach (settled : Settled) (items : List Item) :
    Silent (settleEach (σ := σ) now settled items) := by
  induction items generalizing settled with
  | nil => exact Silent.pure settled
  | cons item items ih => exact (Silent.insertOrReread item).bind fun p => ih (settled.add p)

theorem Silent.createMissing (now : Instant) (missing : List Item) :
    Silent (createMissing (σ := σ) now missing) := by
  unfold Lifecycle.createMissing
  split
  · exact Silent.pure _
  · refine (Silent.ask (.createMany missing)).attempt.bind fun answer => ?_
    cases answer with
    | ok items => exact Silent.pure _
    | error e =>
      cases e with
      | conflict reason => exact Silent.settleEach ∅ missing
      | _ => exact Silent.throw _

end Silent

end Dismissal.Lifecycle
