import Dismissal.Proofs.Lifecycle.Exec
import Dismissal.Proofs.Lifecycle.Reference

/-!
# Services in lockstep

Two stores may differ in kind and still answer alike: whatever one is asked, the other one answers
the same, and both stay as they were to one another. Then so do services on them, call by call.

* `Lockstep.call`: what requests keep in step, calls keep in step.
* `Lockstep.follow`: and so do whole courses.
-/

namespace Dismissal.Lifecycle

section Lockstep

variable {σ τ α β : Type} {R : σ → τ → Prop} {now : Instant}

/-- Two states whose stores are related have told the same events. -/
structure Paired (R : σ → τ → Prop) (s : State σ) (t : State τ) : Prop where
  store : R s.store t.store
  published : s.published = t.published

/-- Two actions give the same answer on paired states, and leave paired states. -/
def Lockstep (R : σ → τ → Prop) (a : Action σ α) (b : Action τ α) : Prop :=
  ∀ s t, Paired R s t → (exec a s).1 = (exec b t).1 ∧ Paired R (exec a s).2 (exec b t).2

theorem Lockstep.pure (a : α) : Lockstep R (pure a) (pure a) := fun _ _ h => ⟨rfl, h⟩

theorem Lockstep.throw (e : Failure) :
    Lockstep R (throw e : Action σ α) (throw e : Action τ α) := fun _ _ h => ⟨rfl, h⟩

theorem Lockstep.lift (r : Result α) : Lockstep R (liftM r) (liftM r) := fun _ _ h => ⟨rfl, h⟩

theorem Lockstep.publish (event : Event) : Lockstep R (publish event) (publish event) :=
  fun _ _ h => ⟨rfl, h.store, congrArg (· ++ [event]) h.published⟩

theorem Lockstep.attempt {a : Action σ α} {b : Action τ α} (h : Lockstep R a b) :
    Lockstep R (attempt a) (attempt b) :=
  fun s t hpaired => ⟨congrArg Except.ok (h s t hpaired).1, (h s t hpaired).2⟩

theorem Lockstep.bind {a : Action σ α} {b : Action τ α} {f : α → Action σ β} {g : α → Action τ β}
    (h : Lockstep R a b) (hrest : ∀ x, Lockstep R (f x) (g x)) :
    Lockstep R (a >>= f) (b >>= g) := by
  intro s t hpaired
  obtain ⟨hanswer, hnext⟩ := h s t hpaired
  rw [exec_bind, exec_bind]
  cases ha : exec a s with
  | mk answer s' =>
    cases hb : exec b t with
    | mk answer' t' =>
      rw [ha, hb] at hanswer hnext
      obtain rfl : answer = answer' := hanswer
      cases answer with
      | error e => exact ⟨rfl, hnext⟩
      | ok x => exact hrest x s' t' hnext

theorem Lockstep.mapM_lift (f : α → Result β) (xs : List α) :
    Lockstep R (xs.mapM fun x => (liftM (f x) : Action σ β))
      (xs.mapM fun x => (liftM (f x) : Action τ β)) := by
  induction xs with
  | nil => exact Lockstep.pure []
  | cons x xs ih =>
    rw [List.mapM_cons, List.mapM_cons]
    exact (Lockstep.lift _).bind fun y => ih.bind fun ys => Lockstep.pure _

theorem Lockstep.answerEach {context : Option Json} (found : Found) (settled : Settled)
    (ids : List String) :
    Lockstep R (answerEach (σ := σ) now context found settled ids)
      (answerEach (σ := τ) now context found settled ids) := by
  induction ids with
  | nil => exact Lockstep.pure []
  | cons id ids ih =>
    exact (Lockstep.lift _).bind fun p => (Lockstep.publish _).bind fun _ => ih.bind fun ps =>
      Lockstep.pure _

/-! ## Calls -/

variable [Store σ] [Store τ]
  (hask : ∀ request, Lockstep R (ask (σ := σ) now request) (ask (σ := τ) now request))
include hask

theorem Lockstep.insertOrReread (item : Item) :
    Lockstep R (insertOrReread (σ := σ) now item) (insertOrReread (σ := τ) now item) := by
  refine (hask (.create item)).attempt.bind fun answer => ?_
  cases answer with
  | ok created => exact Lockstep.pure _
  | error e =>
    cases e with
    | conflict reason =>
      refine (hask (.get item.user item.id)).bind fun found => ?_
      cases found with
      | none => exact Lockstep.throw _
      | some existing => exact Lockstep.pure _
    | _ => exact Lockstep.throw _

theorem Lockstep.settleEach (settled : Settled) (items : List Item) :
    Lockstep R (settleEach (σ := σ) now settled items) (settleEach (σ := τ) now settled items) := by
  induction items generalizing settled with
  | nil => exact Lockstep.pure settled
  | cons item items ih =>
    exact (Lockstep.insertOrReread hask item).bind fun p => ih (settled.add p)

theorem Lockstep.createMissing (missing : List Item) :
    Lockstep R (createMissing (σ := σ) now missing) (createMissing (σ := τ) now missing) := by
  unfold Lifecycle.createMissing
  split
  · exact Lockstep.pure _
  · refine (hask (.createMany missing)).attempt.bind fun answer => ?_
    cases answer with
    | ok items => exact Lockstep.pure _
    | error e =>
      cases e with
      | conflict reason => exact Lockstep.settleEach hask ∅ missing
      | _ => exact Lockstep.throw _

theorem Lockstep.getOrCreate (user id : String) (context : Option Json) :
    Lockstep R (getOrCreate (σ := σ) now user id context)
      (getOrCreate (σ := τ) now user id context) := by
  refine (Lockstep.lift _).bind fun _ => (hask (.get user id)).bind fun found => ?_
  cases found with
  | none =>
    exact (Lockstep.lift _).bind fun item => (Lockstep.insertOrReread hask item).bind fun p =>
      (Lockstep.publish _).bind fun _ => Lockstep.pure p
  | some existing => exact (Lockstep.publish _).bind fun _ => Lockstep.pure _

theorem Lockstep.getOrCreateMany (user : String) (ids : List String) (context : Option Json) :
    Lockstep R (getOrCreateMany (σ := σ) now user ids context)
      (getOrCreateMany (σ := τ) now user ids context) := by
  refine (Lockstep.lift _).bind fun _ => ?_
  show Lockstep R (if ids.eraseDups.isEmpty then _ else _) (if ids.eraseDups.isEmpty then _ else _)
  split
  · exact Lockstep.pure _
  · exact (hask (.getMany user ids.eraseDups)).bind fun found =>
      (Lockstep.mapM_lift _ _).bind fun missing =>
        (Lockstep.createMissing hask missing).bind fun settled =>
          Lockstep.answerEach found settled _

theorem Lockstep.existing (user id : String) :
    Lockstep R (existing (σ := σ) now user id) (existing (σ := τ) now user id) := by
  refine (hask (.get user id)).bind fun found => ?_
  cases found with
  | none => exact Lockstep.throw _
  | some item => exact Lockstep.pure item

theorem Lockstep.transit (change : Item → Change) (user id : String) (context : Option Json)
    (current next : Item) :
    Lockstep R (transit (σ := σ) now change user id context current next)
      (transit (σ := τ) now change user id context current next) :=
  (hask (.update next)).bind fun _ => (Lockstep.publish _).bind fun _ => Lockstep.pure _

theorem Lockstep.dismiss (user id : String) (context : Option Json) :
    Lockstep R (dismiss (σ := σ) now user id context) (dismiss (σ := τ) now user id context) := by
  refine (Lockstep.lift _).bind fun _ => (Lockstep.existing hask user id).bind fun current => ?_
  split
  · exact Lockstep.throw _
  · exact (Lockstep.lift _).bind fun next => Lockstep.transit hask _ user id context current next

theorem Lockstep.restore (user id : String) (context : Option Json) :
    Lockstep R (restore (σ := σ) now user id context) (restore (σ := τ) now user id context) := by
  refine (Lockstep.lift _).bind fun _ => (Lockstep.existing hask user id).bind fun current => ?_
  split
  · exact Lockstep.transit hask _ user id context current _
  · exact Lockstep.throw _

/-- **What every request keeps in step, every call keeps in step.** -/
theorem Lockstep.call (c : Call) : Lockstep R (c.run (σ := σ) now) (c.run (σ := τ) now) := by
  cases c with
  | getOrCreate user id context =>
    exact (Lockstep.getOrCreate hask user id context).bind fun _ => Lockstep.pure _
  | getOrCreateMany user ids context =>
    exact (Lockstep.getOrCreateMany hask user ids context).bind fun _ => Lockstep.pure _
  | dismiss user id context =>
    exact (Lockstep.dismiss hask user id context).bind fun _ => Lockstep.pure _
  | restore user id context =>
    exact (Lockstep.restore hask user id context).bind fun _ => Lockstep.pure _
  | deleteItem user id =>
    exact ((Lockstep.lift _).bind fun _ => hask (.delete user id)).bind fun _ => Lockstep.pure _
  | reset => exact (hask .deleteAll).bind fun _ => Lockstep.pure _

end Lockstep

/-- **Services whose stores are kept in step by every request** give the same answers and tell the
same events along all moves. -/
theorem Lockstep.follow {σ τ : Type} [Store σ] [Store τ] {R : σ → τ → Prop}
    (hserve : ∀ now request s t, R s t →
      (Store.serve now request s).1 = (Store.serve now request t).1 ∧
        R (Store.serve now request s).2 (Store.serve now request t).2)
    {r : Course (State σ)} {r' : Course (State τ)} (h : Course.Alike (Paired R) r r')
    (moves : List Move) :
    Course.Alike (Paired R) (r.follow Call.perform moves) (r'.follow Call.perform moves) := by
  have hask (now : Instant) (request : Request) :
      Lockstep R (ask (σ := σ) now request) (ask (σ := τ) now request) := by
    intro s t hpaired
    obtain ⟨hanswer, hstore⟩ := hserve now request s.store t.store hpaired.store
    exact ⟨hanswer, hstore, hpaired.published⟩
  exact h.follow (fun now c s t hpaired => Lockstep.call (hask now) c s t hpaired) moves

end Dismissal.Lifecycle
