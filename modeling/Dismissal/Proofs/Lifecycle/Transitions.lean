import Dismissal.Proofs.Lifecycle.Exec

/-!
# Runs of transitions

To dismiss an item and to restore one is the same but for the version that is derived: the item is
read, its next version is derived from what was read, and that is written. `Transited` lists all
that can come of it over any store, by how far it gets.

* `dismiss_run`, `restore_run`: there is nothing else that can come of a transition.
* `Transited.eq_written`: what comes of one that is not stopped on the way.
* `dismissal_kept`, `restoration_kept`: a derived version has the identities and the creation of the
  item that it was derived from.
-/

namespace Dismissal.Lifecycle

/-- The version of an item that is dismissed now, if it was not dismissed. -/
def dismissal (now : Instant) (user id : String) (item : Item) : Result Item :=
  if item.isDismissed then .error (.alreadyDismissed user id) else item.dismissAt now

/-- The version of an item that is restored, if it was dismissed. -/
def restoration (user id : String) (item : Item) : Result Item :=
  if item.isDismissed then .ok item.restore else .error (.notDismissed user id)

section Derived

variable {now : Instant} {user id : String} {item next : Item}

theorem dismissal_kept (h : dismissal now user id item = .ok next) :
    next.id = item.id ∧ next.user = item.user ∧ next.created = item.created := by
  unfold dismissal Item.dismissAt at h
  split at h
  · cases h
  · split at h
    · cases h
      exact ⟨rfl, rfl, rfl⟩
    · cases h

theorem restoration_kept (h : restoration user id item = .ok next) :
    next.id = item.id ∧ next.user = item.user ∧ next.created = item.created := by
  unfold restoration at h
  split at h
  · cases h
    exact ⟨rfl, rfl, rfl⟩
  · cases h

end Derived

variable {σ : Type} [Store σ] {now : Instant} {context : Option Json} {user id : String}
  {derive : Item → Result Item} {change : Item → Change} {s s' : State σ}
  {answer : Result Transition}

/-- What can come of a transition, by how far it gets: to its check, to the look at the item, to its
next version, or to the write. Only a version that was written is told. -/
inductive Transited (now : Instant) (context : Option Json) (user id : String)
    (derive : Item → Result Item) (change : Item → Change) (s : State σ) :
    Result Transition → State σ → Prop where
  | malformed (e : Failure) : Identity.checkAll user [id] = .error e →
    Transited now context user id derive change s (.error e) s
  | unread {store : σ} (e : Failure) :
    Store.serve now (.get user id) s.store = (.error e, store) →
    Transited now context user id derive change s (.error e) { s with store }
  | missing {store : σ} : Store.serve now (.get user id) s.store = (.ok none, store) →
    Transited now context user id derive change s (.error (.itemNotFound user id)) { s with store }
  | unsuited {store : σ} {current : Item} (e : Failure) :
    Store.serve now (.get user id) s.store = (.ok (some current), store) →
    derive current = .error e →
    Transited now context user id derive change s (.error e) { s with store }
  | unwritten {store store' : σ} {current next : Item} (e : Failure) :
    Store.serve now (.get user id) s.store = (.ok (some current), store) →
    derive current = .ok next → Store.serve now (.update next) store = (.error e, store') →
    Transited now context user id derive change s (.error e) { s with store := store' }
  | written {store store' : σ} {current next stored : Item} :
    Store.serve now (.get user id) s.store = (.ok (some current), store) →
    derive current = .ok next → Store.serve now (.update next) store = (.ok stored, store') →
    Transited now context user id derive change s (.ok ⟨stored, current⟩)
      ⟨store', s.published ++ [⟨change current, user, id, stored, context, now⟩]⟩

section Runs

/-- A version is derived from an item that was read, and written. -/
theorem derived_run {store : σ} {current : Item}
    (hget : Store.serve now (.get user id) s.store = (.ok (some current), store))
    (hrun : exec (do
      let next ← liftM (derive current)
      transit now change user id context current next) { s with store } = (answer, s')) :
    Transited now context user id derive change s answer s' := by
  rw [exec_lift_bind] at hrun
  cases hderive : derive current with
  | error e =>
    rw [hderive] at hrun
    cases hrun
    exact .unsuited e hget hderive
  | ok next =>
    rw [hderive] at hrun
    unfold transit at hrun
    cases hserve : Store.serve now (.update next) store with
    | mk written store' =>
      have hask : exec (ask now (.update next)) { s with store } =
          (written, { s with store := store' }) := by
        rw [exec_ask, hserve]
      cases written with
      | error e =>
        cases (exec_bind_error hask _).symm.trans hrun
        exact .unwritten e hget hderive hserve
      | ok stored =>
        cases (exec_bind_ok hask _).symm.trans hrun
        exact .written hget hderive hserve

/-- An item is read, and what follows is what comes of its next version. -/
theorem transited_of_exec {act : Item → Action σ Transition}
    (hact : ∀ current s, exec (act current) s = exec (do
      let next ← liftM (derive current)
      transit now change user id context current next) s)
    (hrun : exec (do
      Identity.checkAll user [id]
      let current ← existing now user id
      act current) s = (answer, s')) :
    Transited now context user id derive change s answer s' := by
  rw [exec_lift_bind] at hrun
  cases hcheck : Identity.checkAll user [id] with
  | error e =>
    rw [hcheck] at hrun
    cases hrun
    exact .malformed e hcheck
  | ok u =>
    rw [hcheck] at hrun
    cases hget : Store.serve now (.get user id) s.store with
    | mk found store =>
      have hask : exec (ask now (.get user id)) s = (found, { s with store }) := by
        rw [exec_ask, hget]
      cases found with
      | error e =>
        have hnone : exec (existing now user id) s = (.error e, { s with store }) :=
          exec_bind_error hask _
        cases (exec_bind_error hnone _).symm.trans hrun
        exact .unread e hget
      | ok found =>
        cases found with
        | none =>
          have hnone : exec (existing now user id) s =
              (.error (.itemNotFound user id), { s with store }) := exec_bind_ok hask _
          cases (exec_bind_error hnone _).symm.trans hrun
          exact .missing hget
        | some current =>
          have hsome : exec (existing now user id) s = (.ok current, { s with store }) :=
            exec_bind_ok hask _
          have hrun := (exec_bind_ok hsome _).symm.trans hrun
          exact derived_run hget ((hact current _).symm.trans hrun)

variable (now context user id s)

/-- **A dismissal gets as far as one of the cases of `Transited`.** -/
theorem dismiss_run : Transited now context user id (dismissal now user id) .dismissed s
    (exec (dismiss now user id context) s).1 (exec (dismiss now user id context) s).2 := by
  refine transited_of_exec (fun current s => ?_) (Prod.ext rfl rfl)
  unfold dismissal
  split <;> rfl

/-- **A restoration gets as far as one of the cases of `Transited`.** -/
theorem restore_run : Transited now context user id (restoration user id) .restored s
    (exec (restore now user id context) s).1 (exec (restore now user id context) s).2 := by
  refine transited_of_exec (fun current s => ?_) (Prod.ext rfl rfl)
  unfold restoration
  split <;> rfl

end Runs

/-- A transition whose item is found, whose version is derived, and whose write is answered, comes
to that. -/
theorem Transited.eq_written (h : Transited now context user id derive change s answer s')
    (hcheck : Identity.checkAll user [id] = .ok ()) {store store' : σ}
    {current next stored : Item}
    (hget : Store.serve now (.get user id) s.store = (.ok (some current), store))
    (hderive : derive current = .ok next)
    (hupdate : Store.serve now (.update next) store = (.ok stored, store')) :
    answer = .ok ⟨stored, current⟩ ∧
      s' = ⟨store', s.published ++ [⟨change current, user, id, stored, context, now⟩]⟩ := by
  cases h with
  | malformed e hbad => cases hcheck.symm.trans hbad
  | unread e hget' => cases hget.symm.trans hget'
  | missing hget' => cases hget.symm.trans hget'
  | unsuited e hget' hderive' =>
    cases hget.symm.trans hget'
    cases hderive.symm.trans hderive'
  | unwritten e hget' hderive' hupdate' =>
    cases hget.symm.trans hget'
    cases hderive.symm.trans hderive'
    cases hupdate.symm.trans hupdate'
  | written hget' hderive' hupdate' =>
    cases hget.symm.trans hget'
    cases hderive.symm.trans hderive'
    cases hupdate.symm.trans hupdate'
    exact ⟨rfl, rfl⟩

end Dismissal.Lifecycle
