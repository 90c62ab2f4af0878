import Dismissal.Proofs.Lifecycle.Exec

/-!
# How calls begin

A call checks its identities first, and then asks the store for one thing before anything else
happens: for the item or the items that it names, or to remove them. `Call.check` is that check,
`Call.first?` that request; a batch of nothing has none and is answered at once.

* `Call.perform_refused`: a call that is refused reaches no store and tells of nothing.
* `Call.perform_idle`: no call but a batch of nothing asks for nothing.
* `Call.perform_stopped`: a call fails as its first request does.
-/

namespace Dismissal.Lifecycle

namespace Call

/-- The check of the identities that a call names. -/
def check : Call → Result Unit
  | getOrCreate user id _ => Identity.checkAll user [id]
  | getOrCreateMany user ids _ => Identity.checkAll user ids
  | dismiss user id _ => Identity.checkAll user [id]
  | restore user id _ => Identity.checkAll user [id]
  | deleteItem user id => Identity.checkAll user [id]
  | reset => .ok ()

/-- The call is about one item of a user. -/
inductive IsAbout (user id : String) : Call → Prop where
  | getOrCreate (context : Option Json) : IsAbout user id (.getOrCreate user id context)
  | dismiss (context : Option Json) : IsAbout user id (.dismiss user id context)
  | restore (context : Option Json) : IsAbout user id (.restore user id context)
  | deleteItem : IsAbout user id (.deleteItem user id)

theorem IsAbout.check_eq {user id : String} {c : Call} (h : c.IsAbout user id) :
    c.check = Identity.checkAll user [id] := by cases h <;> rfl

/-- What a call asks the store for first, if it asks for anything. -/
def first? : Call → Option Request
  | getOrCreate user id _ => some (.get user id)
  | getOrCreateMany user ids _ =>
    if ids.eraseDups.isEmpty then none else some (.getMany user ids.eraseDups)
  | dismiss user id _ => some (.get user id)
  | restore user id _ => some (.get user id)
  | deleteItem user id => some (.delete user id)
  | reset => some .deleteAll

variable {σ : Type} [Store σ] {now : Instant} {s : State σ}

/-- How an action begins after its check: with a request, or with its end. -/
inductive Begins (now : Instant) : Option Request → Action σ Outcome → Prop where
  | ask {request : Request} (rest : request.Answer → Action σ Outcome) :
    Begins now (some request) (ask now request >>= rest)
  | idle : Begins now none (pure (.batch []))

theorem Begins.of_part {α : Type} {request : Request} (first : request.Answer → Action σ α)
    (rest : α → Action σ Outcome) :
    Begins now (some request) (Lifecycle.ask now request >>= first >>= rest) := by
  rw [bind_assoc]
  exact .ask _

theorem Begins.of_existing (now : Instant) (user id : String) (rest : Item → Action σ Outcome) :
    Begins now (some (.get user id)) (existing now user id >>= rest) := .of_part ..

/-- **A call is its check, followed by what begins with its first request.** -/
theorem run_eq (now : Instant) (c : Call) :
    ∃ rest : Action σ Outcome, c.run now = (do liftM c.check; rest) ∧ Begins now c.first? rest := by
  cases c with
  | getOrCreate user id context => exact ⟨_, bind_assoc .., .of_part ..⟩
  | getOrCreateMany user ids context =>
    refine ⟨_, bind_assoc .., ?_⟩
    show Begins now (if ids.eraseDups.isEmpty then none else some (.getMany user ids.eraseDups))
      ((if ids.eraseDups.isEmpty then _ else _) >>= _)
    split
    · exact .idle
    · exact .of_part ..
  | dismiss user id context =>
    refine ⟨_, bind_assoc .., ?_⟩
    rw [bind_assoc]
    exact .of_existing ..
  | restore user id context =>
    refine ⟨_, bind_assoc .., ?_⟩
    rw [bind_assoc]
    exact .of_existing ..
  | deleteItem user id => exact ⟨_, bind_assoc .., .ask _⟩
  | reset => exact ⟨_, rfl, .ask _⟩

/-- **A call that is refused changes nothing.** -/
theorem perform_refused {c : Call} {e : Failure} (h : c.check = .error e) (now : Instant)
    (s : State σ) : c.perform now s = (.error e, s) := by
  obtain ⟨rest, hrun, -⟩ := run_eq (σ := σ) now c
  rw [perform_eq_exec, hrun, exec_lift_bind, h]

/-- Nothing is asked for a batch of nothing. -/
theorem perform_idle {c : Call} (h : c.check = .ok ()) (hfirst : c.first? = none) (now : Instant)
    (s : State σ) : c.perform now s = (.ok (.batch []), s) := by
  obtain ⟨rest, hrun, hbegins⟩ := run_eq (σ := σ) now c
  rw [perform_eq_exec, hrun, exec_lift_bind, h]
  rw [hfirst] at hbegins
  cases hbegins
  rfl

/-- **A call fails as its first request does**, and comes no further. -/
theorem perform_stopped {c : Call} {request : Request} {e : Failure} {store : σ}
    (h : c.check = .ok ()) (hfirst : c.first? = some request)
    (hserve : Store.serve now request s.store = (.error e, store)) :
    c.perform now s = (.error e, { s with store }) := by
  obtain ⟨rest, hrun, hbegins⟩ := run_eq (σ := σ) now c
  rw [perform_eq_exec, hrun, exec_lift_bind, h]
  rw [hfirst] at hbegins
  cases hbegins with
  | ask rest =>
    refine exec_bind_error ?_ rest
    rw [exec_ask, hserve]

end Call

end Dismissal.Lifecycle
