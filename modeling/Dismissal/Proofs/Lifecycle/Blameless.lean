import Dismissal.Proofs.Lifecycle.Checks
import Dismissal.Proofs.Store.Accepting

/-!
# Calls that blame nobody

Over an accepting store, a call whose identities pass its check is not answered that an argument is
invalid, whatever else comes of it. The items that it makes are made of checked identities, and what
it writes is the next version of what it has read.

* `Call.spares`: this holds of all calls.
-/

namespace Dismissal.Lifecycle

section Spares

variable {σ α β : Type} {P : σ → Prop} {now : Instant}

/-- From the states of a property, an action does not fail for an invalid argument. -/
def Spares (P : σ → Prop) (action : Action σ α) : Prop :=
  ∀ s : State σ, P s.store → ¬Blames (exec action s).1

theorem Spares.pure (a : α) : Spares P (pure a : Action σ α) := fun _ _ => not_blames_ok a

theorem Spares.lift {r : Result α} (h : ¬Blames r) : Spares P (liftM r : Action σ α) := fun _ _ => h

theorem Spares.publish (event : Event) : Spares P (publish event) := fun _ _ => not_blames_ok ()

/-- A part that blames nobody and what follows it in every case. -/
theorem Spares.bind {action : Action σ α} {f : α → Action σ β} (h : Spares P action)
    (hkeeps : Keeps P action) (hf : ∀ a, Spares P (f a)) : Spares P (action >>= f) := by
  intro s hs
  have hanswer := h s hs
  have hnext := hkeeps s hs
  rw [exec_bind]
  cases hrun : exec action s with
  | mk answer s' =>
    rw [hrun] at hanswer hnext
    cases answer with
    | error e => exact fun hblames => hanswer hblames.of_error
    | ok a => exact hf a s' hnext

/-- What follows a check that is passed. -/
theorem Spares.checked {r : Result Unit} {rest : Unit → Action σ α} (hcheck : r = .ok ())
    (hrest : Spares P (rest ())) : Spares P (liftM r >>= rest) := by
  subst hcheck
  exact hrest

theorem Spares.map {action : Action σ α} (h : Spares P action) (f : α → β) :
    Spares P (action >>= fun a => Pure.pure (f a)) := by
  intro s hs
  have hanswer := h s hs
  rw [exec_map]
  cases hrun : (exec action s).1 with
  | error e =>
    rw [hrun] at hanswer
    exact fun hblames => hanswer hblames.of_error
  | ok a => exact not_blames_ok (f a)

theorem Spares.mapM_lift {f : α → Result β} {xs : List α} (h : ∀ x ∈ xs, ¬Blames (f x)) :
    Spares P (xs.mapM fun x => (liftM (f x) : Action σ β)) := by
  induction xs with
  | nil => exact .pure []
  | cons x xs ih =>
    rw [List.mapM_cons]
    refine (Spares.lift (h x List.mem_cons_self)).bind (.lift _) fun y => ?_
    exact (ih fun x hx => h x (List.mem_cons_of_mem _ hx)).bind (.mapM_lift _ _) fun ys => .pure _

/-- What was not settled is no fault of who asked for it. -/
theorem Spares.answerEach {context : Option Json} (found : Found) (settled : Settled)
    (ids : List String) : Spares P (answerEach (σ := σ) now context found settled ids) := by
  induction ids with
  | nil => exact .pure []
  | cons id ids ih =>
    have hanswer : ¬Blames (answerFor found settled id) := by
      unfold answerFor
      split <;> exact nofun
    exact (Spares.lift hanswer).bind (.lift _) fun p => (Spares.publish _).bind (.publish _)
      fun _ => ih.bind (.answerEach found settled ids) fun ps => .pure _

end Spares

/-! ## Items -/

/-- A new item of well-formed identities can be made at any time. -/
theorem not_blames_create {user id : String} (huser : Identity.Valid user)
    (hid : Identity.Valid id) (now : Instant) : ¬Blames (Item.create id user now none) := by
  rw [Item.create_early hid huser now none (by simp)]
  exact not_blames_ok _

theorem dismissAt_cases (item : Item) (now : Instant) :
    (∃ next, item.dismissAt now = .ok next ∧ next.Follows item) ∨
      ∃ reason, item.dismissAt now = .error (.invalidState reason) := by
  unfold Item.dismissAt
  split
  · exact .inl ⟨_, rfl, rfl, rfl, rfl⟩
  · exact .inr ⟨_, rfl⟩

/-! ## Parts of calls -/

section Parts

variable {σ α : Type} [Store σ] {P : σ → Prop} {Q : Instant → Item → σ → Prop} {now : Instant}
  {user id : String} {s : State σ} (h : Accepting P Q)
include h

theorem keeps_adds (request : Request) (hadds : request.Adds) :
    Keeps P (ask (σ := σ) now request) := fun _ hs => h.adds now hs hadds

theorem Spares.ask {request : Request} (hnamed : request.Named) :
    Spares P (ask (σ := σ) now request) := fun _ hs => h.named now hs hnamed

theorem Spares.insertOrReread (item : Item) : Spares P (insertOrReread (σ := σ) now item) := by
  intro s hs
  have hcreate : ¬Blames (Store.serve now (.create item) s.store).1 := h.named now hs trivial
  have hnext : P (Store.serve now (.create item) s.store).2 := h.adds now hs trivial
  unfold Lifecycle.insertOrReread
  rw [exec_bind_ok (exec_attempt _), exec_ask]
  cases hanswer : (Store.serve now (.create item) s.store).1 with
  | ok created => exact not_blames_ok _
  | error e =>
    cases e with
    | conflict reason =>
      have hreread : Spares P (Lifecycle.ask (σ := σ) now (.get item.user item.id)) :=
        Spares.ask h ⟨item.user_valid, item.id_valid⟩
      refine hreread.bind (keeps_adds h _ trivial) (fun found => ?_) _ hnext
      cases found with
      | none => exact fun _ _ => nofun
      | some existing => exact .pure _
    | invalidArgument reason => exact absurd ⟨reason, hanswer⟩ hcreate
    | _ => exact nofun

theorem Spares.settleEach (settled : Settled) (items : List Item) :
    Spares P (settleEach (σ := σ) now settled items) := by
  induction items generalizing settled with
  | nil => exact .pure settled
  | cons item items ih =>
    exact (Spares.insertOrReread h item).bind (.insertOrReread (keeps_adds h) item)
      fun p => ih (settled.add p)

theorem Spares.createMissing (missing : List Item) :
    Spares P (createMissing (σ := σ) now missing) := by
  unfold Lifecycle.createMissing
  split
  · exact .pure _
  · intro s hs
    have hcreate : ¬Blames (Store.serve now (.createMany missing) s.store).1 :=
      h.named now hs trivial
    have hnext : P (Store.serve now (.createMany missing) s.store).2 := h.adds now hs trivial
    rw [exec_bind_ok (exec_attempt _), exec_ask]
    cases hanswer : (Store.serve now (.createMany missing) s.store).1 with
    | ok items => exact not_blames_ok _
    | error e =>
      cases e with
      | conflict reason => exact Spares.settleEach h ∅ missing _ hnext
      | invalidArgument reason => exact absurd ⟨reason, hanswer⟩ hcreate
      | _ => exact nofun

/-- What follows a look at an item that must be there is run where the item was seen. -/
theorem Spares.existing_bind (huser : Identity.Valid user) (hid : Identity.Valid id)
    {f : Item → Action σ α} (hf : ∀ item, Spares (Q now item) (f item)) :
    Spares P (existing now user id >>= f) := by
  intro s hs
  have hget : ¬Blames (Store.serve now (.get user id) s.store).1 := h.named now hs ⟨huser, hid⟩
  unfold Lifecycle.existing
  rw [bind_assoc, exec_bind, exec_ask]
  cases hserve : Store.serve now (.get user id) s.store with
  | mk answer store =>
    rw [hserve] at hget
    match answer with
    | .error e => exact fun hblames => hget hblames.of_error
    | .ok none => exact nofun
    | .ok (some item) => exact hf item _ (h.found now hs hserve)

theorem Spares.transit {current next : Item} (hnext : next.Follows current)
    (change : Item → Change) (context : Option Json) :
    Spares (Q now current) (transit (σ := σ) now change user id context current next) := by
  intro s hs
  have hupdate : ¬Blames (Store.serve now (.update next) s.store).1 := h.update now hs hnext
  unfold Lifecycle.transit
  rw [exec_bind, exec_ask]
  cases hserve : Store.serve now (.update next) s.store with
  | mk answer store =>
    rw [hserve] at hupdate
    cases answer with
    | error e => exact fun hblames => hupdate hblames.of_error
    | ok stored => exact not_blames_ok _

/-! ## Calls -/

theorem Spares.getOrCreate (huser : Identity.Valid user) (hid : Identity.Valid id)
    (context : Option Json) : Spares P (getOrCreate (σ := σ) now user id context) := by
  have hget : Spares P (Lifecycle.ask (σ := σ) now (.get user id)) := Spares.ask h ⟨huser, hid⟩
  refine .checked (Identity.checkAll_one huser hid) ?_
  refine hget.bind (keeps_adds h _ trivial) fun found => ?_
  cases found with
  | some existing => exact (Spares.publish _).bind (.publish _) fun _ => .pure _
  | none =>
    refine (Spares.lift (not_blames_create huser hid now)).bind (.lift _) fun item => ?_
    refine (Spares.insertOrReread h item).bind (.insertOrReread (keeps_adds h) item) fun p => ?_
    exact (Spares.publish _).bind (.publish _) fun _ => .pure p

theorem Spares.getOrCreateMany {ids : List String} (huser : Identity.Valid user)
    (hids : ∀ id ∈ ids, Identity.Valid id) (context : Option Json) :
    Spares P (getOrCreateMany (σ := σ) now user ids context) := by
  have hdistinct : ∀ id ∈ ids.eraseDups, Identity.Valid id := fun id hid =>
    hids id (List.mem_eraseDups.1 hid)
  have hget : Spares P (Lifecycle.ask (σ := σ) now (.getMany user ids.eraseDups)) :=
    Spares.ask h ⟨huser, hdistinct⟩
  refine .checked (Identity.checkAll_eq_ok_iff.2 ⟨huser, hids⟩) ?_
  show Spares P (if ids.eraseDups.isEmpty then _ else _)
  split
  · exact .pure _
  · refine hget.bind (keeps_adds h _ trivial) fun found => ?_
    have hmake : ∀ id ∈ ids.eraseDups.filter fun id => !found.contains id,
        ¬Blames (Item.create id user now none) := fun id hid =>
      not_blames_create huser (hdistinct id (List.mem_of_mem_filter hid)) now
    refine (Spares.mapM_lift hmake).bind (.mapM_lift _ _) fun missing => ?_
    exact (Spares.createMissing h missing).bind (.createMissing (keeps_adds h) missing)
      fun settled => .answerEach found settled _

theorem Spares.dismiss (huser : Identity.Valid user) (hid : Identity.Valid id)
    (context : Option Json) : Spares P (dismiss (σ := σ) now user id context) := by
  refine .checked (Identity.checkAll_one huser hid) ?_
  refine Spares.existing_bind h huser hid fun current => ?_
  split
  · exact fun _ _ => nofun
  · rcases dismissAt_cases current now with ⟨next, hnext, hfollows⟩ | ⟨reason, hrefused⟩
    · rw [hnext]
      exact Spares.transit h hfollows _ context
    · rw [hrefused]
      exact fun _ _ => nofun

theorem Spares.restore (huser : Identity.Valid user) (hid : Identity.Valid id)
    (context : Option Json) : Spares P (restore (σ := σ) now user id context) := by
  refine .checked (Identity.checkAll_one huser hid) ?_
  refine Spares.existing_bind h huser hid fun current => ?_
  split
  · have hfollows : current.restore.Follows current := ⟨rfl, rfl, rfl⟩
    exact Spares.transit h hfollows _ context
  · exact fun _ _ => nofun

/-- **A call that passes its check blames nobody** over an accepting store. -/
theorem Call.spares {c : Call} (hcheck : c.check = .ok ()) (now : Instant) :
    Spares P (c.run (σ := σ) now) := by
  have hone {user id : String} (hcheck : Identity.checkAll user [id] = .ok ()) :
      Identity.Valid user ∧ Identity.Valid id := by
    simpa using Identity.checkAll_eq_ok_iff.1 hcheck
  cases c with
  | getOrCreate user id context =>
    obtain ⟨huser, hid⟩ := hone hcheck
    exact (Spares.getOrCreate h huser hid context).map _
  | getOrCreateMany user ids context =>
    obtain ⟨huser, hids⟩ := Identity.checkAll_eq_ok_iff.1 hcheck
    exact (Spares.getOrCreateMany h huser hids context).map _
  | dismiss user id context =>
    obtain ⟨huser, hid⟩ := hone hcheck
    exact (Spares.dismiss h huser hid context).map _
  | restore user id context =>
    obtain ⟨huser, hid⟩ := hone hcheck
    exact (Spares.restore h huser hid context).map _
  | deleteItem user id =>
    have hdelete : Spares P (Lifecycle.ask (σ := σ) now (.delete user id)) :=
      Spares.ask h (hone hcheck)
    exact (Spares.checked hcheck hdelete).map _
  | reset =>
    have hreset : Spares P (Lifecycle.ask (σ := σ) now .deleteAll) := Spares.ask h trivial
    exact hreset.map _

end Parts

end Dismissal.Lifecycle
