import Dismissal.Proofs.Lifecycle.Batches
import Dismissal.Proofs.Lifecycle.Transitions
import Dismissal.Proofs.Store.Strict

/-!
# Calls that need a garbled row

Over a strict store, a call that names an item whose row is garbled fails, whatever else it names
and whatever faults come in between. It tells of nothing, and the row stays as it is.

* `Call.garbled`: this holds of all calls that answer with items.
-/

namespace Dismissal.Lifecycle

variable {σ α β : Type} {now : Instant} {context : Option Json} {user id : String} {s : State σ}
  {item : Item}

/-- An action fails and tells of nothing. -/
def Fails (action : Action σ α) (s : State σ) : Prop :=
  (∃ e, (exec action s).1 = .error e) ∧ (exec action s).2.published = s.published

section Fails

variable {s' : State σ} {action : Action σ α} {f : α → Action σ β}

theorem Fails.of_exec {e : Failure} (h : exec action s = (.error e, s'))
    (hpublished : s'.published = s.published) : Fails action s := by
  unfold Fails
  rw [h]
  exact ⟨⟨e, rfl⟩, hpublished⟩

/-- Nothing follows a part that fails. -/
theorem Fails.bind (h : Fails action s) (f : α → Action σ β) : Fails (action >>= f) s := by
  obtain ⟨⟨e, he⟩, hpublished⟩ := h
  exact .of_exec (exec_bind_error (Prod.ext he rfl) f) hpublished

/-- After a part that tells of nothing, the rest may fail as well. -/
theorem Fails.after {a : α} (h : exec action s = (.ok a, s'))
    (hpublished : s'.published = s.published) (hrest : Fails (f a) s') :
    Fails (action >>= f) s := by
  obtain ⟨⟨e, he⟩, htold⟩ := hrest
  have hrun : exec (action >>= f) s = (.error e, (exec (f a) s').2) :=
    (exec_bind_ok h f).trans (Prod.ext he rfl)
  exact .of_exec hrun (htold.trans hpublished)

/-- A check that is not passed fails; one that is passed leaves the rest to fail. -/
theorem Fails.lift {r : Result α} (h : ∀ a, r = .ok a → Fails (f a) s) :
    Fails (liftM r >>= f) s := by
  cases r with
  | error e => exact .of_exec (exec_lift_bind _ _) rfl
  | ok a => exact .after (exec_lift _) rfl (h a rfl)

end Fails

/-! ## Parts of calls -/

section Parts

variable [Strict σ]

/-- Looks and creations leave a garbled row as it is. -/
theorem keeps_said (now : Instant) {said : Said} (hgarbled : said.Garbled) {request : Request}
    (hadds : request.Adds) :
    Keeps (fun s : σ => Strict.said s user id = said) (ask now request) := by
  intro s h
  have hsaid := Strict.adds_said now request hadds (h ▸ hgarbled)
  exact hsaid.trans h

/-- A look at a garbled row fails, or finds nothing. -/
theorem ask_get_garbled (now : Instant) (h : (Strict.said s.store user id).Garbled) :
    Fails (ask now (.get user id)) s ∨
      exec (ask now (.get user id)) s =
        (.ok none, { s with store := (Store.serve now (.get user id) s.store).2 }) := by
  rcases Strict.get_garbled now h with herror | ⟨-, hnone⟩
  · exact .inl ⟨herror, rfl⟩
  · exact .inr (Prod.ext hnone rfl)

theorem insertOrReread_garbled (h : (Strict.said s.store item.user item.id).Garbled) :
    Fails (insertOrReread now item) s := by
  refine ⟨?_, Silent.insertOrReread item s⟩
  unfold insertOrReread
  obtain ⟨e, hcreate⟩ := Strict.create_garbled now h
  have hsaid := Strict.adds_said now (.create item) trivial h
  rw [exec_bind_ok (exec_attempt _), exec_ask]
  simp only [hcreate]
  cases e with
  | conflict reason =>
    rcases ask_get_garbled (s := { s with store := (Store.serve now (.create item) s.store).2 }) now
      (hsaid ▸ h) with hfails | hnone
    · exact (hfails.bind _).1
    · refine ⟨.conflict reason, ?_⟩
      show (exec (ask now (.get item.user item.id) >>= _) _).1 = _
      rw [exec_bind_ok hnone]
      rfl
  | _ => exact ⟨_, rfl⟩

/-- Settling fails at a garbled row, if it gets so far. -/
theorem settleEach_garbled {items : List Item} (settled : Settled) (hmem : item ∈ items)
    (h : (Strict.said s.store item.user item.id).Garbled) :
    Fails (settleEach now settled items) s := by
  induction items generalizing s settled with
  | nil => cases hmem
  | cons first items ih =>
    unfold settleEach
    rcases List.mem_cons.1 hmem with rfl | hmem
    · exact (insertOrReread_garbled h).bind _
    · have hkept := Keeps.insertOrReread (fun _ => keeps_said now h) first s rfl
      have hpublished : (exec (insertOrReread now first) s).2.published = s.published :=
        Silent.insertOrReread first s
      cases hfirst : exec (insertOrReread now first) s with
      | mk answer s' =>
        rw [hfirst] at hkept hpublished
        cases answer with
        | error e => exact .of_exec (exec_bind_error hfirst _) hpublished
        | ok p => exact .after hfirst hpublished (ih _ hmem (hkept ▸ h))

theorem createMissing_garbled {items : List Item} (hmem : item ∈ items)
    (h : (Strict.said s.store item.user item.id).Garbled) :
    Fails (createMissing now items) s := by
  unfold createMissing
  rw [if_neg (by simpa using List.ne_nil_of_mem hmem)]
  obtain ⟨e, hcreate⟩ := Strict.createMany_garbled now hmem h
  have hsaid := Strict.adds_said now (.createMany items) trivial h
  have hask : exec (attempt (ask now (.createMany items))) s =
      (.ok (.error e), { s with store := (Store.serve now (.createMany items) s.store).2 }) := by
    rw [exec_attempt, exec_ask, hcreate]
  refine .after hask rfl ?_
  cases e with
  | conflict reason => exact settleEach_garbled ∅ hmem (hsaid ▸ h)
  | _ => exact ⟨⟨_, rfl⟩, rfl⟩

end Parts

/-! ## Whole calls -/

section Calls

variable [Strict σ]

theorem getOrCreate_garbled (h : (Strict.said s.store user id).Garbled) :
    Fails (getOrCreate now user id context) s := by
  unfold getOrCreate
  refine .lift fun _ _ => ?_
  rcases ask_get_garbled now h with hfails | hnone
  · exact hfails.bind _
  · have hsaid := Strict.adds_said now (.get user id) trivial h
    refine .after hnone rfl (.lift fun item hitem => ?_)
    -- the new item has the place of the garbled row
    obtain ⟨rfl, rfl, -⟩ := Item.create_parts hitem
    exact (insertOrReread_garbled (hsaid ▸ h)).bind _

/-- A batch whose items were looked for is missing the one with the garbled row, and cannot create
it. -/
theorem missing_garbled {ids : List String} {found : Found} {missing : List Item} {store : σ}
    (hmem : id ∈ ids) (h : (Strict.said s.store user id).Garbled)
    (hget : Store.serve now (.getMany user ids.eraseDups) s.store = (.ok found, store))
    (hmissing : missingItems now user ids found = .ok missing) :
    Fails (createMissing now missing) { s with store } := by
  have hsaid := Strict.adds_said now (.getMany user ids.eraseDups) trivial h
  have hnone : found = ∅ := by
    rcases Strict.getMany_garbled now (List.mem_eraseDups.2 hmem) h with ⟨e, he⟩ | ⟨-, he⟩
    · rw [hget] at he
      cases he
    · rw [hget] at he
      exact Except.ok.inj he
  obtain ⟨hnew, hids⟩ := New.of_missingItems hmissing
  have hin : id ∈ missing.map Item.id := by
    rw [hids, hnone]
    simpa using hmem
  obtain ⟨item, hitem, rfl⟩ := List.mem_map.1 hin
  obtain rfl := hnew.user item hitem
  rw [hget] at hsaid
  exact createMissing_garbled hitem (hsaid ▸ h)

theorem getOrCreateMany_garbled {ids : List String} (hmem : id ∈ ids)
    (h : (Strict.said s.store user id).Garbled) :
    Fails (getOrCreateMany now user ids context) s := by
  cases hrun : exec (getOrCreateMany now user ids context) s with
  | mk answer s' =>
    cases getOrCreateMany_run hrun with
    | malformed e _ => exact .of_exec hrun rfl
    | nothing hempty =>
      have hin := List.mem_eraseDups.2 hmem
      rw [hempty] at hin
      cases hin
    | unread e _ => exact .of_exec hrun rfl
    | unsettled e _ hget hmissing hcreate =>
      have hfails := missing_garbled hmem h hget hmissing
      unfold Fails at hfails
      rw [hcreate] at hfails
      exact .of_exec hrun hfails.2
    | settled hget hmissing hcreate _ =>
      obtain ⟨⟨e, he⟩, -⟩ := missing_garbled hmem h hget hmissing
      rw [hcreate] at he
      cases he

/-- What comes of an action is a failure of which nothing is told, and a row is as it was. -/
structure Refused (user id : String) (s : State σ) (r : Result α × State σ) : Prop where
  error : ∃ e, r.1 = .error e
  published : r.2.published = s.published
  said : Strict.said r.2.store user id = Strict.said s.store user id

theorem Refused.map {r : Result α × State σ} (h : Refused user id s r) (f : α → β) :
    Refused user id s (r.1.map f, r.2) := by
  obtain ⟨⟨e, he⟩, hpublished, hsaid⟩ := h
  exact ⟨⟨e, by rw [he]; rfl⟩, hpublished, hsaid⟩

theorem Fails.refused {action : Action σ α} (h : Fails action s)
    (hkeeps : Keeps (fun store => Strict.said store user id = Strict.said s.store user id)
      action) : Refused user id s (exec action s) :=
  ⟨h.1, h.2, hkeeps s rfl⟩

/-- A transition of a garbled row gets no further than the look at it. -/
theorem Transited.garbled {derive : Item → Result Item} {change : Item → Change} {s' : State σ}
    {answer : Result Transition} (hrun : Transited now context user id derive change s answer s')
    (h : (Strict.said s.store user id).Garbled) : Refused user id s (answer, s') := by
  have hsaid := Strict.adds_said now (.get user id) trivial h
  have hnone {current : Item} {store : σ}
      (hget : Store.serve now (.get user id) s.store = (.ok (some current), store)) : False := by
    rcases Strict.get_garbled now h with ⟨e, he⟩ | ⟨-, he⟩
    · rw [hget] at he
      cases he
    · rw [hget] at he
      cases he
  cases hrun with
  | malformed e _ => exact ⟨⟨e, rfl⟩, rfl, rfl⟩
  | unread e hget =>
    rw [hget] at hsaid
    exact ⟨⟨e, rfl⟩, rfl, hsaid⟩
  | missing hget =>
    rw [hget] at hsaid
    exact ⟨⟨_, rfl⟩, rfl, hsaid⟩
  | unsuited _ hget _ => exact (hnone hget).elim
  | unwritten _ hget _ _ => exact (hnone hget).elim
  | written hget _ _ => exact (hnone hget).elim

/-- The call answers with an item of a user. -/
def Call.Shows (user id : String) : Call → Prop
  | getOrCreate user' id' _ => user' = user ∧ id' = id
  | getOrCreateMany user' ids _ => user' = user ∧ id ∈ ids
  | dismiss user' id' _ => user' = user ∧ id' = id
  | restore user' id' _ => user' = user ∧ id' = id
  | deleteItem _ _ => False
  | reset => False

/-- **A call that would answer with a garbled row is refused.** -/
theorem Call.garbled (now : Instant) {c : Call} (hshows : c.Shows user id)
    (h : (Strict.said s.store user id).Garbled) : Refused user id s (c.perform now s) := by
  cases c with
  | getOrCreate user' id' context =>
    obtain ⟨rfl, rfl⟩ := hshows
    rw [perform_getOrCreate]
    exact ((getOrCreate_garbled h).refused
      (Keeps.getOrCreate (fun _ => keeps_said now h) _ _ context)).map Outcome.presented
  | getOrCreateMany user' ids context =>
    obtain ⟨rfl, hmem⟩ := hshows
    rw [perform_getOrCreateMany]
    exact ((getOrCreateMany_garbled hmem h).refused
      (Keeps.getOrCreateMany (fun _ => keeps_said now h) _ _ context)).map Outcome.batch
  | dismiss user' id' context =>
    obtain ⟨rfl, rfl⟩ := hshows
    rw [perform_dismiss]
    exact ((dismiss_run now context _ _ s).garbled h).map Outcome.transition
  | restore user' id' context =>
    obtain ⟨rfl, rfl⟩ := hshows
    rw [perform_restore]
    exact ((restore_run now context _ _ s).garbled h).map Outcome.transition
  | deleteItem user' id' => exact hshows.elim
  | reset => exact hshows.elim

end Calls

end Dismissal.Lifecycle
