import Dismissal.Proofs.Store.Durable
import Dismissal.Store.Faulty

/-!
# Stores behind faults

Behind faults, requests to a store can fail or be answered wrongly, but only in ways that `Faced`
lists: the request is refused, a look finds nothing, the last item of a batch is left out, or what
was done is answered with a failure. The last three take a fault of their own, which the queue must
hold; and the queue only gets shorter (`serve_delayed`).

Over a durable store each request gets its law from this: what it can answer, and what it makes of
the contents.
-/

namespace Dismissal.Faulty

section Queue

/-- A fault that is taken was queued, and nothing is added to the queue. -/
theorem take_mem {method : Method} {faults rest : Faults} {fault : Fault}
    (h : faults.take method = (some fault, rest)) :
    (method, fault) ∈ faults ∧ rest ⊆ faults := by
  induction faults generalizing rest with
  | nil => cases h
  | cons entry faults ih =>
    obtain ⟨m, first⟩ := entry
    unfold Faults.take at h
    split at h
    · rename_i heq
      cases h
      exact ⟨heq ▸ List.mem_cons_self, List.subset_cons_self _ _⟩
    · obtain ⟨htaken, rfl⟩ := Prod.mk.inj h
      obtain ⟨hmem, hsub⟩ := ih (Prod.ext htaken rfl)
      exact ⟨List.mem_cons_of_mem _ hmem, List.cons_subset_cons _ hsub⟩

end Queue

/-! ## Any request -/

section Any

variable {σ : Type} [Store σ] {f : Faulty σ} {now : Instant} {request : Request}

/-- A fault is queued that answers a failure for what was done. -/
def Loses {σ : Type} (f : Faulty σ) : Prop :=
  ∃ method failure, (method, .failAfter failure) ∈ f.faults

/-- A fault is queued that leaves the last item out of an answer. -/
def Drops {σ : Type} (f : Faulty σ) : Prop := ∃ method, (method, .dropLast) ∈ f.faults

/-- What can come of a request: the answer, and the next state of the store behind. -/
inductive Faced (now : Instant) (request : Request) (f : Faulty σ) :
    Result request.Answer → σ → Prop where
  | refused (failure : Failure) : Faced now request f (.error failure) f.inner
  | hidden {answer : request.Answer} : (request.method, .hide) ∈ f.faults →
    Fault.nothing request = some answer → Faced now request f (.ok answer) f.inner
  | served {answer : Result request.Answer} {inner : σ} :
    Store.serve now request f.inner = (answer, inner) → Faced now request f answer inner
  | shortened {answer : request.Answer} {inner : σ} : f.Drops →
    Store.serve now request f.inner = (.ok answer, inner) →
    Faced now request f (.ok (Fault.shorten request answer)) inner
  | lost {answer : request.Answer} {inner : σ} (failure : Failure) : f.Loses →
    Store.serve now request f.inner = (.ok answer, inner) →
    Faced now request f (.error failure) inner

/-- The store behind was not reached, or it did as it was asked. -/
theorem Faced.inner_eq {answer : Result request.Answer} {inner : σ}
    (h : Faced now request f answer inner) :
    inner = f.inner ∨ inner = (Store.serve now request f.inner).2 := by
  cases h with
  | refused failure => exact .inl rfl
  | hidden _ hnothing => exact .inl rfl
  | served hserve => exact .inr (by rw [hserve])
  | shortened _ hserve => exact .inr (by rw [hserve])
  | lost failure _ hserve => exact .inr (by rw [hserve])

/-- How much time has passed is nothing that a request can tell. -/
theorem Faced.of_elapsed {elapsed : Nat} {answer : Result request.Answer} {inner : σ}
    (h : Faced now request { f with elapsed } answer inner) : Faced now request f answer inner := by
  cases h with
  | refused failure => exact .refused failure
  | hidden hqueued hnothing => exact .hidden hqueued hnothing
  | served hserve => exact .served hserve
  | shortened hdrops hserve => exact .shortened hdrops hserve
  | lost failure hloses hserve => exact .lost failure hloses hserve

variable (now) in
/-- A fault that is queued does one of the things that can come of a request. -/
theorem apply_faced {fault : Fault} (hqueued : (request.method, fault) ∈ f.faults) :
    Faced now request f (fault.apply request (Store.serve now request) f.inner).1
      (fault.apply request (Store.serve now request) f.inner).2 := by
  cases hserve : Store.serve now request f.inner with
  | mk answer inner =>
    cases fault with
    | fail failure => exact .refused failure
    | hide =>
      unfold Fault.apply
      cases hnothing : Fault.nothing request with
      | none => exact .served rfl
      | some answer => exact .hidden hqueued hnothing
    | failAfter failure =>
      simp only [Fault.apply, hserve]
      cases answer with
      | ok answer => exact .lost failure ⟨_, _, hqueued⟩ hserve
      | error e => exact .served hserve
    | dropLast =>
      simp only [Fault.apply, hserve]
      cases answer with
      | ok answer => exact .shortened ⟨_, hqueued⟩ hserve
      | error e => exact .served hserve
    | pass => exact .served rfl

/-- The store behind faults when the delay of a request has passed. -/
def delayed (now : Instant) (f : Faulty σ) : Faulty σ :=
  if f.delay = 0 then f else f.pass now f.delay

theorem faults_delayed (now : Instant) (f : Faulty σ) : (f.delayed now).faults = f.faults := by
  unfold delayed
  split <;> rfl

/-- A request is answered when its delay has passed. -/
theorem serve_eq (now : Instant) (request : Request) (f : Faulty σ) :
    Store.serve now request f =
      match (f.delayed now).faults.take request.method with
      | (none, _) =>
        let (answer, inner) := Store.serve now request (f.delayed now).inner
        (answer, { f.delayed now with inner })
      | (some fault, faults) =>
        let (answer, inner) := fault.apply request (Store.serve now request) (f.delayed now).inner
        (answer, { f.delayed now with inner, faults }) := rfl

/-- **Whatever faults are queued, only so much can come of a request** when its delay has passed. -/
theorem serve_delayed (now : Instant) (request : Request) (f : Faulty σ) :
    Faced now request (f.delayed now) (Store.serve now request f).1
        (Store.serve now request f).2.inner ∧
      (Store.serve now request f).2.faults ⊆ f.faults := by
  rw [← faults_delayed now f, serve_eq]
  cases htake : (f.delayed now).faults.take request.method with
  | mk taken rest =>
    cases taken with
    | none => exact ⟨.served rfl, List.Subset.refl _⟩
    | some fault =>
      obtain ⟨hmem, hsub⟩ := take_mem htake
      exact ⟨apply_faced now hmem, hsub⟩

end Any

/-! ## Over a durable store -/

variable {σ : Type} [Durable σ]

/-- The store behind is sound. -/
def Sound (f : Faulty σ) : Prop := Durable.Sound f.inner

/-- What the store behind holds. -/
def held (f : Faulty σ) : Contents := Durable.look f.inner

/-- A state that requests can lead to: sound, and with no new faults. -/
structure Next (f f' : Faulty σ) : Prop where
  sound : f'.Sound
  faults : f'.faults ⊆ f.faults

section Next

variable {f f' f'' : Faulty σ}

theorem Next.trans (h : f.Next f') (h' : f'.Next f'') : f.Next f'' :=
  ⟨h'.sound, List.Subset.trans h'.faults h.faults⟩

theorem Next.loses (h : f.Next f') (hloses : f'.Loses) : f.Loses := by
  obtain ⟨method, failure, hmem⟩ := hloses
  exact ⟨method, failure, h.faults hmem⟩

theorem Next.drops (h : f.Next f') (hdrops : f'.Drops) : f.Drops := by
  obtain ⟨method, hmem⟩ := hdrops
  exact ⟨method, h.faults hmem⟩

end Next

section Serve

variable {f : Faulty σ} {now : Instant}

/-- While a request is delayed, nothing happens to the store behind. -/
theorem delayed_eq (h : f.Sound) (now : Instant) :
    ∃ elapsed, f.delayed now = { f with elapsed } := by
  unfold delayed
  split
  · exact ⟨f.elapsed, rfl⟩
  · refine ⟨f.elapsed + f.delay, ?_⟩
    unfold pass
    rw [Durable.pass_eq now f.delay h]

/-- **Over a durable store, the delay of a request makes no difference.** -/
theorem serve_faced (h : f.Sound) (now : Instant) (request : Request) :
    Faced now request f (Store.serve now request f).1 (Store.serve now request f).2.inner ∧
      f.Next (Store.serve now request f).2 := by
  obtain ⟨hfaced, hsub⟩ := serve_delayed now request f
  obtain ⟨elapsed, hdelayed⟩ := delayed_eq h now
  rw [hdelayed] at hfaced
  refine ⟨hfaced.of_elapsed, ?_, hsub⟩
  show Durable.Sound (Store.serve now request f).2.inner
  rcases hfaced.inner_eq with heq | heq
  · rw [heq]
    exact h
  · rw [heq]
    exact Durable.serve_sound now request h

end Serve

/-! ## Each request -/

section Requests

variable {f f' : Faulty σ} {now : Instant} {user id : String}

/-- A look finds nothing that is not there, and changes nothing. -/
theorem serve_get (h : f.Sound) {answer : Result (Option Item)}
    (hserve : Store.serve now (.get user id) f = (answer, f')) :
    f.Next f' ∧ f'.held = f.held ∧
      ∀ item, answer = .ok (some item) → f.held user id = .ok (some item) := by
  obtain ⟨hfaced, hnext⟩ := serve_faced h now (.get user id)
  rw [hserve] at hfaced hnext
  refine ⟨hnext, ?_⟩
  unfold held
  have hget := Durable.serve_get now user id h
  generalize f'.inner = inner at hfaced
  cases hfaced with
  | refused failure => exact ⟨rfl, fun _ h => by cases h⟩
  | hidden _ hnothing =>
    cases hnothing
    exact ⟨rfl, fun _ h => by cases h⟩
  | served hinner =>
    rw [hget] at hinner
    cases hinner
    exact ⟨rfl, fun _ h => h⟩
  | shortened _ hinner =>
    obtain ⟨hlook, rfl⟩ := Prod.mk.inj (hget.symm.trans hinner)
    exact ⟨rfl, fun _ h => hlook.trans h⟩
  | lost failure _ hinner =>
    obtain ⟨-, rfl⟩ := Prod.mk.inj (hget.symm.trans hinner)
    exact ⟨rfl, fun _ h => by cases h⟩

theorem serve_getMany (h : f.Sound) {ids : List String} {answer : Result Found}
    (hserve : Store.serve now (.getMany user ids) f = (answer, f')) :
    f.Next f' ∧ f'.held = f.held ∧ ∀ found : Found, answer = .ok found →
      ∀ id item, found[id]? = some item → f.held user id = .ok (some item) := by
  obtain ⟨hfaced, hnext⟩ := serve_faced h now (.getMany user ids)
  rw [hserve] at hfaced hnext
  refine ⟨hnext, ?_⟩
  unfold held
  obtain ⟨gathered, hgetMany, hgathers⟩ := Durable.serve_getMany now user ids h
  have hbacks (found : Found) (hok : gathered = .ok found) (id : String) (item : Item)
      (hitem : found[id]? = some item) : Durable.look f.inner user id = .ok (some item) := by
    subst hok
    refine Contents.Gathers.backs hgathers (fun _ _ h => ?_) id item hitem
    cases h
  generalize f'.inner = inner at hfaced
  cases hfaced with
  | refused failure => exact ⟨rfl, fun _ h => by cases h⟩
  | hidden _ hnothing =>
    cases hnothing
    exact ⟨rfl, fun _ h => by cases h; exact fun _ _ h => by cases h⟩
  | served hinner =>
    obtain ⟨rfl, rfl⟩ := Prod.mk.inj (hgetMany.symm.trans hinner)
    exact ⟨rfl, hbacks⟩
  | shortened _ hinner =>
    obtain ⟨hlook, rfl⟩ := Prod.mk.inj (hgetMany.symm.trans hinner)
    exact ⟨rfl, fun found h => hbacks found (hlook.trans h)⟩
  | lost failure _ hinner =>
    obtain ⟨-, rfl⟩ := Prod.mk.inj (hgetMany.symm.trans hinner)
    exact ⟨rfl, fun _ h => by cases h⟩

/-- A request is done, with a given answer and outcome, or it is refused and changes nothing. -/
inductive Decided (now : Instant) (request : Request) (s : σ) (allowed : Prop)
    (value : request.Answer) (outcome : Contents) : Prop where
  | done (s' : σ) : allowed → Store.serve now request s = (.ok value, s') →
    Durable.look s' = outcome → Decided now request s allowed value outcome
  | refused (failure : Failure) : Store.serve now request s = (.error failure, s) →
    Decided now request s allowed value outcome

section Decided

variable {request : Request} {s s' : σ} {allowed : Prop} {value given : request.Answer}
  {outcome : Contents} {failure : Failure}

theorem Decided.ok (h : Decided now request s allowed value outcome)
    (hserve : Store.serve now request s = (.ok given, s')) :
    given = value ∧ allowed ∧ Durable.look s' = outcome := by
  cases h with
  | done _ hallowed hdone hlook =>
    obtain ⟨hok, rfl⟩ := Prod.mk.inj (hdone.symm.trans hserve)
    exact ⟨(Except.ok.inj hok).symm, hallowed, hlook⟩
  | refused _ hrefused => cases hrefused.symm.trans hserve

theorem Decided.error (h : Decided now request s allowed value outcome)
    (hserve : Store.serve now request s = (.error failure, s')) : s' = s := by
  cases h with
  | done _ _ hdone _ => cases hdone.symm.trans hserve
  | refused _ hrefused => exact (Prod.mk.inj (hrefused.symm.trans hserve)).2.symm

end Decided

theorem decided_create (h : f.Sound) (now : Instant) (item : Item) :
    Decided now (.create item) f.inner (f.held.Vacant item.user item.id) item
      (f.held.put item) := by
  by_cases hvacant : f.held.Vacant item.user item.id
  · obtain ⟨s, hcreate, hlook⟩ := Durable.serve_create now h hvacant
    exact .done s hvacant hcreate hlook
  · obtain ⟨reason, htaken⟩ := Durable.serve_create_taken now h hvacant
    exact .refused _ htaken

theorem decided_createMany (h : f.Sound) (now : Instant) (items : List Item) :
    Decided now (.createMany items) f.inner (f.held.Fresh items) items (f.held.putAll items) := by
  by_cases hfresh : f.held.Fresh items
  · obtain ⟨s, hcreate, hlook⟩ := Durable.serve_createMany now h hfresh
    exact .done s hfresh hcreate hlook
  · obtain ⟨reason, htaken⟩ := Durable.serve_createMany_taken now h hfresh
    exact .refused _ htaken

/-- What can come of a creation: it is done and answered, not done, or done and lost. -/
inductive Created (f f' : Faulty σ) (item : Item) : Result Item → Prop where
  | done : f.held.Vacant item.user item.id → f'.held = f.held.put item →
    Created f f' item (.ok item)
  | failed (failure : Failure) : f'.held = f.held → Created f f' item (.error failure)
  | lost (failure : Failure) : f.Loses → f.held.Vacant item.user item.id →
    f'.held = f.held.put item → Created f f' item (.error failure)

theorem serve_create (h : f.Sound) {item : Item} {answer : Result Item}
    (hserve : Store.serve now (.create item) f = (answer, f')) :
    f.Next f' ∧ Created f f' item answer := by
  obtain ⟨hfaced, hnext⟩ := serve_faced h now (.create item)
  rw [hserve] at hfaced hnext
  refine ⟨hnext, ?_⟩
  have hdecided := decided_create h now item
  generalize hf' : f'.inner = inner at hfaced
  cases hfaced with
  | refused failure => exact .failed failure (congrArg Durable.look hf')
  | hidden _ hnothing => cases hnothing
  | served hinner =>
    cases answer with
    | error failure =>
      exact .failed failure (congrArg Durable.look (hf'.trans (hdecided.error hinner)))
    | ok created =>
      obtain ⟨rfl, hvacant, hlook⟩ := hdecided.ok hinner
      exact .done hvacant ((congrArg Durable.look hf').trans hlook)
  | shortened _ hinner =>
    obtain ⟨heq, hvacant, hlook⟩ := hdecided.ok hinner
    rw [heq]
    exact .done hvacant ((congrArg Durable.look hf').trans hlook)
  | lost failure hloses hinner =>
    obtain ⟨-, hvacant, hlook⟩ := hdecided.ok hinner
    exact .lost failure hloses hvacant ((congrArg Durable.look hf').trans hlook)

/-- What can come of the creation of a batch. -/
inductive CreatedMany (f f' : Faulty σ) (items : List Item) : Result (List Item) → Prop where
  | done : f.held.Fresh items → f'.held = f.held.putAll items → CreatedMany f f' items (.ok items)
  | shortened : f.Drops → f.held.Fresh items → f'.held = f.held.putAll items →
    CreatedMany f f' items (.ok items.dropLast)
  | failed (failure : Failure) : f'.held = f.held → CreatedMany f f' items (.error failure)
  | lost (failure : Failure) : f.Loses → f.held.Fresh items → f'.held = f.held.putAll items →
    CreatedMany f f' items (.error failure)

theorem serve_createMany (h : f.Sound) {items : List Item} {answer : Result (List Item)}
    (hserve : Store.serve now (.createMany items) f = (answer, f')) :
    f.Next f' ∧ CreatedMany f f' items answer := by
  obtain ⟨hfaced, hnext⟩ := serve_faced h now (.createMany items)
  rw [hserve] at hfaced hnext
  refine ⟨hnext, ?_⟩
  have hdecided := decided_createMany h now items
  generalize hf' : f'.inner = inner at hfaced
  cases hfaced with
  | refused failure => exact .failed failure (congrArg Durable.look hf')
  | hidden _ hnothing => cases hnothing
  | served hinner =>
    cases answer with
    | error failure =>
      exact .failed failure (congrArg Durable.look (hf'.trans (hdecided.error hinner)))
    | ok created =>
      obtain ⟨rfl, hfresh, hlook⟩ := hdecided.ok hinner
      exact .done hfresh ((congrArg Durable.look hf').trans hlook)
  | shortened hdrops hinner =>
    obtain ⟨heq, hfresh, hlook⟩ := hdecided.ok hinner
    rw [heq]
    exact .shortened hdrops hfresh ((congrArg Durable.look hf').trans hlook)
  | lost failure hloses hinner =>
    obtain ⟨-, hfresh, hlook⟩ := hdecided.ok hinner
    exact .lost failure hloses hfresh ((congrArg Durable.look hf').trans hlook)

end Requests

end Dismissal.Faulty
