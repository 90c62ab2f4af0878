import Dismissal.Proofs.Lifecycle.Batches
import Dismissal.Proofs.Lifecycle.Reference

/-!
# Keepers

What the calls need of a store, told by its contents: a `Keeper` is a store that keeps the items of
the names it knows, as long as each write is near enough to the present. A durable store knows all
names and keeps items for good (`Keeper.durable`).

How the parts of the calls run over a keeper follows: what they answer, what they tell, and what the
store holds when they are done.
-/

namespace Dismissal

/-- The name of an item. -/
def Item.name (item : Item) : Name := ⟨item.user, item.id, item.user_valid, item.id_valid⟩

namespace Lifecycle

/-- What the calls need of a store. `holds` says which contents a state has, and at which instants
it was written to; reading may change the state, but neither of these. -/
structure Keeper (σ : Type) [Store σ] where
  /-- The names under which items are kept. -/
  Knows : Name → Prop
  /-- What was written at an instant is still there now. -/
  Near (now written : Instant) : Prop
  holds : List Instant → Contents → σ → Prop
  get {now : Instant} {writes : List Instant} {c : Contents} {s : σ} (n : Name) :
    (∀ t ∈ writes, Near now t) → holds writes c s →
      ∃ s', Store.serve now (.get n.user n.id) s = (c n.user n.id, s') ∧ holds writes c s'
  getMany {now : Instant} {writes : List Instant} {c : Contents} {s : σ} {user : String}
    {ids : List String} : Identity.Valid user → (∀ id ∈ ids, Identity.Valid id) →
    (∀ t ∈ writes, Near now t) → holds writes c s →
      ∃ answer s', Store.serve now (.getMany user ids) s = (answer, s') ∧
        c.Gathers user ∅ ids answer ∧ holds writes c s'
  create (now : Instant) {writes : List Instant} {c : Contents} {s : σ} {item : Item} :
    Knows item.name → c.Vacant item.user item.id → holds writes c s →
      ∃ s', Store.serve now (.create item) s = (.ok item, s') ∧
        holds (writes ++ [now]) (c.put item) s'
  createMany (now : Instant) {writes : List Instant} {c : Contents} {s : σ} {items : List Item} :
    (∀ item ∈ items, Knows item.name) → c.Fresh items → holds writes c s →
      ∃ s', Store.serve now (.createMany items) s = (.ok items, s') ∧
        holds (writes ++ items.map fun _ => now) (c.putAll items) s'
  update {now : Instant} {writes : List Instant} {c : Contents} {s : σ} {item stored : Item} :
    (∀ t ∈ writes, Near now t) → c item.user item.id = .ok (some stored) →
    item.created = stored.created → holds writes c s →
      ∃ s', Store.serve now (.update item) s = (.ok item, s') ∧
        holds (writes ++ [now]) (c.put item) s'
  delete (now : Instant) {writes : List Instant} {c : Contents} {s : σ} (n : Name) :
    holds writes c s → ∃ s', Store.serve now (.delete n.user n.id) s = (.ok (), s') ∧
      holds writes (c.drop n.user n.id) s'
  deleteAll (now : Instant) {writes : List Instant} {c : Contents} {s : σ} :
    holds writes c s → ∃ s', Store.serve now .deleteAll s = (.ok (), s') ∧
      holds writes (fun _ _ => .ok none) s'

namespace Keeper

/-! ## Durable stores -/

section Durable

variable {σ : Type} [Durable σ]

/-- A durable store is sound, and a look shows what it holds. -/
def Lasting (_ : List Instant) (c : Contents) (s : σ) : Prop :=
  Durable.Sound s ∧ Durable.look s = c

/-- What a sound store becomes by a request is sound. -/
theorem lasting_served {request : Request} {now : Instant} {writes : List Instant} {c : Contents}
    {s : σ} {answer : Result request.Answer} (hsound : Durable.Sound s)
    (h : ∃ s', Store.serve now request s = (answer, s') ∧ Durable.look s' = c) :
    ∃ s', Store.serve now request s = (answer, s') ∧ Lasting writes c s' := by
  obtain ⟨s', hserve, hlook⟩ := h
  have hnext := Durable.serve_sound now request hsound
  rw [hserve] at hnext
  exact ⟨s', hserve, hnext, hlook⟩

/-- **A durable store is a keeper**, whatever it is asked to keep and however long. -/
def durable (σ : Type) [Durable σ] : Keeper σ where
  Knows _ := True
  Near _ _ := True
  holds := Lasting
  get n _ h := by
    obtain ⟨hsound, rfl⟩ := h
    exact ⟨_, Durable.serve_get _ n.user n.id hsound, hsound, rfl⟩
  getMany _ _ _ h := by
    obtain ⟨hsound, rfl⟩ := h
    obtain ⟨answer, hserve, hgathers⟩ := Durable.serve_getMany _ _ _ hsound
    exact ⟨answer, _, hserve, hgathers, hsound, rfl⟩
  create now _ _ _ _ _ hvacant h := by
    obtain ⟨hsound, rfl⟩ := h
    exact lasting_served hsound (Durable.serve_create now hsound hvacant)
  createMany now _ _ _ _ _ hfresh h := by
    obtain ⟨hsound, rfl⟩ := h
    exact lasting_served hsound (Durable.serve_createMany now hsound hfresh)
  update _ hstored hcreated h := by
    obtain ⟨hsound, rfl⟩ := h
    exact lasting_served hsound (Durable.serve_update _ hsound hstored hcreated)
  delete now _ _ _ n h := by
    obtain ⟨hsound, rfl⟩ := h
    exact lasting_served hsound (Durable.serve_delete now hsound n.user_valid n.id_valid)
  deleteAll now _ _ _ h := by
    obtain ⟨hsound, rfl⟩ := h
    exact lasting_served hsound (Durable.serve_deleteAll now hsound)

end Durable

/-! ## Parts of calls -/

section Parts

variable {σ : Type} [Store σ] {k : Keeper σ} {now : Instant} {writes : List Instant} {c : Contents}
  {s : State σ} {n : Name} {item : Item}

theorem exec_get (hnear : ∀ t ∈ writes, k.Near now t) (h : k.holds writes c s.store) (n : Name) :
    ∃ store, exec (ask now (.get n.user n.id)) s = (c n.user n.id, { s with store }) ∧
      k.holds writes c store := by
  obtain ⟨store, hserve, hheld⟩ := k.get n hnear h
  exact ⟨store, by rw [exec_ask, hserve], hheld⟩

theorem existing_found (hnear : ∀ t ∈ writes, k.Near now t) (h : k.holds writes c s.store)
    (hthere : c n.user n.id = .ok (some item)) :
    ∃ store, exec (existing now n.user n.id) s = (.ok item, { s with store }) ∧
      k.holds writes c store := by
  obtain ⟨store, hget, hheld⟩ := exec_get hnear h n
  rw [hthere] at hget
  refine ⟨store, ?_, hheld⟩
  unfold existing
  rw [exec_bind_ok hget]
  rfl

theorem existing_missing (hnear : ∀ t ∈ writes, k.Near now t) (h : k.holds writes c s.store)
    (hvacant : c n.user n.id = .ok none) :
    ∃ store, exec (existing now n.user n.id) s =
        (.error (.itemNotFound n.user n.id), { s with store }) ∧ k.holds writes c store := by
  obtain ⟨store, hget, hheld⟩ := exec_get hnear h n
  rw [hvacant] at hget
  refine ⟨store, ?_, hheld⟩
  unfold existing
  rw [exec_bind_ok hget]
  rfl

theorem transit_found (context : Option Json) (n : Name) (change : Item → Change)
    (current item : Item) {stored : Item} (hnear : ∀ t ∈ writes, k.Near now t)
    (h : k.holds writes c s.store) (hstored : c item.user item.id = .ok (some stored))
    (hcreated : item.created = stored.created) :
    ∃ store, exec (transit now change n.user n.id context current item) s =
        (.ok ⟨item, current⟩, ⟨store, s.published ++
          [⟨change current, n.user, n.id, item, context, now⟩]⟩) ∧
      k.holds (writes ++ [now]) (c.put item) store := by
  obtain ⟨store, hserve, hheld⟩ := k.update hnear hstored hcreated h
  refine ⟨store, ?_, hheld⟩
  have hask : exec (ask now (.update item)) s = (.ok item, { s with store }) := by
    rw [exec_ask, hserve]
  unfold transit
  rw [exec_bind_ok hask, exec_bind_ok (exec_publish _)]
  rfl

variable (now) in
theorem createMissing_fresh (h : k.holds writes c s.store) {missing : List Item}
    (hknown : ∀ item ∈ missing, k.Knows item.name) (hfresh : c.Fresh missing) :
    ∃ store, exec (createMissing now missing) s = (.ok (settledAll missing), { s with store }) ∧
      k.holds (writes ++ missing.map fun _ => now) (c.putAll missing) store := by
  cases missing with
  | nil =>
    rw [List.map_nil, List.append_nil]
    exact ⟨s.store, rfl, h⟩
  | cons item missing =>
    obtain ⟨store, hserve, hheld⟩ := k.createMany now hknown hfresh h
    exact ⟨store, createMissing_created hserve, hheld⟩

end Parts

end Keeper

end Lifecycle

end Dismissal
