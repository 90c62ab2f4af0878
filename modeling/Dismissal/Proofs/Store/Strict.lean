import Dismissal.Proofs.Store.Garbled
import Dismissal.Proofs.Store.Stable

/-!
# Strict stores

A strict store gives out no garbled row: a request that needs one fails, whatever state the store is
in. Trees and tables are strict, and so is a strict store behind faults or a time limit; only a
fault that hides a row makes a look pass over it. Caches hold items and no rows, so nothing is
garbled there.
-/

namespace Dismissal

/-- Stores that keep garbled rows to themselves. `said` is what a row says, and `Hides` tells that a
look may be answered as if there were no rows. -/
class Strict (σ : Type) extends Store σ where
  said : σ → String → String → Said
  Hides : σ → Method → Prop
  /-- Time changes no row and hides none. -/
  pass_said (now : Instant) (ms : Nat) (s : σ) : said (Store.pass now ms s) = said s
  pass_hides {now : Instant} {ms : Nat} {s : σ} {method : Method} :
    Hides (Store.pass now ms s) method → Hides s method
  /-- Looks and creations leave garbled rows as they are. -/
  adds_said (now : Instant) (request : Request) {s : σ} {user id : String} :
    request.Adds → (said s user id).Garbled →
      said (Store.serve now request s).2 user id = said s user id
  get_garbled (now : Instant) {s : σ} {user id : String} : (said s user id).Garbled →
    (∃ e, (Store.serve now (.get user id) s).1 = .error e) ∨
      Hides s .get ∧ (Store.serve now (.get user id) s).1 = .ok none
  getMany_garbled (now : Instant) {s : σ} {user id : String} {ids : List String} :
    id ∈ ids → (said s user id).Garbled →
      (∃ e, (Store.serve now (.getMany user ids) s).1 = .error e) ∨
        Hides s .getMany ∧ (Store.serve now (.getMany user ids) s).1 = .ok ∅
  create_garbled (now : Instant) {s : σ} {item : Item} : (said s item.user item.id).Garbled →
    ∃ e, (Store.serve now (.create item) s).1 = .error e
  createMany_garbled (now : Instant) {s : σ} {item : Item} {items : List Item} :
    item ∈ items → (said s item.user item.id).Garbled →
      ∃ e, (Store.serve now (.createMany items) s).1 = .error e
  /-- A row is no longer garbled when an update of it is answered. -/
  update_mended (now : Instant) {s : σ} {item stored : Item} :
    (Store.serve now (.update item) s).1 = .ok stored →
      ¬(said (Store.serve now (.update item) s).2 item.user item.id).Garbled

section Contents

variable {c : Contents} {user id : String} {item : Item} {items : List Item}

/-- A garbled row takes its place. -/
theorem Faithful.not_vacant {said : Said} (h : Faithful said (c user id))
    (hgarbled : said.Garbled) : ¬c.Vacant user id := by
  intro hvacant
  obtain ⟨e, he⟩ := h.failed_iff.2 hgarbled
  cases he.symm.trans hvacant

/-- A batch with an item whose place is taken is not fresh. -/
theorem Contents.not_fresh (h : ¬c.Vacant item.user item.id) (hmem : item ∈ items) :
    ¬c.Fresh items := fun hfresh => h (hfresh.put_mem hmem).1

/-- A look at several items fails if one of them cannot be looked at. -/
theorem Contents.Gathers.fails {ids : List String} {answer : Result Found} {e : Failure}
    (h : c.Gathers user ∅ ids answer) (hmem : id ∈ ids) (herror : c user id = .error e) :
    ∃ e, answer = .error e := by
  cases answer with
  | error e => exact ⟨e, rfl⟩
  | ok found => cases herror.symm.trans ((h id).1 hmem)

end Contents

namespace Tree

variable {t : Tree} {user id : String} {item : Item} {items : List Item}

theorem said_eq_of_row {t' : Tree}
    (hrow : ∀ bytes, t.rows[rowKey user id]? = some bytes → t'.rows[rowKey user id]? = some bytes)
    (h : (t.said user id).Garbled) : t'.said user id = t.said user id := by
  unfold said at h ⊢
  cases hbytes : t.rows[rowKey user id]? with
  | none =>
    rw [hbytes] at h
    exact h.elim
  | some bytes => rw [hrow bytes hbytes]

theorem garbled_taken (h : (t.said item.user item.id).Garbled) :
    ¬Contents.Vacant t.get item.user item.id := (t.get_faithful _ _).not_vacant h

instance : Strict Tree where
  said := said
  Hides _ _ := False
  pass_said _ _ _ := rfl
  pass_hides h := h
  adds_said _ _ _ _ _ hadds h := said_eq_of_row (fun _ hrow => Backend.tree_adds hadds hrow) h
  get_garbled _ _ _ _ h := .inl ((get_faithful _ _ _).failed_iff.2 h)
  getMany_garbled _ t user id ids hmem h := by
    obtain ⟨e, he⟩ := (t.get_faithful user id).failed_iff.2 h
    have hgathers : Contents.Gathers t.get user ∅ ids (t.getMany user ids) :=
      t.getAll_gathers user ids ∅ Contents.backs_empty
    exact .inl (hgathers.fails hmem he)
  create_garbled _ t item h := ⟨_, congrArg Prod.fst (create_taken (garbled_taken h))⟩
  createMany_garbled _ t item items hmem h := by
    obtain ⟨taken, -, hrows⟩ :=
      (insertAll_spec t items).2 (Contents.not_fresh (garbled_taken h) hmem)
    show ∃ e, (t.createMany items).1 = .error e
    simp only [createMany, hrows]
    exact ⟨_, rfl⟩
  update_mended _ t item stored h := by
    have hupdate : (t.update item).1 = .ok stored := h
    show ¬((t.update item).2.said item.user item.id).Garbled
    have hupdated := t.updated item
    generalize t.update item = r at hupdated hupdate ⊢
    cases hupdated with
    | refused _ => cases hupdate
    | @written bytes old merged =>
      unfold said
      simp only [keyOf, Std.ExtTreeMap.getElem?_insert_self, Record.ofBytes_encode]
      exact fun hno => hno merged.wellFormed

end Tree

namespace Table

variable {t : Table} {user id : String} {item : Item} {items : List Item}

theorem said_eq_of_row {t' : Table}
    (hrow : ∀ row, t.rows[Key.mk user id]? = some row → t'.rows[Key.mk user id]? = some row)
    (h : (t.said user id).Garbled) : t'.said user id = t.said user id := by
  unfold said at h ⊢
  cases hcells : t.rows[Key.mk user id]? with
  | none =>
    rw [hcells] at h
    exact h.elim
  | some row => rw [hrow row hcells]

theorem garbled_taken (h : (t.said item.user item.id).Garbled) :
    ¬Contents.Vacant t.get item.user item.id := (t.get_faithful _ _).not_vacant h

/-- A statement that fails if it is done fails in any case. -/
theorem reading_error {α : Type} {run : Result α × Table} (h : ∃ e, run.1 = .error e) :
    ∃ e, (t.reading run).1 = .error e := by
  unfold reading
  split
  · exact ⟨_, rfl⟩
  · exact h

theorem writing_error {α : Type} {run : Result α × Table} (h : ∃ e, run.1 = .error e) :
    ∃ e, (t.writing run).1 = .error e := by
  refine reading_error ?_
  split
  · exact ⟨_, rfl⟩
  · exact h

/-- A statement that wrote something was done. -/
theorem writing_ok {α : Type} {run : Result α × Table} {a : α} (h : (t.writing run).1 = .ok a) :
    t.writing run = run := by
  unfold writing reading at h ⊢
  split at h
  · cases h
  · rename_i hopen
    split at h
    · cases h
    · rename_i hthawed
      rw [if_neg hopen, if_neg hthawed]

instance : Strict Table where
  said := said
  Hides _ _ := False
  pass_said _ _ _ := rfl
  pass_hides h := h
  adds_said _ _ _ _ _ hadds h := said_eq_of_row (fun _ hrow => Backend.table_adds hadds hrow) h
  get_garbled _ _ _ _ h := .inl (reading_error ((get_faithful _ _ _).failed_iff.2 h))
  getMany_garbled _ t user id ids hmem h := by
    obtain ⟨e, he⟩ := (t.get_faithful user id).failed_iff.2 h
    left
    show ∃ e, (if ids.isEmpty then _ else _ : Result Found × Table).1 = .error e
    rw [if_neg (by simpa using List.ne_nil_of_mem hmem)]
    exact reading_error ((t.getMany_gathers user ids).fails hmem he)
  create_garbled _ t item h := by
    refine writing_error ⟨duplicate, ?_⟩
    rw [create, if_pos (contains_iff.2 (garbled_taken h))]
  createMany_garbled _ t item items hmem h := by
    have hrows := (insertAll_spec t items).2 (Contents.not_fresh (garbled_taken h) hmem)
    show ∃ e, (if items.isEmpty then _ else _ : Result (List Item) × Table).1 = .error e
    rw [if_neg (by simpa using List.ne_nil_of_mem hmem)]
    exact writing_error ⟨duplicate, by rw [createMany, hrows]⟩
  update_mended _ t item stored h := by
    have hdone : serve (.update item) t = t.update item := writing_ok h
    have hupdate : (t.update item).1 = .ok stored := by
      rw [← hdone]
      exact h
    show ¬((serve (.update item) t).2.said item.user item.id).Garbled
    rw [hdone]
    unfold update at hupdate ⊢
    split
    · simp_all
    · rename_i row hrow
      simp only [hrow] at hupdate
      intro hgarbled
      unfold said at hgarbled
      simp only [keyOf, Std.ExtTreeMap.getElem?_insert_self] at hgarbled
      obtain ⟨e, he⟩ := (itemOf_faithful _ _).failed_iff.2 hgarbled
      have hread : itemOf ⟨item.user, item.id⟩ _ = .ok stored := hupdate
      rw [hread] at he
      cases he

end Table

/-! ## Backends -/

/-- A cache has no rows that could be garbled. -/
instance : Strict Cache where
  said _ _ _ := .nothing
  Hides _ _ := False
  pass_said _ _ _ := rfl
  pass_hides h := h
  adds_said _ _ _ _ _ _ h := h.elim
  get_garbled _ _ _ _ h := h.elim
  getMany_garbled _ _ _ _ _ _ h := h.elim
  create_garbled _ _ _ h := h.elim
  createMany_garbled _ _ _ _ _ h := h.elim
  update_mended _ _ _ _ _ h := h

namespace Backend

/-- What the row of an item of a user says. -/
def said : Backend → String → String → Said
  | cache c => Strict.said c
  | tree t => Strict.said t
  | table t => Strict.said t

instance : Strict Backend where
  said := said
  Hides _ _ := False
  pass_said now ms b := by cases b <;> rfl
  pass_hides h := h
  adds_said now request b user id hadds h := by
    cases b with
    | cache c => exact Strict.adds_said now request hadds h
    | tree t => exact Strict.adds_said now request hadds h
    | table t => exact Strict.adds_said now request hadds h
  get_garbled now b user id h := by
    cases b with
    | cache c => exact Strict.get_garbled now h
    | tree t => exact Strict.get_garbled now h
    | table t => exact Strict.get_garbled now h
  getMany_garbled now b user id ids hmem h := by
    cases b with
    | cache c => exact Strict.getMany_garbled now hmem h
    | tree t => exact Strict.getMany_garbled now hmem h
    | table t => exact Strict.getMany_garbled now hmem h
  create_garbled now b item h := by
    cases b with
    | cache c => exact Strict.create_garbled now h
    | tree t => exact Strict.create_garbled now h
    | table t => exact Strict.create_garbled now h
  createMany_garbled now b item items hmem h := by
    cases b with
    | cache c => exact Strict.createMany_garbled now hmem h
    | tree t => exact Strict.createMany_garbled now hmem h
    | table t => exact Strict.createMany_garbled now hmem h
  update_mended now b item stored h := by
    cases b with
    | cache c => exact Strict.update_mended now h
    | tree t => exact Strict.update_mended now h
    | table t => exact Strict.update_mended now h

end Backend

/-! ## Behind faults and limits -/

namespace Faulty

variable {σ : Type} [Strict σ] {f : Faulty σ} {now : Instant}

theorem said_delayed (now : Instant) (f : Faulty σ) :
    Strict.said (f.delayed now).inner = Strict.said f.inner := by
  unfold delayed
  split
  · rfl
  · exact Strict.pass_said now f.delay f.inner

theorem hides_delayed {method : Method} (h : Strict.Hides (f.delayed now).inner method) :
    Strict.Hides f.inner method := by
  unfold delayed at h
  split at h
  · exact h
  · exact Strict.pass_hides h

/-- A request that the store behind refuses is refused, if no fault can hide what it looks for. -/
theorem Faced.error {request : Request} {answer : Result request.Answer} {inner : σ}
    (hfaced : Faced now request f answer inner) (hnothing : Fault.nothing request = none)
    (h : ∃ e, (Store.serve now request f.inner).1 = .error e) : ∃ e, answer = .error e := by
  obtain ⟨e, he⟩ := h
  cases hfaced with
  | refused failure => exact ⟨failure, rfl⟩
  | hidden _ hsome => cases hnothing.symm.trans hsome
  | served hserve =>
    rw [hserve] at he
    exact ⟨e, he⟩
  | shortened _ hserve =>
    rw [hserve] at he
    cases he
  | lost failure _ _ => exact ⟨failure, rfl⟩

/-- What is answered was done, if no fault can hide what is looked for. -/
theorem Faced.done {request : Request} {answer : request.Answer} {inner : σ}
    (hfaced : Faced now request f (.ok answer) inner) (hnothing : Fault.nothing request = none) :
    ∃ given, Store.serve now request f.inner = (.ok given, inner) := by
  generalize hok : (Except.ok answer : Result request.Answer) = result at hfaced
  cases hfaced with
  | refused failure => cases hok
  | hidden _ hsome => cases hnothing.symm.trans hsome
  | served hserve =>
    subst hok
    exact ⟨answer, hserve⟩
  | shortened _ hserve => exact ⟨_, hserve⟩
  | lost failure _ _ => cases hok

/-- A look that finds nothing at best in the store behind finds nothing at best. -/
theorem Faced.look {request : Request} {answer : Result request.Answer} {inner : σ}
    {nothing : request.Answer} {hides : Prop} (hfaced : Faced now request f answer inner)
    (hnothing : Fault.nothing request = some nothing)
    (hwhole : ∀ found, Fault.shorten request found = found)
    (h : (∃ e, (Store.serve now request f.inner).1 = .error e) ∨
      hides ∧ (Store.serve now request f.inner).1 = .ok nothing) :
    (∃ e, answer = .error e) ∨
      (hides ∨ (request.method, .hide) ∈ f.faults) ∧ answer = .ok nothing := by
  cases hfaced with
  | refused failure => exact .inl ⟨failure, rfl⟩
  | hidden hqueued hsome =>
    cases hnothing.symm.trans hsome
    exact .inr ⟨.inr hqueued, rfl⟩
  | served hserve =>
    rw [hserve] at h
    rcases h with herror | ⟨hhides, hnone⟩
    · exact .inl herror
    · exact .inr ⟨.inl hhides, hnone⟩
  | shortened _ hserve =>
    rw [hserve] at h
    rcases h with ⟨_, herror⟩ | ⟨hhides, hnone⟩
    · cases herror
    · rw [hwhole]
      exact .inr ⟨.inl hhides, hnone⟩
  | lost failure _ _ => exact .inl ⟨failure, rfl⟩

instance : Strict (Faulty σ) where
  said f := Strict.said f.inner
  Hides f method := Strict.Hides f.inner method ∨ (method, .hide) ∈ f.faults
  pass_said now ms f := Strict.pass_said now ms f.inner
  pass_hides h := h.imp_left Strict.pass_hides
  adds_said now request f user id hadds h := by
    obtain ⟨hfaced, -⟩ := serve_delayed now request f
    rw [← said_delayed now f] at h ⊢
    rcases hfaced.inner_eq with heq | heq
    · rw [heq]
    · rw [heq]
      exact Strict.adds_said now request hadds h
  get_garbled now f user id h := by
    obtain ⟨hfaced, -⟩ := serve_delayed now (.get user id) f
    rw [← said_delayed now f] at h
    have hlook := hfaced.look rfl (fun _ => rfl) (Strict.get_garbled now h)
    rw [faults_delayed] at hlook
    exact hlook.imp_right fun ⟨hhides, hnone⟩ => ⟨hhides.imp_left hides_delayed, hnone⟩
  getMany_garbled now f user id ids hmem h := by
    obtain ⟨hfaced, -⟩ := serve_delayed now (.getMany user ids) f
    rw [← said_delayed now f] at h
    have hlook := hfaced.look rfl (fun _ => rfl) (Strict.getMany_garbled now hmem h)
    rw [faults_delayed] at hlook
    exact hlook.imp_right fun ⟨hhides, hnone⟩ => ⟨hhides.imp_left hides_delayed, hnone⟩
  create_garbled now f item h := by
    obtain ⟨hfaced, -⟩ := serve_delayed now (.create item) f
    rw [← said_delayed now f] at h
    exact hfaced.error rfl (Strict.create_garbled now h)
  createMany_garbled now f item items hmem h := by
    obtain ⟨hfaced, -⟩ := serve_delayed now (.createMany items) f
    rw [← said_delayed now f] at h
    exact hfaced.error rfl (Strict.createMany_garbled now hmem h)
  update_mended now f item stored h := by
    obtain ⟨hfaced, -⟩ := serve_delayed now (.update item) f
    rw [h] at hfaced
    obtain ⟨stored', hserve⟩ := hfaced.done rfl
    have hmended := Strict.update_mended now (congrArg Prod.fst hserve)
    rw [hserve] at hmended
    exact hmended

end Faulty

namespace Timed

variable {σ : Type} [Strict σ] {t : Timed σ} {now : Instant} {request : Request}

/-- A request that the store behind refuses is refused in time or out of time. -/
theorem serve_error (h : ∃ e, (Store.serve now request t.inner).1 = .error e) :
    ∃ e, (Store.serve now request t).1 = .error e := by
  rcases serve_cases now request t with ⟨e, ms, hserve⟩ | hserve
  · rw [hserve]
    exact ⟨e, rfl⟩
  · rw [hserve]
    exact h

/-- A look that finds nothing at best in the store behind finds nothing at best. -/
theorem serve_look {nothing : request.Answer} {hides : Prop}
    (h : (∃ e, (Store.serve now request t.inner).1 = .error e) ∨
      hides ∧ (Store.serve now request t.inner).1 = .ok nothing) :
    (∃ e, (Store.serve now request t).1 = .error e) ∨
      hides ∧ (Store.serve now request t).1 = .ok nothing := by
  rcases serve_cases now request t with ⟨e, ms, hserve⟩ | hserve
  · rw [hserve]
    exact .inl ⟨e, rfl⟩
  · rw [hserve]
    exact h

instance : Strict (Timed σ) where
  said t := Strict.said t.inner
  Hides t method := Strict.Hides t.inner method
  pass_said now ms t := Strict.pass_said now ms t.inner
  pass_hides h := Strict.pass_hides h
  adds_said now request t user id hadds h := by
    rcases serve_cases now request t with ⟨e, ms, hserve⟩ | hserve
    · rw [hserve]
      exact congrFun (congrFun (Strict.pass_said now ms t.inner) user) id
    · rw [hserve]
      exact Strict.adds_said now request hadds h
  get_garbled now _ _ _ h := serve_look (Strict.get_garbled now h)
  getMany_garbled now _ _ _ _ hmem h := serve_look (Strict.getMany_garbled now hmem h)
  create_garbled now _ _ h := serve_error (Strict.create_garbled now h)
  createMany_garbled now _ _ _ hmem h := serve_error (Strict.createMany_garbled now hmem h)
  update_mended now t item stored h := by
    rcases serve_cases now (.update item) t with ⟨e, ms, hserve⟩ | hserve
    · rw [hserve] at h
      cases h
    · rw [hserve] at h ⊢
      exact Strict.update_mended now h

end Timed

end Dismissal
