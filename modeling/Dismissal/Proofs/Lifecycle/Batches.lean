import Dismissal.Proofs.Lifecycle.Exec
import Dismissal.Proofs.Lifecycle.Reference
import Mathlib.Data.List.Nodup

/-!
# Batches

How the parts of a batch run over any store: items are made for all identities, items are settled
one by one, and what was found or settled is answered and told in order.

* `answerEach_run`: if there is an answer for each identity, all of them are answered and told.
* `settleEach_error`: settling fails at some item, when all before it are settled.
* `getElem?_settledAll`: what is settled when all items of a batch were created at once.
* `getOrCreateMany_run`: how far a whole batch can get.
* `getOrCreateMany_through`: what a batch answers whose missing items are created at once.
-/

namespace Dismissal.Lifecycle

variable {σ : Type} {now : Instant} {context : Option Json} {id : String} {s : State σ}

theorem nodup_eraseDups {α : Type} [BEq α] [LawfulBEq α] (xs : List α) : xs.eraseDups.Nodup := by
  induction hlen : xs.length using Nat.strongRecOn generalizing xs with
  | ind len ih =>
    cases xs with
    | nil => exact List.nodup_nil
    | cons x xs =>
      have hless : (xs.filter fun other => !other == x).length < len := by
        have := List.length_filter_le (fun other => !other == x) xs
        rw [List.length_cons] at hlen
        omega
      rw [List.eraseDups_cons, List.nodup_cons, List.mem_eraseDups]
      exact ⟨by simp, ih _ hless _ rfl⟩

/-- The results of a list are the result of its first member and those of the others. -/
theorem mapM_cons_ok {α β : Type} {f : α → Result β} {x : α} {xs : List α} {ys : List β}
    (h : (x :: xs).mapM f = .ok ys) :
    ∃ y rest, f x = .ok y ∧ xs.mapM f = .ok rest ∧ ys = y :: rest := by
  rw [List.mapM_cons] at h
  cases hfirst : f x with
  | error e =>
    rw [hfirst] at h
    cases h
  | ok y =>
    rw [hfirst] at h
    cases hrest : (xs.mapM f : Result (List β)) with
    | error e =>
      simp only [bind, Except.bind, hrest] at h
      cases h
    | ok rest =>
      simp only [bind, Except.bind, hrest] at h
      cases h
      exact ⟨y, rest, rfl, rfl, rfl⟩

/-- A list that is mapped by results is mapped at once. -/
theorem exec_mapM_lift {α β : Type} (f : α → Result β) (xs : List α) :
    exec (xs.mapM fun x => (liftM (f x) : Action σ β)) s = (xs.mapM f, s) := by
  induction xs with
  | nil => rfl
  | cons x xs ih =>
    rw [List.mapM_cons, List.mapM_cons, exec_bind, exec_lift]
    cases hx : f x with
    | error e => rfl
    | ok y =>
      show exec (_ >>= _) s = _
      rw [exec_bind, ih]
      cases xs.mapM f <;> rfl

variable (now context) in
/-- If there is an answer for each identity, all of them are answered and told. -/
theorem answerEach_run {found : Found} {settled : Settled} {ids : List String}
    {answers : List Presented}
    (h : List.Forall₂ (fun id p => answerFor found settled id = .ok p) ids answers) :
    exec (answerEach now context found settled ids) s =
      (.ok answers, { s with published := s.published ++ answers.map (presentedEvent now context) })
    := by
  induction h generalizing s with
  | nil =>
    rw [List.map_nil, List.append_nil]
    rfl
  | @cons id p ids answers hid _ ih =>
    have hrun : exec (liftM (answerFor found settled id) : Action σ Presented) s = (.ok p, s) := by
      rw [exec_lift, hid]
    unfold answerEach
    rw [exec_bind_ok hrun, exec_bind_ok (exec_publish _), exec_map, ih]
    simp only [List.map_cons, List.append_assoc, List.singleton_append]
    rfl

/-- Answering leaves the store alone, and each answer is the one that there is for its identity. -/
theorem answerEach_answers {found : Found} {settled : Settled} {ids : List String}
    {s s' : State σ} {answer : Result (List Presented)}
    (hrun : exec (answerEach now context found settled ids) s = (answer, s')) :
    s'.store = s.store ∧ ∀ ps, answer = .ok ps →
      List.Forall₂ (fun id p => answerFor found settled id = .ok p) ids ps := by
  induction ids generalizing s answer with
  | nil =>
    cases hrun
    exact ⟨rfl, fun ps hok => by cases hok; exact .nil⟩
  | cons id ids ih =>
    unfold answerEach at hrun
    rw [exec_lift_bind] at hrun
    cases hid : answerFor found settled id with
    | error e =>
      rw [hid] at hrun
      cases hrun
      exact ⟨rfl, fun ps hok => by cases hok⟩
    | ok p =>
      rw [hid] at hrun
      have hrun := (exec_bind_ok (exec_publish _) _).symm.trans hrun
      rw [exec_map] at hrun
      obtain ⟨hanswer, hs'⟩ := Prod.mk.inj hrun
      obtain ⟨hstore, hps⟩ := ih (Prod.ext rfl hs')
      refine ⟨hstore, fun ps hok => ?_⟩
      rw [← hanswer] at hok
      obtain ⟨rest, hrest, rfl⟩ : ∃ rest, _ = Except.ok rest ∧ p :: rest = ps := by
        cases hrun' : (exec (answerEach now context found settled ids)
          { s with published := s.published ++ [presentedEvent now context p] }).1 with
        | error e =>
          rw [hrun'] at hok
          cases hok
        | ok rest =>
          rw [hrun'] at hok
          exact ⟨rest, hrun', Except.ok.inj hok⟩
      exact .cons hid (hps rest hrest)

theorem settleEach_append [Store σ] {s₁ : State σ} {settled settled' : Settled} {done : List Item}
    (hdone : exec (settleEach now settled done) s = (.ok settled', s₁)) (items : List Item) :
    exec (settleEach now settled (done ++ items)) s = exec (settleEach now settled' items) s₁ := by
  induction done generalizing s settled with
  | nil =>
    cases hdone
    rfl
  | cons item done ih =>
    unfold settleEach at hdone
    show exec (insertOrReread now item >>= fun p =>
      settleEach now (settled.add p) (done ++ items)) s = _
    cases hfirst : exec (insertOrReread now item) s with
    | mk first s₂ =>
      cases first with
      | error e => cases (exec_bind_error hfirst _).symm.trans hdone
      | ok p =>
        rw [exec_bind_ok hfirst]
        exact ih ((exec_bind_ok hfirst _).symm.trans hdone)

/-- Settling fails at some item, when all before it are settled. -/
theorem settleEach_error [Store σ] {s' : State σ} {settled : Settled} {items : List Item}
    {e : Failure}
    (hrun : exec (settleEach now settled items) s = (.error e, s')) :
    ∃ done stuck rest settled' s₁, items = done ++ stuck :: rest ∧
      exec (settleEach now settled done) s = (.ok settled', s₁) ∧
      exec (insertOrReread now stuck) s₁ = (.error e, s') := by
  induction items generalizing s settled with
  | nil => cases hrun
  | cons item items ih =>
    unfold settleEach at hrun
    cases hfirst : exec (insertOrReread now item) s with
    | mk first s₂ =>
      cases first with
      | error e' =>
        cases (exec_bind_error hfirst _).symm.trans hrun
        exact ⟨[], item, items, settled, s, rfl, rfl, hfirst⟩
      | ok p =>
        obtain ⟨done, stuck, rest, settled', s₁, rfl, hdone, hstuck⟩ :=
          ih ((exec_bind_ok hfirst _).symm.trans hrun)
        refine ⟨item :: done, stuck, rest, settled', s₁, rfl, ?_, hstuck⟩
        unfold settleEach
        rw [exec_bind_ok hfirst]
        exact hdone

/-- What is settled when all items of a batch were created at once. -/
def settledAll (items : List Item) : Settled :=
  items.foldl (fun settled item => settled.add ⟨item, true⟩) ∅

/-- Items with different identities are found in what was settled. -/
theorem getElem?_settledAll {items : List Item} (hnodup : (items.map Item.id).Nodup) (id : String) :
    (settledAll items)[id]? = (items.find? (·.id == id)).map (⟨·, true⟩) := by
  have hgeneral (items : List Item) (hnodup : (items.map Item.id).Nodup) (settled : Settled) :
      (items.foldl (fun settled item => settled.add ⟨item, true⟩) settled)[id]? =
        ((items.find? (·.id == id)).map (⟨·, true⟩)).or settled[id]? := by
    induction items generalizing settled with
    | nil => rfl
    | cons item items ih =>
      rw [List.map_cons, List.nodup_cons] at hnodup
      obtain ⟨hitem, hrest⟩ := hnodup
      rw [List.foldl_cons, ih hrest, Settled.add, getElem?_insert_eq, List.find?_cons]
      by_cases heq : item.id = id
      · have hnone : items.find? (·.id == id) = none := by
          rw [List.find?_eq_none]
          intro x hx hid
          rw [beq_iff_eq] at hid
          exact hitem (heq ▸ hid ▸ List.mem_map_of_mem hx)
        simp [heq, hnone]
      · have hbeq : (item.id == id) = false := by simpa using heq
        simp only [heq, hbeq, ↓reduceIte]
  rw [settledAll, hgeneral items hnodup]
  simp

theorem mem_of_settledAll {items : List Item} (hnodup : (items.map Item.id).Nodup)
    {p : Presented} (h : (settledAll items)[id]? = some p) :
    ∃ item ∈ items, item.id = id ∧ p = ⟨item, true⟩ := by
  rw [getElem?_settledAll hnodup] at h
  obtain ⟨item, hfind, rfl⟩ := Option.map_eq_some_iff.1 h
  exact ⟨item, List.mem_of_find?_eq_some hfind, by simpa using List.find?_some hfind, rfl⟩

theorem settledAll_of_mem {items : List Item} (hnodup : (items.map Item.id).Nodup) {item : Item}
    (hmem : item ∈ items) : (settledAll items)[item.id]? = some ⟨item, true⟩ := by
  rw [getElem?_settledAll hnodup]
  cases hfind : items.find? (·.id == item.id) with
  | none =>
    have hne := List.find?_eq_none.1 hfind item hmem
    rw [beq_self_eq_true] at hne
    exact absurd rfl hne
  | some x =>
    have hid : x.id = item.id := by simpa using List.find?_some hfind
    rw [List.inj_on_of_nodup_map hnodup (List.mem_of_find?_eq_some hfind) hmem hid]
    rfl

/-! ## New items -/

/-- Different items of a user that are created now. -/
structure New (now : Instant) (user : String) (items : List Item) : Prop where
  user : ∀ item ∈ items, item.user = user
  created : ∀ item ∈ items, item.created = now
  nodup : (items.map Item.id).Nodup

section New

variable {user : String} {ids : List String} {item : Item} {items : List Item}

theorem New.tail (h : New now user (item :: items)) : New now user items where
  user other hmem := h.user other (List.mem_cons_of_mem _ hmem)
  created other hmem := h.created other (List.mem_cons_of_mem _ hmem)
  nodup := (List.nodup_cons.1 h.nodup).2

/-- The new items for those identities of a batch under which nothing was found. -/
def missingItems (now : Instant) (user : String) (ids : List String) (found : Found) :
    Result (List Item) :=
  (ids.eraseDups.filter fun id => !found.contains id).mapM fun id => Item.create id user now none

/-- Well-formed identities have new items. -/
theorem missingItems_valid (now : Instant) (found : Found) (huser : Identity.Valid user)
    (hids : ∀ id ∈ ids, Identity.Valid id) :
    ∃ missing, missingItems now user ids found = .ok missing := by
  have hvalid (id : String) (hmem : id ∈ ids.eraseDups.filter fun id => !found.contains id) :
      Identity.Valid id := hids id (List.mem_eraseDups.1 (List.mem_of_mem_filter hmem))
  have hcreate := Name.mapM_create now fun n (hmem : n ∈ Name.all user huser _ hvalid) =>
    Name.user_of_mem_all hmem
  rw [Name.map_id_all] at hcreate
  exact ⟨_, hcreate⟩

/-- New items are different, and each has an identity under which nothing was found. -/
theorem New.of_missingItems {found : Found} {missing : List Item}
    (h : missingItems now user ids found = .ok missing) : New now user missing ∧
      missing.map Item.id = ids.eraseDups.filter fun id => !found.contains id := by
  have hgeneral (ids : List String) (missing : List Item)
      (h : (ids.mapM fun id => Item.create id user now none) = (.ok missing : Result _)) :
      (∀ item ∈ missing, item.user = user ∧ item.created = now) ∧ missing.map Item.id = ids := by
    induction ids generalizing missing with
    | nil =>
      cases h
      exact ⟨fun item hmem => absurd hmem List.not_mem_nil, rfl⟩
    | cons id ids ih =>
      obtain ⟨item, rest, hitem, hrest, rfl⟩ := mapM_cons_ok h
      obtain ⟨hid, huser, hcreated, -⟩ := Item.create_parts hitem
      obtain ⟨hnew, hids⟩ := ih rest hrest
      refine ⟨fun other hmem => ?_, by rw [List.map_cons, hid, hids]⟩
      rcases List.mem_cons.1 hmem with rfl | hmem
      · exact ⟨huser, hcreated⟩
      · exact hnew other hmem
  obtain ⟨hnew, hids⟩ := hgeneral _ missing h
  refine ⟨⟨fun item hmem => (hnew item hmem).1, fun item hmem => (hnew item hmem).2, ?_⟩, hids⟩
  rw [hids]
  exact (nodup_eraseDups ids).filter _

end New

/-! ## Whole batches -/

section Whole

variable [Store σ] {user : String} {ids : List String} {s' : State σ}

/-- What can come of presenting a batch, by how far it gets: to its checks, to the look at its
items, to the creation of those that are missing, or to the answers. -/
inductive BatchRun (now : Instant) (context : Option Json) (user : String) (ids : List String)
    (s : State σ) : Result (List Presented) → State σ → Prop where
  | malformed (e : Failure) : Identity.checkAll user ids = .error e →
    BatchRun now context user ids s (.error e) s
  | nothing : ids.eraseDups = [] → BatchRun now context user ids s (.ok []) s
  | unread {store : σ} (e : Failure) :
    Store.serve now (.getMany user ids.eraseDups) s.store = (.error e, store) →
    BatchRun now context user ids s (.error e) { s with store }
  | unsettled {found : Found} {missing : List Item} {store : σ} {s' : State σ}
    (e : Failure) : Identity.checkAll user ids = .ok () →
    Store.serve now (.getMany user ids.eraseDups) s.store = (.ok found, store) →
    missingItems now user ids found = .ok missing →
    exec (createMissing now missing) { s with store } = (.error e, s') →
    BatchRun now context user ids s (.error e) s'
  | settled {found : Found} {missing : List Item} {settled : Settled} {store : σ}
    {s₁ s' : State σ} {answer : Result (List Presented)} :
    Store.serve now (.getMany user ids.eraseDups) s.store = (.ok found, store) →
    missingItems now user ids found = .ok missing →
    exec (createMissing now missing) { s with store } = (.ok settled, s₁) →
    exec (answerEach now context found settled ids.eraseDups) s₁ = (answer, s') →
    BatchRun now context user ids s answer s'

/-- **A batch gets as far as one of the cases of `BatchRun`.** -/
theorem getOrCreateMany_run {answer : Result (List Presented)}
    (hrun : exec (getOrCreateMany now user ids context) s = (answer, s')) :
    BatchRun now context user ids s answer s' := by
  unfold getOrCreateMany at hrun
  rw [exec_lift_bind] at hrun
  cases hcheck : Identity.checkAll user ids with
  | error e =>
    rw [hcheck] at hrun
    cases hrun
    exact .malformed e hcheck
  | ok u =>
    rw [hcheck] at hrun
    obtain ⟨huser, hids⟩ := Identity.checkAll_eq_ok_iff.1 hcheck
    have hrun : exec (if ids.eraseDups.isEmpty then pure [] else _) s = (answer, s') := hrun
    split at hrun
    · rename_i hempty
      cases hrun
      exact .nothing (List.isEmpty_iff.1 hempty)
    · cases hget : Store.serve now (.getMany user ids.eraseDups) s.store with
      | mk found store =>
        have hask : exec (ask now (.getMany user ids.eraseDups)) s = (found, { s with store }) := by
          rw [exec_ask, hget]
        cases found with
        | error e =>
          cases (exec_bind_error hask _).symm.trans hrun
          exact .unread e hget
        | ok found =>
          have hrun := (exec_bind_ok hask _).symm.trans hrun
          obtain ⟨missing, hmissing⟩ := missingItems_valid now found huser hids
          have hmake := exec_mapM_lift (s := { s with store })
            (fun id => Item.create id user now none)
            (ids.eraseDups.filter fun id => !found.contains id)
          rw [show List.mapM _ _ = _ from hmissing] at hmake
          have hrun := (exec_bind_ok hmake _).symm.trans hrun
          cases hcreate : exec (createMissing now missing) { s with store } with
          | mk settled s₁ =>
            cases settled with
            | error e =>
              cases (exec_bind_error hcreate _).symm.trans hrun
              exact .unsettled e hcheck hget hmissing hcreate
            | ok settled =>
              exact .settled hget hmissing hcreate ((exec_bind_ok hcreate _).symm.trans hrun)

end Whole

/-! ## Batches that get through -/

section Through

variable {user : String} {ids : List String} {names : List Name} {found : Found}

/-- What a batch answers to a name, if what was not found is created. -/
def presentedOf (now : Instant) (found : Found) (n : Name) : Presented :=
  match found[n.id]? with
  | some item => ⟨item, false⟩
  | none => ⟨n.item (.new now), true⟩

/-- The new items for those names under which nothing was found. -/
def newItems (now : Instant) (found : Found) (names : List Name) : List Item :=
  (names.filter fun n => !found.contains n.id).map fun n => n.item (.new now)

variable (now found) in
theorem mapM_newItems (huser : ∀ n ∈ names, n.user = user) :
    (((names.map Name.id).filter fun id => !found.contains id).mapM fun id =>
      Item.create id user now none) = (.ok (newItems now found names) : Result (List Item)) := by
  rw [List.filter_map, Name.mapM_create now fun n hmem => huser n (List.mem_of_mem_filter hmem)]
  rfl

variable (now found) in
/-- If the missing items were created at once, there is an answer to each name. -/
theorem answerFor_presentedOf (hids : (names.map Name.id).Nodup) :
    List.Forall₂ (fun id p => answerFor found (settledAll (newItems now found names)) id = .ok p)
      (names.map Name.id) (names.map (presentedOf now found)) := by
  rw [List.forall₂_map_left_iff, List.forall₂_map_right_iff, List.forall₂_same]
  intro n hmem
  unfold answerFor presentedOf
  cases hitem : found[n.id]? with
  | some item => rfl
  | none =>
    have hmissing : (!found.contains n.id) = true := by
      rw [Std.ExtTreeMap.contains_eq_isSome_getElem?, hitem]
      rfl
    have hnew : n.item (.new now) ∈ newItems now found names :=
      List.mem_map.2 ⟨n, List.mem_filter.2 ⟨hmem, hmissing⟩, rfl⟩
    have hnodup : ((newItems now found names).map Item.id).Nodup := by
      unfold newItems
      rw [List.map_map]
      exact hids.sublist (List.filter_sublist.map _)
    have hsettled := settledAll_of_mem hnodup hnew
    rw [show (n.item (.new now)).id = n.id from rfl] at hsettled
    rw [hsettled]

variable [Store σ] {store store' : σ}

/-- Items that the store creates at once are settled. -/
theorem createMissing_created {item : Item} {missing : List Item}
    (hcreate : Store.serve now (.createMany (item :: missing)) s.store =
      (.ok (item :: missing), store)) :
    exec (createMissing now (item :: missing)) s =
      (.ok (settledAll (item :: missing)), { s with store }) := by
  unfold createMissing
  show exec (_ >>= _) s = _
  rw [exec_bind_ok (exec_attempt _), exec_ask, hcreate]
  rfl

variable (context) in
/-- A batch of nothing is answered at once. -/
theorem getOrCreateMany_nothing (hcheck : Identity.checkAll user ids = .ok ())
    (hids : ids.eraseDups = []) :
    exec (getOrCreateMany now user ids context) s = (.ok [], s) := by
  have hvalid : exec (liftM (Identity.checkAll user ids) : Action σ Unit) s = (.ok (), s) := by
    rw [exec_lift, hcheck]
  unfold getOrCreateMany
  rw [exec_bind_ok hvalid, hids]
  rfl

variable (context) in
/-- **A batch whose missing items are created** is answered and told in order. -/
theorem getOrCreateMany_through (hcheck : Identity.checkAll user ids = .ok ())
    (hids : names.map Name.id = ids.eraseDups) (huser : ∀ n ∈ names, n.user = user)
    (hnames : names ≠ [])
    (hget : Store.serve now (.getMany user ids.eraseDups) s.store = (.ok found, store))
    (hcreate : exec (createMissing now (newItems now found names)) { s with store } =
      (.ok (settledAll (newItems now found names)), { s with store := store' })) :
    exec (getOrCreateMany now user ids context) s = (.ok (names.map (presentedOf now found)),
      ⟨store', s.published ++
        (names.map (presentedOf now found)).map (presentedEvent now context)⟩) := by
  have hnodup : (names.map Name.id).Nodup := hids ▸ nodup_eraseDups ids
  have hvalid : exec (liftM (Identity.checkAll user ids) : Action σ Unit) s = (.ok (), s) := by
    rw [exec_lift, hcheck]
  have hask : exec (ask now (.getMany user (names.map Name.id))) s =
      (.ok found, { s with store }) := by
    rw [exec_ask, hids, hget]
  have hmake := exec_mapM_lift (s := { s with store }) (fun id => Item.create id user now none)
    ((names.map Name.id).filter fun id => !found.contains id)
  rw [mapM_newItems now found huser] at hmake
  unfold getOrCreateMany
  rw [exec_bind_ok hvalid, ← hids]
  cases names with
  | nil => exact absurd rfl hnames
  | cons n names =>
    show exec (_ >>= _) s = _
    rw [exec_bind_ok hask, exec_bind_ok hmake, exec_bind_ok hcreate,
      answerEach_run now context (answerFor_presentedOf now found hnodup)]

end Through

end Dismissal.Lifecycle
