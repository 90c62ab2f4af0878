import Dismissal.Proofs.Identity.WellFormed
import Dismissal.Proofs.Lifecycle.Batches
import Dismissal.Proofs.Lifecycle.Reference
import Dismissal.Proofs.Store.BackendLaws
import Dismissal.Proofs.Store.FaultyLaws

/-!
# Creation behind faults

How the parts of get-or-create run over a durable store behind faults of any kind. An insertion does
one of four things (`Inserted`); a batch that is settled item by item, or created at once, grows the
contents by some of its items, and what it answers about each is true (`Told`).

* `presented_truthful`: what is answered as created was not there before and is there now, just as
  it is answered; and while no fault answers a failure for what was done, what is answered as found
  was there before. What is there is never touched.
-/

namespace Dismissal.Lifecycle

open Faulty

variable {σ : Type} [Durable σ] {now : Instant} {context : Option Json} {user id : String}

/-! ## One item -/

/-- What can come of an insertion. -/
inductive Inserted (f f' : Faulty σ) (item : Item) : Result Presented → Prop where
  | created : f.held.Vacant item.user item.id → f'.held = f.held.put item →
    Inserted f f' item (.ok ⟨item, true⟩)
  | found {existing : Item} : f'.held = f.held →
    f.held item.user item.id = .ok (some existing) → Inserted f f' item (.ok ⟨existing, false⟩)
  | failed (failure : Failure) : f'.held = f.held → Inserted f f' item (.error failure)
  | lost {answer : Result Presented} : f.Loses → f.held.Vacant item.user item.id →
    f'.held = f.held.put item → (∀ p, answer = .ok p → p = ⟨item, false⟩) →
    Inserted f f' item answer

section Insertion

variable {s s' : State (Faulty σ)} {f f' f'' : Faulty σ} {item : Item} {answer : Result Presented}

/-- What was not created is answered as it is found afterwards, if it is answered at all. -/
theorem Inserted.of_reread {failure : Failure} (h : Created f f' item (.error failure))
    (hheld : f''.held = f'.held) (hanswer : ∀ p, answer = .ok p →
      p.created = false ∧ f'.held item.user item.id = .ok (some p.item)) :
    Inserted f f'' item answer := by
  cases h with
  | failed _ hsame =>
    rw [hsame] at hheld hanswer
    cases answer with
    | error e => exact .failed e hheld
    | ok p =>
      obtain ⟨existing, created⟩ := p
      obtain ⟨rfl, hexisting⟩ := hanswer _ rfl
      exact .found hheld hexisting
  | lost _ hloses hvacant hput =>
    refine .lost hloses hvacant (hheld.trans hput) fun p hp => ?_
    obtain ⟨existing, created⟩ := p
    obtain ⟨rfl, hexisting⟩ := hanswer _ hp
    rw [hput, Contents.put_self] at hexisting
    cases hexisting
    rfl

/-- The answer to an insertion is about the item that was to be inserted. -/
theorem Inserted.named (h : Inserted f f' item answer) (hsound : f.Sound) {p : Presented}
    (hp : answer = .ok p) : p.item.user = item.user ∧ p.item.id = item.id := by
  cases h with
  | created _ _ =>
    cases hp
    exact ⟨rfl, rfl⟩
  | found _ hexisting =>
    cases hp
    exact Durable.look_named hsound hexisting
  | failed _ _ => cases hp
  | lost _ _ _ hanswer =>
    rw [hanswer p hp]
    exact ⟨rfl, rfl⟩

theorem Inserted.grows (h : Inserted f f' item answer) :
    f.held.Extends f'.held ∧ f.held.Confined f'.held item.user [item.id] := by
  have hput (hvacant : f.held.Vacant item.user item.id) (heq : f'.held = f.held.put item) :
      f.held.Extends f'.held ∧ f.held.Confined f'.held item.user [item.id] := by
    rw [heq]
    exact ⟨Contents.extends_put hvacant, Contents.confined_put _ item⟩
  have hsame (heq : f'.held = f.held) :
      f.held.Extends f'.held ∧ f.held.Confined f'.held item.user [item.id] := by
    rw [heq]
    exact ⟨Contents.Extends.refl _, Contents.Confined.refl _⟩
  cases h with
  | created hvacant heq => exact hput hvacant heq
  | found heq _ => exact hsame heq
  | failed _ heq => exact hsame heq
  | lost _ hvacant heq _ => exact hput hvacant heq

/-- **An insertion behind faults.** -/
theorem insertOrReread_run (h : s.store.Sound)
    (hrun : exec (insertOrReread now item) s = (answer, s')) :
    s.store.Next s'.store ∧ s'.published = s.published ∧
      Inserted s.store s'.store item answer := by
  unfold insertOrReread at hrun
  rw [exec_bind_ok (exec_attempt _), exec_ask] at hrun
  cases hserve : Store.serve now (.create item) s.store with
  | mk created store =>
    obtain ⟨hnext, hcreated⟩ := serve_create h hserve
    rw [hserve] at hrun
    cases created with
    | ok created =>
      cases hcreated with
      | done hvacant hput =>
        cases hrun
        exact ⟨hnext, rfl, .created hvacant hput⟩
    | error failure =>
      have hfinish {store' : Faulty σ} {answer' : Result Presented} (hnext' : store.Next store')
          (hheld : store'.held = store.held) (hanswer : ∀ p, answer' = .ok p →
            p.created = false ∧ store.held item.user item.id = .ok (some p.item))
          (hrun : (answer', { s with store := store' }) = (answer, s')) :
          s.store.Next s'.store ∧ s'.published = s.published ∧
            Inserted s.store s'.store item answer := by
        cases hrun
        exact ⟨hnext.trans hnext', rfl, .of_reread hcreated hheld hanswer⟩
      have hstay : store.Next store := ⟨hnext.sound, List.Subset.refl _⟩
      cases failure with
      | conflict reason =>
        cases hget : Store.serve now (.get item.user item.id) store with
        | mk found store' =>
          obtain ⟨hnext', hheld, hfound⟩ := serve_get hnext.sound hget
          have hask : exec (ask now (.get item.user item.id)) { s with store } =
              (found, { s with store := store' }) := by
            rw [exec_ask, hget]
          cases found with
          | error e =>
            exact hfinish hnext' hheld (fun _ hp => by cases hp)
              ((exec_bind_error hask _).symm.trans hrun)
          | ok o =>
            have hrun := (exec_bind_ok hask _).symm.trans hrun
            cases o with
            | none => exact hfinish hnext' hheld (fun _ hp => by cases hp) hrun
            | some existing =>
              exact hfinish hnext' hheld (fun _ hp => by cases hp; exact ⟨rfl, hfound _ rfl⟩) hrun
      | _ => exact hfinish hstay rfl (fun _ hp => by cases hp) hrun

end Insertion

/-! ## Several items -/

/-- The contents grew by some of the items of a user at most. -/
structure Grows (f f' : Faulty σ) (user : String) (ids : List String) : Prop where
  next : f.Next f'
  keeps : f.held.Extends f'.held
  confined : f.held.Confined f'.held user ids

/-- An answer about an item is true of the contents before and after. -/
structure Told (f f' : Faulty σ) (now : Instant) (user id : String) (p : Presented) : Prop where
  named : p.item.user = user ∧ p.item.id = id
  created : p.created = true →
    f.held.Vacant user id ∧ f'.held user id = .ok (some p.item) ∧ p.item.created = now
  found : p.created = false → ¬f.Loses → f.held user id = .ok (some p.item)

section Several

variable {s s' : State (Faulty σ)} {f f' f'' : Faulty σ} {item : Item} {items : List Item}
  {ids ids' : List String} {p : Presented} {settled : Settled}

theorem Grows.trans (h : Grows f f' user ids) (h' : Grows f' f'' user ids') :
    Grows f f'' user (ids ++ ids') :=
  ⟨h.next.trans h'.next, h.keeps.trans h'.keeps, h.confined.trans h'.confined⟩

theorem Grows.of_same (h : f.Next f') (heq : f'.held = f.held) : Grows f f' user ids :=
  ⟨h, by rw [heq]; exact Contents.Extends.refl _, by rw [heq]; exact Contents.Confined.refl _⟩

theorem Grows.mono (h : Grows f f' user ids) (hsub : ids ⊆ ids') : Grows f f' user ids' :=
  ⟨h.next, h.keeps, fun user' id hne =>
    ⟨(h.confined user' id hne).1, hsub (h.confined user' id hne).2⟩⟩

/-- What was true remains true while the contents grow. -/
theorem Told.grow (h : Told f f' now user id p) (hkeeps : f'.held.Extends f''.held) :
    Told f f'' now user id p where
  named := h.named
  created hp := by
    obtain ⟨hvacant, hthere, hnow⟩ := h.created hp
    exact ⟨hvacant, hkeeps.keeps hthere, hnow⟩
  found := h.found

/-- What is true later is true from before, if nothing came in between for the item. -/
theorem Told.of_later (h : Told f' f'' now user id p) (hnext : f.Next f')
    (hkeeps : f.held.Extends f'.held) (hsame : ¬f.Loses → f'.held user id = f.held user id) :
    Told f f'' now user id p where
  named := h.named
  created hp := by
    obtain ⟨hvacant, hthere, hnow⟩ := h.created hp
    exact ⟨hkeeps.vacant hvacant, hthere, hnow⟩
  found hp hloses := by
    rw [← hsame hloses]
    exact h.found hp fun hloses' => hloses (hnext.loses hloses')

/-- An insertion is answered truly. -/
theorem Inserted.told (h : Inserted f f' item (.ok p)) (hsound : f.Sound)
    (hnow : item.created = now) : Told f f' now item.user item.id p := by
  have hnamed := h.named hsound rfl
  generalize hanswer : Except.ok p = answer at h
  cases h with
  | created hvacant hput =>
    cases hanswer
    refine ⟨hnamed, fun _ => ⟨hvacant, ?_, hnow⟩, fun hp => (by cases hp)⟩
    rw [hput, Contents.put_self]
  | found _ hexisting =>
    cases hanswer
    exact ⟨hnamed, fun hp => (by cases hp), fun _ _ => hexisting⟩
  | failed _ _ => cases hanswer
  | lost hloses _ _ hlost =>
    rw [hlost p hanswer.symm]
    exact ⟨⟨rfl, rfl⟩, fun hp => (by cases hp), fun _ hno => absurd hloses hno⟩

/-- **Items that are settled one by one are told truly.** -/
theorem settleEach_run (h : s.store.Sound) (hnew : New now user items) {answer : Result Settled}
    (hrun : exec (settleEach now settled items) s = (answer, s')) :
    Grows s.store s'.store user (items.map Item.id) ∧ s'.published = s.published ∧
      ∀ settled', answer = .ok settled' →
        (∀ item ∈ items, ∃ p, settled'[item.id]? = some p ∧
          Told s.store s'.store now user item.id p) ∧
        ∀ id ∉ items.map Item.id, settled'[id]? = settled[id]? := by
  induction items generalizing s settled with
  | nil =>
    cases hrun
    refine ⟨.of_same ⟨h, List.Subset.refl _⟩ rfl, rfl, fun settled' hok => ?_⟩
    cases hok
    exact ⟨fun item hmem => absurd hmem List.not_mem_nil, fun _ _ => rfl⟩
  | cons item items ih =>
    have huser := hnew.user item List.mem_cons_self
    have hnodup := List.nodup_cons.1 hnew.nodup
    unfold settleEach at hrun
    cases hfirst : exec (insertOrReread now item) s with
    | mk first s₁ =>
      obtain ⟨hnext, hpublished, hinserted⟩ := insertOrReread_run h hfirst
      obtain ⟨hkeeps, hconfined⟩ := hinserted.grows
      rw [huser] at hconfined
      have hgrows : Grows s.store s₁.store user [item.id] := ⟨hnext, hkeeps, hconfined⟩
      cases first with
      | error e =>
        cases (exec_bind_error hfirst _).symm.trans hrun
        exact ⟨hgrows.mono (by simp), hpublished, fun _ hok => by cases hok⟩
      | ok p =>
        have hid := (hinserted.named h rfl).2
        have htold := hinserted.told h (hnew.created item List.mem_cons_self)
        rw [huser] at htold
        obtain ⟨hgrows', hpublished', hrest⟩ :=
          ih hnext.sound hnew.tail ((exec_bind_ok hfirst _).symm.trans hrun)
        refine ⟨hgrows.trans hgrows', hpublished'.trans hpublished, fun settled' hok => ?_⟩
        obtain ⟨hmem, hother⟩ := hrest settled' hok
        constructor
        · intro other hin
          rcases List.mem_cons.1 hin with rfl | hin
          · refine ⟨p, ?_, htold.grow hgrows'.keeps⟩
            rw [hother _ hnodup.1, Settled.add, hid, Std.ExtTreeMap.getElem?_insert_self]
          · obtain ⟨q, hq, htold'⟩ := hmem other hin
            refine ⟨q, hq, htold'.of_later hnext hkeeps fun _ => ?_⟩
            -- the places of the other items are not that of the first
            refine Classical.byContradiction fun hne => hnodup.1 ?_
            rw [← List.mem_singleton.1 (hconfined user other.id hne).2]
            exact List.mem_map_of_mem hin
        · intro id hout
          rw [List.map_cons, List.mem_cons, not_or] at hout
          rw [hother id hout.2, Settled.add, getElem?_insert_eq, hid, if_neg (Ne.symm hout.1)]

/-- A fresh batch fills the places of its items. -/
theorem Grows.of_fresh (hnew : New now user items) (hnext : f.Next f')
    (hfresh : f.held.Fresh items) (hput : f'.held = f.held.putAll items) :
    Grows f f' user (items.map Item.id) := by
  refine ⟨hnext, ?_, ?_⟩
  · rw [hput]
    exact hfresh.grows
  · rw [hput]
    exact Contents.confined_putAll hnew.user

/-- Items of a batch that was created at once are told truly. -/
theorem told_of_fresh (hnew : New now user items) (hfresh : f.held.Fresh items)
    (hput : f'.held = f.held.putAll items) {answered : List Item} (hsub : answered.Sublist items)
    (hp : (settledAll answered)[id]? = some p) : Told f f' now user id p := by
  obtain ⟨item, hmem, rfl, rfl⟩ := mem_of_settledAll (hnew.nodup.sublist (hsub.map _)) hp
  obtain ⟨hvacant, hthere⟩ := hfresh.put_mem (hsub.subset hmem)
  rw [hnew.user item (hsub.subset hmem), ← hput] at hthere
  rw [hnew.user item (hsub.subset hmem)] at hvacant
  refine ⟨⟨hnew.user item (hsub.subset hmem), rfl⟩, ?_, fun hp => by cases hp⟩
  exact fun _ => ⟨hvacant, hthere, hnew.created item (hsub.subset hmem)⟩

/-- A batch that was refused is settled one by one. -/
theorem settleEach_after (hnew : New now user items) (hgrows : Grows f f' user (items.map Item.id))
    (hsame : ¬f.Loses → f'.held = f.held) {told : List Event} {answer : Result Settled}
    (hrun : exec (settleEach now ∅ items) ⟨f', told⟩ = (answer, s')) :
    Grows f s'.store user (items.map Item.id) ∧ s'.published = told ∧
      ∀ settled, answer = .ok settled →
        (∀ id p, settled[id]? = some p → Told f s'.store now user id p) ∧
        ∀ item ∈ items, settled[item.id]?.isSome := by
  obtain ⟨hgrows', hpublished, hanswer⟩ := settleEach_run hgrows.next.sound hnew hrun
  refine ⟨(hgrows.trans hgrows').mono (by simp), hpublished, fun settled hok => ?_⟩
  obtain ⟨hmem, hother⟩ := hanswer settled hok
  constructor
  · intro id p hp
    by_cases hin : id ∈ items.map Item.id
    · obtain ⟨item, hitem, rfl⟩ := List.mem_map.1 hin
      obtain ⟨q, hq, htold⟩ := hmem item hitem
      cases hp.symm.trans hq
      exact htold.of_later hgrows.next hgrows.keeps fun hloses => by rw [hsame hloses]
    · rw [hother id hin, Std.ExtTreeMap.getElem?_empty] at hp
      cases hp
  · intro item hitem
    obtain ⟨p, hp, -⟩ := hmem item hitem
    rw [hp]
    rfl

/-- **The missing items of a batch are told truly.** All of them are told, unless a fault leaves one
out. -/
theorem createMissing_run (h : s.store.Sound) (hnew : New now user items) {answer : Result Settled}
    (hrun : exec (createMissing now items) s = (answer, s')) :
    Grows s.store s'.store user (items.map Item.id) ∧ s'.published = s.published ∧
      ∀ settled, answer = .ok settled →
        (∀ id p, settled[id]? = some p → Told s.store s'.store now user id p) ∧
        (¬s.store.Drops → ∀ item ∈ items, settled[item.id]?.isSome) := by
  unfold createMissing at hrun
  split at hrun
  · rename_i hempty
    cases hrun
    refine ⟨.of_same ⟨h, List.Subset.refl _⟩ rfl, rfl, fun settled hok => ?_⟩
    cases hok
    refine ⟨fun id p hp => by simp at hp, fun _ item hmem => ?_⟩
    rw [List.isEmpty_iff.1 hempty] at hmem
    cases hmem
  · rw [exec_bind_ok (exec_attempt _), exec_ask] at hrun
    cases hserve : Store.serve now (.createMany items) s.store with
    | mk created store =>
      obtain ⟨hnext, hcreated⟩ := serve_createMany h hserve
      rw [hserve] at hrun
      cases hcreated with
      | done hfresh hput =>
        cases hrun
        refine ⟨.of_fresh hnew hnext hfresh hput, rfl, fun settled hok => ?_⟩
        cases hok
        refine ⟨fun id p hp => told_of_fresh hnew hfresh hput (List.Sublist.refl _) hp,
          fun _ item hmem => ?_⟩
        show ((settledAll items)[item.id]?).isSome
        rw [settledAll_of_mem hnew.nodup hmem]
        rfl
      | shortened hdrops hfresh hput =>
        cases hrun
        refine ⟨.of_fresh hnew hnext hfresh hput, rfl, fun settled hok => ?_⟩
        cases hok
        exact ⟨fun id p hp => told_of_fresh hnew hfresh hput (List.dropLast_sublist _) hp,
          fun hno => absurd hdrops hno⟩
      | failed failure hsame =>
        have hgrows : Grows s.store store user (items.map Item.id) := .of_same hnext hsame
        cases failure with
        | conflict reason =>
          obtain ⟨hgrows', hpublished, hanswer⟩ :=
            settleEach_after hnew hgrows (fun _ => hsame) hrun
          exact ⟨hgrows', hpublished, fun settled hok =>
            ⟨(hanswer settled hok).1, fun _ => (hanswer settled hok).2⟩⟩
        | _ =>
          cases hrun
          exact ⟨hgrows, rfl, fun _ hok => by cases hok⟩
      | lost failure hloses hfresh hput =>
        have hgrows : Grows s.store store user (items.map Item.id) :=
          .of_fresh hnew hnext hfresh hput
        cases failure with
        | conflict reason =>
          obtain ⟨hgrows', hpublished, hanswer⟩ :=
            settleEach_after hnew hgrows (fun hno => absurd hloses hno) hrun
          exact ⟨hgrows', hpublished, fun settled hok =>
            ⟨(hanswer settled hok).1, fun _ => (hanswer settled hok).2⟩⟩
        | _ =>
          cases hrun
          exact ⟨hgrows, rfl, fun _ hok => by cases hok⟩

end Several

/-! ## Whole calls -/

section Calls

variable {s s' : State (Faulty σ)} {ids : List String}

/-- What can come of presenting one item. It is told as it is answered; a call that fails tells
nothing, and leaves the contents as they were unless what was done was lost. -/
structure PresentedOne (s s' : State (Faulty σ)) (now : Instant) (context : Option Json)
    (user id : String) (answer : Result Presented) : Prop where
  grows : Grows s.store s'.store user [id]
  told : ∀ p, answer = .ok p → Told s.store s'.store now user id p
  published : s'.published =
    s.published ++ (answer.toOption.map (presentedEvent now context)).toList
  failed : ∀ e, answer = .error e → ¬s.store.Loses → s'.store.held = s.store.held

/-- A call that got no further than a look. -/
theorem PresentedOne.of_failure {store : Faulty σ} (hnext : s.store.Next store)
    (hheld : store.held = s.store.held) (e : Failure) :
    PresentedOne s { s with store } now context user id (.error e) where
  grows := .of_same hnext hheld
  told _ hok := by cases hok
  published := (List.append_nil _).symm
  failed _ _ _ := hheld

/-- The item was not found, and is inserted. -/
theorem insertNew_run {store : Faulty σ} (hnext : s.store.Next store)
    (hheld : store.held = s.store.held) {item : Item} (huser : item.user = user)
    (hid : item.id = id) (hnow : item.created = now) {answer : Result Presented}
    (hrun : exec (do
      let p ← insertOrReread now item
      publish (presentedEvent now context p)
      pure p) { s with store } = (answer, s')) :
    PresentedOne s s' now context user id answer := by
  subst huser hid
  cases hinsert : exec (insertOrReread now item) { s with store } with
  | mk inserted s₁ =>
    obtain ⟨hnext', hpublished, hinserted⟩ := insertOrReread_run hnext.sound hinsert
    obtain ⟨hkeeps, hconfined⟩ := hinserted.grows
    have hlook : Grows s.store store item.user [] := .of_same hnext hheld
    have hgrows : Grows s.store s₁.store item.user [item.id] :=
      (hlook.trans ⟨hnext', hkeeps, hconfined⟩).mono (by simp)
    cases inserted with
    | error e =>
      cases (exec_bind_error hinsert _).symm.trans hrun
      refine ⟨hgrows, fun _ hok => (by cases hok), ?_, fun _ _ hno => ?_⟩
      · exact hpublished.trans (List.append_nil _).symm
      · rw [← hheld]
        cases hinserted with
        | failed _ hsame => exact hsame
        | lost hloses _ _ _ => exact absurd (hnext.loses hloses) hno
    | ok p =>
      cases (exec_bind_ok hinsert _).symm.trans hrun
      refine ⟨hgrows, fun q hok => ?_, ?_, fun _ he => by cases he⟩
      · cases hok
        exact (hinserted.told hnext.sound hnow).of_later hnext hlook.keeps fun _ => by rw [hheld]
      · exact congrArg (· ++ [presentedEvent now context p]) hpublished

/-- **One item, presented behind faults.** -/
theorem getOrCreate_run (h : s.store.Sound) {answer : Result Presented}
    (hrun : exec (getOrCreate now user id context) s = (answer, s')) :
    PresentedOne s s' now context user id answer := by
  unfold getOrCreate at hrun
  rw [exec_lift_bind] at hrun
  cases hcheck : Identity.checkAll user [id] with
  | error e =>
    rw [hcheck] at hrun
    cases hrun
    exact .of_failure ⟨h, List.Subset.refl _⟩ rfl e
  | ok u =>
    rw [hcheck] at hrun
    obtain ⟨huser, hids⟩ := Identity.checkAll_eq_ok_iff.1 hcheck
    cases hget : Store.serve now (.get user id) s.store with
    | mk found store =>
      obtain ⟨hnext, hheld, hfound⟩ := serve_get h hget
      have hask : exec (ask now (.get user id)) s = (found, { s with store }) := by
        rw [exec_ask, hget]
      cases found with
      | error e =>
        cases (exec_bind_error hask _).symm.trans hrun
        exact .of_failure hnext hheld e
      | ok o =>
        have hrun := (exec_bind_ok hask _).symm.trans hrun
        cases o with
        | some existing =>
          cases hrun
          refine ⟨.of_same hnext hheld, fun p hok => ?_, rfl, fun _ he => by cases he⟩
          cases hok
          exact ⟨Durable.look_named h (hfound existing rfl), fun hp => (by cases hp),
            fun _ _ => hfound existing rfl⟩
        | none =>
          have hcreate := Name.create ⟨user, id, huser, hids id List.mem_cons_self⟩ now
          have hrun := (exec_lift_bind _ _).symm.trans hrun
          rw [hcreate] at hrun
          exact insertNew_run hnext hheld rfl rfl rfl hrun

/-- The answer for an item is true if what was found is there and what was settled is true. -/
theorem answerFor_told {f f' : Faulty σ} {found : Found} {settled : Settled} {p : Presented}
    (hsound : f.Sound)
    (hfound : ∀ item, found[id]? = some item → f.held user id = .ok (some item))
    (hsettled : ∀ p, settled[id]? = some p → Told f f' now user id p)
    (h : answerFor found settled id = .ok p) : Told f f' now user id p := by
  unfold answerFor at h
  cases hitem : found[id]? with
  | some item =>
    rw [hitem] at h
    cases h
    have hthere := hfound item hitem
    exact ⟨Durable.look_named hsound hthere, fun hp => (by cases hp), fun _ _ => hthere⟩
  | none =>
    rw [hitem] at h
    cases hq : settled[id]? with
    | some q =>
      rw [hq] at h
      cases h
      exact hsettled _ hq
    | none =>
      rw [hq] at h
      cases h

/-- **A batch grows the contents by items that were asked for, and its answers are true.** -/
theorem BatchRun.told {answer : Result (List Presented)} (h : s.store.Sound)
    (hrun : BatchRun now context user ids s answer s') :
    Grows s.store s'.store user ids.eraseDups ∧ ∀ ps, answer = .ok ps →
      List.Forall₂ (Told s.store s'.store now user) ids.eraseDups ps := by
  have hstay : s.store.Next s.store := ⟨h, List.Subset.refl _⟩
  cases hrun with
  | malformed e _ => exact ⟨.of_same hstay rfl, fun _ hok => by cases hok⟩
  | nothing hempty =>
    rw [hempty]
    exact ⟨.of_same hstay rfl, fun _ hok => by cases hok; exact .nil⟩
  | unread e hget =>
    obtain ⟨hnext, hheld, -⟩ := serve_getMany h hget
    exact ⟨.of_same hnext hheld, fun _ hok => by cases hok⟩
  | unsettled e _ hget hmissing hcreate =>
    obtain ⟨hnext, hheld, -⟩ := serve_getMany h hget
    obtain ⟨hnew, hids⟩ := New.of_missingItems hmissing
    obtain ⟨hgrows, -, -⟩ := createMissing_run hnext.sound hnew hcreate
    have hlook : Grows s.store _ user [] := .of_same hnext hheld
    refine ⟨(hlook.trans hgrows).mono ?_, fun _ hok => by cases hok⟩
    rw [List.nil_append, hids]
    exact List.filter_subset_self _
  | @settled found missing settled store s₁ s' answer hget hmissing hcreate hanswer =>
    obtain ⟨hnext, hheld, hfound⟩ := serve_getMany h hget
    obtain ⟨hnew, hids⟩ := New.of_missingItems hmissing
    obtain ⟨hgrows, -, hsettled⟩ := createMissing_run hnext.sound hnew hcreate
    have hlook : Grows s.store store user [] := .of_same hnext hheld
    obtain ⟨hstore, hanswers⟩ := answerEach_answers hanswer
    have hgrows' : Grows s.store s'.store user ids.eraseDups := by
      rw [hstore]
      refine (hlook.trans hgrows).mono ?_
      rw [List.nil_append, hids]
      exact List.filter_subset_self _
    refine ⟨hgrows', fun ps hok => (hanswers ps hok).imp fun id p hid => ?_⟩
    refine answerFor_told h (hfound found rfl id) (fun q hq => ?_) hid
    rw [hstore]
    exact ((hsettled settled rfl).1 id q hq).of_later hnext hlook.keeps fun _ => by rw [hheld]

end Calls

/-! ## Over backends -/

/-- **What is presented is true.** Over a tree or a table that requests have led to, behind faults
of any kind: what is there stays as it is, and each answer is `Told` truly of the contents before
the call and after it. -/
theorem presented_truthful {f : Faulty Backend} (hreach : f.inner.Reachable) (now : Instant)
    (context : Option Json) (told : List Event) (user : String) :
    (∀ id answer s', (Call.getOrCreate user id context).perform now ⟨f, told⟩ = (answer, s') →
      f.held.Extends s'.store.held ∧ ∀ o, answer = .ok o →
        ∃ p, o = .presented p ∧ Told f s'.store now user id p) ∧
    ∀ ids answer s', (Call.getOrCreateMany user ids context).perform now ⟨f, told⟩ = (answer, s') →
      f.held.Extends s'.store.held ∧ ∀ o, answer = .ok o →
        ∃ ps, o = .batch ps ∧ List.Forall₂ (Told f s'.store now user) ids.eraseDups ps := by
  have hsound : f.Sound := hreach.sound
  constructor
  · intro id answer s' hrun
    rw [Call.perform_getOrCreate] at hrun
    cases hexec : exec (getOrCreate now user id context) ⟨f, told⟩ with
    | mk result s₁ =>
      have hone := getOrCreate_run (s := ⟨f, told⟩) hsound hexec
      rw [hexec] at hrun
      cases hrun
      refine ⟨hone.grows.keeps, fun o hok => ?_⟩
      cases result with
      | error e => cases hok
      | ok p =>
        cases hok
        exact ⟨p, rfl, hone.told p rfl⟩
  · intro ids answer s' hrun
    rw [Call.perform_getOrCreateMany] at hrun
    cases hexec : exec (getOrCreateMany now user ids context) ⟨f, told⟩ with
    | mk result s₁ =>
      obtain ⟨hgrows, htold⟩ := (getOrCreateMany_run hexec).told hsound
      rw [hexec] at hrun
      cases hrun
      refine ⟨hgrows.keeps, fun o hok => ?_⟩
      cases result with
      | error e => cases hok
      | ok ps =>
        cases hok
        exact ⟨ps, rfl, htold ps rfl⟩

theorem origin_le_none : ∀ at_ ∈ (none : Option Instant), Instant.origin ≤ at_ := by simp

/-- An item that was created when the clock starts. -/
def seen : Item :=
  ⟨"b", "u", .origin, none, Identity.valid_b, Identity.valid_u, origin_le_none⟩

/-- A tree that holds an item, behind a fault that hides it once. -/
def veiled : Faulty Backend where
  inner := (Store.serve .origin (.create seen) (Backend.tree {})).2
  faults := [(.get, .hide)]

/-- An item that is hidden is answered as found all the same. -/
theorem presented_truthful_veiled : veiled.inner.Reachable ∧
    ∃ s', (Call.getOrCreate "u" "b" none).perform .origin ⟨veiled, []⟩ =
        (.ok (.presented ⟨seen, false⟩), s') ∧
      Told veiled s'.store .origin "u" "b" ⟨seen, false⟩ := by
  have hreach : veiled.inner.Reachable := .serve .origin (.create seen) .tree
  refine ⟨hreach, _, rfl, ?_⟩
  obtain ⟨-, htold⟩ := (presented_truthful hreach .origin none [] "u").1 "b" _ _ rfl
  obtain ⟨p, hp, htold⟩ := htold _ rfl
  cases hp
  exact htold

end Dismissal.Lifecycle
