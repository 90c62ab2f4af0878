import Dismissal.Proofs.Lifecycle.Races

/-!
# Insertions and their events

Behind faults that never hide what was done (`Honest`), a call to present items should announce what
it inserts, and nothing else, by events of creation (`Exact`).

* `announced_iff`: presenting one item always does; presenting a batch does unless the batch is
  `Interrupted`: it was refused as a whole, was then settled item by item, and failed after some
  item had been created.
* `interrupted_batch_silent`: there is such a batch, so not every insertion is announced.
-/

namespace Dismissal

/-- A fault that never hides what was done. -/
def Fault.Honest : Fault → Prop
  | fail _ => True
  | hide => True
  | pass => True
  | failAfter _ => False
  | dropLast => False

namespace Lifecycle

open Faulty

/-- All faults in the queue are honest. -/
def Honest {σ : Type} (f : Faulty σ) : Prop := ∀ entry ∈ f.faults, entry.2.Honest

/-- There is an event of creation for an item of a user. -/
def Announces (events : List Event) (user id : String) : Prop :=
  ∃ e ∈ events, e.change = .created ∧ e.user = user ∧ e.id = id

section Honest

variable {σ : Type} {f : Faulty σ} (h : Honest f)
include h

theorem Honest.not_loses : ¬f.Loses := fun ⟨_, _, hmem⟩ => h _ hmem

theorem Honest.not_drops : ¬f.Drops := fun ⟨_, hmem⟩ => h _ hmem

end Honest

/-! ## What is exact -/

section Pairs

variable {α β : Type} {R : α → β → Prop} {xs : List α} {ys : List β}

private theorem exists_right (h : List.Forall₂ R xs ys) {x : α} (hx : x ∈ xs) :
    ∃ y ∈ ys, R x y := by
  induction h with
  | nil => cases hx
  | @cons x' y xs ys hxy _ ih =>
    rcases List.mem_cons.1 hx with rfl | hx
    · exact ⟨y, List.mem_cons_self, hxy⟩
    · obtain ⟨z, hz, hxz⟩ := ih hx
      exact ⟨z, List.mem_cons_of_mem _ hz, hxz⟩

private theorem exists_left (h : List.Forall₂ R xs ys) {y : β} (hy : y ∈ ys) :
    ∃ x ∈ xs, R x y :=
  exists_right h.flip hy

/-- If each of a list has a partner, there is a list of partners. -/
private theorem exists_partners (h : ∀ x ∈ xs, ∃ y, R x y) : ∃ ys, List.Forall₂ R xs ys := by
  induction xs with
  | nil => exact ⟨[], .nil⟩
  | cons x xs ih =>
    obtain ⟨y, hxy⟩ := h x List.mem_cons_self
    obtain ⟨ys, hys⟩ := ih fun x' hx' => h x' (List.mem_cons_of_mem _ hx')
    exact ⟨y :: ys, .cons hxy hys⟩

end Pairs

variable {σ : Type} [Durable σ] {now : Instant} {context : Option Json}

/-- The store holds something for an item of a user, and did not before. -/
def Inserts (f f' : Faulty σ) (user id : String) : Prop :=
  f.held.Vacant user id ∧ ¬f'.held.Vacant user id

/-- What was inserted is what was announced. -/
def Exact (f : Faulty σ) (s' : State (Faulty σ)) : Prop :=
  ∀ user id, Inserts f s'.store user id ↔ Announces s'.published user id

section Exact

variable {f f' : Faulty σ} {s' : State (Faulty σ)} {user : String} {ids : List String}
  {ps : List Presented}

/-- A call that inserts nothing and tells nothing is exact. -/
theorem Exact.of_same (hheld : s'.store.held = f.held) (hpublished : s'.published = []) :
    Exact f s' := by
  intro user id
  constructor
  · rintro ⟨hvacant, hthere⟩
    rw [hheld] at hthere
    exact absurd hvacant hthere
  · rintro ⟨e, hmem, -⟩
    rw [hpublished] at hmem
    cases hmem

/-- What was told truly, and as it was answered, is exact. -/
theorem Exact.of_told (hloses : ¬f.Loses) (hgrows : Grows f s'.store user ids)
    (htold : List.Forall₂ (Told f s'.store now user) ids ps)
    (hpublished : s'.published = ps.map (presentedEvent now context)) : Exact f s' := by
  intro user' id
  constructor
  · rintro ⟨hvacant, hthere⟩
    obtain ⟨rfl, hid⟩ := hgrows.confined user' id fun heq => hthere (heq.trans hvacant)
    obtain ⟨p, hp, hptold⟩ := exists_right htold hid
    have hcreated : p.created = true := by
      refine Classical.byContradiction fun hno => ?_
      have hfound := hptold.found (Bool.eq_false_iff.2 hno) hloses
      rw [hvacant] at hfound
      cases hfound
    refine ⟨presentedEvent now context p, hpublished ▸ List.mem_map_of_mem hp, ?_, hptold.named⟩
    unfold presentedEvent
    rw [hcreated]
    rfl
  · rintro ⟨e, hmem, hchange, rfl, rfl⟩
    rw [hpublished] at hmem
    obtain ⟨p, hp, rfl⟩ := List.mem_map.1 hmem
    obtain ⟨id, -, hptold⟩ := exists_left htold hp
    have hcreated : p.created = true := by
      refine Classical.byContradiction fun hno => ?_
      unfold presentedEvent at hchange
      rw [Bool.eq_false_iff.2 hno] at hchange
      cases hchange
    obtain ⟨hvacant, hthere, -⟩ := hptold.created hcreated
    obtain ⟨huser, hid⟩ := hptold.named
    show f.held.Vacant p.item.user p.item.id ∧ ¬s'.store.held.Vacant p.item.user p.item.id
    rw [huser, hid]
    refine ⟨hvacant, fun hgone => ?_⟩
    rw [Contents.Vacant, hthere] at hgone
    cases hgone

end Exact

/-! ## Interrupted batches -/

/-- A batch is interrupted: its creation as a whole is refused with a conflict; some of its items
are then settled one by one, of which one is created; and the next one fails. -/
def Interrupted (now : Instant) (user : String) (ids : List String) (f : Faulty σ) : Prop :=
  ∃ found f₁ missing reason f₂ done stuck rest settled s₃ e,
    Identity.checkAll user ids = .ok () ∧
    Store.serve now (.getMany user ids.eraseDups) f = (.ok found, f₁) ∧
    missingItems now user ids found = .ok missing ∧
    Store.serve now (.createMany missing) f₁ = (.error (.conflict reason), f₂) ∧
    missing = done ++ stuck :: rest ∧
    exec (settleEach now ∅ done) ⟨f₂, []⟩ = (.ok settled, s₃) ∧
    (∃ (id : String) (p : Presented), settled[id]? = some p ∧ p.created = true) ∧
    (exec (insertOrReread now stuck) s₃).1 = .error e

section Interrupted

variable {f : Faulty σ} {s s' : State (Faulty σ)} {user : String} {ids : List String}
  {missing : List Item}

theorem New.left {done rest : List Item} (h : New now user (done ++ rest)) : New now user done where
  user item hmem := h.user item (List.mem_append_left _ hmem)
  created item hmem := h.created item (List.mem_append_left _ hmem)
  nodup := by
    have hnodup := h.nodup
    rw [List.map_append] at hnodup
    exact hnodup.of_append_left

/-- Items that are settled without any of them being created leave the contents as they are. -/
theorem settleEach_none_created (h : s.store.Sound) (hloses : ¬s.store.Loses)
    (hnew : New now user missing) {settled : Settled}
    (hrun : exec (settleEach now ∅ missing) s = (.ok settled, s'))
    (hnone : ∀ (id : String) (p : Presented), settled[id]? = some p → p.created = false) :
    s'.store.held = s.store.held := by
  obtain ⟨hgrows, -, hanswer⟩ := settleEach_run h hnew hrun
  obtain ⟨htold, -⟩ := hanswer settled rfl
  funext user' id
  refine Classical.byContradiction fun hne => ?_
  obtain ⟨rfl, hid⟩ := hgrows.confined user' id hne
  obtain ⟨item, hmem, rfl⟩ := List.mem_map.1 hid
  obtain ⟨p, hp, hptold⟩ := htold item hmem
  have hfound := hptold.found (hnone _ p hp) hloses
  exact hne ((hgrows.keeps.keeps hfound).trans hfound.symm)

/-- An insertion that fails leaves the contents as they are, unless what was done was lost. -/
theorem Inserted.held_of_error {f' : Faulty σ} {item : Item} {e : Failure}
    (h : Inserted f f' item (.error e)) (hloses : ¬f.Loses) : f'.held = f.held := by
  cases h with
  | failed _ hheld => exact hheld
  | lost hlost _ _ _ => exact absurd hlost hloses

/-- If the missing items are not all settled, the contents are as they were, or the batch was
settled item by item and one of them was created before another one failed. -/
theorem createMissing_error (h : s.store.Sound) (hloses : ¬s.store.Loses)
    (hnew : New now user missing) {e : Failure}
    (hrun : exec (createMissing now missing) s = (.error e, s')) :
    s'.store.held = s.store.held ∨ ∃ reason f₂ done stuck rest settled s₃,
      Store.serve now (.createMany missing) s.store = (.error (.conflict reason), f₂) ∧
      missing = done ++ stuck :: rest ∧
      exec (settleEach now ∅ done) { s with store := f₂ } = (.ok settled, s₃) ∧
      (∃ (id : String) (p : Presented), settled[id]? = some p ∧ p.created = true) ∧
      exec (insertOrReread now stuck) s₃ = (.error e, s') := by
  unfold createMissing at hrun
  split at hrun
  · cases hrun
  · rw [exec_bind_ok (exec_attempt _), exec_ask] at hrun
    cases hserve : Store.serve now (.createMany missing) s.store with
    | mk created f₂ =>
      obtain ⟨hnext, hcreated⟩ := serve_createMany h hserve
      rw [hserve] at hrun
      cases hcreated with
      | done _ _ => cases hrun
      | shortened _ _ _ => cases hrun
      | lost _ hlost _ _ => exact absurd hlost hloses
      | failed failure hheld =>
        cases failure with
        | conflict reason =>
          obtain ⟨done, stuck, rest, settled, s₃, rfl, hdone, hstuck⟩ := settleEach_error hrun
          by_cases hcreated : ∃ (id : String) (p : Presented),
              settled[id]? = some p ∧ p.created = true
          · exact .inr
              ⟨reason, f₂, done, stuck, rest, settled, s₃, rfl, rfl, hdone, hcreated, hstuck⟩
          · have hloses₂ : ¬f₂.Loses := fun hlost => hloses (hnext.loses hlost)
            have hheld₃ : s₃.store.held = f₂.held :=
              settleEach_none_created hnext.sound hloses₂ hnew.left hdone fun id p hp =>
                Bool.eq_false_iff.2 fun hc => hcreated ⟨id, p, hp, hc⟩
            obtain ⟨hgrows, -, -⟩ := settleEach_run hnext.sound hnew.left hdone
            obtain ⟨-, -, hinserted⟩ := insertOrReread_run hgrows.next.sound hstuck
            have hstuck := hinserted.held_of_error fun hlost => hloses₂ (hgrows.next.loses hlost)
            exact .inl (hstuck.trans (hheld₃.trans hheld))
        | _ =>
          cases hrun
          exact .inl hheld

/-- **A batch is exact or interrupted.** -/
theorem batch_exact_or_interrupted (h : f.Sound) (hhonest : Honest f)
    {answer : Result (List Presented)}
    (hrun : exec (getOrCreateMany now user ids context) ⟨f, []⟩ = (answer, s')) :
    Exact f s' ∨ Interrupted now user ids f := by
  have hbatch := getOrCreateMany_run hrun
  obtain ⟨hgrows, htold⟩ := hbatch.told h
  cases hbatch with
  | malformed e _ => exact .inl (.of_same rfl rfl)
  | nothing _ => exact .inl (.of_same rfl rfl)
  | unread e hget =>
    obtain ⟨-, hheld, -⟩ := serve_getMany h hget
    exact .inl (.of_same hheld rfl)
  | @unsettled found missing store s' e hcheck hget hmissing hcreate =>
    obtain ⟨hnext, hheld, -⟩ := serve_getMany h hget
    obtain ⟨hnew, -⟩ := New.of_missingItems hmissing
    obtain ⟨-, hpublished, -⟩ := createMissing_run hnext.sound hnew hcreate
    rcases createMissing_error hnext.sound (fun hlost => hhonest.not_loses (hnext.loses hlost)) hnew
      hcreate with hsame | ⟨reason, f₂, done, stuck, rest, settled, s₃, hserve, hsplit, hdone,
        hcreated, hstuck⟩
    · exact .inl (.of_same (hsame.trans hheld) hpublished)
    · exact .inr ⟨found, store, missing, reason, f₂, done, stuck, rest, settled, s₃, e, hcheck,
        hget, hmissing, hserve, hsplit, hdone, hcreated, by rw [hstuck]⟩
  | @settled found missing settled store s₁ s' answer hget hmissing hcreate hanswer =>
    obtain ⟨hnext, -, -⟩ := serve_getMany h hget
    obtain ⟨hnew, hids⟩ := New.of_missingItems hmissing
    obtain ⟨-, hpublished, hsettled⟩ := createMissing_run hnext.sound hnew hcreate
    have hall := (hsettled settled rfl).2 fun hdrops => hhonest.not_drops (hnext.drops hdrops)
    obtain ⟨ps, hps⟩ : ∃ ps, List.Forall₂ (fun id p => answerFor found settled id = .ok p)
        ids.eraseDups ps := by
      refine exists_partners fun id hmem => ?_
      unfold answerFor
      cases hfound : found[id]? with
      | some item => exact ⟨_, rfl⟩
      | none =>
        have hin : id ∈ missing.map Item.id := by
          rw [hids, List.mem_filter]
          simp [hmem, Std.ExtTreeMap.contains_eq_isSome_getElem?, hfound]
        obtain ⟨item, hitem, rfl⟩ := List.mem_map.1 hin
        obtain ⟨p, hp⟩ := Option.isSome_iff_exists.1 (hall item hitem)
        exact ⟨p, by rw [hp]⟩
    have heq := (answerEach_run now context hps).symm.trans hanswer
    cases heq
    have hevents : s₁.published ++ ps.map (presentedEvent now context) =
        ps.map (presentedEvent now context) := by
      rw [hpublished]
      rfl
    exact .inl (.of_told hhonest.not_loses hgrows (htold ps rfl) hevents)

/-- A batch that is refused with a conflict fails when one of its items does. -/
theorem createMissing_stuck {done rest : List Item} {stuck : Item} {reason : String} {f₂ : Faulty σ}
    {settled : Settled} {s₃ s₄ : State (Faulty σ)} {e : Failure}
    (hserve : Store.serve now (.createMany (done ++ stuck :: rest)) s.store =
      (.error (.conflict reason), f₂))
    (hdone : exec (settleEach now ∅ done) { s with store := f₂ } = (.ok settled, s₃))
    (hstuck : exec (insertOrReread now stuck) s₃ = (.error e, s₄)) :
    exec (createMissing now (done ++ stuck :: rest)) s = (.error e, s₄) := by
  unfold createMissing
  rw [if_neg (by simp), exec_bind_ok (exec_attempt _), exec_ask, hserve]
  show exec (settleEach now ∅ (done ++ stuck :: rest)) { s with store := f₂ } = _
  rw [settleEach_append hdone]
  exact exec_bind_error hstuck _

/-- An interrupted batch leaves an item behind that was not there before, and tells of nothing. -/
theorem Interrupted.not_exact (h : f.Sound) (hhonest : Honest f)
    (hinterrupted : Interrupted now user ids f) {answer : Result (List Presented)}
    (hrun : exec (getOrCreateMany now user ids context) ⟨f, []⟩ = (answer, s')) : ¬Exact f s' := by
  obtain ⟨found, f₁, missing, reason, f₂, done, stuck, rest, settled, s₃, e, hcheck, hget, hmissing,
    hserve, rfl, hdone, ⟨id, p, hp, hcreated⟩, hstuck⟩ := hinterrupted
  obtain ⟨hnext₁, hheld₁, -⟩ := serve_getMany h hget
  obtain ⟨hnew, hids⟩ := New.of_missingItems hmissing
  obtain ⟨hnext₂, hcreate⟩ := serve_createMany hnext₁.sound hserve
  have hheld₂ : f₂.held = f₁.held := by
    cases hcreate with
    | failed _ hheld => exact hheld
    | lost _ hlost _ _ => exact absurd (hnext₁.loses hlost) hhonest.not_loses
  -- the item that was created is there when the next one fails
  obtain ⟨hgrows₃, -, hsettled⟩ := settleEach_after (f := f) hnew.left
    (.of_same (hnext₁.trans hnext₂) (hheld₂.trans hheld₁)) (fun _ => hheld₂.trans hheld₁) hdone
  obtain ⟨hvacant, hthere, -⟩ := ((hsettled settled rfl).1 id p hp).created hcreated
  cases hfail : exec (insertOrReread now stuck) s₃ with
  | mk failed s₄ =>
    obtain ⟨-, -, hinserted⟩ := insertOrReread_run hgrows₃.next.sound hfail
    rw [hfail] at hstuck
    have hcm := createMissing_stuck (s := ⟨f₁, []⟩) hserve hdone
      (hfail.trans (Prod.ext hstuck rfl))
    have hinserts : Inserts f s₄.store user id := by
      refine ⟨hvacant, fun hgone => ?_⟩
      rw [Contents.Vacant, hinserted.grows.1.keeps hthere] at hgone
      cases hgone
    obtain ⟨-, hpublished, -⟩ := createMissing_run (s := ⟨f₁, []⟩) hnext₁.sound hnew hcm
    have hs' : s' = s₄ := by
      cases getOrCreateMany_run hrun with
      | malformed e hbad => cases hcheck.symm.trans hbad
      | nothing hempty =>
        rw [hempty] at hids
        simp at hids
      | unread e hbad => cases hget.symm.trans hbad
      | unsettled e _ hget' hmissing' hcreate' =>
        cases hget.symm.trans hget'
        cases hmissing.symm.trans hmissing'
        exact (Prod.mk.inj (hcreate'.symm.trans hcm)).2
      | settled hget' hmissing' hcreate' _ =>
        cases hget.symm.trans hget'
        cases hmissing.symm.trans hmissing'
        cases hcreate'.symm.trans hcm
    intro hexact
    obtain ⟨event, hmem, -⟩ := (hexact user id).1 (hs' ▸ hinserts)
    rw [hs', hpublished] at hmem
    cases hmem

end Interrupted

/-! ## Over backends -/

/-- **What a call inserts is what it announces, unless it is a batch that is interrupted.** Over a
tree or a table that requests have led to, behind honest faults. -/
theorem announced_iff {f : Faulty Backend} (hreach : f.inner.Reachable) (hhonest : Honest f)
    (now : Instant) (context : Option Json) (user : String) :
    (∀ id, Exact f ((Call.getOrCreate user id context).perform now ⟨f, []⟩).2) ∧
    ∀ ids, Exact f ((Call.getOrCreateMany user ids context).perform now ⟨f, []⟩).2 ↔
      ¬Interrupted now user ids f := by
  have hsound : f.Sound := hreach.sound
  constructor
  · intro id
    rw [Call.perform_getOrCreate]
    cases hexec : exec (getOrCreate now user id context) ⟨f, []⟩ with
    | mk answer s' =>
      have hone := getOrCreate_run (s := ⟨f, []⟩) hsound hexec
      cases answer with
      | error e =>
        exact .of_same (hone.failed e rfl hhonest.not_loses) hone.published
      | ok p =>
        exact .of_told hhonest.not_loses hone.grows (.cons (hone.told p rfl) .nil) hone.published
  · intro ids
    rw [Call.perform_getOrCreateMany]
    cases hexec : exec (getOrCreateMany now user ids context) ⟨f, []⟩ with
    | mk answer s' =>
      constructor
      · intro hexact hinterrupted
        exact hinterrupted.not_exact hsound hhonest hexec hexact
      · intro hno
        exact (batch_exact_or_interrupted hsound hhonest hexec).resolve_right hno

/-- A tree that holds an item which the look at a batch misses, and which cannot be read again. -/
def raced : Faulty Backend where
  inner := (Store.serve .origin (.create seen) (Backend.tree {})).2
  faults := [(.getMany, .hide), (.get, .fail (.unavailable "store is away"))]

theorem raced_reachable : raced.inner.Reachable := .serve .origin (.create seen) .tree

theorem raced_honest : Honest raced := by
  intro entry hmem
  rcases List.mem_cons.1 hmem with rfl | hmem
  · trivial
  · rw [List.mem_singleton.1 hmem]
    trivial

/-- The batch of another item and the one that is there creates the other item in silence. -/
theorem raced_not_exact :
    ¬Exact raced ((Call.getOrCreateMany "u" ["a", "b"] none).perform .origin ⟨raced, []⟩).2 := by
  intro hexact
  have hinserts : Inserts raced
      ((Call.getOrCreateMany "u" ["a", "b"] none).perform .origin ⟨raced, []⟩).2.store "u" "a" :=
    ⟨rfl, fun hgone => by cases hgone⟩
  obtain ⟨e, hmem, -⟩ := (hexact "u" "a").1 hinserts
  have hsilent : ((Call.getOrCreateMany "u" ["a", "b"] none).perform .origin
      ⟨raced, []⟩).2.published = [] := rfl
  rw [hsilent] at hmem
  cases hmem

theorem announced_iff_raced : raced.inner.Reachable ∧ Honest raced ∧
    Exact raced ((Call.getOrCreate "u" "a" none).perform .origin ⟨raced, []⟩).2 ∧
    Interrupted .origin "u" ["a", "b"] raced := by
  obtain ⟨hone, hbatch⟩ := announced_iff raced_reachable raced_honest .origin none "u"
  refine ⟨raced_reachable, raced_honest, hone "a", ?_⟩
  exact Classical.byContradiction fun hno => raced_not_exact ((hbatch ["a", "b"]).2 hno)

/-- **Not every insertion is announced.** -/
theorem interrupted_batch_silent : ¬∀ (f : Faulty Backend) (now : Instant) (user : String)
    (ids : List String) (context : Option Json), f.inner.Reachable → Honest f →
      Exact f ((Call.getOrCreateMany user ids context).perform now ⟨f, []⟩).2 := by
  intro hall
  exact raced_not_exact (hall raced .origin "u" ["a", "b"] none raced_reachable raced_honest)

end Lifecycle

end Dismissal
