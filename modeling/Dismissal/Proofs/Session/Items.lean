import Dismissal.Proofs.Http.Plan
import Dismissal.Proofs.Lifecycle.Refusals
import Dismissal.Session.Step

/-!
# The items that leave a session

An item leaves a session in the answer of a step, in the outcome of a call, in the response that
such an outcome becomes, or in an event that is told. Each of them follows the rules for items, for
items cannot be built otherwise. A row that breaks the rules does not leave: a step that would show
it is refused, unless a fault hides the row, and an update is answered only if the row is in order
afterwards.

* `malformed_items_withheld`: all of this, in every state that a session can have.
-/

namespace Dismissal

/-- The items that an event shows. -/
def Event.shown (e : Event) : List Item := e.item :: e.change.previous?.toList

/-- The items that a call answers with. -/
def Lifecycle.Outcome.shown : Lifecycle.Outcome → List Item
  | presented p => [p.item]
  | batch answers => answers.map Presented.item
  | transition t => [t.item, t.previous]
  | done => []

/-- The items that a frame shows. -/
def Feed.Frame.shown : Feed.Frame → List Item
  | event e => e.shown
  | lagged _ => []
  | keepAlive => []

namespace Session

/-- The items that a step answers with. -/
def Answer.shown : Answer → List Item
  | item answer => answer.toList
  | found answer => answer.toList.map Prod.snd
  | items all => all
  | outcome o => o.shown
  | events _ told => told.flatMap Event.shown
  | frames all _ => all.flatMap Feed.Frame.shown
  | _ => []

/-- The items that leave with a reply. -/
def Reply.shown (r : Reply) : List Item :=
  (r.answer.toOption.map Answer.shown).getD [] ++ r.events.flatMap Event.shown

/-- The step looks for an item of a user, creates it, or calls the service for it. -/
def Step.Shows (user id : String) : Step → Prop
  | ask (.get user' id') => user' = user ∧ id' = id
  | ask (.getMany user' ids) => user' = user ∧ id ∈ ids
  | ask (.create item) => item.user = user ∧ item.id = id
  | ask (.createMany items) => ∃ item ∈ items, item.user = user ∧ item.id = id
  | create parts => parts.user = user ∧ parts.id = id
  | createMany all => ∃ parts ∈ all, parts.user = user ∧ parts.id = id
  | call c => c.Shows user id
  | http r => ∃ c, Http.Plan.ofRequest r = .call c ∧ c.Shows user id
  | openFeed _ target => ∃ c, Http.Plan.ofRequest { target } = .call c ∧ c.Shows user id
  | _ => False

/-- The step updates an item of a user. -/
def Step.Updates (user id : String) : Step → Prop
  | ask (.update item) => item.user = user ∧ item.id = id
  | update parts => parts.user = user ∧ parts.id = id
  | _ => False

/-- The answer is a failure, or the response to one. -/
def Refuses (answer : Result Answer) : Prop :=
  (∃ e, answer = .error e) ∨ ∃ (request : Http.Request) (e : Failure),
    let problem := request.trim (.ofResult (.error e))
    answer = .ok (.response problem) ∨ answer = .ok (.opened problem)

/-- A look that is answered as if there were nothing, because of a fault. -/
def Hidden (s : Session) (answer : Result Answer) : Prop :=
  (.get, .hide) ∈ s.bench.inner.faults ∧ answer = .ok (.item none) ∨
    (.getMany, .hide) ∈ s.bench.inner.faults ∧ answer = .ok (.found ∅)

/-- What the row of an item of a user says. -/
def said (s : Session) (user id : String) : Said := s.bench.backend.said user id

/-- What comes of a step does not show a row: the step fails, or the row was hidden. Nothing is
told, and the row is as it was. -/
structure Withheld (user id : String) (s : Session) (r : Result Answer × Session) : Prop where
  refused : Refuses r.1 ∨ s.Hidden r.1
  silent : r.2.channel = s.channel
  kept : r.2.said user id = s.said user id

section Steps

variable {s : Session} {user id : String} {step : Step}

theorem said_eq (s : Session) : s.said = Strict.said s.bench := rfl

theorem settle_said (s : Session) (user id : String) : s.settle.said user id = s.said user id := by
  show (s.bench.backend.settle s.clock).said user id = s.bench.backend.said user id
  cases s.bench.backend <;> rfl

theorem notify_same (s : Session) :
    s.notify.2.bench = s.bench ∧ s.notify.2.channel = s.channel := by
  unfold notify
  split <;> exact ⟨rfl, rfl⟩

/-- What the store answers is what the step answers. -/
theorem askFor_eq {request : Request} {answer : Result request.Answer}
    (h : (Store.serve s.clock request s.bench).1 = answer) :
    (s.askFor request).1 = answer.map (answerOf request) := by
  subst h
  rfl

/-- A request that looks or creates leaves a garbled row as it is. -/
theorem askFor_kept {request : Request} (hadds : request.Adds) (h : (s.said user id).Garbled) :
    (s.askFor request).2.said user id = s.said user id :=
  Strict.adds_said s.clock request (s := s.bench) hadds h

theorem askFor_refused {request : Request} (hadds : request.Adds) (h : (s.said user id).Garbled)
    (herror : ∃ e, (Store.serve s.clock request s.bench).1 = .error e) :
    Withheld user id s (s.askFor request) := by
  obtain ⟨e, he⟩ := herror
  exact ⟨.inl (.inl ⟨e, askFor_eq he⟩), rfl, askFor_kept hadds h⟩

/-- A response depends on no row, or it is the form of what a call answers. -/
theorem respond_planned (s : Session) (r : Http.Request) :
    ∃ response, (s.step (.http r)).1.answer = .ok (.response response) ∧
      (Http.Plan.ofRequest r = .reply response ∨
        ∃ result, response = r.trim (.ofResult result)) := by
  refine ⟨(s.respond r).1, rfl, ?_⟩
  rw [respond_eq]
  cases Http.Plan.ofRequest r with
  | reply response => exact .inl rfl
  | call c => exact .inr ⟨_, rfl⟩

/-- A request over HTTP that would show a garbled row is answered with a problem. -/
theorem respond_garbled {r : Http.Request} {c : Lifecycle.Call}
    (hplan : Http.Plan.ofRequest r = .call c) (hshows : c.Shows user id)
    (h : (s.said user id).Garbled) :
    ∃ e, (s.respond r).1 = r.trim (.ofResult (.error e)) ∧
      (s.respond r).2.channel = s.channel ∧ (s.respond r).2.said user id = s.said user id := by
  obtain ⟨⟨e, herror⟩, hpublished, hsaid⟩ :=
    Lifecycle.Call.garbled s.clock (s := ⟨s.bench, []⟩) hshows h
  rw [respond_eq, hplan]
  simp only [Http.Plan.carryOut, herror, hpublished]
  exact ⟨e, rfl, rfl, hsaid⟩

/-- Results that are all there are the results of all. -/
theorem mem_of_mapM_ok {α β : Type} {f : α → Result β} {xs : List α} {ys : List β}
    (h : xs.mapM f = .ok ys) {x : α} (hx : x ∈ xs) : ∃ y ∈ ys, f x = .ok y := by
  induction xs generalizing ys with
  | nil => cases hx
  | cons first xs ih =>
    obtain ⟨y, rest, hfirst, hrest, rfl⟩ := Lifecycle.mapM_cons_ok h
    rcases List.mem_cons.1 hx with rfl | hx
    · exact ⟨y, List.mem_cons_self, hfirst⟩
    · obtain ⟨z, hz, hfz⟩ := ih hrest hx
      exact ⟨z, List.mem_cons_of_mem _ hz, hfz⟩

/-- A step that would show a garbled row does not. -/
theorem act_garbled (hshows : step.Shows user id) (h : (s.said user id).Garbled) :
    Withheld user id s (s.act step) := by
  have herror (e : Failure) : Withheld user id s (.error e, s) := ⟨.inl (.inl ⟨e, rfl⟩), rfl, rfl⟩
  have hcreate {item : Item} (huser : item.user = user) (hid : item.id = id) :
      Withheld user id s (s.askFor (.create item)) := by
    subst huser hid
    exact askFor_refused trivial h (Strict.create_garbled s.clock h)
  have hcreateMany {item : Item} {items : List Item} (hmem : item ∈ items)
      (huser : item.user = user) (hid : item.id = id) :
      Withheld user id s (s.askFor (.createMany items)) := by
    subst huser hid
    exact askFor_refused trivial h (Strict.createMany_garbled s.clock hmem h)
  cases step with
  | ask request =>
    cases request with
    | get user' id' =>
      obtain ⟨rfl, rfl⟩ := hshows
      rcases Strict.get_garbled s.clock (s := s.bench) h with hfails | ⟨hhides, hnone⟩
      · exact askFor_refused trivial h hfails
      · have hqueued := hhides.resolve_left not_false
        exact ⟨.inr (.inl ⟨hqueued, askFor_eq hnone⟩), rfl, askFor_kept trivial h⟩
    | getMany user' ids =>
      obtain ⟨rfl, hmem⟩ := hshows
      rcases Strict.getMany_garbled s.clock (s := s.bench) hmem h with hfails | ⟨hhides, hnone⟩
      · exact askFor_refused trivial h hfails
      · have hqueued := hhides.resolve_left not_false
        exact ⟨.inr (.inr ⟨hqueued, askFor_eq hnone⟩), rfl, askFor_kept trivial h⟩
    | create item => exact hcreate hshows.1 hshows.2
    | createMany items =>
      obtain ⟨item, hmem, huser, hid⟩ := hshows
      exact hcreateMany hmem huser hid
    | _ => exact hshows.elim
  | create parts =>
    simp only [act]
    cases hitem : parts.item with
    | error e => exact herror e
    | ok item =>
      obtain ⟨hid, huser, -⟩ := Item.create_parts hitem
      exact hcreate (huser.trans hshows.1) (hid.trans hshows.2)
  | createMany all =>
    obtain ⟨parts, hmem, huser, hid⟩ := hshows
    simp only [act]
    cases hitems : all.mapM Record.item with
    | error e => exact herror e
    | ok items =>
      obtain ⟨item, hin, hitem⟩ := mem_of_mapM_ok hitems hmem
      obtain ⟨hid', huser', -⟩ := Item.create_parts hitem
      exact hcreateMany hin (huser'.trans huser) (hid'.trans hid)
  | call c =>
    obtain ⟨⟨e, herror⟩, hpublished, hsaid⟩ :=
      Lifecycle.Call.garbled s.clock (s := ⟨s.bench, []⟩) hshows h
    refine ⟨.inl (.inl ⟨e, ?_⟩), ?_, hsaid⟩
    · show (c.perform s.clock ⟨s.bench, []⟩).1.map Answer.outcome = _
      rw [herror]
      rfl
    · show s.channel.sendAll (c.perform s.clock ⟨s.bench, []⟩).2.published = _
      rw [hpublished]
      rfl
  | http request =>
    obtain ⟨c, hplan, hshows⟩ := hshows
    obtain ⟨e, hresponse, hkept⟩ := respond_garbled hplan hshows h
    have hanswer := congrArg (fun r => (.ok (.response r) : Result Answer)) hresponse
    exact ⟨.inl (.inr ⟨request, e, .inl hanswer⟩), hkept.1, hkept.2⟩
  | openFeed name target =>
    obtain ⟨c, hplan, hshows⟩ := hshows
    obtain ⟨e, hresponse, hkept⟩ := respond_garbled hplan hshows h
    have hanswer := congrArg (fun r => (.ok (.opened r) : Result Answer)) hresponse
    exact ⟨.inl (.inr ⟨{ target }, e, .inr hanswer⟩), hkept.1, hkept.2⟩
  | _ => exact hshows.elim

/-- An update that is answered leaves its row in order. -/
theorem act_mended (hupdates : step.Updates user id) :
    (∃ e, (s.act step).1 = .error e) ∨ ¬((s.act step).2.said user id).Garbled := by
  have hask {item : Item} (huser : item.user = user) (hid : item.id = id) :
      (∃ e, (s.askFor (.update item)).1 = .error e) ∨
        ¬((s.askFor (.update item)).2.said user id).Garbled := by
    subst huser hid
    cases hserve : (Store.serve s.clock (.update item) s.bench).1 with
    | error e => exact .inl ⟨e, askFor_eq hserve⟩
    | ok stored => exact .inr (Strict.update_mended s.clock hserve)
  cases step with
  | ask request =>
    cases request with
    | update item => exact hask hupdates.1 hupdates.2
    | _ => exact hupdates.elim
  | update parts =>
    simp only [act]
    cases hitem : parts.item with
    | error e => exact .inl ⟨e, rfl⟩
    | ok item =>
      obtain ⟨hid, huser, -⟩ := Item.create_parts hitem
      exact hask (huser.trans hupdates.1) (hid.trans hupdates.2)
  | _ => exact hupdates.elim

/-- After its action a step changes neither rows nor what was told. -/
theorem step_same (s : Session) (step : Step) (user id : String) :
    (s.step step).1.answer = (s.act step).1 ∧
      (s.step step).2.channel = (s.act step).2.channel ∧
      (s.step step).2.said user id = (s.act step).2.said user id := by
  obtain ⟨hbench, hchannel⟩ := (s.act step).2.notify_same
  refine ⟨rfl, hchannel, ?_⟩
  show (s.act step).2.notify.2.settle.said user id = _
  rw [settle_said, said_eq, said_eq, hbench]

end Steps

/-- **No malformed item leaves a session.** All items in answers and events follow the rules, on
every run, and a response over HTTP either depends on no row or is the form of such an answer. A
step that would show a garbled row is refused: it fails, or a fault hides the row from the look; in
either case nobody is told, and the row is left as it is. An update that is answered leaves its row
in order. A look into a tree or a table gives an item exactly for the rows that say one, and fails
exactly at the garbled ones; caches have no rows. -/
theorem malformed_items_withheld (s : Session) :
    (∀ steps, ∀ reply ∈ s.run steps, ∀ item ∈ reply.shown, item.record.WellFormed) ∧
      (∀ request : Http.Request, ∃ response,
        (s.step (.http request)).1.answer = .ok (.response response) ∧
          (Http.Plan.ofRequest request = .reply response ∨
            ∃ result, response = request.trim (.ofResult result))) ∧
      (∀ step user id, step.Shows user id → (s.said user id).Garbled →
        Withheld user id s ((s.step step).1.answer, (s.step step).2)) ∧
      (∀ step user id, step.Updates user id →
        (∃ e, (s.step step).1.answer = .error e) ∨ ¬((s.step step).2.said user id).Garbled) ∧
      ∀ user id, match s.bench.backend with
        | .cache _ => s.said user id = .nothing
        | .tree t => Faithful (s.said user id) (t.get user id)
        | .table t => Faithful (s.said user id) (t.get user id) := by
  refine ⟨fun _ _ _ item _ => item.wellFormed, s.respond_planned,
    fun step user id hshows h => ?_, fun step user id hupdates => ?_, fun user id => ?_⟩
  · obtain ⟨hrefused, hsilent, hkept⟩ := act_garbled hshows h
    obtain ⟨hanswer, hchannel, hsaid⟩ := s.step_same step user id
    rw [← hanswer] at hrefused
    exact ⟨hrefused, hchannel.trans hsilent, hsaid.trans hkept⟩
  · obtain ⟨hanswer, -, hsaid⟩ := s.step_same step user id
    rw [hanswer, hsaid]
    exact act_mended hupdates
  · unfold said
    cases s.bench.backend with
    | cache c => rfl
    | tree t => exact t.get_faithful user id
    | table t => exact t.get_faithful user id

/-- A table in which an item was dismissed a second before it was created. -/
def antedatedTable : Table :=
  let created := Instant.origin.advance (.ofMillis 1000)
  let row : Table.Row := ⟨created.offsetText, (some Instant.origin).map Instant.offsetText⟩
  { rows := (∅ : Std.ExtTreeMap Table.Key Table.Row).insert ⟨"u", "b"⟩ row }

/-- A service over that table. -/
def antedated : Session where
  setup := { place := .table "sqlite://items.db" 5000, disk := ⟨[], [], []⟩ }
  clock := .origin
  bench := ⟨{ inner := ⟨.table antedatedTable, none⟩ }, none⟩
  channel := .ofCapacity 1

/-- The item is not restored, and nobody is told. -/
theorem antedated_withheld : (antedated.said "u" "b").Garbled ∧
    Withheld "u" "b" antedated ((antedated.step (.call (.restore "u" "b" none))).1.answer,
      (antedated.step (.call (.restore "u" "b" none))).2) := by
  have hsaid : antedatedTable.said "u" "b" =
      .record ⟨"b", "u", Instant.origin.advance (.ofMillis 1000), some .origin⟩ := by
    unfold Table.said antedatedTable
    simp only [Std.ExtTreeMap.getElem?_insert_self, Table.recordOf?_offsetText]
    rfl
  have hgarbled : (antedated.said "u" "b").Garbled := by
    show (antedatedTable.said "u" "b").Garbled
    rw [hsaid]
    intro hwell
    exact absurd (hwell.ordered _ rfl) (by decide)
  exact ⟨hgarbled, (malformed_items_withheld antedated).2.2.1 _ _ _ ⟨rfl, rfl⟩ hgarbled⟩

end Session

end Dismissal
