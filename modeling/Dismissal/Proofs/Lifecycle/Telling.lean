import Dismissal.Proofs.Lifecycle.Batches
import Dismissal.Proofs.Lifecycle.Transitions
import Dismissal.Proofs.Store.Obedient

/-!
# What calls tell

The events of a call should be those of what it answers (`Call.Told`): one for each item, in order,
and none if the call fails. Over any store this is so for all that is answered. A call that fails
has told of nothing but for a batch that is `CutShort`: it tells while it answers, and finds no
answer for one of its identities when others before it are told.

* `Tells`: the events of an action, by its answer; the events of its parts add up
  (`Tells.after`).
* `answerEach_stops`: the answers of a batch are told up to the first identity that has none.
* `not_cutShort`: an obedient store cuts no batch short.
* `told_unless_cut_short`: what all calls tell, over any backend behind faults.
* `shortened_batch_tells`: there is a call that fails and tells, so not every failure is silent.
-/

namespace Dismissal.Lifecycle

variable {σ α β : Type} {now : Instant} {context : Option Json} {user id : String} {s : State σ}

/-! ## Actions that tell -/

/-- The events of an answer; a failure has none. -/
def eventsOf (events : α → List Event) : Result α → List Event
  | .ok a => events a
  | .error _ => []

/-- An action tells the events of what it answers, and of nothing if it fails. -/
def Tells (action : Action σ α) (events : α → List Event) : Prop :=
  ∀ s, (exec action s).2.published = s.published ++ eventsOf events (exec action s).1

section Tells

variable {action : Action σ α} {f : α → Action σ β} {events : α → List Event}

/-- What follows a silent part tells all. -/
theorem Tells.after {events : β → List Event} (h : Silent action)
    (hf : ∀ a, Tells (f a) events) : Tells (action >>= f) events := by
  intro s
  have hs := h s
  rw [exec_bind]
  cases hrun : exec action s with
  | mk answer s' =>
    rw [hrun] at hs
    cases answer with
    | error e => exact hs.trans (List.append_nil _).symm
    | ok a => exact (hf a s').trans (congrArg (· ++ _) hs)

/-- An event is told, and then answered. -/
theorem Tells.publish {event : Event} {a : α} (h : events a = [event]) :
    Tells (publish event >>= fun _ => (Pure.pure a : Action σ α)) events := by
  intro s
  rw [exec_bind_ok (exec_publish event), exec_pure]
  exact congrArg (s.published ++ ·) h.symm

/-- One item is told as it is answered. -/
theorem Tells.getOrCreate [Store σ] (now : Instant) (user id : String) (context : Option Json) :
    Tells (getOrCreate (σ := σ) now user id context) fun p => [presentedEvent now context p] := by
  refine Tells.after (Silent.lift _) fun _ =>
    Tells.after (Silent.ask (.get user id)) fun found => ?_
  cases found with
  | some existing => exact Tells.publish rfl
  | none =>
    exact Tells.after (Silent.lift _) fun item =>
      Tells.after (Silent.insertOrReread item) fun p => Tells.publish rfl

end Tells

/-! ## Answers of a batch -/

section Answers

variable {found : Found} {settled : Settled} {ids early late : List String} {ps : List Presented}
  {s' : State σ}

/-- Either there is an answer for each identity, or there are answers up to one that has none. -/
theorem answers_or_stops (found : Found) (settled : Settled) (ids : List String) :
    (∃ ps, List.Forall₂ (fun id p => answerFor found settled id = .ok p) ids ps) ∨
    ∃ early id late ps e, ids = early ++ id :: late ∧
      List.Forall₂ (fun id p => answerFor found settled id = .ok p) early ps ∧
      answerFor found settled id = .error e := by
  induction ids with
  | nil => exact .inl ⟨[], .nil⟩
  | cons first ids ih =>
    cases hfirst : answerFor found settled first with
    | error e => exact .inr ⟨[], first, ids, [], e, rfl, .nil, hfirst⟩
    | ok p =>
      rcases ih with ⟨ps, hps⟩ | ⟨early, id, late, ps, e, rfl, hps, herror⟩
      · exact .inl ⟨p :: ps, .cons hfirst hps⟩
      · exact .inr ⟨first :: early, id, late, p :: ps, e, rfl, .cons hfirst hps, herror⟩

variable (now context) in
/-- **The answers of a batch are told up to the first identity that has none**, which is the failure
of the batch. -/
theorem answerEach_stops {e : Failure}
    (hearly : List.Forall₂ (fun id p => answerFor found settled id = .ok p) early ps)
    (hid : answerFor found settled id = .error e) :
    exec (answerEach now context found settled (early ++ id :: late)) s =
      (.error e, { s with published := s.published ++ ps.map (presentedEvent now context) }) := by
  induction hearly generalizing s with
  | nil =>
    rw [List.nil_append, List.map_nil, List.append_nil]
    unfold answerEach
    rw [exec_lift_bind, hid]
  | @cons first p early ps hfirst _ ih =>
    rw [List.cons_append]
    unfold answerEach
    rw [exec_lift_bind, hfirst]
    simp only
    rw [exec_bind_ok (exec_publish _), exec_map, ih, List.map_cons, List.append_assoc]
    rfl

/-- A batch is cut short: its missing items are created or settled, and there is an answer for the
first of its identities, but none for a later one. -/
def CutShort [Store σ] (now : Instant) (user : String) (ids : List String) (s : State σ) : Prop :=
  ∃ found store missing settled s₁ first rest,
    Identity.checkAll user ids = .ok () ∧
    Store.serve now (.getMany user ids.eraseDups) s.store = (.ok found, store) ∧
    missingItems now user ids found = .ok missing ∧
    exec (createMissing now missing) { s with store } = (.ok settled, s₁) ∧
    ids.eraseDups = first :: rest ∧ (∃ p, answerFor found settled first = .ok p) ∧
    ∃ id ∈ rest, ∃ e, answerFor found settled id = .error e

variable [Store σ]

section Settled

variable {missing : List Item} {store : σ} {s₁ : State σ}
  (hcheck : Identity.checkAll user ids = .ok ())
  (hget : Store.serve now (.getMany user ids.eraseDups) s.store = (.ok found, store))
  (hmissing : missingItems now user ids found = .ok missing)
  (hcreate : exec (createMissing now missing) { s with store } = (.ok settled, s₁))
include hcheck hget hmissing hcreate

/-- Once the missing items are settled, the answers tell whether the batch is cut short. -/
theorem cutShort_iff : CutShort now user ids s ↔ ∃ first rest, ids.eraseDups = first :: rest ∧
    (∃ p, answerFor found settled first = .ok p) ∧
    ∃ id ∈ rest, ∃ e, answerFor found settled id = .error e := by
  constructor
  · rintro ⟨found', store', missing', settled', s₂, first, rest, -, hget', hmissing', hcreate',
      hanswers⟩
    cases hget.symm.trans hget'
    cases hmissing.symm.trans hmissing'
    cases hcreate.symm.trans hcreate'
    exact ⟨first, rest, hanswers⟩
  · rintro ⟨first, rest, hanswers⟩
    exact ⟨found, store, missing, settled, s₁, first, rest, hcheck, hget, hmissing, hcreate,
      hanswers⟩

/-- What was answered or not is told or not, when the missing items of a batch are settled. -/
theorem answerEach_told {answer : Result (List Presented)}
    (hrun : exec (answerEach now context found settled ids.eraseDups) s₁ = (answer, s')) :
    ∃ told : List Presented, s'.published =
        s.published ++ told.map (presentedEvent now context) ∧
      (∀ ps, answer = .ok ps → told = ps) ∧
      ∀ e, answer = .error e → (told = [] ↔ ¬CutShort now user ids s) := by
  have hsilent : s₁.published = s.published := by
    have h := Silent.createMissing now missing { s with store }
    rwa [hcreate] at h
  rcases answers_or_stops found settled ids.eraseDups with
    ⟨ps, hps⟩ | ⟨early, id, late, ps, e, hids, hps, herror⟩
  · have heq := (answerEach_run now context hps).symm.trans hrun
    cases heq
    exact ⟨ps, congrArg (· ++ _) hsilent, fun _ hok => Except.ok.inj hok, fun _ h => by cases h⟩
  · rw [hids] at hrun
    have heq := (answerEach_stops now context hps herror).symm.trans hrun
    cases heq
    refine ⟨ps, congrArg (· ++ _) hsilent, fun _ h => (by cases h), fun _ _ => ?_⟩
    rw [cutShort_iff hcheck hget hmissing hcreate]
    cases hps with
    | nil =>
      -- nothing was told: the first identity has no answer
      refine iff_of_true rfl ?_
      rintro ⟨first, rest, hids', ⟨p, hp⟩, -⟩
      cases hids.symm.trans hids'
      cases herror.symm.trans hp
    | @cons first p early ps hfirst _ =>
      refine iff_of_false (List.cons_ne_nil _ _) fun hno => hno ?_
      exact ⟨first, early ++ id :: late, hids, ⟨p, hfirst⟩, id, by simp, e, herror⟩

end Settled

/-- A batch tells what it answers; if it fails, it has told of nothing unless it is cut short. -/
theorem getOrCreateMany_told {answer : Result (List Presented)}
    (hrun : exec (getOrCreateMany now user ids context) s = (answer, s')) :
    ∃ told : List Presented, s'.published =
        s.published ++ told.map (presentedEvent now context) ∧
      (∀ ps, answer = .ok ps → told = ps) ∧
      ∀ e, answer = .error e → (told = [] ↔ ¬CutShort now user ids s) := by
  have hnone : s.published =
      s.published ++ ([] : List Presented).map (presentedEvent now context) :=
    (List.append_nil _).symm
  cases hcheck : Identity.checkAll user ids with
  | error e =>
    unfold getOrCreateMany at hrun
    rw [exec_lift_bind, hcheck] at hrun
    cases hrun
    refine ⟨[], hnone, fun _ h => (by cases h), fun _ _ => iff_of_true rfl ?_⟩
    rintro ⟨_, _, _, _, _, _, _, hcheck', -⟩
    cases hcheck.symm.trans hcheck'
  | ok u =>
    cases getOrCreateMany_run hrun with
    | malformed e hbad => cases hcheck.symm.trans hbad
    | nothing _ => exact ⟨[], hnone, fun ps hok => Except.ok.inj hok, fun _ h => by cases h⟩
    | unread e hget =>
      refine ⟨[], hnone, fun _ h => (by cases h), fun _ _ => iff_of_true rfl ?_⟩
      rintro ⟨_, _, _, _, _, _, _, -, hget', -⟩
      cases hget.symm.trans hget'
    | @unsettled found missing store s' e _ hget hmissing hcreate =>
      have hsilent := Silent.createMissing now missing { s with store }
      rw [hcreate] at hsilent
      refine ⟨[], hsilent.trans hnone, fun _ h => (by cases h), fun _ _ => iff_of_true rfl ?_⟩
      rintro ⟨_, _, _, _, _, _, _, -, hget', hmissing', hcreate', -⟩
      cases hget.symm.trans hget'
      cases hmissing.symm.trans hmissing'
      cases hcreate.symm.trans hcreate'
    | settled hget hmissing hcreate hanswer =>
      exact answerEach_told hcheck hget hmissing hcreate hanswer

end Answers

/-! ## Batches of obedient stores -/

section Obedient

variable [Store σ] {P : σ → Prop} {s' : State σ} {settled settled' : Settled} {items : List Item}

/-- What is inserted, or there already, has the identity that it was to be inserted under. -/
theorem insertOrReread_id (h : Obedient P) (hs : P s.store) {item : Item} {p : Presented}
    (hrun : exec (insertOrReread now item) s = (.ok p, s')) : p.item.id = item.id := by
  unfold insertOrReread at hrun
  rw [exec_bind_ok (exec_attempt _), exec_ask] at hrun
  cases hcreate : Store.serve now (.create item) s.store with
  | mk created store =>
    have hstore : P store := by
      have hnext := h.serve now (.create item) s.store hs
      rwa [hcreate] at hnext
    rw [hcreate] at hrun
    cases created with
    | ok created =>
      cases hrun
      exact congrArg Item.id (h.create hs hcreate)
    | error failure =>
      cases failure with
      | conflict reason =>
        cases hget : Store.serve now (.get item.user item.id) store with
        | mk found store' =>
          have hask : exec (ask now (.get item.user item.id)) { s with store } =
              (found, { s with store := store' }) := by
            rw [exec_ask, hget]
          cases found with
          | error e => cases (exec_bind_error hask _).symm.trans hrun
          | ok found =>
            have hrun := (exec_bind_ok hask _).symm.trans hrun
            cases found with
            | none => cases hrun
            | some existing =>
              cases hrun
              exact h.get hstore hget
      | _ => cases hrun

/-- Items that are settled one by one are settled under their identities. -/
theorem settleEach_settles (h : Obedient P) (hs : P s.store)
    (hrun : exec (settleEach now settled items) s = (.ok settled', s')) (id : String)
    (hid : settled[id]?.isSome ∨ ∃ item ∈ items, item.id = id) : settled'[id]?.isSome := by
  induction items generalizing s settled with
  | nil =>
    cases hrun
    obtain hid | ⟨_, hmem, _⟩ := hid
    · exact hid
    · cases hmem
  | cons item items ih =>
    unfold settleEach at hrun
    cases hfirst : exec (insertOrReread now item) s with
    | mk answer s₁ =>
      have hask (request : Request) (_ : request.Adds) : Keeps P (ask (σ := σ) now request) :=
        fun s hs => h.serve now request s.store hs
      have hkeeps := Keeps.insertOrReread hask item s hs
      rw [hfirst] at hkeeps
      cases answer with
      | error e => cases (exec_bind_error hfirst _).symm.trans hrun
      | ok p =>
        have hp := insertOrReread_id h hs hfirst
        refine ih hkeeps ((exec_bind_ok hfirst _).symm.trans hrun) ?_
        unfold Settled.add
        rw [getElem?_insert_eq, hp]
        by_cases heq : item.id = id
        · exact .inl (by rw [if_pos heq]; rfl)
        · rw [if_neg heq]
          obtain hid | ⟨other, hmem, hother⟩ := hid
          · exact .inl hid
          · have hother' : other ∈ items :=
              (List.mem_cons.1 hmem).resolve_left fun hsame => heq (hsame ▸ hother)
            exact .inr ⟨other, hother', hother⟩

/-- The missing items of a batch are settled under their identities. -/
theorem createMissing_settles (h : Obedient P) (hs : P s.store)
    (hnodup : (items.map Item.id).Nodup)
    (hrun : exec (createMissing now items) s = (.ok settled, s')) {item : Item}
    (hitem : item ∈ items) : settled[item.id]?.isSome := by
  unfold createMissing at hrun
  split at hrun
  · rename_i hempty
    rw [List.isEmpty_iff.1 hempty] at hitem
    cases hitem
  · rw [exec_bind_ok (exec_attempt _), exec_ask] at hrun
    cases hcreate : Store.serve now (.createMany items) s.store with
    | mk created store =>
      have hstore : P store := by
        have hnext := h.serve now (.createMany items) s.store hs
        rwa [hcreate] at hnext
      rw [hcreate] at hrun
      cases created with
      | ok created =>
        cases h.createMany hs hcreate
        cases hrun
        show ((settledAll items)[item.id]?).isSome
        rw [settledAll_of_mem hnodup hitem]
        rfl
      | error failure =>
        cases failure with
        | conflict reason =>
          exact settleEach_settles (s := { s with store }) h hstore hrun item.id
            (.inr ⟨item, hitem, rfl⟩)
        | _ => cases hrun

/-- **An obedient store cuts no batch short.** -/
theorem not_cutShort (h : Obedient P) (hs : P s.store) (now : Instant) (user : String)
    (ids : List String) : ¬CutShort now user ids s := by
  rintro ⟨found, store, missing, settled, s₁, first, rest, -, hget, hmissing, hcreate, hids, -, id,
    hmem, e, herror⟩
  have hstore : P store := by
    have hnext := h.serve now (.getMany user ids.eraseDups) s.store hs
    rwa [hget] at hnext
  obtain ⟨hnew, hnames⟩ := New.of_missingItems hmissing
  unfold answerFor at herror
  cases hfound : found[id]? with
  | some item =>
    rw [hfound] at herror
    cases herror
  | none =>
    have hin : id ∈ missing.map Item.id := by
      rw [hnames, List.mem_filter, hids]
      simp [hmem, Std.ExtTreeMap.contains_eq_isSome_getElem?, hfound]
    obtain ⟨item, hitem, rfl⟩ := List.mem_map.1 hin
    have hsettled := createMissing_settles (s := { s with store }) h hstore hnew.nodup hcreate hitem
    obtain ⟨p, hp⟩ := Option.isSome_iff_exists.1 hsettled
    rw [hfound, hp] at herror
    cases herror

end Obedient

/-! ## Calls -/

/-- An event reports an answer: it is one of creation if the item was created, and one of retrieval
if it was found; its item is the one that was answered, and its context that of the caller. -/
structure Reports (now : Instant) (context : Option Json) (p : Presented) (e : Event) : Prop where
  created : e.change = .created ↔ p.created = true
  retrieved : e.change = .retrieved ↔ p.created = false
  item : e.item = p.item
  named : e.user = p.item.user ∧ e.id = p.item.id
  context : e.context = context
  time : e.time = now

theorem presentedEvent_reports (now : Instant) (context : Option Json) (p : Presented) :
    Reports now context p (presentedEvent now context p) := by
  obtain ⟨item, created⟩ := p
  cases created <;> exact ⟨by simp [presentedEvent], by simp [presentedEvent], rfl, ⟨rfl, rfl⟩, rfl,
    rfl⟩

/-- The events that a call should tell when it has answered: one for each item that it answers, in
the same order. Those that tidy up tell of nothing. -/
inductive Call.Told (now : Instant) : Call → Outcome → List Event → Prop where
  | presented {user id : String} {context : Option Json} {p : Presented} {e : Event} :
    Reports now context p e → Told now (.getOrCreate user id context) (.presented p) [e]
  | batch {user : String} {ids : List String} {context : Option Json} {ps : List Presented}
    {events : List Event} : List.Forall₂ (Reports now context) ps events →
    Told now (.getOrCreateMany user ids context) (.batch ps) events
  | dismissed {user id : String} {context : Option Json} {t : Transition} :
    Told now (.dismiss user id context) (.transition t)
      [⟨.dismissed t.previous, user, id, t.item, context, now⟩]
  | restored {user id : String} {context : Option Json} {t : Transition} :
    Told now (.restore user id context) (.transition t)
      [⟨.restored t.previous, user, id, t.item, context, now⟩]
  | deleted {user id : String} : Told now (.deleteItem user id) .done []
  | reset : Told now .reset .done []

/-- The call presents a batch that is cut short. -/
def Call.IsCutShort [Store σ] (now : Instant) (s : State σ) : Call → Prop
  | .getOrCreateMany user ids _ => CutShort now user ids s
  | _ => False

/-- What a call told when it was done. -/
structure Call.Tells [Store σ] (c : Call) (now : Instant) (s : State σ) (events : List Event) :
    Prop where
  published : (c.perform now s).2.published = s.published ++ events
  answered : ∀ outcome, (c.perform now s).1 = .ok outcome → c.Told now outcome events
  failed : ∀ e, (c.perform now s).1 = .error e → (events = [] ↔ ¬c.IsCutShort now s)

section Calls

variable [Store σ] {s' : State σ}

theorem transition_tells {derive : Item → Result Item} {change : Item → Change}
    {answer : Result Transition}
    (h : Transited now context user id derive change s answer s') :
    ∃ events, s'.published = s.published ++ events ∧
      (∀ t, answer = .ok t → events = [⟨change t.previous, user, id, t.item, context, now⟩]) ∧
      ∀ e, answer = .error e → events = [] := by
  cases h with
  | written _ _ _ => exact ⟨_, rfl, fun t h => (by cases h; rfl), fun _ h => by cases h⟩
  | _ => exact ⟨[], (List.append_nil _).symm, fun _ h => (by cases h), fun _ _ => rfl⟩

/-- A call with an answer of some form is told if what is in the answer is. -/
theorem Call.Tells.of_map {c : Call} {answer : Result α} {outcome : α → Outcome}
    {events : List Event} (hrun : c.perform now s = (answer.map outcome, s'))
    (hpublished : s'.published = s.published ++ events)
    (hok : ∀ a, answer = .ok a → c.Told now (outcome a) events)
    (herror : ∀ e, answer = .error e → (events = [] ↔ ¬c.IsCutShort now s)) :
    c.Tells now s events := by
  constructor
  · rw [hrun]
    exact hpublished
  · intro out hout
    rw [hrun] at hout
    cases answer with
    | error e => cases hout
    | ok a =>
      cases hout
      exact hok a rfl
  · intro e hfailed
    rw [hrun] at hfailed
    cases answer with
    | error e' => exact herror e' rfl
    | ok a => cases hfailed

theorem presented_told (now : Instant) (context : Option Json) (ps : List Presented) :
    List.Forall₂ (Reports now context) ps (ps.map (presentedEvent now context)) := by
  rw [List.forall₂_map_right_iff, List.forall₂_same]
  exact fun p _ => presentedEvent_reports now context p

variable (now s) in
/-- A call that tidies up tells nobody. -/
theorem tidying_tells {action : Action σ Unit} {c : Call} (hsilent : Silent action)
    (hrun : c.run now = action >>= fun _ => pure .done) (htold : c.Told now .done [])
    (hcut : ¬c.IsCutShort now s) : c.Tells now s [] := by
  have hperform : c.perform now s = ((exec action s).1.map fun _ => .done, (exec action s).2) := by
    rw [Call.perform_eq_exec, hrun, exec_map]
  exact .of_map hperform ((hsilent s).trans (List.append_nil _).symm) (fun _ _ => htold)
    fun _ _ => iff_of_true rfl hcut

/-- **A call tells of what it answers**, over any store in any state. If it fails, it has told of
nothing unless it is a batch that is cut short. -/
theorem call_tells (now : Instant) (c : Call) (s : State σ) : ∃ events, c.Tells now s events := by
  cases c with
  | getOrCreate user id context =>
    have htells := Tells.getOrCreate now user id context s
    refine ⟨_, .of_map (Call.perform_getOrCreate now user id context s) htells ?_ ?_⟩
    · intro p hp
      rw [hp]
      exact .presented (presentedEvent_reports now context p)
    · intro e he
      rw [he]
      exact iff_of_true rfl not_false
  | getOrCreateMany user ids context =>
    obtain ⟨told, hpublished, hok, herror⟩ :=
      getOrCreateMany_told (Prod.eta (exec (getOrCreateMany now user ids context) s)).symm
    refine ⟨_, .of_map (Call.perform_getOrCreateMany now user ids context s) hpublished ?_ ?_⟩
    · intro ps hps
      rw [hok ps hps]
      exact .batch (presented_told now context ps)
    · intro e he
      rw [List.map_eq_nil_iff]
      exact herror e he
  | dismiss user id context =>
    obtain ⟨events, hpublished, hok, herror⟩ :=
      transition_tells (dismiss_run now context user id s)
    refine ⟨events, .of_map (Call.perform_dismiss now user id context s) hpublished ?_ ?_⟩
    · intro t ht
      rw [hok t ht]
      exact .dismissed
    · exact fun e he => iff_of_true (herror e he) not_false
  | restore user id context =>
    obtain ⟨events, hpublished, hok, herror⟩ :=
      transition_tells (restore_run now context user id s)
    refine ⟨events, .of_map (Call.perform_restore now user id context s) hpublished ?_ ?_⟩
    · intro t ht
      rw [hok t ht]
      exact .restored
    · exact fun e he => iff_of_true (herror e he) not_false
  | deleteItem user id =>
    exact ⟨[], tidying_tells now s ((Silent.lift _).bind fun _ => Silent.ask (.delete user id)) rfl
      .deleted not_false⟩
  | reset => exact ⟨[], tidying_tells now s (Silent.ask .deleteAll) rfl .reset not_false⟩

end Calls

/-! ## Over backends -/

/-- A store that cuts a batch short, and grew from an empty one, has a fault queued that leaves
items out. -/
theorem drops_of_cutShort {f : Faulty Backend} {told : List Event} {c : Call}
    (hgrown : f.inner.Grown) (hcut : c.IsCutShort now ⟨f, told⟩) : f.Drops := by
  cases c with
  | getOrCreateMany user ids context =>
    refine Classical.byContradiction fun hno => ?_
    exact not_cutShort (s := ⟨f, told⟩) Backend.obedient_grown.faulty ⟨hgrown, hno⟩ now user ids
      hcut
  | _ => exact hcut.elim

/-- **Events match answers, unless a batch is cut short.** For any backend behind any faults, in any
state, and for all calls: an answer is told by one event for each item in it, in the same order, and
a failure by none. The exception are the batches that are `CutShort`, each of which has told of
something. It takes a fault that leaves items out to cut one short, whatever kind of backend it is
and whatever was asked of it before. -/
theorem told_unless_cut_short (f : Faulty Backend) (told : List Event) (now : Instant) (c : Call) :
    (∃ events, c.Tells now ⟨f, told⟩ events) ∧
      (f.inner.Grown → c.IsCutShort now ⟨f, told⟩ → f.Drops) :=
  ⟨call_tells now c ⟨f, told⟩, drops_of_cutShort⟩

/-- An empty tree that leaves the last item of a batch out of its answer. -/
def shortening : Faulty Backend where
  inner := .tree {}
  faults := [(.createMany, .dropLast)]

/-- **Not every failure is silent.** Of a batch of two items, the first one is told, before the
batch fails at the second one. -/
theorem shortened_batch_tells : ¬∀ (f : Faulty Backend) (told : List Event) (now : Instant)
    (c : Call) (e : Failure), f.inner.Grown → (c.perform now ⟨f, told⟩).1 = .error e →
      (c.perform now ⟨f, told⟩).2.published = told := by
  intro hall
  have hsilent := hall shortening [] .origin (.getOrCreateMany "u" ["a", "b"] none)
    (.internal "batch create did not return item 'b'") .tree rfl
  have htold : ((Call.getOrCreateMany "u" ["a", "b"] none).perform .origin
      ⟨shortening, []⟩).2.published.length = 1 := rfl
  rw [hsilent] at htold
  cases htold

end Dismissal.Lifecycle
