import Dismissal.Proofs.Feed.History
import Dismissal.Proofs.Http.Plan
import Dismissal.Session.Step
import Mathlib.Logic.Function.Basic

/-!
# What feeds deliver

An `Inbox` is what a feed should be: it takes in all events that are told while it is open, and a
read empties it. Feeds do not keep events themselves, and the channel that they read from keeps the
newest ones only; still each read gives what the inbox says, less what the channel had no room for.

* `Inboxes.step`: what a step does to the inboxes.
* `Agrees.step`: feeds and inboxes stay in agreement.
* `Agrees.readFeed`: a feed is read as its inbox says.
-/

namespace Dismissal

open Channel (newest newest_of_le)

/-- A feed as its listener sees it: the events that were told since its opening or its last read, or
until its end. -/
structure Inbox where
  filter : Feed.Filter
  unread : List Event := []
  ended : Bool := false

namespace Inbox

/-- The inbox with what was told, unless it has ended. -/
def hear (events : List Event) (b : Inbox) : Inbox :=
  if b.ended then b else { b with unread := b.unread ++ events }

/-- The inbox after a read. -/
def empty (b : Inbox) : Inbox := { b with unread := [] }

/-- The inbox when no more is told. -/
def finish (b : Inbox) : Inbox := { b with ended := true }

/-- The new inbox of a feed that is opened, if there is such a feed. -/
def opened (target : String) : Option Inbox :=
  if Http.Route.ofPath? (Http.Target.ofText target).path = some .events
  then some { filter := .ofQuery (Http.Target.ofText target).query } else none

/-- What a listener is sent for an event: its name and its text. -/
def lineOf (e : Event) : String × Option String := ("item." ++ e.change.kind, some e.json.render)

/-- What is read next if a channel has room for so many events. All events are passed on that the
filter lets pass; if there are too many, the oldest ones are left out, and it is said how many. -/
def lines (room : Nat) (b : Inbox) : List (String × Option String) :=
  if b.unread.length ≤ room then (b.unread.filter b.filter.passes).map lineOf
  else
    let missed := b.unread.length - room
    ("error", some ("Lagged by " ++ Text.decimal missed ++ " events")) ::
      ((b.unread.drop missed).filter b.filter.passes).map lineOf

/-- The frames of what is read next. -/
def frames (room : Nat) (b : Inbox) : List Feed.Frame :=
  let events := (newest room b.unread).filter b.filter.passes
  if b.unread.length ≤ room then events.map .event
  else .lagged (b.unread.length - room) :: events.map .event

theorem lines_frames (room : Nat) (b : Inbox) :
    (b.frames room).map (fun f => (f.name, f.data?)) = b.lines room := by
  unfold frames lines
  split
  · rename_i hroom
    rw [newest_of_le hroom, List.map_map]
    rfl
  · rw [List.map_cons, List.map_map]
    rfl

end Inbox

/-- The inboxes under their names. -/
abbrev Inboxes := String → Option Inbox

namespace Session

/-- The step opens, reads or closes a feed. -/
def Step.isForFeeds : Step → Bool
  | openFeed _ _ => true
  | readFeed _ => true
  | closeFeed _ => true
  | _ => false

/-- The step makes a request to the store. -/
def Step.isRequest : Step → Bool
  | ask _ => true
  | create _ => true
  | createMany _ => true
  | update _ => true
  | _ => false

/-- The step puts a new channel in place. -/
def Step.isRestart : Step → Bool
  | restart => true
  | dump => true
  | _ => false

/-- What a step tells the listeners. -/
def told (s : Session) : Step → List Event
  | .call c => (c.perform s.clock ⟨s.bench, []⟩).2.published
  | .http r => ((Http.answer s.clock r).run ⟨s.bench, []⟩).2.published
  | .openFeed _ target => ((Http.answer s.clock { target }).run ⟨s.bench, []⟩).2.published
  | _ => []

/-- The session after some steps. -/
def after (s : Session) (steps : List Step) : Session :=
  steps.foldl (fun s step => (s.step step).2) s

/-- The events that some steps tell the listeners, in order. -/
def toldAlong (s : Session) : List Step → List Event
  | [] => []
  | first :: rest => s.told first ++ (s.step first).2.toldAlong rest

/-- The step leaves the feed under a name alone, and the channel in place. -/
def Step.Spares (name : String) : Step → Prop
  | openFeed name' _ => name' ≠ name
  | readFeed name' => name' ≠ name
  | closeFeed name' => name' ≠ name
  | restart => False
  | dump => False
  | _ => True

end Session

namespace Inboxes

/-- The inboxes with what was told. -/
def hear (events : List Event) (boxes : Inboxes) : Inboxes := fun name =>
  (boxes name).map (·.hear events)

theorem hear_nil (boxes : Inboxes) : boxes.hear [] = boxes := by
  funext name
  have hsame : Inbox.hear [] = id := by
    funext b
    unfold Inbox.hear
    split <;> simp
  show (boxes name).map (Inbox.hear []) = _
  rw [hsame, Option.map_id, id]

/-- The inboxes after a step. -/
def step (s : Session) (boxes : Inboxes) (step : Session.Step) : Inboxes :=
  let heard := boxes.hear (s.told step)
  match step with
  | .openFeed name target => Function.update heard name (Inbox.opened target)
  | .readFeed name => Function.update heard name ((heard name).map Inbox.empty)
  | .closeFeed name => Function.update heard name none
  | .restart => fun name => (boxes name).map Inbox.finish
  | .dump => fun name => (boxes name).map Inbox.finish
  | _ => heard

/-- The inboxes after some steps. -/
def after (s : Session) (boxes : Inboxes) : List Session.Step → Inboxes
  | [] => boxes
  | first :: rest => (boxes.step s first).after (s.step first).2 rest

theorem after_append (s : Session) (boxes : Inboxes) (before since : List Session.Step) :
    boxes.after s (before ++ since) = (boxes.after s before).after (s.after before) since := by
  induction before generalizing s boxes with
  | nil => rfl
  | cons first before ih => exact ih (s.step first).2 (boxes.step s first)

theorem hear_hear (earlier later : List Event) (b : Inbox) :
    (b.hear earlier).hear later = b.hear (earlier ++ later) := by
  unfold Inbox.hear
  cases hended : b.ended <;> simp [hended]

theorem step_spared {step : Session.Step} {name : String} (h : step.Spares name) (s : Session)
    (boxes : Inboxes) : boxes.step s step name = (boxes name).map (·.hear (s.told step)) := by
  cases step with
  | openFeed name' target => exact Function.update_of_ne (Ne.symm h) _ _
  | readFeed name' => exact Function.update_of_ne (Ne.symm h) _ _
  | closeFeed name' => exact Function.update_of_ne (Ne.symm h) _ _
  | restart => cases h
  | dump => cases h
  | _ => rfl

/-- **An inbox takes in what is told since it was opened or read**, until the next such step. -/
theorem after_spared {since : List Session.Step} {name : String}
    (h : ∀ step ∈ since, step.Spares name) (s : Session) (boxes : Inboxes) :
    boxes.after s since name = (boxes name).map (·.hear (s.toldAlong since)) := by
  induction since generalizing s boxes with
  | nil => exact (congrFun (hear_nil boxes) name).symm
  | cons first since ih =>
    obtain ⟨hfirst, hrest⟩ := List.forall_mem_cons.1 h
    show (boxes.step s first).after (s.step first).2 since name = _
    rw [ih hrest, step_spared hfirst, Option.map_map]
    congr 1
    funext b
    exact hear_hear _ _ b

end Inboxes

/-! ## A feed and its inbox -/

namespace Feed

variable {feed : Feed} {box : Inbox} {c : Channel Event} {history : List Event}

/-- A feed is what its inbox says: it has the rest of the history before it, or it has ended and has
the frames left. -/
structure Follows (c : Channel Event) (history : List Event) (feed : Feed) (box : Inbox) :
    Prop where
  filter : feed.filter = box.filter
  left : feed.left = if box.ended then some (box.frames c.capacity) else none
  unread : box.ended = false →
    feed.reader ≤ history.length ∧ history.drop feed.reader = box.unread

theorem Follows.isEnded (h : Follows c history feed box) : feed.isEnded = box.ended := by
  unfold Feed.isEnded
  rw [h.left]
  cases box.ended <;> rfl

/-- What a feed has to pass on is what its inbox says. -/
theorem Follows.pending (h : Follows c history feed box) (hc : c.Records history) :
    feed.pending c = box.frames c.capacity := by
  unfold Feed.pending
  rw [h.left]
  cases hended : box.ended with
  | true => rfl
  | false =>
    rw [hc.read, (h.unread hended).2, h.filter]
    unfold framesOf Inbox.frames
    by_cases hroom : box.unread.length ≤ c.capacity
    · simp [hroom]
    · have hmissed : box.unread.length - c.capacity ≠ 0 := by omega
      simp [hroom, hmissed]

/-- What is told to the channel is told to the inbox. -/
theorem Follows.hear (h : Follows c history feed box) (events : List Event) :
    Follows (c.sendAll events) (history ++ events) feed (box.hear events) := by
  unfold Inbox.hear
  cases hended : box.ended with
  | true =>
    refine ⟨h.filter, ?_, fun hopen => ?_⟩
    · simpa [hended, Channel.capacity_sendAll] using h.left
    · simp [hended] at hopen
  | false =>
    obtain ⟨hreader, hunread⟩ := h.unread hended
    refine ⟨h.filter, by simpa [hended] using h.left, fun _ => ⟨?_, ?_⟩⟩
    · rw [List.length_append]
      omega
    · rw [List.drop_append_of_le_length hreader, hunread]
      rfl

theorem frames_empty (box : Inbox) (room : Nat) : box.empty.frames room = [] := by
  simp [Inbox.frames, Inbox.empty, newest]

/-- A feed that has come to the end of the history has nothing left. -/
theorem Follows.empty (h : Follows c history feed box) (hc : c.Records history) {mark : Nat}
    {left : Option (List Frame)} (hleft : left = if box.ended then some [] else none) :
    Follows c history { feed with reader := c.sent, mark, left } box.empty := by
  refine ⟨h.filter, ?_, fun _ => ?_⟩
  · rw [frames_empty]
    exact hleft
  · show c.sent ≤ history.length ∧ history.drop c.sent = []
    rw [hc.sent]
    exact ⟨Nat.le_refl _, List.drop_length⟩

/-- A read gives what the inbox says, or a sign of life if that is nothing, and empties it. -/
theorem Follows.read (h : Follows c history feed box) (hc : c.Records history) (now : Nat) :
    let frames := (feed.read c now).1
    (frames = box.frames c.capacity ∨ box.frames c.capacity = [] ∧ frames = [.keepAlive]) ∧
      Follows c history (feed.read c now).2 box.empty := by
  have hpending := h.pending hc
  unfold Feed.read
  cases hframes : box.frames c.capacity with
  | nil =>
    have hleft : feed.left = if box.ended then some [] else none := by
      rw [h.left, hframes]
    simp only [hpending, hframes]
    split
    · exact ⟨.inr ⟨trivial, rfl⟩, h.empty hc hleft⟩
    · exact ⟨.inl rfl, h.empty hc hleft⟩
  | cons frame frames =>
    simp only [hpending, hframes]
    refine ⟨.inl trivial, h.empty hc ?_⟩
    rw [h.left]
    cases box.ended <;> rfl

/-- A feed ends with its channel, and what it has to pass on then can be read. -/
theorem Follows.finish (h : Follows c history feed box) (hc : c.Records history)
    {c' : Channel Event} (hcapacity : c'.capacity = c.capacity) :
    Follows c' [] (feed.finish c) box.finish := by
  refine ⟨h.filter, ?_, fun hopen => by cases hopen⟩
  show some (feed.pending c) = some (box.frames c'.capacity)
  rw [h.pending hc, hcapacity]

/-- A feed that is new has an empty inbox. -/
theorem Follows.subscribe (hc : c.Records history) (filter : Filter) (now : Nat) :
    Follows c history (Feed.subscribe filter c now) { filter } := by
  refine ⟨rfl, rfl, fun _ => ?_⟩
  show c.sent ≤ history.length ∧ history.drop c.sent = []
  rw [hc.sent]
  exact ⟨Nat.le_refl _, List.drop_length⟩

end Feed

/-! ## Feeds and inboxes under their names -/

section Lookup

variable {α : Type} {name other : String} {entries : List (String × α)}

theorem lookup_filter (name : String) : (entries.filter (·.1 != name)).lookup other =
    if other = name then none else entries.lookup other := by
  induction entries with
  | nil => simp
  | cons e entries ih => grind

/-- An entry is replaced, or goes. -/
theorem lookup_put (name : String) (value : Option α) :
    ((value.map (name, ·)).toList ++ entries.filter (·.1 != name)).lookup other =
      if other = name then value else entries.lookup other := by
  cases value with
  | none => exact lookup_filter name
  | some value =>
    show ((name, value) :: entries.filter (·.1 != name)).lookup other = _
    rw [List.lookup_cons, lookup_filter]
    by_cases h : other = name
    · simp [h]
    · simp [h, beq_false_of_ne h]

theorem lookup_map {β : Type} (f : α → β) :
    (entries.map fun e => (e.1, f e.2)).lookup name = (entries.lookup name).map f := by
  induction entries with
  | nil => rfl
  | cons e entries ih => grind

end Lookup

/-- Related options stay related if what is in them does. -/
theorem rel_map {α β α' β' : Type} {r : α → β → Prop} {r' : α' → β' → Prop} {f : α → α'}
    {g : β → β'} {a : Option α} {b : Option β} (h : Option.Rel r a b)
    (hmap : ∀ x y, r x y → r' (f x) (g y)) : Option.Rel r' (a.map f) (b.map g) := by
  cases h with
  | some h => exact .some (hmap _ _ h)
  | none => exact .none

namespace Session

variable {s s' : Session} {boxes : Inboxes} {history events : List Event}

/-- Feeds and inboxes agree on what has been told since the channel was made. -/
structure Agrees (s : Session) (boxes : Inboxes) (history : List Event) : Prop where
  capacity : s.channel.capacity = s.setup.buffer.nextPowerOfTwo
  records : s.channel.Records history
  feeds : ∀ name, Option.Rel (Feed.Follows s.channel history) (s.feeds.lookup name) (boxes name)

/-- All that happens to the listeners is that they are told of events. -/
structure Tells (s : Session) (events : List Event) (s' : Session) : Prop where
  setup : s'.setup = s.setup
  channel : s'.channel = s.channel.sendAll events
  feeds : s'.feeds = s.feeds

theorem Agrees.tells (h : Agrees s boxes history) (htells : s.Tells events s') :
    Agrees s' (boxes.hear events) (history ++ events) := by
  refine ⟨?_, ?_, fun name => ?_⟩
  · rw [htells.channel, Channel.capacity_sendAll, htells.setup]
    exact h.capacity
  · rw [htells.channel]
    exact h.records.sendAll events
  · rw [htells.channel, htells.feeds]
    have hheard := rel_map (f := id) (h.feeds name) fun feed box hfollows => hfollows.hear events
    rw [Option.map_id] at hheard
    exact hheard

/-- Nothing happens to the listeners. -/
theorem Agrees.same (h : Agrees s boxes history) (hsetup : s'.setup = s.setup)
    (hchannel : s'.channel = s.channel) (hfeeds : s'.feeds = s.feeds) :
    Agrees s' boxes history := by
  refine ⟨?_, ?_, fun name => ?_⟩
  · rw [hchannel, hsetup]
    exact h.capacity
  · rw [hchannel]
    exact h.records
  · rw [hchannel, hfeeds]
    exact h.feeds name

/-- A feed under a name is opened, read or closed. -/
theorem Agrees.update (h : Agrees s boxes history) (name : String) {feed : Option Feed}
    {box : Option Inbox} (hfollows : Option.Rel (Feed.Follows s.channel history) feed box) :
    Agrees { s with feeds := (feed.map (name, ·)).toList ++ s.feeds.filter (·.1 != name) }
      (Function.update boxes name box) history := by
  refine ⟨h.capacity, h.records, fun other => ?_⟩
  rw [lookup_put, Function.update_apply]
  split
  · exact hfollows
  · exact h.feeds other

/-! ## Steps and runs -/

theorem respond_tells (s : Session) (r : Http.Request) :
    s.Tells (s.told (.http r)) (s.respond r).2 := ⟨rfl, rfl, rfl⟩

/-- A step that makes a request makes the same one in every session, or fails in each. -/
theorem act_request {step : Step} (h : step.isRequest) :
    (∃ e, ∀ s : Session, s.act step = (.error e, s)) ∨
      ∃ request, ∀ s : Session, s.act step = s.askFor request := by
  cases step with
  | ask request => exact .inr ⟨request, fun s => rfl⟩
  | create parts =>
    cases hitem : parts.item with
    | error e => exact .inl ⟨e, fun s => by simp only [act, hitem]⟩
    | ok item => exact .inr ⟨.create item, fun s => by simp only [act, hitem]⟩
  | createMany all =>
    cases hitems : all.mapM Record.item with
    | error e => exact .inl ⟨e, fun s => by simp only [act, hitems]⟩
    | ok items => exact .inr ⟨.createMany items, fun s => by simp only [act, hitems]⟩
  | update parts =>
    cases hitem : parts.item with
    | error e => exact .inl ⟨e, fun s => by simp only [act, hitem]⟩
    | ok item => exact .inr ⟨.update item, fun s => by simp only [act, hitem]⟩
  | _ => cases h

/-- Steps that are about no feed and leave the channel in place. -/
theorem act_tells (s : Session) {step : Step} (hfeeds : step.isForFeeds = false)
    (hrestart : step.isRestart = false) : s.Tells (s.told step) (s.act step).2 := by
  have hcache (act : Cache → Answer × Cache) : s.Tells [] (s.onCache act).2 := by
    unfold onCache
    split <;> exact ⟨rfl, rfl, rfl⟩
  have hrequest (hstep : step.isRequest) : s.Tells [] (s.act step).2 := by
    rcases act_request hstep with ⟨e, hact⟩ | ⟨request, hact⟩ <;> rw [hact]
    · exact ⟨rfl, rfl, rfl⟩
    · exact ⟨rfl, rfl, rfl⟩
  cases step with
  | openFeed name target => cases hfeeds
  | readFeed name => cases hfeeds
  | closeFeed name => cases hfeeds
  | restart => cases hrestart
  | dump => cases hrestart
  | purge => exact hcache _
  | capacity => exact hcache _
  | sweep every => exact hcache _
  | create parts => exact hrequest rfl
  | createMany all => exact hrequest rfl
  | update parts => exact hrequest rfl
  | addFault method fault =>
    simp only [act]
    split <;> exact ⟨rfl, rfl, rfl⟩
  | close =>
    simp only [act, closeTable]
    split <;> exact ⟨rfl, rfl, rfl⟩
  | _ => exact ⟨rfl, rfl, rfl⟩

/-- A feed that is opened is the feed of its inbox. -/
theorem openFeed_feeds (s : Session) (name target : String) :
    (s.openFeed name target).2 =
      let s := (s.respond { target }).2
      let feed := (Inbox.opened target).map fun box =>
        Feed.subscribe box.filter s.channel s.bench.elapsed
      { s with feeds := (feed.map (name, ·)).toList ++ s.feeds.filter (·.1 != name) } := by
  have hfeed : (s.respond { target }).1.feed = (Inbox.opened target).map Inbox.filter := by
    rw [Inbox.opened, apply_ite (Option.map Inbox.filter)]
    exact Http.Plan.feed_answer target _
  unfold openFeed
  simp only [hfeed, Option.map_map]
  rfl

theorem Agrees.restart (h : Agrees s boxes history) :
    Agrees s.restart (fun name => (boxes name).map Inbox.finish) [] := by
  refine ⟨rfl, Channel.Records.ofCapacity _, fun name => ?_⟩
  show Option.Rel _ ((s.feeds.map fun e => (e.1, e.2.finish s.channel)).lookup name) _
  rw [lookup_map fun feed => Feed.finish feed s.channel]
  exact rel_map (h.feeds name) fun feed box hfollows =>
    hfollows.finish h.records h.capacity.symm

/-- **Feeds and inboxes stay in agreement**, whatever is done. -/
theorem Agrees.act (h : Agrees s boxes history) (step : Step) :
    ∃ history', Agrees (s.act step).2 (boxes.step s step) history' := by
  cases step with
  | openFeed name target =>
    have htold := h.tells (s.respond_tells { target })
    refine ⟨history ++ s.told (.openFeed name target), ?_⟩
    show Agrees (s.openFeed name target).2 (Function.update _ name (Inbox.opened target)) _
    rw [openFeed_feeds]
    refine htold.update name ?_
    unfold Inbox.opened
    split
    · exact .some (.subscribe htold.records _ _)
    · exact .none
  | readFeed name =>
    refine ⟨history, ?_⟩
    show Agrees (s.readFeed name).2
      (Function.update (boxes.hear []) name ((boxes.hear [] name).map Inbox.empty)) history
    rw [Inboxes.hear_nil]
    have hfollows := h.feeds name
    unfold readFeed
    cases hfeed : s.feeds.lookup name with
    | none =>
      rw [hfeed] at hfollows
      generalize hbox : boxes name = box at hfollows
      cases hfollows
      rw [Option.map_none, ← hbox, Function.update_eq_self]
      exact h
    | some feed =>
      rw [hfeed] at hfollows
      generalize boxes name = box at hfollows
      cases hfollows with
      | some hfollows =>
        have hread := (hfollows.read h.records s.bench.elapsed).2
        exact h.update name (.some hread)
  | closeFeed name =>
    refine ⟨history, ?_⟩
    show Agrees (s.closeFeed name) (Function.update (boxes.hear []) name none) history
    rw [Inboxes.hear_nil]
    exact h.update name .none
  | restart => exact ⟨[], h.restart⟩
  | dump => exact ⟨[], h.restart⟩
  | _ => exact ⟨_, h.tells (s.act_tells rfl rfl)⟩

theorem Agrees.step (h : Agrees s boxes history) (step : Step) :
    ∃ history', Agrees (s.step step).2 (boxes.step s step) history' := by
  obtain ⟨history', hact⟩ := h.act step
  have hnotify (s : Session) : s.notify.2.setup = s.setup ∧ s.notify.2.channel = s.channel ∧
      s.notify.2.feeds = s.feeds := by
    unfold notify
    split <;> exact ⟨rfl, rfl, rfl⟩
  obtain ⟨hsetup, hchannel, hfeeds⟩ := hnotify (s.act step).2
  exact ⟨history', hact.same hsetup hchannel hfeeds⟩

theorem Agrees.after (h : Agrees s boxes history) (steps : List Step) :
    ∃ history', Agrees (s.after steps) (boxes.after s steps) history' := by
  induction steps generalizing s boxes history with
  | nil => exact ⟨history, h⟩
  | cons first rest ih =>
    obtain ⟨_, hfirst⟩ := h.step first
    exact ih hfirst

/-- A run gives the reply of each step in the session that the steps before it led to. -/
theorem run_get {before : List Step} (h : ∀ step ∈ before, step.isLast = false) (s : Session)
    (step : Step) (rest : List Step) :
    (s.run (before ++ step :: rest))[before.length]? = some ((s.after before).step step).1 := by
  induction before generalizing s with
  | nil => rfl
  | cons first before ih =>
    obtain ⟨hfirst, hbefore⟩ := List.forall_mem_cons.1 h
    show ((s.step first).1 ::
      if first.isLast then [] else (s.step first).2.run (before ++ step :: rest))[_]? = _
    rw [hfirst]
    exact ih hbefore (s.step first).2

/-- A service that was just started has told nothing, and nobody listens. -/
theorem Agrees.start {setup : Setup} (h : start setup = .ok s) :
    s.setup = setup ∧ Agrees s (fun _ => none) [] := by
  unfold Session.start at h
  split at h
  · cases h
  · split at h
    · cases h
      exact ⟨rfl, rfl, Channel.Records.ofCapacity _, fun _ => .none⟩
    · cases h

/-- The answer to a read is what the inbox says; a feed that is not there has ended. -/
def Delivers (room : Nat) (answer : Result Answer) : Option Inbox → Prop
  | none => answer = .ok (.frames [] true)
  | some b => ∃ frames, answer = .ok (.frames frames b.ended) ∧
    (frames.map (fun f => (f.name, f.data?)) = b.lines room ∨
      b.lines room = [] ∧ frames = [.keepAlive])

/-- A feed is read as its inbox says. -/
theorem Agrees.readFeed (h : Agrees s boxes history) (name : String) :
    Delivers s.channel.capacity (s.step (.readFeed name)).1.answer (boxes name) := by
  have hfollows := h.feeds name
  have hanswer : (s.step (.readFeed name)).1.answer =
      .ok (.frames (s.readFeed name).1.1 (s.readFeed name).1.2) := rfl
  rw [hanswer]
  unfold Session.readFeed
  generalize boxes name = box at hfollows
  cases hfeed : s.feeds.lookup name with
  | none =>
    rw [hfeed] at hfollows
    cases hfollows
    rfl
  | some feed =>
    rw [hfeed] at hfollows
    cases hfollows with
    | some hfollows =>
      rename_i box
      obtain ⟨hframes, hrest⟩ := hfollows.read h.records s.bench.elapsed
      refine ⟨(feed.read s.channel s.bench.elapsed).1, ?_, ?_⟩
      · show (.ok (.frames _ (feed.read s.channel s.bench.elapsed).2.isEnded) : Result Answer) = _
        rw [hrest.isEnded]
        rfl
      · rw [← Inbox.lines_frames]
        rcases hframes with heq | ⟨hnone, halive⟩
        · exact .inl (by rw [heq])
        · exact .inr ⟨by rw [hnone, List.map_nil], halive⟩

end Session

end Dismissal
