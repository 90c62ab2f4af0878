import Dismissal.Proofs.Cache.Settling
import Dismissal.Proofs.Feed.Query
import Dismissal.Proofs.Session.Delivery

/-!
# Streams apart from each other

What is opened, read and closed under one name changes nothing for those under other names, nor for
any caller of the service: all other steps are answered as if it had not been done.

* `run_without`: a run with the steps of one stream left out.
* `feeds_deliver`: what is read from feeds, and that they keep to themselves.
-/

namespace Dismissal.Session

/-- The step opens a feed under a name, reads it or closes it. -/
def Step.isOfStream (name : String) : Step → Bool
  | openFeed name' target => name' == name && (Inbox.opened target).isSome
  | readFeed name' => name' == name
  | closeFeed name' => name' == name
  | _ => false

section Apart

variable {s s' : Session} {name : String}

/-- The sessions differ at most in the feed under a name. -/
def Alike (name : String) (s s' : Session) : Prop := s.closeFeed name = s'.closeFeed name

/-! ## Steps that are not of the stream -/

theorem filter_comm {α : Type} (p q : α → Bool) (xs : List α) :
    (xs.filter p).filter q = (xs.filter q).filter p := by
  rw [List.filter_filter, List.filter_filter]
  exact List.filter_congr fun x _ => Bool.and_comm _ _

/-- Feeds under other names are put in place in the same way. -/
theorem filter_put {α : Type} (name other : String) (added : List (String × α))
    (feeds : List (String × α)) :
    (added ++ (feeds.filter (·.1 != name)).filter (·.1 != other)).filter (·.1 != name) =
      (added ++ feeds.filter (·.1 != other)).filter (·.1 != name) := by
  have hcomm := filter_comm (fun e : String × α => e.1 != name) (·.1 != other) feeds
  rw [List.filter_append, List.filter_append, hcomm, List.filter_filter]
  simp

/-- What is put under a name goes when the name is closed. -/
theorem filter_put_self {α : Type} (name : String) (value : Option α) (feeds : List (String × α)) :
    ((value.map (name, ·)).toList ++ feeds.filter (·.1 != name)).filter (·.1 != name) =
      feeds.filter (·.1 != name) := by
  cases value <;> simp

theorem closeFeed_closeFeed (s : Session) (name : String) :
    (s.closeFeed name).closeFeed name = s.closeFeed name := by
  simp [closeFeed]

/-- Steps that are about no feed are done in the same way with and without one. -/
theorem act_closeFeed_of_apart (s : Session) (name : String) {step : Step}
    (hfeeds : step.isForFeeds = false) :
    (s.closeFeed name).act step = ((s.act step).1, (s.act step).2.closeFeed name) := by
  have hcache (f : Cache → Answer × Cache) : (s.closeFeed name).onCache f =
      ((s.onCache f).1, (s.onCache f).2.closeFeed name) := by
    unfold onCache closeFeed
    simp only
    split <;> rfl
  have hrestart : (s.closeFeed name).restart = s.restart.closeFeed name := by
    unfold restart closeFeed
    simp only [List.filter_map]
    rfl
  have hrequest (hstep : step.isRequest) :
      (s.closeFeed name).act step = ((s.act step).1, (s.act step).2.closeFeed name) := by
    rcases act_request hstep with ⟨e, hact⟩ | ⟨request, hact⟩ <;> rw [hact, hact]
    rfl
  cases step with
  | openFeed name target => cases hfeeds
  | readFeed name => cases hfeeds
  | closeFeed name => cases hfeeds
  | create parts => exact hrequest rfl
  | createMany all => exact hrequest rfl
  | update parts => exact hrequest rfl
  | addFault method fault =>
    cases hfaultable : s.setup.faultable <;> simp [act, closeFeed, hfaultable]
  | purge =>
    simp only [act]
    exact hcache _
  | capacity =>
    simp only [act]
    exact hcache _
  | sweep every =>
    simp only [act]
    exact hcache _
  | restart => exact Prod.ext rfl hrestart
  | dump =>
    simp only [act, hrestart]
    rfl
  | close =>
    simp only [act, closeTable, closeFeed]
    split <;> rfl
  | _ => rfl

/-- What is done is done in the same way with and without a feed, if that is not read. -/
theorem act_closeFeed (s : Session) (name : String) {step : Step} (h : step ≠ .readFeed name) :
    ((s.closeFeed name).act step).1 = (s.act step).1 ∧
      Alike name ((s.closeFeed name).act step).2 (s.act step).2 := by
  have hapart (heq : (s.closeFeed name).act step =
      ((s.act step).1, (s.act step).2.closeFeed name)) :
      ((s.closeFeed name).act step).1 = (s.act step).1 ∧
        Alike name ((s.closeFeed name).act step).2 (s.act step).2 := by
    rw [heq]
    exact ⟨rfl, closeFeed_closeFeed _ name⟩
  cases step with
  | openFeed name' target =>
    refine ⟨rfl, ?_⟩
    show Alike name ((s.closeFeed name).openFeed name' target).2 (s.openFeed name' target).2
    rw [openFeed_feeds, openFeed_feeds]
    exact congrArg (fun feeds => ({ (s.respond { target }).2 with feeds } : Session))
      (filter_put name name' _ s.feeds)
  | readFeed name' =>
    have hne : name' ≠ name := fun heq => h (heq ▸ rfl)
    have hlookup : (s.closeFeed name).feeds.lookup name' = s.feeds.lookup name' :=
      (lookup_filter name).trans (if_neg hne)
    simp only [act, readFeed, hlookup]
    cases s.feeds.lookup name' with
    | none => exact ⟨rfl, closeFeed_closeFeed s name⟩
    | some feed =>
      let read := feed.read s.channel s.bench.elapsed
      exact ⟨rfl, congrArg (fun feeds => ({ s with feeds } : Session))
        (filter_put name name' [(name', read.2)] s.feeds)⟩
  | closeFeed name' =>
    exact ⟨rfl, congrArg (fun feeds => ({ s with feeds } : Session))
      (filter_put name name' [] s.feeds)⟩
  | _ => exact hapart (s.act_closeFeed_of_apart name rfl)

theorem notify_closeFeed (s : Session) (name : String) :
    (s.closeFeed name).notify = (s.notify.1, s.notify.2.closeFeed name) := by
  have haudience : (s.closeFeed name).setup.audience = s.setup.audience := rfl
  unfold notify
  rw [haudience]
  split <;> rfl

/-- **Sessions that differ in one feed only stay so**, and reply alike while it is not read. -/
theorem Alike.step {step : Step} (h : Alike name s s') (hread : step ≠ .readFeed name) :
    (s.step step).1 = (s'.step step).1 ∧ Alike name (s.step step).2 (s'.step step).2 := by
  obtain ⟨hanswer, halike⟩ := s.act_closeFeed name hread
  obtain ⟨hanswer', halike'⟩ := s'.act_closeFeed name hread
  rw [h] at hanswer halike
  have hafter : Alike name (s.act step).2 (s'.act step).2 := halike.symm.trans halike'
  have hnotify : ((s.act step).2.notify.1, (s.act step).2.notify.2.closeFeed name) =
      ((s'.act step).2.notify.1, (s'.act step).2.notify.2.closeFeed name) := by
    rw [← notify_closeFeed, ← notify_closeFeed, hafter]
  obtain ⟨hevents, hrest⟩ := Prod.mk.inj hnotify
  have hheld : ((s.act step).2.notify.2.closeFeed name).held =
      ((s'.act step).2.notify.2.closeFeed name).held := by
    rw [hrest]
  have hreply (s : Session) : (s.step step).1 =
      ⟨(s.act step).1, (s.act step).2.notify.1.1, (s.act step).2.notify.1.2,
        (s.act step).2.notify.2.held⟩ := rfl
  refine ⟨?_, congrArg settle hrest⟩
  rw [hreply, hreply, ← hanswer, ← hanswer', hevents]
  exact congrArg _ hheld

/-! ## Steps of the stream -/

/-- The listeners have feeds, and the backend has nothing to do. -/
structure Quiet (s : Session) : Prop where
  audience : s.setup.audience = .feeds
  settled : s.bench.backend.Settled

/-- Feeds are not told of anything when a step is done; they are read. -/
theorem step_of_feeds {step : Step} (h : (s.act step).2.setup.audience = .feeds) :
    (s.step step).2 = (s.act step).2.settle := by
  have hnotify : (s.act step).2.notify.2 = (s.act step).2 := by
    unfold notify
    rw [h]
    rfl
  exact congrArg settle hnotify

theorem Quiet.settle_eq (h : s.Quiet) : s.settle = s := by
  unfold settle
  rw [h.settled.settle_eq]
  rfl

/-- Timeliness is kept by whatever is asked of a bench. -/
theorem stable_bench : Stable fun b : Bench => b.backend.Timely :=
  Backend.stable_timely.timed.faulty.timed

theorem call_timely (s : Session) (c : Lifecycle.Call) (h : s.bench.backend.Timely) :
    (c.perform s.clock ⟨s.bench, []⟩).2.store.backend.Timely :=
  Lifecycle.Keeps.call (P := fun b : Bench => b.backend.Timely)
    (fun request b hb => stable_bench.serve s.clock request b.store hb) c ⟨s.bench, []⟩ h

theorem respond_timely (s : Session) (r : Http.Request) (h : s.bench.backend.Timely) :
    (s.respond r).2.bench.backend.Timely := by
  rw [respond_eq]
  cases Http.Plan.ofRequest r with
  | reply response => exact h
  | call c => exact call_timely s c h

theorem onCache_timely {f : Cache → Answer × Cache} (h : s.bench.backend.Settled)
    (hf : ∀ c, c.Settled → (f c).2.Timely) : (s.onCache f).2.bench.backend.Timely := by
  unfold onCache
  split
  · rename_i c hcache
    rw [hcache] at h
    exact hf c h
  · exact h.timely

theorem act_timely (h : s.bench.backend.Settled) (step : Step) :
    (s.act step).2.bench.backend.Timely := by
  have htimely := h.timely
  have hrequest (hstep : step.isRequest) : (s.act step).2.bench.backend.Timely := by
    rcases act_request hstep with ⟨e, hact⟩ | ⟨request, hact⟩ <;> rw [hact]
    · exact htimely
    · exact stable_bench.serve s.clock request s.bench htimely
  cases step with
  | ask request => exact hrequest rfl
  | create parts => exact hrequest rfl
  | createMany all => exact hrequest rfl
  | update parts => exact hrequest rfl
  | call c => exact call_timely s c htimely
  | sleep ms => exact stable_bench.pass s.clock ms s.bench htimely
  | addFault method fault =>
    simp only [act]
    split <;> exact htimely
  | purge => exact onCache_timely h fun c hc => hc.timely
  | capacity => exact onCache_timely h fun c hc => hc.timely
  | sweep every => exact onCache_timely h fun c hc => (hc.startSweep every).timely
  | restart => exact (h.restart s.setup.place).timely
  | dump => exact (h.restart s.setup.place).timely
  | close =>
    simp only [act, closeTable]
    split
    · trivial
    · exact htimely
  | http request => exact respond_timely s request htimely
  | openFeed name target => exact respond_timely s { target } htimely
  | readFeed name =>
    simp only [act, readFeed]
    split <;> exact htimely
  | _ => exact htimely

theorem act_setup (s : Session) (step : Step) : (s.act step).2.setup = s.setup := by
  cases step with
  | readFeed name =>
    simp only [act, readFeed]
    split <;> rfl
  | openFeed name target => rfl
  | closeFeed name => rfl
  | restart => rfl
  | dump => rfl
  | _ => exact Tells.setup (s.act_tells rfl rfl)

/-- A session stays the one that was set up. -/
theorem after_setup (s : Session) (steps : List Step) : (s.after steps).setup = s.setup := by
  induction steps generalizing s with
  | nil => rfl
  | cons first rest ih =>
    refine (ih (s.step first).2).trans ?_
    show (s.act first).2.notify.2.setup = s.setup
    unfold notify
    split <;> exact act_setup s first

theorem Quiet.step (h : s.Quiet) (step : Step) : (s.step step).2.Quiet := by
  have haudience : (s.act step).2.setup.audience = .feeds := by
    rw [act_setup]
    exact h.audience
  rw [step_of_feeds haudience]
  exact ⟨haudience, (act_timely h.settled step).settle _⟩

/-- A request for the events makes no call. -/
theorem respond_of_opened (s : Session) {target : String}
    (h : (Inbox.opened target).isSome) : (s.respond { target }).2 = s := by
  have hroute : Http.Route.ofPath? (Http.Target.ofText target).path = some .events := by
    by_contra hne
    simp [Inbox.opened, hne] at h
  have hplan : ∃ response, Http.Plan.ofRequest { target } = .reply response := by
    unfold Http.Plan.ofRequest
    simp only [hroute]
    exact ⟨_, rfl⟩
  obtain ⟨response, hplan⟩ := hplan
  rw [respond_eq, hplan]
  rfl

/-- A step of a stream changes nothing but its feed. -/
theorem Quiet.step_ofStream {step : Step} (h : s.Quiet) (hstream : step.isOfStream name) :
    Alike name (s.step step).2 s := by
  have hact : Alike name (s.act step).2 s ∧ (s.act step).2.Quiet := by
    cases step with
    | openFeed name' target =>
      simp only [Step.isOfStream, Bool.and_eq_true, beq_iff_eq] at hstream
      obtain ⟨rfl, hopened⟩ := hstream
      have hopen := openFeed_feeds s name' target
      rw [respond_of_opened s hopened] at hopen
      show Alike name' (s.openFeed name' target).2 s ∧ (s.openFeed name' target).2.Quiet
      rw [hopen]
      exact ⟨congrArg (fun feeds => ({ s with feeds } : Session))
        (filter_put_self name' _ s.feeds), h.audience, h.settled⟩
    | readFeed name' =>
      obtain rfl : name' = name := by simpa [Step.isOfStream] using hstream
      simp only [act, readFeed]
      split
      · exact ⟨rfl, h⟩
      · rename_i feed _
        exact ⟨congrArg (fun feeds => ({ s with feeds } : Session))
          (filter_put_self name' (some _) s.feeds), h.audience, h.settled⟩
    | closeFeed name' =>
      obtain rfl : name' = name := by simpa [Step.isOfStream] using hstream
      exact ⟨closeFeed_closeFeed s name', h.audience, h.settled⟩
    | _ => cases hstream
  obtain ⟨halike, hquiet⟩ := hact
  rw [step_of_feeds hquiet.audience, hquiet.settle_eq]
  exact halike

/-! ## Runs -/

/-- The steps of a run with their replies. -/
def replies (s : Session) (steps : List Step) : List (Step × Reply) := steps.zip (s.run steps)

theorem replies_cons (s : Session) (first : Step) (rest : List Step) :
    s.replies (first :: rest) =
      (first, (s.step first).1) :: if first.isLast then [] else (s.step first).2.replies rest := by
  show (first :: rest).zip
    ((s.step first).1 :: if first.isLast then [] else (s.step first).2.run rest) = _
  rw [List.zip_cons_cons]
  split
  · rw [List.zip_nil_right]
  · rfl

theorem isLast_of_isOfStream {step : Step} (h : step.isOfStream name) : step.isLast = false := by
  cases step with
  | dropStore every ms => cases h
  | _ => rfl

/-- **A run goes on as if a stream were not there**, apart from the stream itself. -/
theorem run_without (h : s.Quiet) (halike : Alike name s s') (steps : List Step) :
    (s.replies steps).filter (!·.1.isOfStream name) =
      s'.replies (steps.filter (!·.isOfStream name)) := by
  induction steps generalizing s s' with
  | nil => rfl
  | cons first rest ih =>
    rw [replies_cons]
    by_cases hstream : first.isOfStream name
    · have hrest := ih (h.step first) ((h.step_ofStream hstream).trans halike)
      rw [isLast_of_isOfStream hstream]
      simpa [hstream] using hrest
    · have hread : first ≠ .readFeed name := by
        rintro rfl
        simp [Step.isOfStream] at hstream
      obtain ⟨hreply, hnext⟩ := halike.step hread
      have hrest := ih (h.step first) hnext
      rw [List.filter_cons_of_pos (by simpa using hstream),
        List.filter_cons_of_pos (by simpa using hstream), replies_cons, hreply]
      split
      · rfl
      · rw [hrest]

end Apart

/-! ## Feeds of a service -/

/-- A service with feeds is quiet when it starts. -/
theorem Quiet.start {setup : Setup} {s : Session} (h : start setup = .ok s)
    (haudience : setup.audience = .feeds) : s.Quiet := by
  unfold Session.start at h
  split at h
  · cases h
  · rename_i b hb
    split at h
    · cases h
      exact ⟨haudience, Backend.settled_start hb⟩
    · cases h

/-- **Feeds deliver what is told.** On every run of a service with feeds, a read gives the events
that were told since the last read or the opening, less those that the query of the feed does not
ask for; if there were more than the channel keeps, it says first how many of the oldest ones are
lost. What a query asks for is given by all pieces of it, wherever they stand. And whatever is done
with one feed, all other steps are answered as if it had not been done. -/
theorem feeds_deliver {setup : Setup} {buffer : Nat} {s : Session}
    (hstart : start (setup.withFeeds buffer) = .ok s) :
    let boxes := Inboxes.after s fun _ => none
    (∀ before name rest, (∀ step ∈ before, step.isLast = false) →
      ∃ reply, (s.run (before ++ .readFeed name :: rest))[before.length]? = some reply ∧
        Delivers (max buffer 1).nextPowerOfTwo reply.answer (boxes before name)) ∧
      (∀ before since name, (∀ step ∈ since, step.Spares name) → boxes (before ++ since) name =
        (boxes before name).map (·.hear ((s.after before).toldAlong since))) ∧
      (∀ query e, (Feed.Filter.ofQuery (some query)).passes e ↔
        Feed.Filter.Asks query "user" e.user ∧ Feed.Filter.Asks query "type" e.change.kind) ∧
      (∀ e, (Feed.Filter.ofQuery none).passes e) ∧
      ∀ name steps, (s.replies steps).filter (!·.1.isOfStream name) =
        s.replies (steps.filter (!·.isOfStream name)) := by
  obtain ⟨hsetup, hagrees⟩ := Agrees.start hstart
  refine ⟨fun before name rest hlast => ?_, fun before since name hspares => ?_,
    Feed.Filter.passes_ofQuery_iff, Feed.Filter.passes_ofQuery_none, fun name steps => ?_⟩
  · obtain ⟨history, hafter⟩ := hagrees.after before
    refine ⟨_, run_get hlast s _ rest, ?_⟩
    have hdelivers := hafter.readFeed name
    rw [hafter.capacity, after_setup, hsetup] at hdelivers
    exact hdelivers
  · rw [Inboxes.after_append]
    exact Inboxes.after_spared hspares _ _
  · exact run_without (.start hstart rfl) rfl steps

/-- A service in memory that keeps one event for its feeds. -/
def brief : Setup := { place := .memory 10 (.ofMillis 1000) none, disk := ⟨[], [], []⟩ }

/-- What is done before the feed is read: two calls for an item of the user it asks for. -/
def busy : List Step :=
  [.openFeed "feed" "/events?user=u", .call (.getOrCreate "u" "b" none),
    .call (.getOrCreate "u" "b" none)]

/-- The feed is told that it lost the first event, and gets the second one. -/
theorem feeds_deliver_brief : ∃ s box text, start (brief.withFeeds 0) = .ok s ∧
    Inboxes.after s (fun _ => none) busy "feed" = some box ∧
    box.lines 1 = [("error", some "Lagged by 1 events"), ("item.retrieved", some text)] ∧
    ∃ reply, (s.run (busy ++ [.readFeed "feed"]))[3]? = some reply ∧
      Delivers 1 reply.answer (some box) := by
  refine ⟨_, _, _, rfl, rfl, rfl, ?_⟩
  have hstart : start (brief.withFeeds 0) = .ok _ := rfl
  obtain ⟨hdelivers, -⟩ := feeds_deliver hstart
  have hread := hdelivers busy "feed" [] (by simp [busy, Step.isLast])
  have hroom : (max 0 1).nextPowerOfTwo = 1 := by decide +kernel
  rw [hroom] at hread
  exact hread

end Dismissal.Session
