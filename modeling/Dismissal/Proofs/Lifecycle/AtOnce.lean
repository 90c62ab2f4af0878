import Dismissal.Proofs.Cache.Evictions
import Dismissal.Proofs.Identity.WellFormed
import Dismissal.Proofs.Instant.Advance
import Dismissal.Proofs.Lifecycle.Refinement
import Dismissal.Proofs.Lifecycle.Transitions

/-!
# What is written is found at once

An item that is written to a cache expires later than at once, whatever its lifetime, if that takes
any time at all: the sum of the two may be cut off at the last instant that there is, but up to that
instant it is later than the writing (`Instant.lt_advance`). So at the time of the writing the item
is found, unless it is evicted, and calls at one time build on one another.

* `Finds`: a cache finds an item, and will find what is written now.
* `presented_new`, `presented_again`, `dismissed_at_once`: calls at one time.
* `written_found_at_once`: all of it, after any run.
* `last_instant_loses`: at the last instant nothing that is written is found.
-/

namespace Dismissal.Lifecycle

open Cache
open Cache.Recency (found? found?_look_look)

variable {c : Cache} {l : Recency} {s : State Cache} {now : Instant} {x y : Item}
  {n : Name} {v : Version}

/-! ## Requests -/

/-- A cache finds an item, and what is written to it does not expire at once. -/
def Finds (c : Cache) (now : Instant) (x : Item) : Prop :=
  ∃ l, Mirrors c l ∧ l.Tidy ∧ now < now.advance l.lifetime ∧
    found? (l.look x.key now).1 = some x

theorem Finds.of_written (h : Mirrors c l) (htidy : l.Tidy) (hlasts : now < now.advance l.lifetime)
    (x : Item) : Finds (c.create now x) now x :=
  ⟨_, h.write now x, htidy.write now x, hlasts, htidy.found?_written x hlasts⟩

theorem Finds.get (h : Finds c now x) :
    ∃ c', Store.serve now (.get x.user x.id) c = (.ok (some x), c') ∧ Finds c' now x := by
  obtain ⟨l, hmirrors, htidy, hlasts, hfound⟩ := h
  obtain ⟨hanswer, hnext⟩ := hmirrors.get now x.user x.id
  rw [Recency.get_eq (Identity.checkAll_one x.user_valid x.id_valid)] at hanswer hnext
  refine ⟨_, Prod.ext (hanswer.trans (congrArg Except.ok hfound)) rfl, _, hnext, htidy.look,
    hlasts, ?_⟩
  exact (found?_look_look l _ _ now).trans hfound

/-- The next version of an item that is found is written and found. -/
theorem Finds.update (h : Finds c now x) (hid : y.id = x.id) (huser : y.user = x.user)
    (hcreated : y.created = x.created) :
    ∃ c', Store.serve now (.update y) c = (.ok y, c') ∧ Finds c' now y := by
  obtain ⟨l, hmirrors, htidy, hlasts, hfound⟩ := h
  obtain ⟨hanswer, hnext⟩ := hmirrors.update now y
  have hkey : y.key = x.key := by
    unfold Item.key
    rw [hid, huser]
  have hmerged : Item.create x.id x.user x.created y.dismissed = .ok y := by
    rw [← hid, ← huser, ← hcreated]
    exact Item.create_self y
  have hupdate : l.update now y = (.ok y, l.write now y) := by
    rw [htidy.update_eq, hkey, hfound]
    simp only [hmerged]
  rw [hupdate] at hanswer hnext
  exact ⟨_, Prod.ext hanswer rfl, _, hnext, htidy.write now y, hlasts,
    htidy.found?_written y hlasts⟩

/-! ## Calls at one time -/

/-- An item that is not there is created, and then it is found. -/
theorem presented_new (h : Mirrors s.store l) (htidy : l.Tidy)
    (hlasts : now < now.advance l.lifetime)
    (hnone : (s.store.get now n.user n.id).1 = .ok none) (context : Option Json) :
    ∃ s', (Call.getOrCreate n.user n.id context).perform now s =
        (.ok (.presented ⟨n.item (.new now), true⟩), s') ∧
      Finds s'.store now (n.item (.new now)) := by
  obtain ⟨-, hnext⟩ := h.get now n.user n.id
  rw [Recency.get_eq (Identity.checkAll_one n.user_valid n.id_valid)] at hnext
  have hget : Store.serve now (.get n.user n.id) s.store =
      (.ok none, (s.store.get now n.user n.id).2) := Prod.ext hnone rfl
  rw [Call.perform_getOrCreate, getOrCreate_new context hget rfl]
  exact ⟨_, rfl, Finds.of_written hnext htidy.look hlasts _⟩

/-- An item that is found is presented as it is. -/
theorem presented_again (h : Finds s.store now (n.item v)) (context : Option Json) :
    ∃ s', (Call.getOrCreate n.user n.id context).perform now s =
        (.ok (.presented ⟨n.item v, false⟩), s') ∧ Finds s'.store now (n.item v) := by
  obtain ⟨c', hget, hnext⟩ := h.get
  rw [Call.perform_getOrCreate, getOrCreate_found context hget]
  exact ⟨_, rfl, hnext⟩

/-- The version of an item that was created now and dismissed at once. -/
def Version.dismissedAtOnce (now : Instant) : Version := ⟨now, some now, by simp [Instant.le_refl]⟩

/-- An item that was created now is dismissed. -/
theorem dismissed_at_once (h : Finds s.store now (n.item (.new now))) (context : Option Json) :
    ∃ s', (Call.dismiss n.user n.id context).perform now s =
        (.ok (.transition ⟨n.item (Version.dismissedAtOnce now), n.item (.new now)⟩), s') ∧
      Finds s'.store now (n.item (Version.dismissedAtOnce now)) := by
  obtain ⟨c', hget, hnext⟩ := h.get
  obtain ⟨c'', hupdate, hlast⟩ :=
    hnext.update (y := n.item (Version.dismissedAtOnce now)) rfl rfl rfl
  have hderive : dismissal now n.user n.id (n.item (.new now)) =
      .ok (n.item (Version.dismissedAtOnce now)) := dif_pos (Instant.le_refl now)
  obtain ⟨hanswer, hstate⟩ := (dismiss_run now context n.user n.id s).eq_written
    (Identity.checkAll_one n.user_valid n.id_valid) hget hderive hupdate
  rw [Call.perform_dismiss, hanswer, hstate]
  exact ⟨_, rfl, hlast⟩

/-! ## After a run -/

/-- Out of what was done to an empty cache, something that was done since is a write that evicted a
key: the last one of a full list, in which the key that was written was new. -/
def EvictedSince (capacity : Nat) (lifetime : Span) (past since : List (Instant × Deed))
    (key : String) : Prop :=
  ∃ done t item later, past = done ++ (t, .write item) :: later ∧
    (t, .write item) :: later <:+ since ∧
    ((Recency.ofLimits capacity lifetime).after done).Evicts item key

theorem evictedSince_iff {capacity : Nat} {lifetime : Span}
    {before since : List (Instant × Deed)} {key : String} :
    EvictedSince capacity lifetime (before ++ (now, .write x) :: since) since key ↔
      (((Recency.ofLimits capacity lifetime).after before).write now x).Evicted since key := by
  have hafter (early : List (Instant × Deed)) :
      (Recency.ofLimits capacity lifetime).after (before ++ (now, .write x) :: early) =
        (((Recency.ofLimits capacity lifetime).after before).write now x).after early := by
    unfold Recency.after
    rw [List.foldl_append, List.foldl_cons]
    rfl
  constructor
  · rintro ⟨done, t, item, later, hpast, ⟨early, hsince⟩, hevicts⟩
    rw [← hsince, ← List.cons_append, ← List.append_assoc] at hpast
    have hdone := List.append_cancel_right hpast
    rw [← hdone, hafter] at hevicts
    exact ⟨early, t, item, later, hsince.symm, hevicts⟩
  · rintro ⟨early, t, item, later, rfl, hevicts⟩
    refine ⟨before ++ (now, .write x) :: early, t, item, later, by simp, ⟨early, rfl⟩, ?_⟩
    rwa [hafter]

/-- After any run, an item that was written now and that nothing took away since is found exactly if
it was not evicted. -/
theorem found_iff_not_evicted {lifetime : Span} (hlasts : now < now.advance lifetime)
    (capacity : Nat) (ops : List (Instant × Op)) {since : List (Instant × Deed)}
    (hstands : Stands (history capacity lifetime ops) now x since)
    (hclock : ∀ d ∈ since, d.2.Inspects x.key → d.1 ≤ now) :
    ((run step ops (ofLimits capacity lifetime)).2.get now x.user x.id).1 = .ok (some x) ↔
      ¬EvictedSince capacity lifetime (history capacity lifetime ops) since x.key := by
  obtain ⟨hreplies, hmirrors⟩ := (Mirrors.ofLimits capacity lifetime).run ops
  have hpast : history capacity lifetime ops =
      timeline ops (run Recency.step ops (Recency.ofLimits capacity lifetime)).1 :=
    congrArg (timeline ops) hreplies
  have hdone := Recency.run_done (Recency.Tidy.ofLimits capacity lifetime) ops
  rw [← hpast] at hdone
  rw [(hmirrors.get now x.user x.id).1]
  generalize (run Recency.step ops (Recency.ofLimits capacity lifetime)).2 = l at *
  obtain ⟨⟨before, hbefore⟩, hspares⟩ := hstands
  rw [hbefore] at hdone ⊢
  obtain ⟨hfirst, hrest⟩ := hdone.split
  have htidy := hfirst.tidy (Recency.Tidy.ofLimits capacity lifetime)
  have hlifetime : ((Recency.ofLimits capacity lifetime).after before).lifetime = lifetime :=
    hfirst.limits.2
  rw [evictedSince_iff]
  generalize (Recency.ofLimits capacity lifetime).after before = start at hrest htidy hlifetime ⊢
  cases hrest with
  | cons _ hsince => exact hsince.get_written_iff htidy hspares hclock (hlifetime ▸ hlasts)

/-- **What is written is found at once.** For every lifetime that takes any time at all, all limits,
all runs, and every instant before the last one: an item that was written at that instant, and that
nothing took away since, is found then, unless a later write evicted it. An item that is not there
is created when it is asked for; asked for again at the same time, it is found as it was created,
and a dismissal in between goes through, of which the next call knows. -/
theorem written_found_at_once {lifetime : Span} (hpos : 0 < lifetime.nanos) {now : Instant}
    (hnow : now < .latest) (capacity : Nat) (ops : List (Instant × Op)) :
    let c := (run step ops (ofLimits capacity lifetime)).2
    let past := history capacity lifetime ops
    (∀ x since, Stands past now x since → (∀ d ∈ since, d.2.Inspects x.key → d.1 ≤ now) →
      ((c.get now x.user x.id).1 = .ok (some x) ↔
        ¬EvictedSince capacity lifetime past since x.key)) ∧
    ∀ (n : Name) (told : List Event) (context context' : Option Json),
      (c.get now n.user n.id).1 = .ok none →
      let present := Call.getOrCreate n.user n.id context'
      let x := n.item (.new now)
      ∃ s, (Call.getOrCreate n.user n.id context).perform now ⟨c, told⟩ =
          (.ok (.presented ⟨x, true⟩), s) ∧
        (present.perform now s).1 = .ok (.presented ⟨x, false⟩) ∧
        ∃ y s', (Call.dismiss n.user n.id context).perform now s =
            (.ok (.transition ⟨y, x⟩), s') ∧ y.dismissed = some now ∧
          (present.perform now s').1 = .ok (.presented ⟨y, false⟩) := by
  intro c past
  have hlasts := Instant.lt_advance hpos hnow
  refine ⟨fun x since hstands hclock => found_iff_not_evicted hlasts capacity ops hstands hclock,
    fun n told context context' hnone => ?_⟩
  obtain ⟨-, hmirrors⟩ := (Mirrors.ofLimits capacity lifetime).run ops
  have htidy := (Recency.Tidy.ofLimits capacity lifetime).run ops
  have hlifetime := (Recency.run_done (Recency.Tidy.ofLimits capacity lifetime) ops).limits.2
  obtain ⟨s, hfirst, hfinds⟩ := presented_new (s := ⟨c, told⟩) hmirrors htidy
    (by rwa [hlifetime]) hnone context
  obtain ⟨s₁, hagain, -⟩ := presented_again hfinds context'
  obtain ⟨s₂, hdismissed, hfinds'⟩ := dismissed_at_once hfinds context
  obtain ⟨s₃, hlast, -⟩ := presented_again hfinds' context'
  exact ⟨s, hfirst, congrArg Prod.fst hagain, _, s₂, hdismissed, rfl, congrArg Prod.fst hlast⟩

theorem not_evictedSince_nil {capacity : Nat} {lifetime : Span} {past : List (Instant × Deed)}
    {key : String} : ¬EvictedSince capacity lifetime past [] key := by
  rintro ⟨_, _, _, _, -, hsuffix, -⟩
  simp at hsuffix

/-- Two items are written at once. -/
def twoAtOnce (now : Instant) : List (Instant × Op) :=
  [(now, .ask (.createMany [sample "a" Identity.valid_a, sample "b" Identity.valid_b]))]

theorem stands_twoAtOnce (capacity : Nat) (lifetime : Span) (now : Instant) :
    Stands (history capacity lifetime (twoAtOnce now)) now (sample "a" Identity.valid_a)
        [(now, .write (sample "b" Identity.valid_b))] ∧
      Stands (history capacity lifetime (twoAtOnce now)) now (sample "b" Identity.valid_b) [] := by
  refine ⟨⟨⟨[], rfl⟩, fun d hd => ?_⟩,
    ⟨[(now, .write (sample "a" Identity.valid_a))], rfl⟩, by simp⟩
  rw [List.mem_singleton.1 hd]
  show ¬(sample "b" Identity.valid_b).key = (sample "a" Identity.valid_a).key
  decide

/-- With room for one item, the second one is found, and has evicted the first one; a third one can
be created and found. -/
theorem written_found_at_once_two :
    let c := (run step (twoAtOnce .origin) (ofLimits 1 (.ofMillis 10))).2
    (c.get .origin "u" "b").1 = .ok (some (sample "b" Identity.valid_b)) ∧
      EvictedSince 1 (.ofMillis 10) (history 1 (.ofMillis 10) (twoAtOnce .origin))
        [(.origin, .write (sample "b" Identity.valid_b))] "u:a" ∧
      ∃ x s, (Call.getOrCreate "u" "c" none).perform .origin ⟨c, []⟩ =
          (.ok (.presented ⟨x, true⟩), s) ∧
        ((Call.getOrCreate "u" "c" none).perform .origin s).1 = .ok (.presented ⟨x, false⟩) := by
  intro c
  obtain ⟨hfirst, hsecond⟩ := stands_twoAtOnce 1 (.ofMillis 10) .origin
  obtain ⟨hfound, hcalls⟩ := written_found_at_once (show 0 < (Span.ofMillis 10).nanos by decide)
    (show Instant.origin < .latest by decide) 1 (twoAtOnce .origin)
  refine ⟨(hfound _ _ hsecond (by simp)).2 not_evictedSince_nil, ?_, ?_⟩
  · refine Classical.byContradiction fun hno => ?_
    have hstays := (hfound _ _ hfirst (by simp [Deed.Inspects])).2 hno
    have hgone : (c.get .origin "u" "a").1 = .ok none := rfl
    cases hgone.symm.trans hstays
  · obtain ⟨s, hcreated, hagain, -⟩ :=
      hcalls ⟨"u", "c", Identity.valid_u, Identity.valid_c⟩ [] none none rfl
    exact ⟨_, s, hcreated, hagain⟩

/-- **At the last instant nothing is found of what is written**: its expiry is cut off at that
instant itself. -/
theorem last_instant_loses : ¬∀ (lifetime : Span) (now : Instant) (capacity : Nat)
    (ops : List (Instant × Op)) (x : Item) (since : List (Instant × Deed)), 0 < lifetime.nanos →
    now ≤ .latest → Stands (history capacity lifetime ops) now x since →
    (∀ d ∈ since, d.2.Inspects x.key → d.1 ≤ now) →
    ¬EvictedSince capacity lifetime (history capacity lifetime ops) since x.key →
    ((run step ops (ofLimits capacity lifetime)).2.get now x.user x.id).1 = .ok (some x) := by
  intro hall
  have hfound := hall (.ofMillis 10) .latest 2 (twoAtOnce .latest) (sample "b" Identity.valid_b) []
    (by decide) (by decide) (stands_twoAtOnce 2 (.ofMillis 10) .latest).2 (by simp)
    not_evictedSince_nil
  have hlost : ((run step (twoAtOnce .latest) (ofLimits 2 (.ofMillis 10))).2.get
      .latest "u" "b").1 = .ok none := rfl
  cases hlost.symm.trans hfound

end Dismissal.Lifecycle
