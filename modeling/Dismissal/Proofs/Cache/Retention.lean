import Dismissal.Proofs.Cache.Deeds
import Dismissal.Proofs.Cache.Refinement
import Mathlib.Data.List.Dedup
import Mathlib.Data.List.Induction
import Mathlib.Data.List.Perm.Subperm

/-!
# What a cache remembers

What a cache answers now follows from what was done to it. An item that is found is that of the
latest write to its key, which nothing took away since. And such an item is found, if it has not
expired, was not met expired by a look or a purge, and fewer other keys than there is room for were
touched after its own.

* `Chronicle`: what the past says about the list. The entry of a key has only entries of keys before
  it that were touched after it.
* `Chronicle.deed`: each deed keeps it so.
* `get_follows_history`: what a look finds, after any run.
-/

namespace Dismissal.Cache

open Recency

namespace Deed

/-- The key that was found or written. -/
def touched? : Deed → Option String
  | look key hit => if hit then some key else none
  | refuse key => some key
  | write item => some item.key
  | _ => none

/-- The deed writes, drops or clears what is at a key. -/
def Overrules (key : String) : Deed → Prop
  | write item => item.key = key
  | drop other => other = key
  | clear => True
  | _ => False

/-- The deed removes what is at a key if that has expired. -/
def Inspects (key : String) : Deed → Prop
  | look other _ => other = key
  | purge => True
  | _ => False

end Deed

/-- An item was written at an instant, and nothing that was done after that wrote, dropped or
cleared what is at its key. -/
def Stands (past : List (Instant × Deed)) (t : Instant) (x : Item)
    (since : List (Instant × Deed)) : Prop :=
  (∃ before, past = before ++ (t, .write x) :: since) ∧ ∀ d ∈ since, ¬d.2.Overrules x.key

/-- The keys that were touched after a key was last touched, the latest first. -/
def touchedSince (key : String) (past : List (Instant × Deed)) : List String :=
  (past.filterMap fun d => d.2.touched?).reverse.takeWhile (· ≠ key)

section Past

variable {past since since' : List (Instant × Deed)} {t t' now : Instant} {x x' : Item} {d : Deed}
  {key other : String}

/-- At each key one item stands at most. -/
theorem Stands.unique (h : Stands past t x since) (h' : Stands past t' x' since')
    (hkey : x.key = x'.key) : t = t' ∧ x = x' ∧ since = since' := by
  obtain ⟨⟨before, hpast⟩, hsince⟩ := h
  obtain ⟨⟨before', hpast'⟩, hsince'⟩ := h'
  -- the earlier of two writes would be overruled by the later one
  rcases List.append_eq_append_iff.1 (hpast.symm.trans hpast') with
    ⟨rest, -, heq⟩ | ⟨rest, -, heq⟩
  · cases rest with
    | nil =>
      cases heq
      exact ⟨rfl, rfl, rfl⟩
    | cons first rest =>
      obtain ⟨-, rfl⟩ := List.cons_eq_cons.1 heq
      exact absurd hkey.symm (hsince (t', .write x') (by simp))
  · cases rest with
    | nil =>
      cases heq
      exact ⟨rfl, rfl, rfl⟩
    | cons first rest =>
      obtain ⟨-, rfl⟩ := List.cons_eq_cons.1 heq
      exact absurd hkey (hsince' (t, .write x) (by simp))

theorem stands_write (past : List (Instant × Deed)) (now : Instant) (x : Item) :
    Stands (past ++ [(now, .write x)]) now x [] :=
  ⟨⟨past, rfl⟩, by simp⟩

theorem Stands.snoc (h : Stands past t x since) (hd : ¬d.Overrules x.key) :
    Stands (past ++ [(now, d)]) t x (since ++ [(now, d)]) := by
  obtain ⟨⟨before, rfl⟩, hsince⟩ := h
  refine ⟨⟨before, by simp⟩, fun other hmem => ?_⟩
  rcases List.mem_append.1 hmem with hmem | hmem
  · exact hsince other hmem
  · rw [List.mem_singleton.1 hmem]
    exact hd

/-- What stands was written just now, or stood before and was not overruled. -/
theorem Stands.of_snoc (h : Stands (past ++ [(now, d)]) t x since) :
    (t = now ∧ d = .write x) ∨
      ∃ rest, since = rest ++ [(now, d)] ∧ Stands past t x rest ∧ ¬d.Overrules x.key := by
  obtain ⟨⟨before, hpast⟩, hsince⟩ := h
  cases since using List.reverseRecOn with
  | nil =>
    obtain ⟨-, hlast⟩ := List.append_inj' hpast rfl
    cases hlast
    exact .inl ⟨rfl, rfl⟩
  | append_singleton rest last =>
    rw [← List.cons_append, ← List.append_assoc] at hpast
    obtain ⟨rfl, hlast⟩ := List.append_inj' hpast rfl
    cases hlast
    refine .inr ⟨rest, rfl, ⟨⟨before, rfl⟩, fun other hmem => ?_⟩, ?_⟩
    · exact hsince other (List.mem_append_left _ hmem)
    · exact hsince _ (List.mem_append_right _ List.mem_cons_self)

theorem touchedSince_quiet (h : d.touched? = none) :
    touchedSince key (past ++ [(now, d)]) = touchedSince key past := by
  simp [touchedSince, h]

theorem touchedSince_other (h : d.touched? = some other) (hne : other ≠ key) :
    touchedSince key (past ++ [(now, d)]) = other :: touchedSince key past := by
  simp [touchedSince, h, hne]

/-- What was touched since is still so after one more deed that does not touch the key. -/
theorem touchedSince_subset (h : d.touched? ≠ some key) :
    touchedSince key past ⊆ touchedSince key (past ++ [(now, d)]) := by
  cases htouched : d.touched? with
  | none =>
    rw [touchedSince_quiet htouched]
    exact List.Subset.refl _
  | some other =>
    have hne : other ≠ key := by
      rintro rfl
      exact h htouched
    rw [touchedSince_other htouched hne]
    exact List.subset_cons_self _ _

/-- Different keys are no more than those of a list that holds them all. -/
theorem length_le_dedup {keys others : List String} (hnodup : keys.Nodup) (hsub : keys ⊆ others) :
    keys.length ≤ others.dedup.length :=
  (List.subperm_of_subset hnodup fun _ hk => List.mem_dedup.2 (hsub hk)).length_le

end Past

namespace Recency

/-- The entry of an item is there, and before it there are only entries of some keys. -/
def Behind (l : Recency) (keys : List String) (t : Instant) (x : Item) : Prop :=
  ∃ ahead behind, l.entries = ahead ++ ⟨x.key, x, t.advance l.lifetime⟩ :: behind ∧
    ∀ e ∈ ahead, e.key ∈ keys

/-- What the past says about a list: each entry is that of an item that stands. And an item that
stands is there, if it was not met expired and there is room for the keys touched after its own,
which are those of the entries before its own. -/
structure Chronicle (past : List (Instant × Deed)) (l : Recency) : Prop where
  tidy : l.Tidy
  sound : ∀ e ∈ l.entries, ∃ t since, Stands past t e.item since ∧
    e.expires = t.advance l.lifetime
  retained : ∀ t x since, Stands past t x since →
    (∀ d ∈ since, d.2.Inspects x.key → d.1 < t.advance l.lifetime) →
    (touchedSince x.key past).dedup.length < l.capacity → l.Behind (touchedSince x.key past) t x

section Lists

variable {l : Recency} {past : List (Instant × Deed)} {es : List Entry} {e : Entry}
  {keys : List String} {now t : Instant} {x : Item} {key : String} {d : Deed}

/-- An entry that is kept when others are left out has the same before it, or less. -/
theorem Behind.filter (h : l.Behind keys t x) {p : Entry → Bool}
    (hp : p ⟨x.key, x, t.advance l.lifetime⟩ = true) :
    ({ l with entries := l.entries.filter p } : Recency).Behind keys t x := by
  obtain ⟨ahead, behind, hentries, hahead⟩ := h
  refine ⟨ahead.filter p, behind.filter p, ?_, fun e he => hahead e (List.mem_filter.1 he).1⟩
  simp only
  rw [hentries, List.filter_append, List.filter_cons_of_pos hp]

/-- An entry that comes to the front is before it. -/
theorem Behind.front (h : l.Behind keys t x) (hne : e.key ≠ x.key) :
    ({ l with entries := e :: without l.entries e.key } : Recency).Behind (e.key :: keys) t x := by
  obtain ⟨ahead, behind, hentries, hahead⟩ := h.filter
    (p := fun e' => decide (e'.key ≠ e.key)) (decide_eq_true (Ne.symm hne))
  refine ⟨e :: ahead, behind, ?_, fun e' he' => ?_⟩
  · exact congrArg (e :: ·) hentries
  · rcases List.mem_cons.1 he' with rfl | he'
    · exact List.mem_cons_self
    · exact List.mem_cons_of_mem _ (hahead e' he')

/-- While there is room for all keys before it and for one more, it is not the last one of a full
list. -/
theorem Behind.dropLast (h : l.Behind keys t x) (htidy : l.Tidy)
    (hnew : entryOf? l.entries e.key = none) (hfull : l.capacity ≤ l.entries.length)
    (hroom : (e.key :: keys).dedup.length < l.capacity) :
    ({ l with entries := e :: l.entries.dropLast } : Recency).Behind (e.key :: keys) t x := by
  obtain ⟨ahead, behind, hentries, hahead⟩ := h
  have hdistinct := htidy.distinct
  rw [hentries, List.map_append] at hdistinct
  have hnodup : (e.key :: ahead.map Entry.key).Nodup := by
    refine List.nodup_cons.2 ⟨fun hmem => ?_, hdistinct.of_append_left⟩
    obtain ⟨y, hy, hkey⟩ := List.mem_map.1 hmem
    refine entryOf?_eq_none_iff.1 hnew y ?_ hkey
    rw [hentries]
    exact List.mem_append_left _ hy
  have hsub : e.key :: ahead.map Entry.key ⊆ e.key :: keys := by
    refine List.cons_subset_cons _ fun k hk => ?_
    obtain ⟨y, hy, rfl⟩ := List.mem_map.1 hk
    exact hahead y hy
  have hlength := length_le_dedup hnodup hsub
  have hbehind : behind ≠ [] := by
    rintro rfl
    rw [hentries, List.length_append, List.length_singleton] at hfull
    rw [List.length_cons, List.length_map] at hlength
    omega
  refine ⟨e :: ahead, behind.dropLast, ?_, fun e' he' => ?_⟩
  · simp only
    rw [hentries, List.dropLast_append_of_ne_nil (List.cons_ne_nil _ _),
      List.dropLast_cons_of_ne_nil hbehind]
    rfl
  · rcases List.mem_cons.1 he' with rfl | he'
    · exact List.mem_cons_self
    · exact List.mem_cons_of_mem _ (hahead e' he')

end Lists

namespace Chronicle

variable {l : Recency} {past : List (Instant × Deed)} {e : Entry} {now t : Instant} {x : Item}
  {key : String} {d : Deed}

/-- The entry of a key is that of the item that stands there. -/
theorem entry_of_stands (h : Chronicle past l) {since : List (Instant × Deed)}
    (hfind : entryOf? l.entries x.key = some e) (hstands : Stands past t x since) :
    e = ⟨x.key, x, t.advance l.lifetime⟩ := by
  obtain ⟨hmem, hkey⟩ := entryOf?_some hfind
  obtain ⟨t', since', hstands', hexpires⟩ := h.sound e hmem
  obtain ⟨rfl, rfl, -⟩ := hstands'.unique hstands (by rw [← h.tidy.keyed e hmem, hkey])
  rw [← hkey, ← hexpires]

/-- Fewer keys were touched before the last deed, unless it touched the key. -/
theorem room_before {capacity : Nat} (h : d.touched? ≠ some key)
    (hroom : (touchedSince key (past ++ [(now, d)])).dedup.length < capacity) :
    (touchedSince key past).dedup.length < capacity := by
  have hsub : (touchedSince key past).dedup ⊆ touchedSince key (past ++ [(now, d)]) :=
    fun k hk => touchedSince_subset h (List.mem_dedup.1 hk)
  exact Nat.lt_of_le_of_lt (length_le_dedup (List.nodup_dedup _) hsub) hroom

/-- A deed that touches nothing leaves entries out, but for those it must keep. -/
theorem quiet (h : Chronicle past l) (hquiet : d.touched? = none) {p : Entry → Bool}
    (hgone : ∀ e ∈ l.entries, p e = true → ¬d.Overrules e.key)
    (hkept : ∀ (t : Instant) (x : Item), ¬d.Overrules x.key →
      (d.Inspects x.key → now < t.advance l.lifetime) →
      (⟨x.key, x, t.advance l.lifetime⟩ : Entry) ∈ l.entries →
      p ⟨x.key, x, t.advance l.lifetime⟩ = true) :
    Chronicle (past ++ [(now, d)]) { l with entries := l.entries.filter p } where
  tidy := h.tidy.sublist List.filter_sublist
  sound e he := by
    obtain ⟨hmem, hp⟩ := List.mem_filter.1 he
    obtain ⟨t, since, hstands, hexpires⟩ := h.sound e hmem
    have hoverrules := hgone e hmem hp
    rw [h.tidy.keyed e hmem] at hoverrules
    exact ⟨t, _, hstands.snoc hoverrules, hexpires⟩
  retained t x since hstands hinspects hroom := by
    rcases hstands.of_snoc with ⟨-, rfl⟩ | ⟨rest, rfl, hstands, hoverrules⟩
    · cases hquiet
    · rw [touchedSince_quiet hquiet] at hroom ⊢
      have hbehind := h.retained t x rest hstands
        (fun d hd => hinspects d (List.mem_append_left _ hd)) hroom
      have hmem : (⟨x.key, x, t.advance l.lifetime⟩ : Entry) ∈ l.entries := by
        obtain ⟨ahead, behind, hentries, -⟩ := hbehind
        rw [hentries]
        simp
      exact hbehind.filter (hkept t x hoverrules
        (hinspects (now, d) (List.mem_append_right _ List.mem_cons_self)) hmem)

/-- A look that finds an item, and an update that is refused for it, bring its entry to the
front. -/
theorem hit (h : Chronicle past l) (hhit : l.hits key now = true) (htouched : d.touched? = some key)
    (hspares : ∀ other, ¬d.Overrules other) :
    Chronicle (past ++ [(now, d)]) (l.look key now).2 := by
  have htidy : (l.look key now).2.Tidy := h.tidy.look
  obtain ⟨e, hfind, -, -, hnext⟩ := look_hit hhit
  rw [hnext] at htidy ⊢
  obtain ⟨hmem, rfl⟩ := entryOf?_some hfind
  refine ⟨htidy, fun e' he' => ?_, fun t x since hstands hinspects hroom => ?_⟩
  · have hmem' : e' ∈ l.entries := by
      rcases List.mem_cons.1 he' with rfl | he'
      · exact hmem
      · exact (mem_without.1 he').1
    obtain ⟨t, since, hstands, hexpires⟩ := h.sound e' hmem'
    exact ⟨t, _, hstands.snoc (hspares _), hexpires⟩
  · rcases hstands.of_snoc with ⟨-, rfl⟩ | ⟨rest, rfl, hstands, -⟩
    · exact absurd rfl (hspares x.key)
    · by_cases heq : e.key = x.key
      · rw [heq] at hfind
        have hentry := h.entry_of_stands hfind hstands
        refine ⟨[], without l.entries e.key, ?_, by simp⟩
        exact congrArg (· :: without l.entries e.key) hentry
      · have hother : d.touched? ≠ some x.key := by
          rw [htouched]
          exact fun hsome => heq (Option.some.inj hsome)
        have hbehind := h.retained t x rest hstands
          (fun d hd => hinspects d (List.mem_append_left _ hd)) (room_before hother hroom)
        rw [touchedSince_other htouched heq]
        exact hbehind.front heq

theorem write (h : Chronicle past l) (now : Instant) (item : Item) :
    Chronicle (past ++ [(now, .write item)]) (l.write now item) := by
  have htidy := h.tidy.write now item
  -- an entry that stays is under another key than the item
  have hold (e : Entry) (hmem : e ∈ l.entries) (hne : e.key ≠ item.key) :
      ∃ t since, Stands (past ++ [(now, .write item)]) t e.item since ∧
        e.expires = t.advance l.lifetime := by
    obtain ⟨t, since, hstands, hexpires⟩ := h.sound e hmem
    refine ⟨t, _, hstands.snoc fun hsame => hne ?_, hexpires⟩
    rw [h.tidy.keyed e hmem]
    exact hsame.symm
  have hnew : ∃ t since, Stands (past ++ [(now, .write item)]) t item since ∧
      now.advance l.lifetime = t.advance l.lifetime := ⟨now, [], stands_write past now item, rfl⟩
  refine ⟨htidy, fun e he => ?_, fun t x since hstands hinspects hroom => ?_⟩
  · rcases write_cases l now item with ⟨-, hentries⟩ | ⟨hfind, -, hentries⟩ <;>
      rw [hentries] at he <;> rcases List.mem_cons.1 he with rfl | he
    · exact hnew
    · exact hold e (mem_without.1 he).1 (mem_without.1 he).2
    · exact hnew
    · have hmem := List.dropLast_subset _ he
      exact hold e hmem (entryOf?_eq_none_iff.1 hfind e hmem)
  · rcases hstands.of_snoc with ⟨rfl, hwrite⟩ | ⟨rest, rfl, hstands, hoverrules⟩
    · cases hwrite
      rcases write_cases l t item with ⟨-, hentries⟩ | ⟨-, -, hentries⟩
      · exact ⟨[], _, hentries, by simp⟩
      · exact ⟨[], _, hentries, by simp⟩
    · have hother : (Deed.write item).touched? ≠ some x.key :=
        fun hsome => hoverrules (Option.some.inj hsome)
      have hbehind := h.retained t x rest hstands
        (fun d hd => hinspects d (List.mem_append_left _ hd)) (room_before hother hroom)
      rw [touchedSince_other rfl hoverrules] at hroom ⊢
      have hput : ({ l with entries := (l.write now item).entries } : Recency).Behind
          (item.key :: touchedSince x.key past) t x := by
        rcases write_cases l now item with ⟨-, hentries⟩ | ⟨hfind, hfull, hentries⟩ <;>
          rw [hentries]
        · exact hbehind.front (e := ⟨item.key, item, now.advance l.lifetime⟩) hoverrules
        · exact hbehind.dropLast (e := ⟨item.key, item, now.advance l.lifetime⟩) h.tidy hfind hfull
            hroom
      exact hput

/-- **Each deed keeps the past and the list in step.** -/
theorem deed (h : Chronicle past l) (hadmits : l.Admits now d) :
    Chronicle (past ++ [(now, d)]) (l.enact now d) := by
  cases d with
  | look key hit =>
    cases hit with
    | true => exact h.hit hadmits rfl fun _ => not_false
    | false =>
      show Chronicle _ (l.look key now).2
      rw [(look_miss hadmits).2]
      refine h.quiet rfl (fun _ _ _ => not_false) fun t x _ hinspects hmem => ?_
      -- were the entry that of the key, then the look would have found it
      refine decide_eq_true fun hkey => ?_
      simp only at hkey
      have halive : now < t.advance l.lifetime := hinspects hkey.symm
      have hfind := h.tidy.entryOf?_of_mem hmem
      rw [hkey] at hfind
      have hhit := hits_iff.2 ⟨_, hfind, halive⟩
      rw [show l.hits key now = false from hadmits] at hhit
      cases hhit
  | refuse key => exact h.hit hadmits rfl fun _ => not_false
  | write item => exact h.write now item
  | drop key =>
    refine h.quiet rfl (fun e _ hp => ?_) fun t x hoverrules _ _ => ?_
    · exact Ne.symm (of_decide_eq_true hp)
    · exact decide_eq_true (Ne.symm hoverrules)
  | clear =>
    have hnone : l.entries.filter (fun _ => false) = [] := by simp
    show Chronicle _ { l with entries := [] }
    rw [← hnone]
    exact h.quiet rfl (by simp) fun _ _ hoverrules => absurd trivial hoverrules
  | purge =>
    refine h.quiet rfl (fun _ _ _ => not_false) fun t x _ hinspects _ => ?_
    exact decide_eq_true (Instant.lt_iff_not_le.1 (hinspects trivial))

theorem done {l' : Recency} {ds : List (Instant × Deed)} (h : Chronicle past l)
    (hdone : Done l ds l') : Chronicle (past ++ ds) l' := by
  induction hdone generalizing past with
  | nil =>
    rw [List.append_nil]
    exact h
  | @cons l l' now d ds hadmits _ ih =>
    rw [List.append_cons]
    exact ih (h.deed hadmits)

theorem ofLimits (capacity : Nat) (lifetime : Span) :
    Chronicle [] (Recency.ofLimits capacity lifetime) where
  tidy := .ofLimits capacity lifetime
  sound := by simp [Recency.ofLimits]
  retained t x since hstands := by
    obtain ⟨⟨before, hpast⟩, -⟩ := hstands
    simp at hpast

end Chronicle

end Recency

/-! ## After a run -/

/-- What operations did to an empty cache, as their replies tell. -/
def history (capacity : Nat) (lifetime : Span) (ops : List (Instant × Op)) :
    List (Instant × Deed) :=
  timeline ops (run step ops (ofLimits capacity lifetime)).1

/-- **A look finds what the past says.** For all limits and all runs from the empty cache, whatever
the clock says: an item that is found is that of the latest write to its key, nothing took it away
since, and it has not expired. And such an item is found, unless a look at it or a purge came when
it had expired, or at least as many other keys as there is room for were touched after its own. -/
theorem get_follows_history (capacity : Nat) (lifetime : Span) (ops : List (Instant × Op))
    (now : Instant) (user id : String) :
    let c := (run step ops (ofLimits capacity lifetime)).2
    let past := history capacity lifetime ops
    (∀ x, (c.get now user id).1 = .ok (some x) → x.user = user ∧ x.id = id ∧
      ∃ t since, Stands past t x since ∧ now < t.advance lifetime) ∧
    ∀ t x since, Stands past t x since → x.user = user → x.id = id →
      (∀ d ∈ since, d.2.Inspects x.key → d.1 < t.advance lifetime) → now < t.advance lifetime →
      (touchedSince x.key past).dedup.length < max capacity 1 →
      (c.get now user id).1 = .ok (some x) := by
  intro c past
  obtain ⟨hreplies, hmirrors⟩ := (Mirrors.ofLimits capacity lifetime).run ops
  have hpast : past = timeline ops (run Recency.step ops (Recency.ofLimits capacity lifetime)).1 :=
    congrArg (timeline ops) hreplies
  have hdone := run_done (Tidy.ofLimits capacity lifetime) ops
  have hchronicle := (Chronicle.ofLimits capacity lifetime).done hdone
  rw [List.nil_append, ← hpast] at hchronicle
  obtain ⟨hcapacity, hlifetime⟩ := hdone.limits
  generalize (run Recency.step ops (Recency.ofLimits capacity lifetime)).2 = l at *
  change l.capacity = max capacity 1 at hcapacity
  change l.lifetime = lifetime at hlifetime
  rw [(hmirrors.get now user id).1]
  constructor
  · intro x hfound
    obtain ⟨⟨huser, hid⟩, e, he, rfl, halive⟩ := hchronicle.tidy.get_iff.1 hfound
    obtain ⟨t, since, hstands, hexpires⟩ := hchronicle.sound e he
    rw [hexpires, hlifetime] at halive
    exact ⟨huser, hid, t, since, hstands, halive⟩
  · intro t x since hstands huser hid hinspects halive hroom
    rw [← hlifetime] at hinspects halive
    rw [← hcapacity] at hroom
    obtain ⟨ahead, behind, hentries, -⟩ := hchronicle.retained t x since hstands hinspects hroom
    have hmem : (⟨x.key, x, t.advance l.lifetime⟩ : Entry) ∈ l.entries := by
      rw [hentries]
      simp
    exact hchronicle.tidy.get_iff.2 ⟨⟨huser, hid⟩, _, hmem, rfl, halive⟩

/-- Some milliseconds after the clock starts. -/
def afterMillis (ms : Nat) : Instant := Instant.origin.advance (.ofMillis ms)

/-- An item of a user, created when the clock starts. -/
def sample (id : String) (h : Identity.Valid id) : Item :=
  ⟨id, "u", .origin, none, h, by decide, by simp⟩

/-- Two items are written, and the first one is looked at after that. -/
def usedInTurn : List (Instant × Op) :=
  [(afterMillis 0, .ask (.create (sample "a" (by decide)))),
    (afterMillis 5, .ask (.create (sample "b" (by decide)))), (afterMillis 6, .ask (.get "u" "a"))]

/-- With room for two items, the second one is found: one other key was touched after its own. It is
the item of the latest write, which is less than ten milliseconds old. -/
theorem usedInTurn_found :
    let c := (run step usedInTurn (ofLimits 2 (.ofMillis 10))).2
    (c.get (afterMillis 7) "u" "b").1 = .ok (some (sample "b" (by decide))) ∧
      ∃ t since, Stands (history 2 (.ofMillis 10) usedInTurn) t (sample "b" (by decide)) since ∧
        afterMillis 7 < t.advance (.ofMillis 10) := by
  have hpast : history 2 (.ofMillis 10) usedInTurn =
      [(afterMillis 0, .write (sample "a" (by decide)))] ++
        (afterMillis 5, .write (sample "b" (by decide))) ::
          [(afterMillis 6, .look "u:a" true)] := rfl
  have hstands : Stands (history 2 (.ofMillis 10) usedInTurn) (afterMillis 5)
      (sample "b" (by decide)) [(afterMillis 6, .look "u:a" true)] :=
    ⟨⟨_, hpast⟩, by simp [Deed.Overrules]⟩
  obtain ⟨hsound, hretained⟩ :=
    get_follows_history 2 (.ofMillis 10) usedInTurn (afterMillis 7) "u" "b"
  have hinspects : ∀ d ∈ [(afterMillis 6, Deed.look "u:a" true)],
      d.2.Inspects (sample "b" (by decide)).key → d.1 < (afterMillis 5).advance (.ofMillis 10) := by
    intro d hd _
    rw [List.mem_singleton.1 hd]
    decide
  have hfound := hretained _ _ _ hstands rfl rfl hinspects (by decide) (by decide)
  exact ⟨hfound, (hsound _ hfound).2.2⟩

end Dismissal.Cache
