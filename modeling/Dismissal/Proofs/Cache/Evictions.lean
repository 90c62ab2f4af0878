import Dismissal.Proofs.Cache.Retention

/-!
# Evictions

An entry of the plain list goes in three ways: its key is overruled, it is met when it has expired,
or the write of a new key evicts it, being the last of a full list. So what was written stays until
one of these has happened, and where the first two are ruled out, evictions are all that there is
(`Done.entryOf?_iff`).

* `Tidy.entryOf?_enact`: what one deed does to the entry of a key.
* `Done.entryOf?_iff`: what a run of deeds does to it.
* `Tidy.found?_written`: a look finds what was just written.
* `Done.get_written_iff`: what was written is found until it is evicted.
-/

namespace Dismissal.Cache.Recency

variable {l l' : Recency} {es : List Entry} {e : Entry} {now : Instant} {d : Deed}
  {ds ds' : List (Instant × Deed)} {item x : Item} {key : String}

/-! ## Deeds and the list that they lead to -/

/-- The list that deeds lead to, done one by one. -/
def after (l : Recency) (ds : List (Instant × Deed)) : Recency :=
  ds.foldl (fun l d => l.enact d.1 d.2) l

/-- Some deeds are done before the others. -/
theorem Done.split (h : Done l (ds ++ ds') l') :
    Done l ds (l.after ds) ∧ Done (l.after ds) ds' l' := by
  induction ds generalizing l with
  | nil => exact ⟨.nil l, h⟩
  | cons d ds ih =>
    cases h with
    | cons hadmits hrest =>
      obtain ⟨hds, hds'⟩ := ih hrest
      exact ⟨.cons hadmits hds, hds'⟩

theorem Tidy.enact (h : l.Tidy) (now : Instant) (d : Deed) : (l.enact now d).Tidy := by
  cases d with
  | look key hit => exact h.look
  | refuse key => exact h.look
  | write item => exact h.write now item
  | drop key => exact h.sublist List.filter_sublist
  | clear => exact h.sublist (List.nil_sublist _)
  | purge => exact h.sublist List.filter_sublist

theorem Done.tidy (h : Done l ds l') (htidy : l.Tidy) : l'.Tidy := by
  induction h with
  | nil => exact htidy
  | @cons _ _ now d _ _ _ ih => exact ih (htidy.enact now d)

/-! ## Evictions -/

/-- The write of an item drops the entry of another key: that is the last one, and for a new key
there is no room. -/
structure Evicts (l : Recency) (item : Item) (key : String) : Prop where
  new : entryOf? l.entries item.key = none
  full : l.capacity ≤ l.entries.length
  last : l.entries.getLast?.map Entry.key = some key

theorem Evicts.there (h : l.Evicts item key) : entryOf? l.entries key ≠ none := by
  obtain ⟨e, hlast, hkey⟩ := Option.map_eq_some_iff.1 h.last
  intro hnone
  exact entryOf?_eq_none_iff.1 hnone e (List.mem_of_getLast? hlast) hkey

/-- One of several deeds is a write that drops the entry of a key. -/
def Evicted (l : Recency) (ds : List (Instant × Deed)) (key : String) : Prop :=
  ∃ early now item later, ds = early ++ (now, .write item) :: later ∧
    (l.after early).Evicts item key

theorem evicted_cons : l.Evicted ((now, d) :: ds) key ↔
    (∃ item, d = .write item ∧ l.Evicts item key) ∨ (l.enact now d).Evicted ds key := by
  constructor
  · rintro ⟨early, t, item, later, hds, hevicts⟩
    cases early with
    | nil =>
      cases hds
      exact .inl ⟨item, rfl, hevicts⟩
    | cons first early =>
      cases hds
      exact .inr ⟨early, t, item, later, rfl, hevicts⟩
  · rintro (⟨item, rfl, hevicts⟩ | ⟨early, t, item, later, rfl, hevicts⟩)
    · exact ⟨[], now, item, ds, rfl, hevicts⟩
    · exact ⟨(now, d) :: early, t, item, later, rfl, hevicts⟩

/-! ## The entry of a key -/

/-- If entries of other keys are left out, a key keeps its entry. -/
theorem Tidy.entryOf?_sublist (h : l.Tidy) (hes : es.Sublist l.entries)
    (hkept : ∀ e ∈ l.entries, e.key = key → e ∈ es) :
    entryOf? es key = entryOf? l.entries key := by
  cases hfind : entryOf? l.entries key with
  | none => exact entryOf?_eq_none_iff.2 fun e he => entryOf?_eq_none_iff.1 hfind e (hes.subset he)
  | some e =>
    obtain ⟨hmem, rfl⟩ := entryOf?_some hfind
    exact (h.sublist hes).entryOf?_of_mem (hkept e hmem rfl)

theorem entryOf?_cons_of_ne (h : e.key ≠ key) : entryOf? (e :: es) key = entryOf? es key := by
  unfold entryOf?
  exact List.find?_cons_of_neg (by simpa using h)

/-- Without its last entry, a list has the entries of all keys but that one's. -/
theorem Tidy.entryOf?_dropLast (h : l.Tidy) (hlast : l.entries.getLast?.map Entry.key ≠ some key) :
    entryOf? l.entries.dropLast key = entryOf? l.entries key := by
  refine h.entryOf?_sublist (List.dropLast_sublist _) fun e he hkey => ?_
  rcases List.eq_nil_or_concat' l.entries with hnil | ⟨init, last, hentries⟩
  · rw [hnil] at he
    cases he
  · rw [hentries] at he hlast ⊢
    rw [List.getLast?_concat] at hlast
    rw [List.dropLast_concat]
    rcases List.mem_append.1 he with he | he
    · exact he
    · rw [List.mem_singleton.1 he] at hkey
      exact absurd (congrArg some hkey) hlast

/-- The last entry is the only one of its key. -/
theorem Tidy.entryOf?_dropLast_self (h : l.Tidy)
    (hlast : l.entries.getLast?.map Entry.key = some key) :
    entryOf? l.entries.dropLast key = none := by
  rcases List.eq_nil_or_concat' l.entries with hnil | ⟨init, last, hentries⟩
  · rw [hnil] at hlast
    cases hlast
  · have hdistinct := h.distinct
    rw [hentries] at hdistinct hlast ⊢
    rw [List.getLast?_concat] at hlast
    rw [List.dropLast_concat, entryOf?_eq_none_iff]
    rw [List.map_append, List.nodup_append] at hdistinct
    intro e he hkey
    refine hdistinct.2.2 e.key (List.mem_map_of_mem he) last.key (by simp) ?_
    exact hkey.trans (Option.some.inj hlast).symm

theorem Tidy.entryOf?_write (h : l.Tidy) (now : Instant) (hne : item.key ≠ key) :
    (l.Evicts item key → entryOf? (l.write now item).entries key = none) ∧
      (¬l.Evicts item key → entryOf? (l.write now item).entries key = entryOf? l.entries key) := by
  rcases l.write_cases now item with ⟨hroom, heq⟩ | ⟨hnew, hfull, heq⟩
  · constructor
    · intro hevicts
      exact absurd (hroom hevicts.new) (Nat.not_lt.2 hevicts.full)
    · intro _
      rw [heq, entryOf?_cons_of_ne hne, entryOf?_without hne]
  · rw [heq, entryOf?_cons_of_ne hne]
    refine ⟨fun hevicts => h.entryOf?_dropLast_self hevicts.last, fun hno => ?_⟩
    exact h.entryOf?_dropLast fun hlast => hno ⟨hnew, hfull, hlast⟩

/-- A look at a key leaves every key its entry, if what it is for has not expired. -/
theorem entryOf?_look {other : String} (halive : other = key → ∀ e,
      entryOf? l.entries key = some e → now < e.expires) :
    entryOf? (l.look other now).2.entries key = entryOf? l.entries key := by
  cases hhit : l.hits other now with
  | true =>
    obtain ⟨e, hfind, -, -, hnext⟩ := look_hit hhit
    rw [hnext]
    exact entryOf?_front hfind key
  | false =>
    rw [(look_miss hhit).2]
    by_cases heq : other = key
    · subst heq
      have hnone : entryOf? l.entries other = none := by
        refine Option.eq_none_iff_forall_ne_some.2 fun e he => ?_
        have hhit' := hits_iff.2 ⟨e, he, halive rfl e he⟩
        rw [hhit] at hhit'
        cases hhit'
      rw [without_eq_self hnone]
    · exact entryOf?_without heq

/-- **What one deed does to the entry of a key** that it does not overrule, and does not meet when
it has expired: nothing, unless it evicts it. -/
theorem Tidy.entryOf?_enact (h : l.Tidy) (hadmits : l.Admits now d) (hspares : ¬d.Overrules key)
    (halive : d.Inspects key → ∀ e, entryOf? l.entries key = some e → now < e.expires)
    (hstays : ∀ item, d = .write item → ¬l.Evicts item key) :
    entryOf? (l.enact now d).entries key = entryOf? l.entries key := by
  cases d with
  | look other hit => exact entryOf?_look halive
  | refuse other =>
    obtain ⟨e, hfind, -, -, hnext⟩ := look_hit hadmits
    show entryOf? (l.look other now).2.entries key = _
    rw [hnext]
    exact entryOf?_front hfind key
  | write item => exact (h.entryOf?_write now hspares).2 (hstays item rfl)
  | drop other => exact entryOf?_without hspares
  | clear => exact absurd trivial hspares
  | purge =>
    refine h.entryOf?_sublist List.filter_sublist fun e he hkey => ?_
    have hlater := halive trivial e (hkey ▸ h.entryOf?_of_mem he)
    exact List.mem_filter.2 ⟨he, decide_eq_true (Instant.lt_iff_not_le.1 hlater)⟩

/-- A key that has no entry gets none from deeds that do not overrule it. -/
theorem Done.entryOf?_none (hdone : Done l ds l') (h : l.Tidy)
    (hspares : ∀ d ∈ ds, ¬d.2.Overrules key) (hnone : entryOf? l.entries key = none) :
    entryOf? l'.entries key = none := by
  induction hdone with
  | nil => exact hnone
  | @cons l l' now d ds hadmits _ ih =>
    obtain ⟨hfirst, hrest⟩ := List.forall_mem_cons.1 hspares
    refine ih (h.enact now d) hrest ?_
    rw [h.entryOf?_enact hadmits hfirst, hnone]
    · intro _ e he
      rw [hnone] at he
      cases he
    · exact fun item _ hevicts => hevicts.there hnone

/-- **An entry stays until it is evicted**, as long as its key is not overruled and it has not
expired when it is met. -/
theorem Done.entryOf?_iff (hdone : Done l ds l') (h : l.Tidy)
    (hspares : ∀ d ∈ ds, ¬d.2.Overrules key) (hfind : entryOf? l.entries key = some e)
    (halive : ∀ d ∈ ds, d.2.Inspects key → d.1 < e.expires) :
    (l.Evicted ds key → entryOf? l'.entries key = none) ∧
      (¬l.Evicted ds key → entryOf? l'.entries key = some e) := by
  induction hdone with
  | nil l =>
    refine ⟨fun hevicted => ?_, fun _ => hfind⟩
    obtain ⟨early, _, _, _, hds, -⟩ := hevicted
    simp at hds
  | @cons l l' now d ds hadmits hrest ih =>
    obtain ⟨hfirst, hlater⟩ := List.forall_mem_cons.1 hspares
    obtain ⟨hnow, hexpires⟩ := List.forall_mem_cons.1 halive
    rw [evicted_cons]
    by_cases hhead : ∃ item, d = .write item ∧ l.Evicts item key
    · -- evicted now, the entry is gone for good
      obtain ⟨item, rfl, hevicts⟩ := hhead
      refine ⟨fun _ => ?_, fun hno => absurd (.inl ⟨item, rfl, hevicts⟩) hno⟩
      exact hrest.entryOf?_none (h.enact now _) hlater ((h.entryOf?_write now hfirst).1 hevicts)
    · have hsame : entryOf? (l.enact now d).entries key = some e := by
        rw [← hfind]
        refine h.entryOf?_enact hadmits hfirst (fun hinspects e' he' => ?_) fun item hd hevicts =>
          hhead ⟨item, hd, hevicts⟩
        cases hfind.symm.trans he'
        exact hnow hinspects
      obtain ⟨hgone, hstays⟩ := ih (h.enact now d) hlater hsame hexpires
      exact ⟨fun hevicted => hgone (hevicted.resolve_left hhead),
        fun hno => hstays fun hevicted => hno (.inr hevicted)⟩

/-! ## What is found -/

theorem mem_write (l : Recency) (now : Instant) (x : Item) :
    ⟨x.key, x, now.advance l.lifetime⟩ ∈ (l.write now x).entries := by
  rcases l.write_cases now x with ⟨-, heq⟩ | ⟨-, -, heq⟩ <;>
  · rw [heq]
    exact List.mem_cons_self

/-- A look finds an item that was just written, if it does not expire at once. -/
theorem Tidy.found?_written (h : l.Tidy) (x : Item) (hlasts : now < now.advance l.lifetime) :
    found? ((l.write now x).look x.key now).1 = some x :=
  (h.write now x).found?_look_iff.2 ⟨_, l.mem_write now x, rfl, rfl, hlasts⟩

/-- **What was written now is found exactly if it was not evicted since**, if it does not expire at
once, and nothing else could have taken it away. -/
theorem Done.get_written_iff (hdone : Done (l.write now x) ds l') (h : l.Tidy)
    (hspares : ∀ d ∈ ds, ¬d.2.Overrules x.key) (hclock : ∀ d ∈ ds, d.2.Inspects x.key → d.1 ≤ now)
    (hlasts : now < now.advance l.lifetime) :
    (l'.get now x.user x.id).1 = .ok (some x) ↔ ¬(l.write now x).Evicted ds x.key := by
  have hwritten := h.write now x
  have hleft := hdone.tidy hwritten
  obtain ⟨hgone, hstays⟩ := hdone.entryOf?_iff hwritten hspares
    (hwritten.entryOf?_of_mem (l.mem_write now x)) fun d hd hinspects =>
      Int.lt_of_le_of_lt (hclock d hd hinspects) hlasts
  constructor
  · intro hfound hevicted
    obtain ⟨-, e, he, rfl, -⟩ := hleft.get_iff.1 hfound
    exact entryOf?_eq_none_iff.1 (hgone hevicted) e he (hleft.keyed e he)
  · intro hno
    obtain ⟨hmem, -⟩ := entryOf?_some (hstays hno)
    exact hleft.get_iff.2 ⟨⟨rfl, rfl⟩, _, hmem, rfl, hlasts⟩

end Dismissal.Cache.Recency
