import Dismissal.Proofs.Cache.Looks
import Dismissal.Proofs.Cache.Refinement
import Dismissal.Proofs.Cache.Retention
import Dismissal.Proofs.Identity.WellFormed
import Mathlib.Data.List.Basic

/-!
# Larger caches

Two caches that differ in their capacity are given the same operations. As long as none of these is
an update, the smaller one holds nothing that the larger one does not hold as well.

A miss makes no entry, so a key that the smaller cache has given up can come to the front of the
larger one, and the smaller list is no first part of the larger one. What is kept is `Within`: the
smaller list lies in the larger one in the same order, and the larger list has no more entries
beyond it than it has room beyond it. So the larger cache is full only when the smaller one is, and
then the last entry of the larger list is that of the smaller one, or none of its entries.

* `Within.step`: every operation but an update keeps one list within the other.
* `larger_includes`: what this means for all runs, for the entries and for the replies.
-/

namespace Dismissal.Cache

/-- What the larger of two caches replies takes in what the smaller one replies: items that are
found in the smaller one are found in the larger one as they are. -/
def Op.Includes : (op : Op) → op.Reply → op.Reply → Prop
  | .ask (.get _ _), small, large => ∀ item, small = .ok (some item) → large = .ok (some item)
  | .ask (.getMany _ _), small, large => ∀ found : Found, small = .ok found →
    ∃ found' : Found, large = .ok found' ∧
      ∀ (id : String) (item : Item), found[id]? = some item → found'[id]? = some item
  | _, _, _ => True

namespace Recency

/-! ## Lists within lists -/

section Lists

variable {es es' : List Entry}

/-- The last entry of both lists can go. -/
theorem dropLast_sublist_dropLast (h : es.Sublist es') : es.dropLast.Sublist es'.dropLast := by
  have htails : es.reverse.tail.Sublist es'.reverse.tail := h.reverse.tail
  rw [List.tail_reverse, List.tail_reverse] at htails
  exact List.reverse_sublist.1 htails

/-- A filter takes no more out of a part of a list than out of the list. -/
theorem length_filter_slack (h : es.Sublist es') (p : Entry → Bool) :
    (es'.filter p).length + es.length ≤ (es.filter p).length + es'.length := by
  have hout : (es.filter fun e => !p e).length ≤ (es'.filter fun e => !p e).length :=
    (h.filter _).length_le
  have hes := es.length_eq_length_filter_add p
  have hes' := es'.length_eq_length_filter_add p
  omega

end Lists

/-- How the list of a smaller cache lies within that of a larger one: as a part of it in the same
order, with no more entries beside it than the larger cache has room beside the smaller one. -/
structure Within (small large : Recency) : Prop where
  tidy : small.Tidy
  larger : large.Tidy
  lifetime : small.lifetime = large.lifetime
  entries : small.entries.Sublist large.entries
  slack : large.entries.length + small.capacity ≤ small.entries.length + large.capacity

namespace Within

variable {small large : Recency} {now : Instant}

theorem ofLimits {m n : Nat} (hle : m ≤ n) (lifetime : Span) :
    Within (.ofLimits m lifetime) (.ofLimits n lifetime) where
  tidy := .ofLimits m lifetime
  larger := .ofLimits n lifetime
  lifetime := rfl
  entries := List.Sublist.refl _
  slack := by
    simp only [Recency.ofLimits, List.length_nil]
    omega

/-- The larger cache is full only when the smaller one is. -/
theorem full (h : Within small large) (hfull : large.capacity ≤ large.entries.length) :
    small.capacity ≤ small.entries.length := by
  have hslack := h.slack
  omega

/-- The entry of a key in the smaller list is its entry in the larger one. -/
theorem entryOf? (h : Within small large) {key : String} {e : Entry}
    (he : Recency.entryOf? small.entries key = some e) :
    Recency.entryOf? large.entries key = some e := by
  obtain ⟨hmem, rfl⟩ := entryOf?_some he
  exact h.larger.entryOf?_of_mem (h.entries.subset hmem)

/-- A key that is new to the larger list is new to the smaller one. -/
theorem new (h : Within small large) {key : String}
    (hnew : Recency.entryOf? large.entries key = none) :
    Recency.entryOf? small.entries key = none := by
  refine Option.eq_none_iff_forall_ne_some.2 fun e he => ?_
  rw [h.entryOf? he] at hnew
  cases hnew

/-- Entries can be filtered out of both lists. -/
theorem filter (h : Within small large) (p : Entry → Bool) :
    Within { small with entries := small.entries.filter p }
      { large with entries := large.entries.filter p } where
  tidy := h.tidy.sublist List.filter_sublist
  larger := h.larger.sublist List.filter_sublist
  lifetime := h.lifetime
  entries := h.entries.filter p
  slack := by
    have hfiltered := length_filter_slack h.entries p
    have hslack := h.slack
    simp only
    omega

theorem clear (h : Within small large) :
    Within { small with entries := [] } { large with entries := [] } where
  tidy := h.tidy.sublist (List.nil_sublist _)
  larger := h.larger.sublist (List.nil_sublist _)
  lifetime := h.lifetime
  entries := List.Sublist.refl []
  slack := by
    have hlength := h.entries.length_le
    have hslack := h.slack
    simp only [List.length_nil]
    omega

/-! ## Looks and writes -/

/-- What a look finds in the smaller list it finds in the larger one. -/
theorem look (h : Within small large) (key : String) (now : Instant) :
    (∀ item, found? (small.look key now).1 = some item →
      found? (large.look key now).1 = some item) ∧
    Within (small.look key now).2 (large.look key now).2 := by
  have hothers : Within { small with entries := without small.entries key }
      { large with entries := without large.entries key } := h.filter _
  have hslack := hothers.slack
  have htidy : (small.look key now).2.Tidy := h.tidy.look
  have hlarger : (large.look key now).2.Tidy := h.larger.look
  cases hhit : small.hits key now with
  | true =>
    obtain ⟨e, hfind, halive, hfound, hnext⟩ := look_hit hhit
    have hfind' := h.entryOf? hfind
    obtain ⟨e', hentry, -, hfound', hnext'⟩ := look_hit (hits_iff.2 ⟨e, hfind', halive⟩)
    obtain rfl : e = e' := Option.some.inj (hfind'.symm.trans hentry)
    rw [hnext] at htidy ⊢
    rw [hnext'] at hlarger ⊢
    rw [hfound, hfound']
    refine ⟨fun item hitem => hitem, htidy, hlarger, h.lifetime, hothers.entries.cons_cons e, ?_⟩
    simp only [List.length_cons] at hslack ⊢
    omega
  | false =>
    obtain ⟨hfound, hnext⟩ := look_miss hhit
    rw [hfound]
    refine ⟨fun item hitem => (by cases hitem), ?_⟩
    rw [hnext] at htidy ⊢
    cases hhit' : large.hits key now with
    | false =>
      rw [(look_miss hhit').2]
      exact hothers
    | true =>
      -- only the larger list has an entry of the key, and brings it to the front
      obtain ⟨e, hfind', halive, -, hnext'⟩ := look_hit hhit'
      have hnone : Recency.entryOf? small.entries key = none := by
        refine Option.eq_none_iff_forall_ne_some.2 fun e' hfind => ?_
        obtain rfl : e = e' := Option.some.inj (hfind'.symm.trans (h.entryOf? hfind))
        rw [hits_iff.2 ⟨e, hfind, halive⟩] at hhit
        cases hhit
      have hless := length_without_lt hfind'
      rw [hnext'] at hlarger ⊢
      refine ⟨htidy, hlarger, h.lifetime, hothers.entries.cons e, ?_⟩
      have hslack := h.slack
      simp only [List.length_cons, without_eq_self hnone]
      omega

/-- A write pushes the same entry out of both lists, or one that only the larger one has, or one
that the larger list can keep. -/
theorem write (h : Within small large) (now : Instant) (item : Item) :
    Within (small.write now item) (large.write now item) := by
  have hothers : Within { small with entries := without small.entries item.key }
      { large with entries := without large.entries item.key } := h.filter _
  have hlarger := h.larger.write now item
  have hroom : (large.write now item).entries.length ≤ large.capacity := hlarger.room
  have hpos := h.tidy.pos
  suffices hparts : (small.write now item).entries.Sublist (large.write now item).entries ∧
      (large.write now item).entries.length + small.capacity ≤
        (small.write now item).entries.length + large.capacity from
    ⟨h.tidy.write now item, hlarger, h.lifetime, hparts.1, hparts.2⟩
  rcases write_cases small now item with ⟨hfits, hnext⟩ | ⟨hnew, hfull, hnext⟩ <;>
    rcases write_cases large now item with ⟨-, hnext'⟩ | ⟨hnew', hfull', hnext'⟩ <;>
    rw [hnext'] at hroom <;> rw [hnext, hnext', h.lifetime]
  · have hslack := hothers.slack
    refine ⟨hothers.entries.cons_cons _, ?_⟩
    simp only [List.length_cons] at hslack ⊢
    omega
  · -- the larger cache is full, so that the smaller one has no room either
    exact absurd (h.full hfull') (Nat.not_le.2 (hfits (h.new hnew')))
  · have hkept := hothers.entries
    simp only [without_eq_self hnew] at hkept
    refine ⟨((List.dropLast_sublist _).trans hkept).cons_cons _, ?_⟩
    simp only [List.length_cons, List.length_dropLast] at hroom ⊢
    omega
  · refine ⟨(dropLast_sublist_dropLast h.entries).cons_cons _, ?_⟩
    simp only [List.length_cons, List.length_dropLast] at hroom ⊢
    omega

theorem writeAll (h : Within small large) (now : Instant) (items : List Item) :
    Within (items.foldl (Recency.write · now) small) (items.foldl (Recency.write · now) large) := by
  induction items generalizing small large with
  | nil => exact h
  | cons item items ih => exact ih (h.write now item)

theorem lookAll (h : Within small large) (now : Instant) (user : String) (before before' : Found)
    (ids : List String) :
    Within (small.lookAll now user before ids).2 (large.lookAll now user before' ids).2 := by
  induction ids generalizing small large before before' with
  | nil => exact h
  | cons id ids ih =>
    rw [lookAll_cons, lookAll_cons]
    exact ih (h.look (Identity.key user id) now).2 _ _

/-! ## Requests -/

theorem get (h : Within small large) (now : Instant) (user id : String) :
    (∀ item, (small.get now user id).1 = .ok (some item) →
      (large.get now user id).1 = .ok (some item)) ∧
    Within (small.get now user id).2 (large.get now user id).2 := by
  cases hcheck : Identity.checkAll user [id] with
  | error e =>
    unfold Recency.get
    rw [hcheck]
    exact ⟨fun item hitem => (by cases hitem), h⟩
  | ok _ =>
    obtain ⟨hfound, hnext⟩ := h.look (Identity.key user id) now
    rw [get_eq hcheck, get_eq hcheck]
    exact ⟨fun item hitem => congrArg Except.ok (hfound item (Except.ok.inj hitem)), hnext⟩

theorem getMany (h : Within small large) (now : Instant) (user : String) (ids : List String) :
    (∀ found, (small.getMany now user ids).1 = .ok found →
      ∃ found', (large.getMany now user ids).1 = .ok found' ∧
        ∀ (id : String) (item : Item), found[id]? = some item → found'[id]? = some item) ∧
    Within (small.getMany now user ids).2 (large.getMany now user ids).2 := by
  unfold Recency.getMany
  cases Identity.checkAll user ids with
  | error e => exact ⟨fun found hfound => (by cases hfound), h⟩
  | ok _ =>
    refine ⟨fun found hfound => ⟨_, rfl, fun id item hitem => ?_⟩, h.lookAll now user ∅ ∅ ids⟩
    obtain rfl := Except.ok.inj hfound
    rw [getElem?_lookAll] at hitem ⊢
    by_cases hmem : id ∈ ids
    · simp only [hmem, ↓reduceIte, Std.ExtTreeMap.getElem?_empty, Option.or_none] at hitem ⊢
      exact (h.look (Identity.key user id) now).1 item hitem
    · simp [hmem] at hitem

theorem delete (h : Within small large) (user id : String) :
    Within (small.delete user id).2 (large.delete user id).2 := by
  unfold Recency.delete
  cases Identity.checkAll user [id] with
  | error e => exact h
  | ok _ => exact h.filter _

/-- **Every operation but an update keeps one list within the other**, and what it replies in the
larger one takes in what it replies in the smaller one. -/
theorem step (h : Within small large) (now : Instant) {op : Op}
    (hplain : ∀ item, op ≠ .ask (.update item)) :
    op.Includes (Recency.step now op small).1 (Recency.step now op large).1 ∧
      Within (Recency.step now op small).2 (Recency.step now op large).2 := by
  cases op with
  | purge => exact ⟨trivial, h.filter _⟩
  | ask request =>
    cases request with
    | get user id => exact h.get now user id
    | getMany user ids => exact h.getMany now user ids
    | create item => exact ⟨trivial, h.write now item⟩
    | createMany items => exact ⟨trivial, h.writeAll now items⟩
    | update item => exact absurd rfl (hplain item)
    | delete user id => exact ⟨trivial, h.delete user id⟩
    | deleteAll => exact ⟨trivial, h.clear⟩

end Within

end Recency

/-- Two replies to one operation, of which the second takes in the first. -/
inductive Included : ((op : Op) × op.Reply) → ((op : Op) × op.Reply) → Prop where
  | mk {op : Op} {small large : op.Reply} : op.Includes small large →
    Included ⟨op, small⟩ ⟨op, large⟩

open Recency in
/-- So do any number of them, one after the other. -/
theorem Recency.Within.run {small large : Recency} (h : Within small large)
    {ops : List (Instant × Op)} (hplain : ∀ x ∈ ops, ∀ item, x.2 ≠ .ask (.update item)) :
    List.Forall₂ Included (run Recency.step ops small).1 (run Recency.step ops large).1 ∧
      Within (run Recency.step ops small).2 (run Recency.step ops large).2 := by
  induction ops generalizing small large with
  | nil => exact ⟨.nil, h⟩
  | cons timed ops ih =>
    obtain ⟨now, op⟩ := timed
    obtain ⟨hreply, hnext⟩ := h.step now (hplain _ List.mem_cons_self)
    obtain ⟨hreplies, hlast⟩ := ih hnext fun x hx => hplain x (List.mem_cons_of_mem _ hx)
    exact ⟨.cons (.mk hreply) hreplies, hlast⟩

/-- **A larger cache never turns a hit into a miss.** For all lifetimes, all capacities of which one
is no larger than the other, and all runs without updates from empty caches, whatever the clock
says: every key has in the larger cache the entry that it has in the smaller one, and all that the
smaller one found on the way was found by the larger one as the same. -/
theorem larger_includes {m n : Nat} (hle : m ≤ n) (lifetime : Span) (ops : List (Instant × Op))
    (hplain : ∀ x ∈ ops, ∀ item, x.2 ≠ .ask (.update item)) :
    let small := run step ops (ofLimits m lifetime)
    let large := run step ops (ofLimits n lifetime)
    (∀ key e, small.2.arena.entryOf? key = some e → large.2.arena.entryOf? key = some e) ∧
      List.Forall₂ Included small.1 large.1 := by
  intro small large
  obtain ⟨hsmall, hseen⟩ := (Mirrors.ofLimits m lifetime).run ops
  obtain ⟨hlarge, hseen'⟩ := (Mirrors.ofLimits n lifetime).run ops
  obtain ⟨hreplies, hwithin⟩ := (Recency.Within.ofLimits hle lifetime).run hplain
  refine ⟨fun key e he => ?_, ?_⟩
  · rw [hseen.seen.found] at he
    rw [hseen'.seen.found]
    exact hwithin.entryOf? he
  · rw [hsmall, hlarge]
    exact hreplies

/-- Three items are written, of which two find room in the smaller cache. The first one is looked at
after that, another one is dropped, and a fourth one is written. -/
def lostAndUsed : List (Instant × Op) :=
  [(afterMillis 0, .ask (.create (sample "a" Identity.valid_a))),
    (afterMillis 1, .ask (.createMany [sample "b" Identity.valid_b, sample "c" Identity.valid_c])),
    (afterMillis 2, .ask (.get "u" "a")), (afterMillis 3, .ask (.delete "u" "c")),
    (afterMillis 1, .ask (.create (sample "u" Identity.valid_u))),
    (afterMillis 4, .purge), (afterMillis 5, .ask (.getMany "u" ["a", "b", "u"]))]

/-- The first item comes to the front of the larger cache when the smaller one has lost it. -/
theorem lostAndUsed_included :
    let small := run step lostAndUsed (ofLimits 2 (.ofMillis 10))
    let large := run step lostAndUsed (ofLimits 3 (.ofMillis 10))
    (∀ key e, small.2.arena.entryOf? key = some e → large.2.arena.entryOf? key = some e) ∧
      List.Forall₂ Included small.1 large.1 :=
  larger_includes (by decide) (.ofMillis 10) lostAndUsed (by simp [lostAndUsed])

end Dismissal.Cache
