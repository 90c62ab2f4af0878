import Dismissal.Proofs.Cache.Looks
import Dismissal.Proofs.Cache.Refinement
import Dismissal.Proofs.Lifecycle.Keeper
import Mathlib.Data.List.Perm.Subperm

/-!
# The cache as a keeper

With room for all the names that it is told, a cache never drops an entry for another one, and while
each write is less than a lifetime ago, it never drops one that has expired. So within these limits
it is a keeper (`keeper`): the plain list `Remembers` contents as a durable store would keep them.
-/

namespace Dismissal.Cache

open Lifecycle Recency

/-- The list has the contents for its entries. All of them are entries of some known names, of which
there are no more than there is room for, and each expires a lifetime after some write. -/
structure Recency.Remembers (l : Recency) (names : List Name) (lifetime : Span)
    (writes : List Instant) (c : Contents) : Prop where
  tidy : l.Tidy
  fits : names.length ≤ l.capacity
  lasts : l.lifetime = lifetime
  known : ∀ e ∈ l.entries, e.item.name ∈ names
  stamped : ∀ e ∈ l.entries, ∃ t ∈ writes, e.expires = t.advance lifetime
  found : ∀ n : Name,
    c n.user n.id = .ok ((entryOf? l.entries (Identity.key n.user n.id)).map Entry.item)

namespace Recency.Remembers

variable {l : Recency} {names : List Name} {lifetime : Span} {writes : List Instant} {c : Contents}
  {now : Instant} {item stored : Item}

theorem ofLimits {capacity : Nat} (hroom : names.length ≤ max capacity 1) :
    (Recency.ofLimits capacity lifetime).Remembers names lifetime [] fun _ _ => .ok none where
  tidy := .ofLimits capacity lifetime
  fits := hroom
  lasts := rfl
  known := by simp [Recency.ofLimits]
  stamped := by simp [Recency.ofLimits]
  found _ := rfl

/-- Different entries have items of different names. -/
theorem nodup_names (h : l.Remembers names lifetime writes c) :
    (l.entries.map fun e => e.item.name).Nodup := by
  refine List.Nodup.of_map (fun n : Name => Identity.key n.user n.id) ?_
  have hkeys : (l.entries.map fun e => e.item.name).map (fun n => Identity.key n.user n.id) =
      l.entries.map Entry.key := by
    rw [List.map_map]
    exact List.map_congr_left fun e he => (h.tidy.keyed e he).symm
  rw [hkeys]
  exact h.tidy.distinct

/-- There is room for an entry of each name. -/
theorem length_lt (h : l.Remembers names lifetime writes c) (hknown : item.name ∈ names)
    (hnew : entryOf? l.entries item.key = none) : l.entries.length < l.capacity := by
  have hother : item.name ∉ l.entries.map fun e => e.item.name := by
    intro hmem
    obtain ⟨e, he, hname⟩ := List.mem_map.1 hmem
    refine entryOf?_eq_none_iff.1 hnew e he ?_
    rw [h.tidy.keyed e he]
    exact congrArg (fun n : Name => Identity.key n.user n.id) hname
  have hsub : item.name :: l.entries.map (fun e => e.item.name) ⊆ names := by
    refine List.cons_subset.2 ⟨hknown, fun n hn => ?_⟩
    obtain ⟨e, he, rfl⟩ := List.mem_map.1 hn
    exact h.known e he
  have hnodup := List.nodup_cons.2 ⟨hother, h.nodup_names⟩
  have hlength := (List.subperm_of_subset hnodup hsub).length_le
  rw [List.length_cons, List.length_map] at hlength
  exact Nat.lt_of_lt_of_le hlength h.fits

/-- No entry is dropped to make room. -/
theorem write_eq (h : l.Remembers names lifetime writes c) (hknown : item.name ∈ names)
    (now : Instant) : l.write now item = { l with
      entries := ⟨item.key, item, now.advance l.lifetime⟩ :: without l.entries item.key } := by
  rcases write_cases l now item with ⟨-, hentries⟩ | ⟨hnew, hfull, -⟩
  · exact congrArg (fun entries => { l with entries }) hentries
  · exact absurd hfull (Nat.not_le.2 (h.length_lt hknown hnew))

theorem write (h : l.Remembers names lifetime writes c) (hknown : item.name ∈ names)
    (now : Instant) :
    (l.write now item).Remembers names lifetime (writes ++ [now]) (c.put item) := by
  have htidy := h.tidy.write now item
  rw [h.write_eq hknown now] at htidy ⊢
  refine ⟨htidy, h.fits, h.lasts, fun e he => ?_, fun e he => ?_, fun n => ?_⟩
  · rcases List.mem_cons.1 he with rfl | he
    · exact hknown
    · exact h.known e (mem_without.1 he).1
  · rcases List.mem_cons.1 he with rfl | he
    · exact ⟨now, by simp, by rw [h.lasts]⟩
    · obtain ⟨t, ht, hexpires⟩ := h.stamped e (mem_without.1 he).1
      exact ⟨t, List.mem_append_left _ ht, hexpires⟩
  · have hsame : item.key = Identity.key n.user n.id ↔ item.user = n.user ∧ item.id = n.id :=
      Identity.key_eq_key_iff item.user_valid item.id_valid
    rw [entryOf?_cons_without]
    by_cases heq : item.user = n.user ∧ item.id = n.id
    · rw [if_pos (hsame.2 heq), ← heq.1, ← heq.2, Contents.put_self]
      rfl
    · rw [if_neg fun hkey => heq (hsame.1 hkey), ← h.found,
        Contents.put_of_ne fun hname => heq ⟨hname.1.symm, hname.2.symm⟩]

theorem writeAll (h : l.Remembers names lifetime writes c) {items : List Item}
    (hknown : ∀ item ∈ items, item.name ∈ names) (now : Instant) :
    (items.foldl (Recency.write · now) l).Remembers names lifetime
      (writes ++ items.map fun _ => now) (c.putAll items) := by
  induction items generalizing l writes c with
  | nil =>
    rw [List.map_nil, List.append_nil]
    exact h
  | cons item items ih =>
    have hfirst := h.write (hknown item List.mem_cons_self) now
    have hrest := ih hfirst fun other hmem => hknown other (List.mem_cons_of_mem _ hmem)
    rw [List.append_assoc] at hrest
    exact hrest

/-- Entries can be put in another order. -/
theorem reorder (h : l.Remembers names lifetime writes c) {es : List Entry}
    (htidy : ({ l with entries := es } : Recency).Tidy) (hsub : ∀ e ∈ es, e ∈ l.entries)
    (hsame : ∀ key, entryOf? es key = entryOf? l.entries key) :
    ({ l with entries := es } : Recency).Remembers names lifetime writes c where
  tidy := htidy
  fits := h.fits
  lasts := h.lasts
  known e he := h.known e (hsub e he)
  stamped e he := h.stamped e (hsub e he)
  found n := by rw [hsame, h.found n]

/-- A look at a name finds what is kept for it, as long as no entry has expired. -/
theorem look (h : l.Remembers names lifetime writes c)
    (hnear : ∀ t ∈ writes, now < t.advance lifetime) (n : Name) :
    c n.user n.id = .ok (found? (l.look (Identity.key n.user n.id) now).1) ∧
      (l.look (Identity.key n.user n.id) now).2.Remembers names lifetime writes c := by
  have htidy : (l.look (Identity.key n.user n.id) now).2.Tidy := h.tidy.look
  rw [h.found n]
  cases hhit : l.hits (Identity.key n.user n.id) now with
  | true =>
    obtain ⟨e, hfind, -, hfound, hnext⟩ := look_hit hhit
    rw [hnext] at htidy ⊢
    refine ⟨by rw [hfind, hfound]; rfl, h.reorder htidy (fun x hx => ?_) (entryOf?_front hfind)⟩
    rcases List.mem_cons.1 hx with rfl | hx
    · exact (entryOf?_some hfind).1
    · exact (mem_without.1 hx).1
  | false =>
    obtain ⟨hfound, hnext⟩ := look_miss hhit
    have hfind : entryOf? l.entries (Identity.key n.user n.id) = none := by
      refine Option.eq_none_iff_forall_ne_some.2 fun e hfind => ?_
      obtain ⟨t, ht, hexpires⟩ := h.stamped e (entryOf?_some hfind).1
      rw [hits_iff.2 ⟨e, hfind, hexpires ▸ hnear t ht⟩] at hhit
      cases hhit
    rw [hnext, without_eq_self hfind]
    exact ⟨by rw [hfind, hfound]; rfl, h⟩

theorem get (h : l.Remembers names lifetime writes c)
    (hnear : ∀ t ∈ writes, now < t.advance lifetime) (n : Name) :
    ∃ l', l.get now n.user n.id = (c n.user n.id, l') ∧
      l'.Remembers names lifetime writes c := by
  obtain ⟨hfound, hnext⟩ := h.look hnear n
  exact ⟨_, by rw [get_eq (Identity.checkAll_one n.user_valid n.id_valid), hfound], hnext⟩

theorem lookAll (h : l.Remembers names lifetime writes c)
    (hnear : ∀ t ∈ writes, now < t.advance lifetime) {user : String} (huser : Identity.Valid user)
    {ids : List String} (hids : ∀ id ∈ ids, Identity.Valid id) {before : Found}
    (hbefore : c.Backs user before) :
    ∃ found l', l.lookAll now user before ids = (found, l') ∧
      c.Gathers user before ids (.ok found) ∧ l'.Remembers names lifetime writes c := by
  induction ids generalizing l before with
  | nil => exact ⟨before, l, rfl, .nil, h⟩
  | cons id ids ih =>
    have hrest := fun other hmem => hids other (List.mem_cons_of_mem id hmem)
    obtain ⟨hc, hnext⟩ := h.look hnear ⟨user, id, huser, hids id List.mem_cons_self⟩
    simp only at hc hnext
    rw [lookAll_cons]
    cases hfound : found? (l.look (Identity.key user id) now).1 with
    | some item =>
      rw [hfound] at hc
      have hone : c user id = .ok (before.insert id item)[id]? := by
        rw [hc, getElem?_insert_eq, if_pos rfl]
      have hother (other : String) (hne : other ≠ id) :
          (before.insert id item)[other]? = before[other]? := by
        rw [getElem?_insert_eq, if_neg (Ne.symm hne)]
      have hbacks : c.Backs user (before.insert id item) := by
        intro other x hx
        by_cases heq : other = id
        · subst heq
          rw [hone, hx]
        · rw [hother other heq] at hx
          exact hbefore other x hx
      obtain ⟨found, l', hall, hgathers, hlast⟩ := ih hnext hrest hbacks
      exact ⟨found, l', hall, .cons hone hother hgathers, hlast⟩
    | none =>
      rw [hfound] at hc
      have hnone : before[id]? = none := by
        refine Option.eq_none_iff_forall_ne_some.2 fun x hx => ?_
        cases hc.symm.trans (hbefore id x hx)
      obtain ⟨found, l', hall, hgathers, hlast⟩ := ih hnext hrest hbefore
      exact ⟨found, l', hall, .cons (by rw [hc, hnone]) (fun _ _ => rfl) hgathers, hlast⟩

theorem update (h : l.Remembers names lifetime writes c)
    (hnear : ∀ t ∈ writes, now < t.advance lifetime)
    (hstored : c item.user item.id = .ok (some stored)) (hcreated : item.created = stored.created) :
    ∃ l', l.update now item = (.ok item, l') ∧
      l'.Remembers names lifetime (writes ++ [now]) (c.put item) := by
  have hfound := (h.look hnear item.name).1
  rw [show c item.name.user item.name.id = _ from hstored] at hfound
  replace hfound : found? (l.look item.key now).1 = some stored := (Except.ok.inj hfound).symm
  obtain ⟨huser, hid⟩ := h.tidy.names_of_found hfound
  have hmerged : Item.create stored.id stored.user stored.created item.dismissed = .ok item := by
    rw [huser, hid, ← hcreated]
    exact item.create_self
  have hknown : item.name ∈ names := by
    obtain ⟨e, he, -, rfl, -⟩ := h.tidy.found?_look_iff.1 hfound
    have hname : item.name = e.item.name := Name.eq_iff.2 ⟨huser, hid⟩
    rw [hname]
    exact h.known e he
  refine ⟨l.write now item, ?_, h.write hknown now⟩
  rw [h.tidy.update_eq, hfound]
  simp only [hmerged]

theorem delete (h : l.Remembers names lifetime writes c) (n : Name) :
    ∃ l', l.delete n.user n.id = (.ok (), l') ∧
      l'.Remembers names lifetime writes (c.drop n.user n.id) := by
  unfold Recency.delete
  rw [Identity.checkAll_one n.user_valid n.id_valid]
  refine ⟨_, rfl, h.tidy.sublist List.filter_sublist, h.fits, h.lasts,
    fun e he => h.known e (mem_without.1 he).1, fun e he => h.stamped e (mem_without.1 he).1,
    fun other => ?_⟩
  have hsame : Identity.key n.user n.id = Identity.key other.user other.id ↔
      n.user = other.user ∧ n.id = other.id := Identity.key_eq_key_iff n.user_valid n.id_valid
  unfold Contents.drop
  by_cases heq : n.user = other.user ∧ n.id = other.id
  · rw [if_pos ⟨heq.1.symm, heq.2.symm⟩, ← hsame.2 heq, entryOf?_without_self]
    rfl
  · rw [if_neg fun hname => heq ⟨hname.1.symm, hname.2.symm⟩,
      entryOf?_without fun hkey => heq (hsame.1 hkey)]
    exact h.found other

theorem clear (h : l.Remembers names lifetime writes c) :
    ({ l with entries := [] } : Recency).Remembers names lifetime writes fun _ _ => .ok none where
  tidy := h.tidy.sublist (List.nil_sublist _)
  fits := h.fits
  lasts := h.lasts
  known := by simp
  stamped := by simp
  found _ := rfl

end Recency.Remembers

/-- The cache is a list that remembers the contents. -/
def Remembers (names : List Name) (lifetime : Span) (writes : List Instant) (c : Contents)
    (s : Cache) : Prop :=
  ∃ l, Mirrors s l ∧ l.Remembers names lifetime writes c

/-- What comes of a request to the list comes of it to the cache. -/
theorem Mirrors.remembers {s : Cache} {l l' : Recency} {names : List Name} {lifetime : Span}
    {writes : List Instant} {c : Contents} {now : Instant} {request : Request}
    {answer : Result request.Answer} (h : Mirrors s l)
    (hserve : Recency.serve now request l = (answer, l'))
    (hnext : l'.Remembers names lifetime writes c) :
    ∃ s', Store.serve now request s = (answer, s') ∧ Remembers names lifetime writes c s' := by
  obtain ⟨hanswer, hmirrors⟩ := h.serve now request
  rw [hserve] at hanswer hmirrors
  exact ⟨_, Prod.ext hanswer rfl, l', hmirrors, hnext⟩

/-- **Within its limits the cache is a keeper.** -/
def keeper (names : List Name) (lifetime : Span) : Keeper Cache where
  Knows n := n ∈ names
  Near now written := now < written.advance lifetime
  holds := Remembers names lifetime
  get n hnear h := by
    obtain ⟨l, hmirrors, hl⟩ := h
    obtain ⟨l', hget, hnext⟩ := hl.get hnear n
    exact hmirrors.remembers hget hnext
  getMany {now writes c s user ids} huser hids hnear h := by
    obtain ⟨l, hmirrors, hl⟩ := h
    have hbefore : c.Backs user ∅ := fun id item hitem => by simp at hitem
    obtain ⟨found, l', hall, hgathers, hnext⟩ := hl.lookAll hnear huser hids hbefore
    have hserve : Recency.serve now (.getMany user ids) l = (.ok found, l') := by
      show l.getMany now user ids = _
      unfold Recency.getMany
      rw [Identity.checkAll_eq_ok_iff.2 ⟨huser, hids⟩]
      simp only [hall]
    obtain ⟨s', hserve', hnext'⟩ := hmirrors.remembers hserve hnext
    exact ⟨_, s', hserve', hgathers, hnext'⟩
  create now _ _ _ _ hknown _ h := by
    obtain ⟨l, hmirrors, hl⟩ := h
    exact hmirrors.remembers rfl (hl.write hknown now)
  createMany now _ _ _ _ hknown _ h := by
    obtain ⟨l, hmirrors, hl⟩ := h
    exact hmirrors.remembers rfl (hl.writeAll hknown now)
  update hnear hstored hcreated h := by
    obtain ⟨l, hmirrors, hl⟩ := h
    obtain ⟨l', hupdate, hnext⟩ := hl.update hnear hstored hcreated
    exact hmirrors.remembers hupdate hnext
  delete now _ _ _ n h := by
    obtain ⟨l, hmirrors, hl⟩ := h
    obtain ⟨l', hdelete, hnext⟩ := hl.delete n
    exact hmirrors.remembers hdelete hnext
  deleteAll now _ _ _ h := by
    obtain ⟨l, hmirrors, hl⟩ := h
    exact hmirrors.remembers rfl hl.clear

end Dismissal.Cache
