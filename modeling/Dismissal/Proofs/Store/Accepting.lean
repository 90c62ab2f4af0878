import Dismissal.Proofs.Cache.Sweeping
import Dismissal.Proofs.Store.Gathering
import Dismissal.Proofs.Store.Obedient

/-!
# Accepting stores

A store blames a request if it answers that an argument is invalid. An accepting store blames no
request whose identities are well-formed: what it keeps is in order, so that nothing but the request
could be. An update is more than its identities, for it is put together with what is there; but none
is blamed that follows a look at its item and keeps what was found of it.

* `Accepting.timed`, `Accepting.faulty`: limits and delays blame nobody either.
* `Backend.accepting`: backends of all kinds are accepting, if their rows are read as the items that
  their keys are for. Tables may be closed or frozen.
-/

namespace Dismissal

/-- The answer is that an argument is invalid. -/
def Blames {α : Type} (answer : Result α) : Prop :=
  ∃ reason, answer = .error (.invalidArgument reason)

theorem not_blames_ok {α : Type} (a : α) : ¬Blames (.ok a : Result α) := nofun

/-- It does not matter what would have been answered. -/
theorem Blames.of_error {α β : Type} {e : Failure} (h : Blames (.error e : Result α)) :
    Blames (.error e : Result β) := by
  obtain ⟨reason, hreason⟩ := h
  exact ⟨reason, congrArg Except.error (Except.error.inj hreason)⟩

/-- The identities in a request are well-formed. An update says more than that. -/
def Request.Named : Request → Prop
  | get user id => Identity.Valid user ∧ Identity.Valid id
  | getMany user ids => Identity.Valid user ∧ ∀ id ∈ ids, Identity.Valid id
  | create _ => True
  | createMany _ => True
  | update _ => False
  | delete user id => Identity.Valid user ∧ Identity.Valid id
  | deleteAll => True

/-- The next version of an item: what differs is when it was dismissed. -/
structure Item.Follows (next item : Item) : Prop where
  user : next.user = item.user
  id : next.id = item.id
  created : next.created = item.created

/-- In the states `P`, a store blames no well-formed request. Once it was seen to hold an item, it
is in one of the states `Q` for that item, and blames no update of it at the same time. -/
structure Accepting {σ : Type} [Store σ] (P : σ → Prop) (Q : Instant → Item → σ → Prop) :
    Prop where
  adds (now : Instant) {request : Request} {s : σ} :
    P s → request.Adds → P (Store.serve now request s).2
  pass {s : σ} (now : Instant) (ms : Nat) : P s → P (Store.pass now ms s)
  named (now : Instant) {request : Request} {s : σ} :
    P s → request.Named → ¬Blames (Store.serve now request s).1
  found (now : Instant) {user id : String} {item : Item} {s s' : σ} :
    P s → Store.serve now (.get user id) s = (.ok (some item), s') → Q now item s'
  waits {now : Instant} {item : Item} {s : σ} (ms : Nat) :
    Q now item s → Q now item (Store.pass now ms s)
  update (now : Instant) {item next : Item} {s : σ} :
    Q now item s → next.Follows item → ¬Blames (Store.serve now (.update next) s).1

/-! ## Behind limits and delays -/

section Layers

variable {σ : Type} [Store σ] {P : σ → Prop} {Q : Instant → Item → σ → Prop} {now : Instant}
  {request : Request}

/-- A request that is blamed was not given up. -/
theorem Timed.forward_of_blames {t : Timed σ} (h : Blames (Store.serve now request t).1) :
    Blames (Store.serve now request t.inner).1 := by
  change Blames (serve now request t).1 at h
  unfold serve at h
  split at h
  · exact h
  · split at h
    · obtain ⟨_, hexpired⟩ := h
      cases hexpired
    · exact h

/-- An accepting store stays accepting behind a time limit. -/
theorem Accepting.timed (h : Accepting P Q) :
    Accepting (fun t : Timed σ => P t.inner) fun now item t => Q now item t.inner where
  adds now request t ht hadds := by
    rcases Timed.serve_cases now request t with ⟨e, ms, hserve⟩ | hserve
    · rw [hserve]
      exact h.pass now ms ht
    · rw [hserve]
      exact h.adds now ht hadds
  pass now ms ht := h.pass now ms ht
  named now _ _ ht hnamed hblames := h.named now ht hnamed (Timed.forward_of_blames hblames)
  found now user id item t t' ht hserve := by
    rcases Timed.serve_cases now (.get user id) t with ⟨e, ms, hfailed⟩ | hforward
    · cases hserve.symm.trans hfailed
    · obtain ⟨hfound, rfl⟩ := Prod.mk.inj (hforward.symm.trans hserve)
      exact h.found now ht (Prod.ext hfound rfl)
  waits ms ht := h.waits ms ht
  update now _ _ _ ht hnext hblames := h.update now ht hnext (Timed.forward_of_blames hblames)

/-- Without faults a request is handed on when its delay has passed. -/
theorem Faulty.serve_faultless {f : Faulty σ} (h : f.faults = []) (now : Instant)
    (request : Request) : Store.serve now request f =
      ((Store.serve now request (f.delayed now).inner).1,
        { f.delayed now with inner := (Store.serve now request (f.delayed now).inner).2 }) := by
  have hfaults : (f.delayed now).faults = [] := (faults_delayed now f).trans h
  rw [serve_eq, hfaults]
  rfl

/-- An accepting store stays accepting behind a delay, where there are no faults. -/
theorem Accepting.faulty (h : Accepting P Q) :
    Accepting (fun f : Faulty σ => P f.inner ∧ f.faults = [])
      fun now item f => Q now item f.inner ∧ f.faults = [] := by
  have hfaults (now : Instant) {f : Faulty σ} (hf : f.faults = []) : (f.delayed now).faults = [] :=
    (Faulty.faults_delayed now f).trans hf
  have hdelayed (now : Instant) {f : Faulty σ} (hf : P f.inner) : P (f.delayed now).inner := by
    unfold Faulty.delayed
    split
    · exact hf
    · exact h.pass now f.delay hf
  constructor
  · intro now request f hf hadds
    rw [Faulty.serve_faultless hf.2]
    exact ⟨h.adds now (hdelayed now hf.1) hadds, hfaults now hf.2⟩
  · intro f now ms hf
    exact ⟨h.pass now ms hf.1, hf.2⟩
  · intro now request f hf hnamed
    rw [Faulty.serve_faultless hf.2]
    exact h.named now (hdelayed now hf.1) hnamed
  · intro now user id item f f' hf hserve
    rw [Faulty.serve_faultless hf.2] at hserve
    obtain ⟨hfound, rfl⟩ := Prod.mk.inj hserve
    exact ⟨h.found now (hdelayed now hf.1) (Prod.ext hfound rfl), hfaults now hf.2⟩
  · intro now item f ms hf
    exact ⟨h.waits ms hf.1, hf.2⟩
  · intro now item next f hf hnext
    rw [Faulty.serve_faultless hf.2]
    refine h.update now ?_ hnext
    unfold Faulty.delayed
    split
    · exact hf.1
    · exact h.waits f.delay hf.1

end Layers

/-! ## Durable stores -/

section Durable

variable {σ : Type} [Durable σ]

/-- All that a durable store holds can be looked at. -/
def Durable.Readable (s : σ) : Prop :=
  Durable.Sound s ∧ ∀ user id, ∃ one, Durable.look s user id = .ok one

theorem Contents.put_ok {c : Contents} (h : ∀ user id, ∃ one, c user id = .ok one) (item : Item)
    (user id : String) : ∃ one, c.put item user id = .ok one := by
  unfold put
  split
  · exact ⟨_, rfl⟩
  · exact h user id

theorem Contents.putAll_ok {c : Contents} (h : ∀ user id, ∃ one, c user id = .ok one)
    (items : List Item) : ∀ user id, ∃ one, c.putAll items user id = .ok one := by
  induction items generalizing c with
  | nil => exact h
  | cons item items ih => exact ih (put_ok h item)

/-- **A durable store is accepting** where all that it holds can be looked at. -/
theorem Durable.accepting : Accepting (Durable.Readable (σ := σ)) fun _ item s =>
    Durable.Sound s ∧ Durable.look s item.user item.id = .ok (some item) := by
  constructor
  · intro now request s hs hadds
    refine ⟨Durable.serve_sound now request hs.1, ?_⟩
    cases request with
    | get user id =>
      rw [Durable.serve_get now user id hs.1]
      exact hs.2
    | getMany user ids =>
      obtain ⟨_, hserve, -⟩ := Durable.serve_getMany now user ids hs.1
      rw [hserve]
      exact hs.2
    | create item =>
      by_cases hvacant : (Durable.look s).Vacant item.user item.id
      · obtain ⟨_, hserve, hlook⟩ := Durable.serve_create now hs.1 hvacant
        rw [hserve, hlook]
        exact Contents.put_ok hs.2 item
      · obtain ⟨_, hserve⟩ := Durable.serve_create_taken now hs.1 hvacant
        rw [hserve]
        exact hs.2
    | createMany items =>
      by_cases hfresh : (Durable.look s).Fresh items
      · obtain ⟨_, hserve, hlook⟩ := Durable.serve_createMany now hs.1 hfresh
        rw [hserve, hlook]
        exact Contents.putAll_ok hs.2 items
      · obtain ⟨_, hserve⟩ := Durable.serve_createMany_taken now hs.1 hfresh
        rw [hserve]
        exact hs.2
    | _ => exact hadds.elim
  · intro s now ms hs
    rwa [Durable.pass_eq now ms hs.1]
  · intro now request s hs hnamed
    cases request with
    | get user id =>
      obtain ⟨one, hone⟩ := hs.2 user id
      rw [Durable.serve_get now user id hs.1, hone]
      exact not_blames_ok one
    | getMany user ids =>
      obtain ⟨answer, hserve, hgathers⟩ := Durable.serve_getMany now user ids hs.1
      obtain ⟨found, rfl⟩ := hgathers.ok_iff.2 fun id _ => hs.2 user id
      rw [hserve]
      exact not_blames_ok found
    | create item =>
      by_cases hvacant : (Durable.look s).Vacant item.user item.id
      · obtain ⟨_, hserve, -⟩ := Durable.serve_create now hs.1 hvacant
        rw [hserve]
        exact not_blames_ok item
      · obtain ⟨_, hserve⟩ := Durable.serve_create_taken now hs.1 hvacant
        rw [hserve]
        exact nofun
    | createMany items =>
      by_cases hfresh : (Durable.look s).Fresh items
      · obtain ⟨_, hserve, -⟩ := Durable.serve_createMany now hs.1 hfresh
        rw [hserve]
        exact not_blames_ok items
      · obtain ⟨_, hserve⟩ := Durable.serve_createMany_taken now hs.1 hfresh
        rw [hserve]
        exact nofun
    | update item => exact hnamed.elim
    | delete user id =>
      obtain ⟨_, hserve, -⟩ := Durable.serve_delete now hs.1 hnamed.1 hnamed.2
      rw [hserve]
      exact not_blames_ok ()
    | deleteAll =>
      obtain ⟨_, hserve, -⟩ := Durable.serve_deleteAll now hs.1
      rw [hserve]
      exact not_blames_ok ()
  · intro now user id item s s' hs hserve
    obtain ⟨hlook, rfl⟩ := Prod.mk.inj ((Durable.serve_get now user id hs.1).symm.trans hserve)
    obtain ⟨rfl, rfl⟩ := Durable.look_named hs.1 hlook
    exact ⟨hs.1, hlook⟩
  · intro now item s ms hs
    rwa [Durable.pass_eq now ms hs.1]
  · intro now item next s hs hnext
    have hstored : Durable.look s next.user next.id = .ok (some item) := by
      rw [hnext.user, hnext.id]
      exact hs.2
    obtain ⟨_, hserve, -⟩ := Durable.serve_update now hs.1 hstored hnext.created
    rw [hserve]
    exact not_blames_ok next

end Durable

/-! ## Tables -/

namespace Table

variable {t : Table} {now : Instant}

/-- The table when it is neither closed nor frozen. -/
def thawed (t : Table) : Table := { t with closed := false, frozen := false }

theorem thawed_open (t : Table) : t.thawed.Open := ⟨rfl, rfl⟩

/-- What several looks find is a matter of the rows. -/
theorem getMany_thawed (t : Table) (user : String) (ids : List String) :
    t.thawed.getMany user ids = t.getMany user ids := by
  unfold getMany
  generalize chunks ids.length ids = pieces
  generalize (∅ : Found) = found
  induction pieces generalizing found with
  | nil => rfl
  | cons ids pieces ih =>
    unfold collectChunks
    simp only [ih]
    rfl

/-- A table refuses a statement because it is closed or frozen, or does as if it were not. -/
theorem serve_cases (now : Instant) (request : Request) (t : Table) :
    (∃ reason, Store.serve now request t = (.error (.unavailable reason), t)) ∨
      (Store.serve now request t).1 = (Store.serve now request t.thawed).1 ∧
        (Store.serve now request t).2.rows = (Store.serve now request t.thawed).2.rows := by
  have hnothing {α : Type} {a : α} {run run' : Result α × Table} {none : Bool}
      (h : run = (.error refused, t) ∨ run = (.error unwritable, t)) :
      (∃ reason, (if none then (.ok a, t) else run) = (.error (.unavailable reason), t)) ∨
        (if none then (.ok a, t) else run).1 = (if none then (.ok a, t.thawed) else run').1 ∧
          (if none then (.ok a, t) else run).2.rows =
            (if none then (.ok a, t.thawed) else run').2.rows := by
    split
    · exact .inr ⟨rfl, rfl⟩
    · rcases h with rfl | rfl <;> exact .inl ⟨_, rfl⟩
  obtain ⟨rows, closed, frozen⟩ := t
  cases closed with
  | true =>
    cases request with
    | getMany user ids => exact hnothing (.inl rfl)
    | createMany items => exact hnothing (.inl rfl)
    | _ => exact .inl ⟨_, rfl⟩
  | false =>
    cases frozen with
    | false => exact .inr ⟨rfl, rfl⟩
    | true =>
      cases request with
      | get user id => exact .inr ⟨rfl, rfl⟩
      | getMany user ids =>
        have hserve (t : Table) (h : t.closed = false) :
            Store.serve now (.getMany user ids) t = (t.getMany user ids, t) :=
          serve_getMany_unclosed h user ids
        rw [hserve _ rfl, hserve _ rfl, getMany_thawed]
        exact .inr ⟨rfl, rfl⟩
      | createMany items => exact hnothing (.inr rfl)
      | _ => exact .inl ⟨_, rfl⟩

theorem thawed_eq {t' : Table} (hopen : t'.Open) (hrows : t.rows = t'.rows) : t.thawed = t' := by
  obtain ⟨rows, closed, frozen⟩ := t'
  obtain ⟨rfl, rfl⟩ : closed = false ∧ frozen = false := hopen
  exact congrArg (fun rows => (⟨rows, false, false⟩ : Table)) hrows

/-- **A table is accepting**, be it closed, frozen or neither, where all of its rows can be read. -/
theorem accepting : Accepting (fun t : Table => Durable.Readable t.thawed)
    fun _ item t => t.thawed.get item.user item.id = .ok (some item) := by
  have hopen := Durable.accepting (σ := Table)
  constructor
  · intro now request t ht hadds
    rcases serve_cases now request t with ⟨_, hserve⟩ | ⟨-, hrows⟩
    · rw [hserve]
      exact ht
    · have hnext : Durable.Readable (Store.serve now request t.thawed).2 := hopen.adds now ht hadds
      rwa [thawed_eq (t.thawed_open.serve request) hrows]
  · intro t now ms ht
    exact ht
  · intro now request t ht hnamed
    rcases serve_cases now request t with ⟨_, hserve⟩ | ⟨hanswer, -⟩
    · rw [hserve]
      exact nofun
    · rw [hanswer]
      exact hopen.named now ht hnamed
  · intro now user id item t t' ht hserve
    rcases serve_cases now (.get user id) t with ⟨_, hrefused⟩ | ⟨hanswer, hrows⟩
    · cases hserve.symm.trans hrefused
    · have hfound : (Store.serve now (.get user id) t.thawed).1 = .ok (some item) := by
        rw [← hanswer, hserve]
      have hthawed : Store.serve now (.get user id) t.thawed =
          (.ok (some item), (Store.serve now (.get user id) t.thawed).2) := Prod.ext hfound rfl
      rw [hserve] at hrows
      rw [thawed_eq (t.thawed_open.serve _) hrows]
      exact (hopen.found now ht hthawed).2
  · intro now item t ms ht
    exact ht
  · intro now item next t ht hnext
    rcases serve_cases now (.update next) t with ⟨_, hserve⟩ | ⟨hanswer, -⟩
    · rw [hserve]
      exact nofun
    · rw [hanswer]
      exact hopen.update now ⟨t.thawed_open, ht⟩ hnext

end Table

/-! ## Caches -/

namespace Cache

open Recency (found?)

/-- A cache that is a tidy list in slots. -/
def Kept (c : Cache) : Prop := ∃ l, Mirrors c l ∧ l.Tidy

/-- The entry of an item in a cache tells when it was created, if it is there and has not
expired. -/
def Dates (now : Instant) (item : Item) (c : Cache) : Prop :=
  ∃ l, Mirrors c l ∧ l.Tidy ∧
    ∀ x, found? (l.look item.key now).1 = some x → x.created = item.created

section Kept

variable {c : Cache} {l : Recency} {now : Instant} {item : Item}

/-- While time passes, nothing goes but what has expired. -/
theorem Mirrors.pass (h : Mirrors c l) (htidy : l.Tidy) (now : Instant) (ms : Nat) :
    ∃ l', Mirrors (c.pass now ms) l' ∧ Recency.Swept now l' l := by
  have hswept : Recency.Swept now l l := ⟨rfl, rfl, htidy, htidy, Recency.Trails.refl now _⟩
  unfold Cache.pass Cache.purgeIf
  split
  · obtain ⟨-, hpurged⟩ := h.step now .purge
    exact ⟨_, ⟨hpurged.capacity, hpurged.lifetime, hpurged.arena⟩, hswept.purge⟩
  · exact ⟨l, ⟨h.capacity, h.lifetime, h.arena⟩, hswept⟩

/-- An item with the identity of another one is found under its key. -/
theorem key_of_follows {next : Item} (h : next.Follows item) : next.key = item.key := by
  unfold Item.key
  rw [h.user, h.id]

theorem kept_ofLimits (capacity : Nat) (lifetime : Span) : (ofLimits capacity lifetime).Kept :=
  ⟨_, .ofLimits capacity lifetime, .ofLimits capacity lifetime⟩

/-- A cache stays a tidy list, whatever is asked of it. -/
theorem stable_kept : Stable Kept where
  serve := by
    rintro now request c ⟨l, hmirrors, htidy⟩
    exact ⟨_, (hmirrors.serve now request).2, htidy.serve request⟩
  pass := by
    rintro now ms c ⟨l, hmirrors, htidy⟩
    obtain ⟨l', hmirrors', hswept⟩ := hmirrors.pass htidy now ms
    exact ⟨l', hmirrors', hswept.purged⟩

/-- **A cache is accepting** where it is a tidy list. -/
theorem accepting : Accepting Kept Dates := by
  constructor
  · exact fun now request c h _ => stable_kept.serve now request c h
  · exact fun {c} now ms h => stable_kept.pass now ms c h
  · intro now request c _ hnamed
    cases request with
    | get user id =>
      show ¬Blames (c.get now user id).1
      rw [get_eq_look hnamed.1 hnamed.2]
      exact not_blames_ok _
    | getMany user ids =>
      have hcheck : Identity.checkAll user ids = .ok () := Identity.checkAll_eq_ok_iff.2 hnamed
      show ¬Blames (c.getMany now user ids).1
      unfold Cache.getMany
      rw [hcheck]
      exact not_blames_ok _
    | create item => exact not_blames_ok item
    | createMany items => exact not_blames_ok items
    | update item => exact hnamed.elim
    | delete user id =>
      show ¬Blames (c.delete user id).1
      unfold Cache.delete
      rw [Identity.checkAll_one hnamed.1 hnamed.2]
      exact not_blames_ok ()
    | deleteAll => exact not_blames_ok ()
  · rintro now user id item c c' ⟨l, hmirrors, htidy⟩ hserve
    obtain ⟨hanswer, hnext⟩ := hmirrors.get now user id
    have hget : c.get now user id = (.ok (some item), c') := hserve
    rw [hget] at hanswer hnext
    obtain ⟨⟨rfl, rfl⟩, -⟩ := htidy.get_iff.1 hanswer.symm
    have hlook : l.get now item.user item.id =
        (.ok (found? (l.look item.key now).1), (l.look item.key now).2) :=
      Recency.get_eq (Identity.checkAll_one item.user_valid item.id_valid)
    rw [hlook] at hanswer
    refine ⟨_, hnext, htidy.get, fun x hx => ?_⟩
    -- the look at the item is followed by another one, which finds it again
    rw [hlook, Recency.found?_look_look] at hx
    have hitem : some x = some item := hx.symm.trans (Except.ok.inj hanswer).symm
    rw [Option.some.inj hitem]
  · rintro now item c ms ⟨l, hmirrors, htidy, hdates⟩
    obtain ⟨l', hmirrors', hswept⟩ := hmirrors.pass htidy now ms
    refine ⟨l', hmirrors', hswept.purged, fun x hx => hdates x ?_⟩
    rwa [(hswept.look item.key).1] at hx
  · rintro now item next c ⟨l, hmirrors, htidy, hdates⟩ hnext
    show ¬Blames (c.update now next).1
    rw [(hmirrors.update now next).1, htidy.update_eq, key_of_follows hnext]
    cases hfound : found? (l.look item.key now).1 with
    | none => exact not_blames_ok next
    | some stored =>
      have hle : ∀ at_ ∈ next.dismissed, stored.created ≤ at_ := by
        rw [hdates stored hfound, ← hnext.created]
        exact next.created_le
      simp only [Item.create_early stored.id_valid stored.user_valid _ _ hle]
      exact not_blames_ok _

end Kept

end Cache

/-! ## Backends -/

namespace Backend

/-- Each row is read as the item that its key is for, and a cache is a tidy list, whose entries
stand under the keys of their items. -/
structure Consistent (b : Backend) : Prop where
  intact : b.Intact
  kept : ∀ c, b = cache c → c.Kept

/-- All that the backend keeps can be looked at. -/
def Readable : Backend → Prop
  | cache c => c.Kept
  | tree t => Durable.Readable t
  | table t => Durable.Readable t.thawed

/-- The backend was seen to hold an item. -/
def Saw (now : Instant) (item : Item) : Backend → Prop
  | cache c => c.Dates now item
  | tree t => Durable.Sound t ∧ t.get item.user item.id = .ok (some item)
  | table t => t.thawed.get item.user item.id = .ok (some item)

theorem Consistent.readable {b : Backend} (h : b.Consistent) : b.Readable := by
  obtain ⟨hintact, hkept⟩ := h
  cases hintact with
  | cache _ => exact hkept _ rfl
  | @tree t rows =>
    refine ⟨fun key bytes item hrow hdecode => ?_, fun user id => ?_⟩
    · obtain ⟨stored, hstored, hkey⟩ := rows key bytes hrow
      cases hdecode.symm.trans hstored
      exact hkey
    · exact Tree.get_ok fun bytes hrow => (rows _ bytes hrow).imp fun _ h => h.1
  | @table t rows => exact ⟨t.thawed_open, fun user id => Table.get_ok (rows ⟨user, id⟩)⟩

/-- **Backends of all kinds are accepting.** -/
theorem accepting : Accepting Readable Saw where
  adds now request b h hadds := by
    cases b with
    | cache c => exact Cache.accepting.adds now h hadds
    | tree t => exact Durable.accepting.adds (s := t) now h hadds
    | table t => exact Table.accepting.adds now h hadds
  pass {b} now ms h := by
    cases b with
    | cache c => exact Cache.accepting.pass now ms h
    | tree t => exact h
    | table t => exact h
  named now request b h hnamed := by
    cases b with
    | cache c => exact Cache.accepting.named now h hnamed
    | tree t => exact Durable.accepting.named (s := t) now h hnamed
    | table t => exact Table.accepting.named now h hnamed
  found now user id item b b' h hserve := by
    cases b with
    | cache c =>
      obtain ⟨hfound, rfl⟩ := Prod.mk.inj hserve
      exact Cache.accepting.found now h (Prod.ext hfound rfl)
    | tree t =>
      obtain ⟨hfound, rfl⟩ := Prod.mk.inj hserve
      exact Durable.accepting.found (s := t) now h (Prod.ext hfound rfl)
    | table t =>
      obtain ⟨hfound, rfl⟩ := Prod.mk.inj hserve
      exact Table.accepting.found now h (Prod.ext hfound rfl)
  waits {now item b} ms h := by
    cases b with
    | cache c => exact Cache.accepting.waits ms h
    | tree t => exact h
    | table t => exact h
  update now item next b h hnext := by
    cases b with
    | cache c => exact Cache.accepting.update now h hnext
    | tree t => exact Durable.accepting.update (s := t) now h hnext
    | table t => exact Table.accepting.update now h hnext

end Backend

end Dismissal
