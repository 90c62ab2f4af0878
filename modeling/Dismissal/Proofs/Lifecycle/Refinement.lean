import Dismissal.Proofs.Lifecycle.Keeper
import Dismissal.Proofs.Store.TreeLaws

/-!
# Calls refine the reference machine

A service over a keeper does what the reference machine does: a state `Follows` a machine if the
store holds exactly what is on record there, was written to when an event was told that says so, and
the same events were told. Each call keeps it so and gives the same answer, if what it names is
known and all writes are near (`Follows.perform`).

Over a durable store that is always so (`Holds.perform`). Over a tree that starts empty it is true
of all moves, and the rows of the tree are the records of the ledger (`tree_refines`).
-/

namespace Dismissal

open Lifecycle

/-- What a look at a ledger finds. -/
def Ledger.contents (l : Ledger) : Contents := fun user id =>
  .ok (if h : Identity.Valid user ∧ Identity.Valid id then
    let n : Name := ⟨user, id, h.1, h.2⟩
    l[n]?.map n.item else none)

section Contents

variable {l : Ledger} {n : Name} {v : Version} {user id : String}

theorem Ledger.contents_name (l : Ledger) (n : Name) :
    Ledger.contents l n.user n.id = .ok (l[n]?.map n.item) := by
  unfold Ledger.contents
  rw [dif_pos ⟨n.user_valid, n.id_valid⟩]

theorem Ledger.contents_invalid (h : ¬(Identity.Valid user ∧ Identity.Valid id)) :
    Ledger.contents l user id = .ok none := by
  unfold Ledger.contents
  rw [dif_neg h]

theorem Ledger.contents_insert (l : Ledger) (n : Name) (v : Version) :
    Ledger.contents (l.insert n v) = (Ledger.contents l).put (n.item v) := by
  funext user id
  by_cases hvalid : Identity.Valid user ∧ Identity.Valid id
  · obtain ⟨k, rfl, rfl⟩ : ∃ k : Name, k.user = user ∧ k.id = id :=
      ⟨⟨user, id, hvalid.1, hvalid.2⟩, rfl, rfl⟩
    rw [contents_name, getElem?_insert_eq]
    by_cases heq : n = k
    · subst heq
      rw [if_pos rfl]
      exact Contents.put_self.symm
    · rw [if_neg heq, Contents.put_of_ne fun h => heq (Name.eq_iff.2 h), contents_name]
  · have hne : ¬(user = (n.item v).user ∧ id = (n.item v).id) := by
      rintro ⟨rfl, rfl⟩
      exact hvalid ⟨n.user_valid, n.id_valid⟩
    rw [contents_invalid hvalid, Contents.put_of_ne hne, contents_invalid hvalid]

theorem Ledger.contents_erase (l : Ledger) (n : Name) :
    Ledger.contents (l.erase n) = (Ledger.contents l).drop n.user n.id := by
  funext user id
  unfold Contents.drop
  by_cases hvalid : Identity.Valid user ∧ Identity.Valid id
  · obtain ⟨k, rfl, rfl⟩ : ∃ k : Name, k.user = user ∧ k.id = id :=
      ⟨⟨user, id, hvalid.1, hvalid.2⟩, rfl, rfl⟩
    rw [contents_name, contents_name, getElem?_erase_eq]
    by_cases heq : n = k
    · rw [if_pos heq, if_pos (Name.eq_iff.1 heq)]
      rfl
    · rw [if_neg heq, if_neg fun h => heq (Name.eq_iff.2 h)]
  · rw [contents_invalid hvalid, contents_invalid hvalid, ite_self]

theorem Ledger.contents_empty : Ledger.contents ∅ = fun _ _ => .ok none := by
  funext user id
  unfold Ledger.contents
  split <;> simp

end Contents

/-! ## Malformed identities -/

theorem Identity.forM_check_eq (ids : List String) :
    ids.forM (Identity.check "itemId") = match ids.findSome? Identity.flaw? with
      | some flaw => .error (.invalidArgument (flaw.reason "itemId"))
      | none => .ok () := by
  induction ids with
  | nil => rfl
  | cons id ids ih =>
    simp only [List.forM, bind, Except.bind, Identity.check, List.findSome?_cons]
    cases Identity.flaw? id with
    | some flaw => rfl
    | none => exact ih

/-- The checks of a call refuse the first malformed identity. -/
theorem Identity.checkAll_eq (user : String) (ids : List String) :
    Identity.checkAll user ids = match malformed? user ids with
      | some reason => .error (.invalidArgument reason)
      | none => .ok () := by
  unfold Identity.checkAll malformed? Identity.check
  simp only [bind, Except.bind]
  cases Identity.flaw? user with
  | some flaw => rfl
  | none =>
    show ids.forM (Identity.check "itemId") = _
    rw [Identity.forM_check_eq]
    cases ids.findSome? Identity.flaw? <;> rfl

/-! ## Names and writes -/

/-- The name of two texts, if they are valid identities. -/
def Name.ofTexts? (user id : String) : Option Name :=
  if h : Identity.Valid user ∧ Identity.Valid id then some ⟨user, id, h.1, h.2⟩ else none

theorem Name.ofTexts?_self (n : Name) : ofTexts? n.user n.id = some n :=
  dif_pos ⟨n.user_valid, n.id_valid⟩

/-- The well-formed names in a call. -/
def Lifecycle.Call.names : Call → List Name
  | getOrCreate user id _ => (Name.ofTexts? user id).toList
  | getOrCreateMany user ids _ => ids.filterMap (Name.ofTexts? user)
  | dismiss user id _ => (Name.ofTexts? user id).toList
  | restore user id _ => (Name.ofTexts? user id).toList
  | deleteItem user id => (Name.ofTexts? user id).toList
  | reset => []

theorem Name.mem_names_of_mem_all {user : String} {huser : Identity.Valid user} {ids : List String}
    {hids : ∀ id ∈ ids.eraseDups, Identity.Valid id} {n : Name}
    (hmem : n ∈ Name.all user huser ids.eraseDups hids) :
    n ∈ ids.filterMap (Name.ofTexts? user) := by
  obtain ⟨id, hid, rfl⟩ := List.mem_pmap.1 hmem
  exact List.mem_filterMap.2 ⟨id, List.mem_eraseDups.1 hid, dif_pos ⟨huser, hids id hid⟩⟩

/-- The instants at which a version was put on record, as events tell. -/
def writes (events : List Event) : List Instant :=
  (events.filter fun event => event.change ≠ .retrieved).map Event.time

theorem writes_append (events others : List Event) :
    writes (events ++ others) = writes events ++ writes others := by
  simp [writes]

theorem writes_retrieved {event : Event} (h : event.change = .retrieved) :
    writes [event] = [] := by
  simp [writes, h]

theorem writes_changed {event : Event} (h : event.change ≠ .retrieved) :
    writes [event] = [event.time] := by
  simp [writes, h]

theorem mem_writes {events : List Event} {t : Instant} :
    t ∈ writes events ↔ ∃ event ∈ events, event.change ≠ .retrieved ∧ event.time = t := by
  simp [writes, and_assoc]

/-! ## Presenting one item -/

section One

variable {σ : Type} {s : State σ} {now : Instant} (context : Option Json) {n : Name}
  {store store' : σ}

theorem exec_checkAll {user : String} {ids : List String} (h : malformed? user ids = none) :
    exec (liftM (Identity.checkAll user ids) : Action σ Unit) s = (.ok (), s) := by
  rw [exec_lift, Identity.checkAll_eq, h]

theorem Name.check (n : Name) : malformed? n.user [n.id] = none :=
  malformed?_eq_none_iff.2 ⟨n.user_valid, by simpa using n.id_valid⟩

/-- A look that fails is all that comes of it. -/
theorem getOrCreate_unread [Store σ] {e : Failure}
    (hget : Store.serve now (.get n.user n.id) s.store = (.error e, store)) :
    exec (getOrCreate now n.user n.id context) s = (.error e, { s with store }) := by
  have hask : exec (ask now (.get n.user n.id)) s = (.error e, { s with store }) := by
    rw [exec_ask, hget]
  unfold getOrCreate
  rw [exec_bind_ok (exec_checkAll n.check), exec_bind_error hask]

/-- An item that is found is presented. -/
theorem getOrCreate_found [Store σ] {item : Item}
    (hget : Store.serve now (.get n.user n.id) s.store = (.ok (some item), store)) :
    exec (getOrCreate now n.user n.id context) s = (.ok ⟨item, false⟩,
      ⟨store, s.published ++ [presentedEvent now context ⟨item, false⟩]⟩) := by
  have hask : exec (ask now (.get n.user n.id)) s = (.ok (some item), { s with store }) := by
    rw [exec_ask, hget]
  unfold getOrCreate
  rw [exec_bind_ok (exec_checkAll n.check), exec_bind_ok hask]
  rfl

/-- An item that is not found is created and presented. -/
theorem getOrCreate_new [Store σ]
    (hget : Store.serve now (.get n.user n.id) s.store = (.ok none, store))
    (hcreate : Store.serve now (.create (n.item (.new now))) store =
      (.ok (n.item (.new now)), store')) :
    exec (getOrCreate now n.user n.id context) s = (.ok ⟨n.item (.new now), true⟩,
      ⟨store', s.published ++ [presentedEvent now context ⟨n.item (.new now), true⟩]⟩) := by
  have hask : exec (ask now (.get n.user n.id)) s = (.ok none, { s with store }) := by
    rw [exec_ask, hget]
  have hmake : exec (liftM (Item.create n.id n.user now none) : Action σ Item) { s with store } =
      (.ok (n.item (.new now)), { s with store }) := by
    rw [exec_lift, n.create]
  have hinsert : exec (insertOrReread now (n.item (.new now))) { s with store } =
      (.ok ⟨n.item (.new now), true⟩, { s with store := store' }) := by
    unfold insertOrReread
    rw [exec_bind_ok (exec_attempt _), exec_ask, hcreate]
    rfl
  unfold getOrCreate
  rw [exec_bind_ok (exec_checkAll n.check), exec_bind_ok hask]
  show exec (_ >>= _) _ = _
  rw [exec_bind_ok hmake, exec_bind_ok hinsert]
  rfl

end One

/-! ## One call -/

/-- A state follows a machine: the store holds what is on record, written to when events tell so,
and the same events were told. -/
structure Follows {σ : Type} [Store σ] (k : Keeper σ) (s : State σ) (m : Machine) : Prop where
  held : k.holds (writes m.published) (Ledger.contents m.ledger) s.store
  published : s.published = m.published

/-- All that was put on record is near enough to be there still. -/
def Lifecycle.Keeper.Recent {σ : Type} [Store σ] (k : Keeper σ) (now : Instant) (m : Machine) :
    Prop :=
  ∀ t ∈ writes m.published, k.Near now t

section Calls

variable {σ : Type} [Store σ] {k : Keeper σ} {s : State σ} {m : Machine} {now : Instant}
  (context : Option Json)

/-- A version is written and told. -/
theorem Follows.record (h : Follows k s m) {n : Name} {v : Version} {change : Change} {store : σ}
    (hchange : change ≠ .retrieved)
    (hheld : k.holds (writes m.published ++ [now]) ((Ledger.contents m.ledger).put (n.item v))
      store) :
    Follows k ⟨store, s.published ++ [⟨change, n.user, n.id, n.item v, context, now⟩]⟩
      (m.record now context n v change) where
  held := by
    unfold Machine.record
    rw [writes_append, writes_changed hchange, Ledger.contents_insert]
    exact hheld
  published := by rw [h.published, Machine.record]

/-- The store may be read. -/
theorem Follows.read (h : Follows k s m) {store : σ}
    (hheld : k.holds (writes m.published) (Ledger.contents m.ledger) store) :
    Follows k { s with store } m := ⟨hheld, h.published⟩

theorem Follows.getOrCreate (h : Follows k s m) (hnear : k.Recent now m) {n : Name}
    (hknown : k.Knows n) :
    ∃ s', exec (Lifecycle.getOrCreate now n.user n.id context) s =
        (.ok (m.present now context n).1, s') ∧ Follows k s' (m.present now context n).2 := by
  obtain ⟨store, hget, hheld⟩ := k.get n hnear h.held
  rw [Ledger.contents_name] at hget
  unfold Machine.present
  cases hv : m.ledger[n]? with
  | some v =>
    rw [hv] at hget
    refine ⟨_, getOrCreate_found context hget, ?_, ?_⟩
    · rw [writes_append, writes_retrieved rfl, List.append_nil]
      exact hheld
    · show s.published ++ _ = m.published ++ _
      rw [h.published]
      rfl
  | none =>
    rw [hv] at hget
    have hvacant : (Ledger.contents m.ledger).Vacant n.user n.id := by
      rw [Contents.Vacant, Ledger.contents_name, hv]
      rfl
    obtain ⟨store', hcreate, hput⟩ :
        ∃ store', Store.serve now (.create (n.item (.new now))) store = _ ∧ _ :=
      k.create now hknown hvacant hheld
    exact ⟨_, getOrCreate_new context hget hcreate, h.record context (by simp) hput⟩

theorem Follows.dismiss (h : Follows k s m) (hnear : k.Recent now m) (n : Name) :
    ∃ s', exec (Lifecycle.dismiss now n.user n.id context) s =
        ((m.dismiss now context n).1, s') ∧ Follows k s' (m.dismiss now context n).2 := by
  have hlook := Ledger.contents_name m.ledger n
  unfold Lifecycle.dismiss Machine.dismiss
  rw [exec_bind_ok (exec_checkAll n.check)]
  cases hv : m.ledger[n]? with
  | none =>
    rw [hv] at hlook
    obtain ⟨store, hrun, hheld⟩ := Keeper.existing_missing hnear h.held hlook
    exact ⟨_, exec_bind_error hrun _, h.read hheld⟩
  | some v =>
    rw [hv] at hlook
    obtain ⟨store, hrun, hheld⟩ := Keeper.existing_found hnear h.held hlook
    rw [exec_bind_ok hrun]
    simp only
    by_cases hd : v.dismissed.isSome = true
    · rw [if_pos hd, if_pos (show (n.item v).isDismissed = true from hd)]
      exact ⟨_, rfl, h.read hheld⟩
    · rw [if_neg hd, if_neg (show ¬(n.item v).isDismissed = true from hd)]
      by_cases hle : v.created ≤ now
      · have hnext : (n.item v).dismissAt now =
            .ok (n.item ⟨v.created, some now, by simpa using hle⟩) := dif_pos hle
        obtain ⟨store', htransit, hput⟩ := Keeper.transit_found (s := { s with store }) context n
          .dismissed (n.item v) (n.item ⟨v.created, some now, by simpa using hle⟩) hnear hheld
          hlook rfl
        rw [exec_bind, exec_lift, hnext, dif_pos hle]
        exact ⟨_, htransit, h.record context (by simp) hput⟩
      · have hnext : (n.item v).dismissAt now = .error (.invalidState
            ("cannot dismiss item '" ++ n.id ++ "' at " ++ now.offsetText ++
              " before it was created at " ++ v.created.offsetText)) := dif_neg hle
        rw [exec_bind, exec_lift, hnext, dif_neg hle]
        exact ⟨_, rfl, h.read hheld⟩

theorem Follows.restore (h : Follows k s m) (hnear : k.Recent now m) (n : Name) :
    ∃ s', exec (Lifecycle.restore now n.user n.id context) s =
        ((m.restore now context n).1, s') ∧ Follows k s' (m.restore now context n).2 := by
  have hlook := Ledger.contents_name m.ledger n
  unfold Lifecycle.restore Machine.restore
  rw [exec_bind_ok (exec_checkAll n.check)]
  cases hv : m.ledger[n]? with
  | none =>
    rw [hv] at hlook
    obtain ⟨store, hrun, hheld⟩ := Keeper.existing_missing hnear h.held hlook
    exact ⟨_, exec_bind_error hrun _, h.read hheld⟩
  | some v =>
    rw [hv] at hlook
    obtain ⟨store, hrun, hheld⟩ := Keeper.existing_found hnear h.held hlook
    rw [exec_bind_ok hrun]
    simp only
    by_cases hd : v.dismissed.isSome = true
    · rw [if_pos hd, if_pos (show (n.item v).isDismissed = true from hd)]
      obtain ⟨store', htransit, hput⟩ := Keeper.transit_found (s := { s with store }) context n
        .restored (n.item v) (n.item ⟨v.created, none, by simp⟩) hnear hheld hlook rfl
      exact ⟨_, htransit, h.record context (by simp) hput⟩
    · rw [if_neg hd, if_neg (show ¬(n.item v).isDismissed = true from hd)]
      exact ⟨_, rfl, h.read hheld⟩

theorem Follows.deleteItem (h : Follows k s m) (now : Instant) (n : Name) :
    ∃ s', exec (Lifecycle.deleteItem now n.user n.id) s = (.ok (), s') ∧
      Follows k s' { m with ledger := m.ledger.erase n } := by
  obtain ⟨store, hserve, hdrop⟩ := k.delete now n h.held
  refine ⟨{ s with store }, ?_, ?_, h.published⟩
  · unfold Lifecycle.deleteItem
    rw [exec_bind_ok (exec_checkAll n.check), exec_ask, hserve]
  · rw [Ledger.contents_erase]
    exact hdrop

theorem Follows.reset (h : Follows k s m) (now : Instant) :
    ∃ s', exec (Lifecycle.reset now) s = (.ok (), s') ∧
      Follows k s' { m with ledger := ∅ } := by
  obtain ⟨store, hserve, hempty⟩ := k.deleteAll now h.held
  refine ⟨{ s with store }, ?_, ?_, h.published⟩
  · unfold Lifecycle.reset
    rw [exec_ask, hserve]
  · rw [Ledger.contents_empty]
    exact hempty

end Calls

/-! ## Batches -/

section Batches

variable {σ : Type} [Store σ] {k : Keeper σ} {s : State σ} {m : Machine} (now : Instant)
  (context : Option Json) {names : List Name} {user : String}

/-- The new items for those names that are not on record. -/
def Machine.missing (m : Machine) (now : Instant) (names : List Name) : List Item :=
  (names.filter fun n => m.ledger[n]?.isNone).map fun n => n.item (.new now)

/-- What was presented is told as it was answered. -/
theorem Machine.present_published (m : Machine) (n : Name) :
    (m.present now context n).2.published =
      m.published ++ [presentedEvent now context (m.present now context n).1] := by
  unfold present
  cases m.ledger[n]? <;> rfl

theorem Machine.present_contents (m : Machine) (n : Name) :
    Ledger.contents (m.present now context n).2.ledger =
      (Ledger.contents m.ledger).putAll (m.missing now [n]) := by
  unfold present missing
  cases hv : m.ledger[n]? with
  | some v => simp [hv, Contents.putAll]
  | none => simp [hv, Contents.putAll, record, Ledger.contents_insert]

theorem Machine.present_writes (m : Machine) (n : Name) :
    writes (m.present now context n).2.published =
      writes m.published ++ (m.missing now [n]).map fun _ => now := by
  unfold present missing
  cases hv : m.ledger[n]? with
  | some v => simp [hv, writes_append, writes_retrieved]
  | none => simp [hv, record, writes_append, writes_changed]

/-- Presenting an item changes what is on record for that item alone. -/
theorem Machine.present_other {n other : Name} (hne : n ≠ other) (m : Machine) :
    (m.present now context n).2.ledger[other]? = m.ledger[other]? := by
  unfold present
  cases m.ledger[n]? with
  | some v => rfl
  | none =>
    show (m.ledger.insert n _)[other]? = _
    rw [getElem?_insert_eq, if_neg hne]

/-- What is answered depends on what is on record for the item alone. -/
theorem Machine.present_congr {m' : Machine} {n : Name} (h : m.ledger[n]? = m'.ledger[n]?) :
    (m.present now context n).1 = (m'.present now context n).1 := by
  unfold present
  rw [h]
  cases m'.ledger[n]? <;> rfl

theorem Machine.presentEach_cons (m : Machine) (n : Name) (names : List Name) :
    m.presentEach now context (n :: names) =
      ((m.present now context n).1 :: ((m.present now context n).2.presentEach now context names).1,
        ((m.present now context n).2.presentEach now context names).2) := rfl

/-- After one name, the others are missing that were missing before. -/
theorem Machine.missing_cons {n : Name} (hn : n ∉ names) (m : Machine) :
    m.missing now (n :: names) =
      m.missing now [n] ++ (m.present now context n).2.missing now names := by
  have hfilter : names.filter (fun other => (m.present now context n).2.ledger[other]?.isNone) =
      names.filter fun other => m.ledger[other]?.isNone := by
    refine List.filter_congr fun other hmem => ?_
    rw [present_other now context (by rintro rfl; exact hn hmem)]
  unfold missing
  rw [hfilter, ← List.map_append, ← List.filter_append]
  rfl

/-- Different items are presented one after the other as each alone would be. -/
theorem Machine.presentEach_eq (hnodup : names.Nodup) (m : Machine) :
    (m.presentEach now context names).1 = names.map (fun n => (m.present now context n).1) ∧
    (m.presentEach now context names).2.published = m.published ++
      (m.presentEach now context names).1.map (presentedEvent now context) ∧
    Ledger.contents (m.presentEach now context names).2.ledger =
      (Ledger.contents m.ledger).putAll (m.missing now names) ∧
    writes (m.presentEach now context names).2.published =
      writes m.published ++ (m.missing now names).map fun _ => now := by
  induction names generalizing m with
  | nil => exact ⟨rfl, (List.append_nil _).symm, rfl, (List.append_nil _).symm⟩
  | cons n names ih =>
    rw [List.nodup_cons] at hnodup
    obtain ⟨hn, hnodup⟩ := hnodup
    obtain ⟨hanswers, hpublished, hcontents, hwrites⟩ := ih hnodup (m.present now context n).2
    rw [presentEach_cons, missing_cons now context hn]
    refine ⟨?_, ?_, ?_, ?_⟩
    · rw [hanswers, List.map_cons]
      exact congrArg _ (List.map_congr_left fun other hmem =>
        present_congr now context (present_other now context (by rintro rfl; exact hn hmem) m))
    · rw [hpublished, present_published, List.append_assoc]
      rfl
    · rw [hcontents, present_contents]
      unfold Contents.putAll
      rw [List.foldl_append]
    · rw [hwrites, present_writes, List.map_append, List.append_assoc]

/-- Vacant places of different items stay vacant until their turn comes. -/
theorem Contents.fresh_of_nodup {c : Contents} {items : List Item}
    (hvacant : ∀ item ∈ items, c.Vacant item.user item.id)
    (hnodup : (items.map Item.id).Nodup) : c.Fresh items := by
  induction items generalizing c with
  | nil => trivial
  | cons item items ih =>
    rw [List.map_cons, List.nodup_cons] at hnodup
    obtain ⟨hitem, hnodup⟩ := hnodup
    refine ⟨hvacant item List.mem_cons_self, ih (fun other hmem => ?_) hnodup⟩
    have hne : ¬(other.user = item.user ∧ other.id = item.id) := fun h =>
      hitem (h.2 ▸ List.mem_map_of_mem hmem)
    rw [Vacant, put_of_ne hne]
    exact hvacant other (List.mem_cons_of_mem _ hmem)

/-- What a batch answers to a name is what the machine presents, if what was found is what is on
record. -/
theorem Machine.presentedOf_eq (m : Machine) {found : Found} {n : Name}
    (hfound : found[n.id]? = m.ledger[n]?.map n.item) :
    presentedOf now found n = (m.present now context n).1 := by
  unfold presentedOf present
  rw [hfound]
  cases m.ledger[n]? <;> rfl

/-- The items that a batch creates are those that are not on record. -/
theorem Machine.newItems_eq (m : Machine) {found : Found}
    (hfound : ∀ n ∈ names, found[n.id]? = m.ledger[n]?.map n.item) :
    newItems now found names = m.missing now names := by
  unfold newItems missing
  refine congrArg _ (List.filter_congr fun n hmem => ?_)
  rw [Std.ExtTreeMap.contains_eq_isSome_getElem?, hfound n hmem]
  cases m.ledger[n]? <;> rfl

variable {now} in
/-- All names of a batch were looked at. -/
theorem Follows.gathers (h : Follows k s m) (hnear : k.Recent now m)
    (huser : ∀ n ∈ names, n.user = user) (hvalid : Identity.Valid user) :
    ∃ (found : Found) (store : σ),
      Store.serve now (.getMany user (names.map Name.id)) s.store = (.ok found, store) ∧
      (∀ n ∈ names, found[n.id]? = m.ledger[n]?.map n.item) ∧ Follows k { s with store } m := by
  have hids : ∀ id ∈ names.map Name.id, Identity.Valid id := by
    intro id hmem
    obtain ⟨n, -, rfl⟩ := List.mem_map.1 hmem
    exact n.id_valid
  obtain ⟨answer, store, hserve, hgathers, hheld⟩ := k.getMany hvalid hids hnear h.held
  cases answer with
  | error e =>
    obtain ⟨id, -, herr⟩ := hgathers
    cases herr
  | ok found =>
    refine ⟨found, store, hserve, fun n hmem => ?_, h.read hheld⟩
    have hlook := (hgathers n.id).1 (List.mem_map_of_mem hmem)
    rw [← huser n hmem, Ledger.contents_name] at hlook
    exact (Except.ok.inj hlook).symm

theorem Machine.fresh_missing (m : Machine) (hnodup : (names.map Name.id).Nodup) :
    (Ledger.contents m.ledger).Fresh (m.missing now names) := by
  refine Contents.fresh_of_nodup (fun item hitem => ?_) ?_
  · obtain ⟨n, hn, rfl⟩ := List.mem_map.1 hitem
    have hnone : m.ledger[n]? = none := by simpa using (List.mem_filter.1 hn).2
    show Ledger.contents m.ledger n.user n.id = .ok none
    rw [Ledger.contents_name, hnone]
    rfl
  · unfold missing
    rw [List.map_map]
    exact hnodup.sublist (List.filter_sublist.map _)

variable {now} in
theorem Follows.presentAll (h : Follows k s m) (hnear : k.Recent now m)
    (hknown : ∀ n ∈ names, k.Knows n) (huser : ∀ n ∈ names, n.user = user)
    {ids : List String} (hids : names.map Name.id = ids.eraseDups)
    (hvalid : malformed? user ids = none) :
    ∃ s', exec (Lifecycle.getOrCreateMany now user ids context) s =
        (.ok (m.presentEach now context names).1, s') ∧
      Follows k s' (m.presentEach now context names).2 := by
  have hnodup : (names.map Name.id).Nodup := hids ▸ nodup_eraseDups ids
  obtain ⟨hanswers, hpublished, hcontents, hwrites⟩ :=
    Machine.presentEach_eq now context hnodup.of_map m
  obtain ⟨found, store, hget, hfound, hread⟩ :=
    h.gathers hnear huser (malformed?_eq_none_iff.1 hvalid).1
  have hmissing : ∀ item ∈ m.missing now names, k.Knows item.name := by
    intro item hmem
    obtain ⟨n, hn, rfl⟩ := List.mem_map.1 hmem
    exact hknown n (List.mem_of_mem_filter hn)
  obtain ⟨store', hcreate, hput⟩ := Keeper.createMissing_fresh now hread.held hmissing
    (m.fresh_missing now hnodup)
  rw [← m.newItems_eq now hfound] at hcreate
  have hpresented : names.map (presentedOf now found) =
      names.map fun n => (m.present now context n).1 :=
    List.map_congr_left fun n hmem => m.presentedOf_eq now context (hfound n hmem)
  have hcheck : Identity.checkAll user ids = .ok () := by
    rw [Identity.checkAll_eq, hvalid]
  rcases eq_or_ne names [] with rfl | hnames
  · exact ⟨s, getOrCreateMany_nothing context hcheck hids.symm, h⟩
  · have hrun := getOrCreateMany_through context hcheck hids huser hnames (hids ▸ hget) hcreate
    rw [hpresented, ← hanswers] at hrun
    refine ⟨_, hrun, ?_, ?_⟩
    · rw [hcontents, hwrites]
      exact hput
    · rw [hpublished, h.published]

end Batches

/-! ## All calls -/

section Calls

variable {σ : Type} [Store σ] {k : Keeper σ} {s : State σ} {m : Machine} {now : Instant}

/-- A call that names one item does as the machine does with its name. -/
theorem Follows.named {α : Type} (h : Follows k s m) {user id : String} {action : Action σ α}
    {outcome : α → Outcome} {act : Name → Result Outcome × Machine}
    (hbad : ∀ reason, malformed? user [id] = some reason →
      exec action s = (.error (.invalidArgument reason), s))
    (hgood : ∀ n : Name, n.user = user → n.id = id →
      ∃ answer s', exec action s = (answer, s') ∧ (act n).1 = answer.map outcome ∧
        Follows k s' (act n).2) :
    (exec (action >>= fun a => pure (outcome a)) s).1 = (m.named user id act).1 ∧
      Follows k (exec (action >>= fun a => pure (outcome a)) s).2 (m.named user id act).2 := by
  rw [exec_map]
  unfold Machine.named
  split
  · rename_i reason hmalformed
    rw [hbad reason hmalformed]
    exact ⟨rfl, h⟩
  · rename_i hmalformed
    have hvalid := malformed?_eq_none_iff.1 hmalformed
    obtain ⟨answer, s', hrun, hanswer, hnext⟩ :=
      hgood ⟨user, id, hvalid.1, hvalid.2 id List.mem_cons_self⟩ rfl rfl
    rw [hrun]
    exact ⟨hanswer.symm, hnext⟩

omit [Store σ] in
/-- A call with a malformed identity is refused before anything else. -/
theorem exec_malformed {α : Type} {user reason : String} {ids : List String}
    (h : malformed? user ids = some reason) (rest : Unit → Action σ α) :
    exec (liftM (Identity.checkAll user ids) >>= rest) s =
      (.error (.invalidArgument reason), s) := by
  refine exec_bind_error ?_ rest
  rw [exec_lift, Identity.checkAll_eq, h]

/-- **Each call gives the answer of the machine**, and leaves what the machine leaves. -/
theorem Follows.perform (h : Follows k s m) (hnear : k.Recent now m) {c : Call}
    (hknown : ∀ n ∈ c.names, k.Knows n) :
    (c.perform now s).1 = (Machine.perform now c m).1 ∧
      Follows k (c.perform now s).2 (Machine.perform now c m).2 := by
  cases c with
  | getOrCreate user id context =>
    refine h.named (fun reason hbad => exec_malformed hbad _) ?_
    rintro n rfl rfl
    have hn : k.Knows n := hknown n (by simp [Call.names, n.ofTexts?_self])
    obtain ⟨s', hrun, hnext⟩ := h.getOrCreate context hnear hn
    exact ⟨_, s', hrun, rfl, hnext⟩
  | getOrCreateMany user ids context =>
    rw [Call.perform_eq_exec]
    show (exec (_ >>= _) s).1 = (m.presentAll now context user ids).1 ∧
      Follows k (exec (_ >>= _) s).2 (m.presentAll now context user ids).2
    rw [exec_map]
    unfold Machine.presentAll
    split
    · rename_i reason hbad
      have hrun : exec (Lifecycle.getOrCreateMany now user ids context) s = _ :=
        exec_malformed hbad _
      rw [hrun]
      exact ⟨rfl, h⟩
    · rename_i hvalid
      obtain ⟨huser, hids⟩ := malformed?_eq_none_iff.1 hvalid
      obtain ⟨s', hrun, hnext⟩ := h.presentAll context hnear
        (fun n hmem => hknown n (Name.mem_names_of_mem_all hmem))
        (fun n hmem => Name.user_of_mem_all hmem) (Name.map_id_all ..) hvalid
      rw [hrun]
      exact ⟨rfl, hnext⟩
  | dismiss user id context =>
    refine h.named (fun reason hbad => exec_malformed hbad _) ?_
    rintro n rfl rfl
    obtain ⟨s', hrun, hnext⟩ := h.dismiss context hnear n
    exact ⟨_, s', hrun, rfl, hnext⟩
  | restore user id context =>
    refine h.named (fun reason hbad => exec_malformed hbad _) ?_
    rintro n rfl rfl
    obtain ⟨s', hrun, hnext⟩ := h.restore context hnear n
    exact ⟨_, s', hrun, rfl, hnext⟩
  | deleteItem user id =>
    refine h.named (fun reason hbad => exec_malformed hbad _) ?_
    rintro n rfl rfl
    obtain ⟨s', hrun, hnext⟩ := h.deleteItem now n
    exact ⟨_, s', hrun, rfl, hnext⟩
  | reset =>
    obtain ⟨s', hrun, hnext⟩ := h.reset now
    rw [Call.perform_eq_exec]
    show (exec (_ >>= _) s).1 = _ ∧ Follows k (exec (_ >>= _) s).2 _
    rw [exec_bind_ok hrun]
    exact ⟨rfl, hnext⟩

end Calls

/-! ## Durable stores -/

section Durable

variable {σ : Type} [Durable σ] {s : State σ} {m : Machine}

/-- A state does as a machine: what is on record is held, and the same events were told. -/
structure Holds (s : State σ) (m : Machine) : Prop where
  sound : Durable.Sound s.store
  look : Durable.look s.store = Ledger.contents m.ledger
  published : s.published = m.published

/-- Each call gives the answer of the machine, and leaves what the machine leaves. -/
theorem Holds.perform (h : Holds s m) (now : Instant) (c : Call) :
    (c.perform now s).1 = (Machine.perform now c m).1 ∧
      Holds (c.perform now s).2 (Machine.perform now c m).2 := by
  have hfollows : Follows (Keeper.durable σ) s m := ⟨⟨h.sound, h.look⟩, h.published⟩
  have hnear : (Keeper.durable σ).Recent now m := fun _ _ => trivial
  have hknown : ∀ n ∈ c.names, (Keeper.durable σ).Knows n := fun _ _ => trivial
  obtain ⟨hanswer, hnext⟩ := hfollows.perform hnear hknown
  exact ⟨hanswer, hnext.held.1, hnext.held.2, hnext.published⟩

end Durable

/-! ## Runs -/

/-- The rows of a tree are the records of a ledger, each under the key of its item. -/
def Ledger.Recorded (l : Ledger) (t : Tree) : Prop :=
  ∀ key bytes, t.rows[key]? = some bytes ↔
    ∃ (n : Name) (v : Version), l[n]? = some v ∧ key = Tree.rowKey n.user n.id ∧
      bytes = Record.encode (n.item v)

/-- A written tree that holds a ledger has the records of the ledger for its rows. -/
theorem Ledger.recorded_of_written {l : Ledger} {t : Tree} (hwritten : t.Written)
    (hlook : t.get = Ledger.contents l) : Ledger.Recorded l t := by
  intro key bytes
  rw [hwritten.row_iff]
  constructor
  · rintro ⟨item, hget, rfl, rfl⟩
    rw [hlook] at hget
    have hname := Ledger.contents_name l ⟨item.user, item.id, item.user_valid, item.id_valid⟩
    rw [show Ledger.contents l item.user item.id = _ from hget] at hname
    obtain ⟨v, hv, hitem⟩ := Option.map_eq_some_iff.1 (Except.ok.inj hname).symm
    exact ⟨_, v, hv, rfl, by rw [hitem]⟩
  · rintro ⟨n, v, hv, rfl, rfl⟩
    refine ⟨n.item v, ?_, rfl, rfl⟩
    show t.get n.user n.id = _
    rw [hlook, Ledger.contents_name, hv]
    rfl

/-- **A service over a tree does as the reference machine.** Along all moves, from an empty tree and
an empty ledger, the answers and the events are the same, and so are the rows and the ledger. -/
theorem tree_refines (clock : Instant) (moves : List Move) :
    let service := Course.follow Call.perform ⟨clock, { store := ({} : Tree) }, []⟩ moves
    let machine := Course.follow Machine.perform ⟨clock, {}, []⟩ moves
    service.answers = machine.answers ∧
      service.state.published = machine.state.published ∧
      Ledger.Recorded machine.state.ledger service.state.store := by
  have hwritten (now : Instant) (c : Call) : Keeps Tree.Written (c.run now) :=
    Keeps.call (fun request s h => h.serve request) c
  have hstart : Course.Alike (fun (s : State Tree) m => Holds s m ∧ s.store.Written)
      ⟨clock, { store := {} }, []⟩ ⟨clock, {}, []⟩ := ⟨rfl, ⟨?_, ?_⟩, rfl⟩
  · have halike := hstart.follow (fun now c s m h =>
      ⟨(h.1.perform now c).1, (h.1.perform now c).2, hwritten now c s h.2⟩) moves
    exact ⟨halike.answers, halike.state.1.published,
      Ledger.recorded_of_written halike.state.2 halike.state.1.look⟩
  · exact ⟨fun _ _ _ h => (by cases h), (by rw [Ledger.contents_empty]; rfl), rfl⟩
  · exact fun _ _ h => by cases h

end Dismissal
