import Dismissal.Store.Basic

/-!
# Durable stores

A durable store keeps what it was given until it is told otherwise. What it holds is read off by
looking: its `Contents` say for every user and item what a look finds. The class `Durable` states
what each request answers and what it makes of the contents, for states that are `Sound`. What is
proved from these laws alone holds of every store that has them.
-/

namespace Dismissal

/-! ## Rows under keys -/

section Rows

variable {κ ν : Type} [Ord κ] [Std.TransOrd κ] [Std.LawfulEqOrd κ] [DecidableEq κ]

theorem getElem?_insert_eq (rows : Std.ExtTreeMap κ ν) (key other : κ) (value : ν) :
    (rows.insert key value)[other]? = if key = other then some value else rows[other]? := by
  simp only [Std.ExtTreeMap.getElem?_insert, Std.compare_eq_iff_eq]

theorem getElem?_erase_eq (rows : Std.ExtTreeMap κ ν) (key other : κ) :
    (rows.erase key)[other]? = if key = other then none else rows[other]? := by
  simp only [Std.ExtTreeMap.getElem?_erase, Std.compare_eq_iff_eq]

end Rows

/-! ## Contents -/

/-- Adds what looks find to what was found before, each under the identity that it was for, up to
the first look that fails. -/
def gather (found : Found) : List (String × Result (Option Item)) → Result Found
  | [] => .ok found
  | (_, .error e) :: _ => .error e
  | (_, .ok none) :: answers => gather found answers
  | (id, .ok (some item)) :: answers => gather (found.insert id item) answers

/-- What a look at the item of a user finds, for all users and items. -/
abbrev Contents := String → String → Result (Option Item)

namespace Contents

/-- Nothing is kept for an item of a user. -/
def Vacant (c : Contents) (user id : String) : Prop := c user id = .ok none

/-- The contents with an item in its place. -/
def put (c : Contents) (item : Item) : Contents := fun user id =>
  if user = item.user ∧ id = item.id then .ok (some item) else c user id

/-- The contents without the item of a user. -/
def drop (c : Contents) (user id : String) : Contents := fun user' id' =>
  if user' = user ∧ id' = id then .ok none else c user' id'

/-- The contents with items in their places. -/
def putAll (c : Contents) (items : List Item) : Contents := items.foldl put c

/-- Each place is vacant when its turn comes: none was taken before, and none comes twice. -/
def Fresh (c : Contents) : List Item → Prop
  | [] => True
  | item :: items => c.Vacant item.user item.id ∧ (c.put item).Fresh items

/-- Each item that was found is there. -/
def Backs (c : Contents) (user : String) (found : Found) : Prop :=
  ∀ id item, found[id]? = some item → c user id = .ok (some item)

/-- An answer to a look at several items after others were found: each as a look at it alone finds
it, or the failure of one of them. -/
def Gathers (c : Contents) (user : String) (before : Found) (ids : List String) :
    Result Found → Prop
  | .ok found => ∀ id, (id ∈ ids → c user id = .ok found[id]?) ∧
      (id ∉ ids → found[id]? = before[id]?)
  | .error e => ∃ id ∈ ids, c user id = .error e

section Lemmas

variable {c : Contents} {item : Item} {user id : String}

@[simp] theorem put_self : c.put item item.user item.id = .ok (some item) := by
  simp [put]

theorem put_of_ne (h : ¬(user = item.user ∧ id = item.id)) : c.put item user id = c user id := by
  simp [put, h]

end Lemmas

section Gathering

variable {c : Contents} {user : String} {before found : Found} {ids others : List String}
  {answer : Result Found}

theorem Gathers.nil : c.Gathers user before [] (.ok before) := by
  intro id
  exact ⟨fun h => absurd h List.not_mem_nil, fun _ => rfl⟩

/-- One item is looked at, and the others after it. -/
theorem Gathers.cons {id : String} (hid : c user id = .ok found[id]?)
    (hother : ∀ other, other ≠ id → found[other]? = before[other]?)
    (h : c.Gathers user found ids answer) : c.Gathers user before (id :: ids) answer := by
  cases answer with
  | error e =>
    obtain ⟨other, hmem, herr⟩ := h
    exact ⟨other, List.mem_cons_of_mem _ hmem, herr⟩
  | ok found' =>
    intro other
    obtain ⟨hin, hout⟩ := h other
    refine ⟨fun hmem => ?_, fun hmem => ?_⟩
    · by_cases hmem' : other ∈ ids
      · exact hin hmem'
      · have heq : other = id := by simpa [hmem'] using hmem
        rw [hout hmem', heq, hid]
    · rw [List.mem_cons, not_or] at hmem
      rw [hout hmem.2, hother other hmem.1]

/-- Some items are looked at, and the others after them. -/
theorem Gathers.append (h : c.Gathers user before ids (.ok found))
    (hothers : c.Gathers user found others answer) :
    c.Gathers user before (ids ++ others) answer := by
  cases answer with
  | error e =>
    obtain ⟨id, hmem, herr⟩ := hothers
    exact ⟨id, List.mem_append_right _ hmem, herr⟩
  | ok found' =>
    intro id
    obtain ⟨hin, hout⟩ := hothers id
    refine ⟨fun hmem => ?_, fun hmem => ?_⟩
    · by_cases hmem' : id ∈ others
      · exact hin hmem'
      · have hids : id ∈ ids := by simpa [hmem'] using hmem
        rw [hout hmem', (h id).1 hids]
    · rw [List.mem_append, not_or] at hmem
      rw [hout hmem.2, (h id).2 hmem.1]

/-- A look at several items is answered exactly if a look at each of them is. -/
theorem Gathers.ok_iff (h : c.Gathers user before ids answer) :
    (∃ found, answer = .ok found) ↔ ∀ id ∈ ids, ∃ one, c user id = .ok one := by
  cases answer with
  | error e =>
    obtain ⟨id, hmem, herr⟩ := h
    refine iff_of_false (fun ⟨_, hok⟩ => by cases hok) fun hall => ?_
    obtain ⟨one, hone⟩ := hall id hmem
    cases herr.symm.trans hone
  | ok found => exact iff_of_true ⟨found, rfl⟩ fun id hmem => ⟨_, (h id).1 hmem⟩

/-- What is answered is what looks at the items find. -/
theorem Gathers.found_iff {id : String} {item : Item} (h : c.Gathers user ∅ ids (.ok found)) :
    found[id]? = some item ↔ id ∈ ids ∧ c user id = .ok (some item) := by
  by_cases hmem : id ∈ ids
  · rw [(h id).1 hmem, Except.ok.injEq, and_iff_right hmem]
  · rw [(h id).2 hmem, Std.ExtTreeMap.getElem?_empty]
    exact iff_of_false nofun fun h => hmem h.1

theorem Gathers.backs (h : c.Gathers user before ids (.ok found)) (hbefore : c.Backs user before) :
    c.Backs user found := by
  intro id item hitem
  by_cases hmem : id ∈ ids
  · rw [(h id).1 hmem, hitem]
  · rw [(h id).2 hmem] at hitem
    exact hbefore id item hitem

theorem backs_empty : c.Backs user ∅ := fun _ _ h => by cases h

/-- Looks at items, one after the other, are a look at all of them. -/
theorem gather_gathers (c : Contents) (user : String) (ids : List String)
    (hbefore : c.Backs user before) :
    c.Gathers user before ids (gather before (ids.map fun id => (id, c user id))) := by
  induction ids generalizing before with
  | nil => exact Gathers.nil
  | cons id ids ih =>
    rw [List.map_cons]
    cases hlook : c user id with
    | error e => exact ⟨id, List.mem_cons_self, hlook⟩
    | ok o =>
      cases o with
      | none =>
        refine Gathers.cons ?_ (fun _ _ => rfl) (ih hbefore)
        cases hb : before[id]? with
        | none => exact hlook
        | some item => cases hlook.symm.trans (hbefore _ _ hb)
      | some item =>
        refine Gathers.cons ?_ (fun other hne => ?_) (ih fun other x hx => ?_)
        · rw [hlook, Std.ExtTreeMap.getElem?_insert_self]
        · rw [getElem?_insert_eq, if_neg (Ne.symm hne)]
        · rw [getElem?_insert_eq] at hx
          split at hx
          · rename_i heq
            cases hx
            rw [← heq, hlook]
          · exact hbefore _ _ hx

/-- It matters which items are looked at, and not in which order or how often. -/
theorem Gathers.of_mem_iff (h : c.Gathers user before others answer)
    (hmem : ∀ id, id ∈ others ↔ id ∈ ids) : c.Gathers user before ids answer := by
  cases answer with
  | error e => simpa only [Gathers, hmem] using h
  | ok found => simpa only [Gathers, hmem] using h

/-- There is one answer at most that is no failure. -/
theorem Gathers.unique {found' : Found} (h : c.Gathers user before ids (.ok found))
    (h' : c.Gathers user before ids (.ok found')) : found = found' := by
  refine Std.ExtTreeMap.ext_getElem? fun id => ?_
  by_cases hmem : id ∈ ids
  · exact Except.ok.inj (((h id).1 hmem).symm.trans ((h' id).1 hmem))
  · rw [(h id).2 hmem, (h' id).2 hmem]

/-- Those for which nothing is kept need not be looked at. -/
theorem Gathers.widen (h : c.Gathers user before others answer) (hbefore : c.Backs user before)
    (hsub : ∀ id ∈ others, id ∈ ids) (hvacant : ∀ id ∈ ids, id ∉ others → c.Vacant user id) :
    c.Gathers user before ids answer := by
  cases answer with
  | error e =>
    obtain ⟨id, hmem, herr⟩ := h
    exact ⟨id, hsub id hmem, herr⟩
  | ok found =>
    intro id
    refine ⟨fun hmem => ?_, fun hmem => (h id).2 fun h => hmem (hsub id h)⟩
    by_cases hmem' : id ∈ others
    · exact (h id).1 hmem'
    · have hnone := hvacant id hmem hmem'
      rw [(h id).2 hmem']
      cases hb : before[id]? with
      | none => exact hnone
      | some item =>
        have hsome := hbefore id item hb
        rw [hnone] at hsome
        cases hsome

end Gathering

end Contents

/-! ## Growing contents -/

namespace Contents

/-- What was there is still there, as it was. -/
def Extends (c c' : Contents) : Prop := ∀ user id, ¬c.Vacant user id → c' user id = c user id

/-- Only the places of some items of a user differ. -/
def Confined (c c' : Contents) (user : String) (ids : List String) : Prop :=
  ∀ user' id, c' user' id ≠ c user' id → user' = user ∧ id ∈ ids

section Growing

variable {c c' c'' : Contents} {item : Item} {items : List Item} {user id : String}
  {ids ids' : List String}

theorem Extends.refl (c : Contents) : c.Extends c := fun _ _ _ => rfl

theorem Extends.trans (h : c.Extends c') (h' : c'.Extends c'') : c.Extends c'' := by
  intro user id hthere
  have heq := h user id hthere
  have hthere' : ¬c'.Vacant user id := by rwa [Vacant, heq]
  rw [h' user id hthere', heq]

/-- What is vacant later was vacant before. -/
theorem Extends.vacant (h : c.Extends c') (hvacant : c'.Vacant user id) : c.Vacant user id := by
  refine Classical.byContradiction fun hthere => hthere ?_
  rwa [Vacant, h user id hthere] at hvacant

/-- What was put in its place stays there. -/
theorem Extends.keeps (h : c.Extends c') (hsome : c user id = .ok (some item)) :
    c' user id = .ok (some item) := by
  have hthere : ¬c.Vacant user id := by simp [Vacant, hsome]
  rw [h user id hthere, hsome]

theorem extends_put (h : c.Vacant item.user item.id) : c.Extends (c.put item) := by
  intro user id hthere
  refine put_of_ne fun heq => hthere ?_
  rwa [heq.1, heq.2]

theorem Confined.refl (c : Contents) : c.Confined c user ids := fun _ _ hne => absurd rfl hne

theorem Confined.trans (h : c.Confined c' user ids) (h' : c'.Confined c'' user ids') :
    c.Confined c'' user (ids ++ ids') := by
  intro user' id hne
  by_cases heq : c' user' id = c user' id
  · obtain ⟨huser, hmem⟩ := h' user' id (heq ▸ hne)
    exact ⟨huser, List.mem_append_right _ hmem⟩
  · obtain ⟨huser, hmem⟩ := h user' id heq
    exact ⟨huser, List.mem_append_left _ hmem⟩

theorem confined_put (c : Contents) (item : Item) :
    c.Confined (c.put item) item.user [item.id] := by
  intro user id hne
  by_cases heq : user = item.user ∧ id = item.id
  · exact ⟨heq.1, by rw [heq.2]; exact List.mem_cons_self⟩
  · exact absurd (put_of_ne heq) hne

theorem Fresh.grows (h : c.Fresh items) : c.Extends (c.putAll items) := by
  induction items generalizing c with
  | nil => exact Extends.refl c
  | cons item items ih => exact (extends_put h.1).trans (ih h.2)

/-- The place of each item of a fresh batch is vacant before and holds it after. -/
theorem Fresh.put_mem (h : c.Fresh items) (hmem : item ∈ items) :
    c.Vacant item.user item.id ∧ c.putAll items item.user item.id = .ok (some item) := by
  induction items generalizing c with
  | nil => cases hmem
  | cons first items ih =>
    rcases List.mem_cons.1 hmem with rfl | hmem
    · have hgrows : (c.put item).Extends ((c.put item).putAll items) := h.2.grows
      exact ⟨h.1, hgrows.keeps put_self⟩
    · obtain ⟨hvacant, hput⟩ := ih h.2 hmem
      exact ⟨(extends_put h.1).vacant hvacant, hput⟩

theorem confined_putAll (huser : ∀ item ∈ items, item.user = user) :
    c.Confined (c.putAll items) user (items.map Item.id) := by
  induction items generalizing c with
  | nil => exact Confined.refl c
  | cons item items ih =>
    have hput := confined_put c item
    rw [huser item List.mem_cons_self] at hput
    exact hput.trans (ih fun other hmem => huser other (List.mem_cons_of_mem _ hmem))

end Growing

end Contents

/-! ## The laws -/

/-- The request looks at items or adds some, and asks for no change to what is there. -/
def Request.Adds : Request → Prop
  | get _ _ => True
  | getMany _ _ => True
  | create _ => True
  | createMany _ => True
  | update _ => False
  | delete _ _ => False
  | deleteAll => False

/-- Stores that keep what they are given. `look` is what a sound state holds. -/
class Durable (σ : Type) extends Store σ where
  Sound : σ → Prop
  look : σ → Contents
  /-- What is found has the identity that was asked for. -/
  look_named {s : σ} {user id : String} {item : Item} :
    Sound s → look s user id = .ok (some item) → item.user = user ∧ item.id = id
  /-- Nothing happens by itself. -/
  pass_eq {s : σ} (now : Instant) (ms : Nat) : Sound s → Store.pass now ms s = s
  serve_sound {s : σ} (now : Instant) (request : Request) :
    Sound s → Sound (Store.serve now request s).2
  serve_get {s : σ} (now : Instant) (user id : String) :
    Sound s → Store.serve now (.get user id) s = (look s user id, s)
  serve_getMany {s : σ} (now : Instant) (user : String) (ids : List String) :
    Sound s → ∃ answer, Store.serve now (.getMany user ids) s = (answer, s) ∧
      (look s).Gathers user ∅ ids answer
  serve_create {s : σ} (now : Instant) {item : Item} :
    Sound s → (look s).Vacant item.user item.id →
      ∃ s', Store.serve now (.create item) s = (.ok item, s') ∧ look s' = (look s).put item
  serve_create_taken {s : σ} (now : Instant) {item : Item} :
    Sound s → ¬(look s).Vacant item.user item.id →
      ∃ reason, Store.serve now (.create item) s = (.error (.conflict reason), s)
  serve_createMany {s : σ} (now : Instant) {items : List Item} :
    Sound s → (look s).Fresh items →
      ∃ s', Store.serve now (.createMany items) s = (.ok items, s') ∧
        look s' = (look s).putAll items
  serve_createMany_taken {s : σ} (now : Instant) {items : List Item} :
    Sound s → ¬(look s).Fresh items →
      ∃ reason, Store.serve now (.createMany items) s = (.error (.conflict reason), s)
  /-- The next version of an item takes the place of the one that is there. -/
  serve_update {s : σ} (now : Instant) {item stored : Item} :
    Sound s → look s item.user item.id = .ok (some stored) → item.created = stored.created →
      ∃ s', Store.serve now (.update item) s = (.ok item, s') ∧ look s' = (look s).put item
  serve_delete {s : σ} (now : Instant) {user id : String} :
    Sound s → Identity.Valid user → Identity.Valid id →
      ∃ s', Store.serve now (.delete user id) s = (.ok (), s') ∧ look s' = (look s).drop user id
  serve_deleteAll {s : σ} (now : Instant) :
    Sound s → ∃ s', Store.serve now .deleteAll s = (.ok (), s') ∧ look s' = fun _ _ => .ok none

/-- The parts of an item are those that it was made of. -/
theorem Item.create_parts {id user : String} {created : Instant} {dismissed : Option Instant}
    {item : Item} (h : Item.create id user created dismissed = .ok item) :
    item.id = id ∧ item.user = user ∧ item.created = created ∧ item.dismissed = dismissed := by
  unfold create at h
  split at h
  · cases h
  split at h
  · cases h
  split at h
  · cases h
    exact ⟨rfl, rfl, rfl, rfl⟩
  · split at h
    · cases h
      exact ⟨rfl, rfl, rfl, rfl⟩
    · cases h

/-- An item is found under the key of the identities that it was made of. -/
theorem Item.create_key {id user : String} {created : Instant} {dismissed : Option Instant}
    {item : Item} (h : Item.create id user created dismissed = .ok item) :
    item.key = Identity.key user id := by
  obtain ⟨rfl, rfl, -, -⟩ := Item.create_parts h
  rfl

/-- Parts that make no item are an invalid argument. -/
theorem Item.create_refused {id user : String} {created : Instant} {dismissed : Option Instant}
    {e : Failure} (h : create id user created dismissed = .error e) :
    ∃ reason, e = .invalidArgument reason := by
  unfold create at h
  split at h
  · exact ⟨_, (Except.error.inj h).symm⟩
  split at h
  · exact ⟨_, (Except.error.inj h).symm⟩
  split at h
  · cases h
  split at h
  · cases h
  · exact ⟨_, (Except.error.inj h).symm⟩

/-- Identities that follow the rules make an item of any instants in order. -/
theorem Item.create_early {id user : String} (hid : Identity.Valid id)
    (huser : Identity.Valid user) (created : Instant) (dismissed : Option Instant)
    (hle : ∀ at_ ∈ dismissed, created ≤ at_) :
    create id user created dismissed = .ok ⟨id, user, created, dismissed, hid, huser, hle⟩ :=
  create_self ⟨id, user, created, dismissed, hid, huser, hle⟩

/-- A dismissal before the creation is the only reason to refuse identities that follow the
rules. -/
theorem Item.create_late {id user : String} {created at_ : Instant} (hid : Identity.Valid id)
    (huser : Identity.Valid user) (hlate : ¬created ≤ at_) :
    create id user created (some at_) = .error (.invalidArgument (precedesReason at_ created)) := by
  have hid' := Identity.flaw?_eq_none_iff.2 hid
  have huser' := Identity.flaw?_eq_none_iff.2 huser
  unfold create
  split
  · simp_all
  · split
    · simp_all
    · simp [hlate]

end Dismissal
