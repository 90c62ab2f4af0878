import Dismissal.Identity
import Dismissal.Instant.Text

/-!
# Items

An `Item` is one version of something that is shown to a user until it is dismissed. It has two
valid identities, and it is never dismissed before it was created: both are part of the type.

`create` builds an item from loose parts and is the only way to get one from them; `dismissAt` and
`restore` derive the next version.

* `create_eq_ok_iff`: parts make an item exactly when they follow the rules.
* `create_self`: an item is made of its own parts.
-/

namespace Dismissal

/-- A version of an item of a user. -/
structure Item where
  id : String
  user : String
  created : Instant
  dismissed : Option Instant
  id_valid : Identity.Valid id
  user_valid : Identity.Valid user
  created_le : ∀ at_ ∈ dismissed, created ≤ at_
  deriving DecidableEq

namespace Item

/-- The reason for refusing a dismissal that comes before the creation. -/
def precedesReason (dismissed created : Instant) : String :=
  "dismissedAt " ++ dismissed.offsetText ++ " precedes createdAt " ++ created.offsetText

/-- The item with the given parts. The item's identity is checked first, then the user's, then the
order of the instants. -/
def create (id user : String) (created : Instant) (dismissed : Option Instant) : Result Item :=
  match hid : Identity.flaw? id with
  | some flaw => .error (.invalidArgument (flaw.reason "itemId"))
  | none => match huser : Identity.flaw? user with
    | some flaw => .error (.invalidArgument (flaw.reason "userId"))
    | none => match dismissed with
      | none => .ok
        { id, user, created, dismissed := none
          id_valid := Identity.flaw?_eq_none_iff.1 hid
          user_valid := Identity.flaw?_eq_none_iff.1 huser
          created_le := by simp }
      | some at_ =>
        if h : created ≤ at_ then .ok
          { id, user, created, dismissed := some at_
            id_valid := Identity.flaw?_eq_none_iff.1 hid
            user_valid := Identity.flaw?_eq_none_iff.1 huser
            created_le := by simpa using h }
        else .error (.invalidArgument (precedesReason at_ created))

/-- Whether the item is dismissed. -/
def isDismissed (item : Item) : Bool := item.dismissed.isSome

/-- The text that stands for the item among all items of all users. -/
def key (item : Item) : String := Identity.key item.user item.id

/-- The version dismissed at an instant, which may not be before the creation. -/
def dismissAt (item : Item) (now : Instant) : Result Item :=
  if h : item.created ≤ now then
    .ok { item with dismissed := some now, created_le := by simpa using h }
  else .error (.invalidState ("cannot dismiss item '" ++ item.id ++ "' at " ++ now.offsetText ++
    " before it was created at " ++ item.created.offsetText))

/-- The version that is not dismissed. -/
def restore (item : Item) : Item := { item with dismissed := none, created_le := by simp }

theorem create_eq_ok_iff {id user : String} {created : Instant} {dismissed : Option Instant} :
    (∃ item, create id user created dismissed = .ok item) ↔
      Identity.Valid id ∧ Identity.Valid user ∧ ∀ at_ ∈ dismissed, created ≤ at_ := by
  constructor
  · rintro ⟨item, h⟩
    unfold create at h
    split at h
    · simp at h
    · rename_i hid
      split at h
      · simp at h
      · rename_i huser
        refine ⟨Identity.flaw?_eq_none_iff.1 hid, Identity.flaw?_eq_none_iff.1 huser, ?_⟩
        split at h
        · simp
        · split at h
          · rename_i hle
            simpa using hle
          · simp at h
  · rintro ⟨hid, huser, hle⟩
    refine ⟨⟨id, user, created, dismissed, hid, huser, hle⟩, ?_⟩
    rw [← Identity.flaw?_eq_none_iff] at hid huser
    unfold create
    split
    · simp_all
    · split
      · simp_all
      · split
        · rfl
        · rw [dif_pos (by simpa using hle)]

theorem create_self (item : Item) :
    create item.id item.user item.created item.dismissed = .ok item := by
  obtain ⟨id, user, created, dismissed, hid, huser, hle⟩ := item
  simp only
  rw [← Identity.flaw?_eq_none_iff] at hid huser
  unfold create
  split
  · simp_all
  · split
    · simp_all
    · split
      · rfl
      · rw [dif_pos (by simpa using hle)]

end Item

end Dismissal
