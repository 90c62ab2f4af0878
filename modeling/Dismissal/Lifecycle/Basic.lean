import Dismissal.Event
import Dismissal.Store.Basic

/-!
# The lifecycle of items

An item that is not there is created when it is first asked for; from then on it can be dismissed
and restored by turns. Each call checks its identities, reads from the store, derives the next
version, writes it and tells the listeners. `reset` and `deleteItem` tidy up and tell nobody.

An `Action` runs on a `State`: the store, and all events told so far. A call that fails keeps what
it did to the store and what it told until then.

A creation can meet an item that came in between. The item that is there is then answered, as one
that was not created; a batch is then settled item by item.
-/

namespace Dismissal

namespace Lifecycle

/-- What the calls work on. -/
structure State (σ : Type) where
  store : σ
  published : List Event := []

/-- A call, or a part of one. -/
abbrev Action (σ α : Type) := ExceptT Failure (StateM (State σ)) α

variable {σ : Type} [Store σ]

/-- Asks the store. -/
def ask (now : Instant) (request : Request) : Action σ request.Answer :=
  ExceptT.mk fun s =>
    let (answer, store) := Store.serve now request s.store
    (answer, { s with store })

/-- Runs an action and gives its failure as a value. -/
def attempt {α : Type} (action : Action σ α) : Action σ (Result α) :=
  ExceptT.mk fun s =>
    let (answer, s) := action.run.run s
    (.ok answer, s)

/-- Tells the listeners. -/
def publish (event : Event) : Action σ Unit :=
  modify fun s => { s with published := s.published ++ [event] }

/-! ## Get or create -/

/-- The event of an item that was found or created. -/
def presentedEvent (now : Instant) (context : Option Json) (p : Presented) : Event where
  change := if p.created then .created else .retrieved
  user := p.item.user
  id := p.item.id
  item := p.item
  context := context
  time := now

/-- Creates an item; one that is there already is answered in its place. -/
def insertOrReread (now : Instant) (item : Item) : Action σ Presented := do
  match ← attempt (ask now (.create item)) with
  | .ok created => pure ⟨created, true⟩
  | .error (.conflict reason) =>
    match ← ask now (.get item.user item.id) with
    | some existing => pure ⟨existing, false⟩
    | none => throw (.conflict reason)
  | .error e => throw e

/-- The item of a user, created now if it is not there. -/
def getOrCreate (now : Instant) (user id : String) (context : Option Json) :
    Action σ Presented := do
  Identity.checkAll user [id]
  let p ← match ← ask now (.get user id) with
    | some existing => pure ⟨existing, false⟩
    | none => insertOrReread now (← Item.create id user now none)
  publish (presentedEvent now context p)
  pure p

/-! ## Batches -/

/-- Answers under the identities of their items. -/
abbrev Settled := Std.ExtTreeMap String Presented

/-- Adds an answer under its item's identity. -/
def Settled.add (settled : Settled) (p : Presented) : Settled := settled.insert p.item.id p

/-- Creates items one by one. -/
def settleEach (now : Instant) (settled : Settled) : List Item → Action σ Settled
  | [] => pure settled
  | item :: items => do settleEach now (settled.add (← insertOrReread now item)) items

/-- Creates items, all at once if none of them is there. -/
def createMissing (now : Instant) (missing : List Item) : Action σ Settled := do
  if missing.isEmpty then pure ∅
  else match ← attempt (ask now (.createMany missing)) with
    | .ok items => pure (items.foldl (fun settled item => settled.add ⟨item, true⟩) ∅)
    | .error (.conflict _) => settleEach now ∅ missing
    | .error e => throw e

/-- The answer for an identity: the item that was found, or else what was settled for it. -/
def answerFor (found : Found) (settled : Settled) (id : String) : Result Presented :=
  match found[id]?, settled[id]? with
  | some item, _ => .ok ⟨item, false⟩
  | none, some p => .ok p
  | none, none => .error (.internal ("batch create did not return item '" ++ id ++ "'"))

/-- Tells and answers the identities in order. -/
def answerEach (now : Instant) (context : Option Json) (found : Found) (settled : Settled) :
    List String → Action σ (List Presented)
  | [] => pure []
  | id :: ids => do
    let p ← answerFor found settled id
    publish (presentedEvent now context p)
    pure (p :: (← answerEach now context found settled ids))

/-- The items of a user, in the order in which they are first named; those that are not there are
created now. -/
def getOrCreateMany (now : Instant) (user : String) (ids : List String) (context : Option Json) :
    Action σ (List Presented) := do
  Identity.checkAll user ids
  let ids := ids.eraseDups
  if ids.isEmpty then pure []
  else do
    let found ← ask now (.getMany user ids)
    let missing ← (ids.filter fun id => !found.contains id).mapM fun id =>
      Item.create id user now none
    let settled ← createMissing now missing
    answerEach now context found settled ids

/-! ## Transitions -/

/-- The item of a user, which must be there. -/
def existing (now : Instant) (user id : String) : Action σ Item := do
  match ← ask now (.get user id) with
  | some item => pure item
  | none => throw (.itemNotFound user id)

/-- Writes the next version of an item and tells the listeners. -/
def transit (now : Instant) (change : Item → Change) (user id : String) (context : Option Json)
    (current next : Item) : Action σ Transition := do
  let stored ← ask now (.update next)
  publish ⟨change current, user, id, stored, context, now⟩
  pure ⟨stored, current⟩

/-- Dismisses an item that is not dismissed. -/
def dismiss (now : Instant) (user id : String) (context : Option Json) : Action σ Transition := do
  Identity.checkAll user [id]
  let current ← existing now user id
  if current.isDismissed then throw (.alreadyDismissed user id)
  else transit now .dismissed user id context current (← current.dismissAt now)

/-- Restores an item that is dismissed. -/
def restore (now : Instant) (user id : String) (context : Option Json) : Action σ Transition := do
  Identity.checkAll user [id]
  let current ← existing now user id
  if current.isDismissed then transit now .restored user id context current current.restore
  else throw (.notDismissed user id)

/-! ## Tidying up -/

/-- Removes an item for good; it need not be there. -/
def deleteItem (now : Instant) (user id : String) : Action σ Unit := do
  Identity.checkAll user [id]
  ask now (.delete user id)

/-- Removes all items of all users for good. -/
def reset (now : Instant) : Action σ Unit := ask now .deleteAll

end Lifecycle

end Dismissal
