import Dismissal.Feed
import Dismissal.Proofs.Text.Pieces

/-!
# What a query asks for

A query gives a value to a name if `name=value` is one of the pieces between its ampersands. It may
give several values to one name, and others to names that mean nothing.

* `passes_ofQuery_iff`: a feed passes those events on that its query asks for.
-/

namespace Dismissal

namespace Feed.Filter

open Text (IsPiece)

/-- The query has the piece `name=value`. -/
def Gives (query : List Char) (name : String) (value : List Char) : Prop :=
  IsPiece '&' (name.toList ++ '=' :: value) query

/-- The query gives no list to a name, or one of the lists that it gives has the member, perhaps
with blanks around it. -/
def Asks (query : List Char) (name member : String) : Prop :=
  (∀ list, ¬Gives query name list) ∨ ∃ list piece, Gives query name list ∧
    IsPiece ',' piece list ∧ member = Text.trim (String.ofList piece)

/-- The members that a field of a query gives to a name. -/
def givenBy (name : String) (field : List Char) : List String :=
  match Text.splitOnce '=' field with
  | none => []
  | some (name', value) => if String.ofList name' = name then membersOf value else []

section Lemmas

variable {name member : String} {query value : List Char}

theorem mem_membersOf_iff : member ∈ membersOf value ↔
    ∃ piece, IsPiece ',' piece value ∧ member = Text.trim (String.ofList piece) := by
  unfold membersOf
  simp only [List.mem_map, Text.mem_splitOn_iff, eq_comm]

theorem membersOf_ne_nil : membersOf value ≠ [] := by
  intro h
  have hlength := congrArg List.length h
  simp [membersOf, Text.length_splitOn] at hlength

theorem users_withField (f : Filter) (field : List Char) :
    (f.withField field).users = f.users ++ givenBy "user" field := by
  unfold withField givenBy
  cases Text.splitOnce '=' field with
  | none => simp
  | some parts =>
    obtain ⟨name, value⟩ := parts
    simp only
    split <;> simp_all

theorem kinds_withField (f : Filter) (field : List Char) :
    (f.withField field).kinds = f.kinds ++ givenBy "type" field := by
  unfold withField givenBy
  cases Text.splitOnce '=' field with
  | none => simp
  | some parts =>
    obtain ⟨name, value⟩ := parts
    simp only
    split <;> simp_all

/-- A list of a filter is put together from what the fields give to its name. -/
theorem list_foldl {list : Filter → List String}
    (hlist : ∀ f field, list (f.withField field) = list f ++ givenBy name field) (f : Filter)
    (fields : List (List Char)) :
    list (fields.foldl withField f) = list f ++ fields.flatMap (givenBy name) := by
  induction fields generalizing f with
  | nil => simp
  | cons field fields ih => simp [ih, hlist]

theorem mem_givenBy_iff {field : List Char} (hname : '=' ∉ name.toList) :
    member ∈ givenBy name field ↔
      ∃ list, field = name.toList ++ '=' :: list ∧ member ∈ membersOf list := by
  unfold givenBy
  cases hcut : Text.splitOnce '=' field with
  | none =>
    simp only [List.not_mem_nil, false_iff]
    rintro ⟨list, rfl, -⟩
    rw [Text.splitOnce_append_sep hname] at hcut
    cases hcut
  | some parts =>
    obtain ⟨name', value⟩ := parts
    obtain ⟨rfl, hname'⟩ := Text.splitOnce_eq_some_iff.1 hcut
    simp only
    split
    · rename_i heq
      subst heq
      simp
    · rename_i hne
      simp only [List.not_mem_nil, false_iff]
      rintro ⟨list, heq, -⟩
      rw [heq, Text.splitOnce_append_sep hname] at hcut
      cases hcut
      simp at hne

/-- **A list of a filter has the members that the query gives to its name.** -/
theorem mem_given_iff (hname : '=' ∉ name.toList) :
    member ∈ (Text.splitOn '&' query).flatMap (givenBy name) ↔
      ∃ list, Gives query name list ∧ member ∈ membersOf list := by
  simp only [List.mem_flatMap, Text.mem_splitOn_iff, mem_givenBy_iff hname]
  constructor
  · rintro ⟨field, hfield, list, rfl, hmember⟩
    exact ⟨list, hfield, hmember⟩
  · rintro ⟨list, hgives, hmember⟩
    exact ⟨_, hgives, list, rfl, hmember⟩

/-- A list of a filter lets pass what the query asks for under its name. -/
theorem passes_list_iff (hname : '=' ∉ name.toList) {members : List String}
    (hmembers : members = (Text.splitOn '&' query).flatMap (givenBy name)) :
    members.isEmpty || members.contains member ↔ Asks query name member := by
  have hmem (member : String) :
      member ∈ members ↔ ∃ list, Gives query name list ∧ member ∈ membersOf list := by
    rw [hmembers]
    exact mem_given_iff hname
  have hempty : members = [] ↔ ∀ list, ¬Gives query name list := by
    rw [List.eq_nil_iff_forall_not_mem]
    constructor
    · intro h list hgives
      obtain ⟨first, hfirst⟩ := List.exists_mem_of_ne_nil (membersOf list) membersOf_ne_nil
      exact h first ((hmem first).2 ⟨list, hgives, hfirst⟩)
    · intro h member hmember
      obtain ⟨list, hgives, -⟩ := (hmem member).1 hmember
      exact h list hgives
  rw [Bool.or_eq_true, List.isEmpty_iff, List.contains_iff_mem, hempty, hmem]
  simp only [Asks, mem_membersOf_iff, exists_and_left]

/-- **A feed passes those events on that its query asks for**, by user and by kind. -/
theorem passes_ofQuery_iff (query : List Char) (e : Event) :
    (ofQuery (some query)).passes e ↔
      Asks query "user" e.user ∧ Asks query "type" e.change.kind := by
  have husers : (ofQuery (some query)).users =
      (Text.splitOn '&' query).flatMap (givenBy "user") := list_foldl users_withField {} _
  have hkinds : (ofQuery (some query)).kinds =
      (Text.splitOn '&' query).flatMap (givenBy "type") := list_foldl kinds_withField {} _
  unfold passes
  rw [Bool.and_eq_true, passes_list_iff (by decide) husers, passes_list_iff (by decide) hkinds]

/-- A feed that was opened without a query passes every event on. -/
theorem passes_ofQuery_none (e : Event) : (ofQuery none).passes e := rfl

end Lemmas

end Feed.Filter

end Dismissal
