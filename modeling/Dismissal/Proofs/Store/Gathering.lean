import Dismissal.Proofs.Cache.Looks
import Dismissal.Proofs.Cache.Refinement
import Dismissal.Proofs.Cache.Retention
import Dismissal.Proofs.Identity.WellFormed
import Dismissal.Proofs.Store.BackendLaws
import Dismissal.Proofs.Store.Stable

/-!
# A look at several items is a look at each

`getEach` looks at items by one request for each, in the order of the list, and `gather` adds up
what it finds. That is what a look at all of them comes to over every backend, if the rows are read
as the items that their keys are for (`Intact`): the same items, and the same state, down to the
chain of a cache.

* `Cache.lookAll_eq_gather`: a cache, by induction on the list, where each look drops or moves an
  entry before the next one.
* `Table.collectChunks_eq`: a table, in whatever pieces the list is read.
* `getMany_eq_getEach`: all backends.
-/

namespace Dismissal

/-- Looks at items by one request for each of them. -/
def getEach {σ : Type} [Store σ] (now : Instant) (user : String) :
    List String → σ → List (String × Result (Option Item)) × σ
  | [], s => ([], s)
  | id :: ids, s =>
    let (answer, s) := Store.serve now (.get user id) s
    let (answers, s) := getEach now user ids s
    ((id, answer) :: answers, s)

/-- Looks that change nothing find what each of them finds at the start. -/
theorem getEach_still {σ : Type} [Store σ] {now : Instant} {user : String} {s : σ}
    {look : String → Result (Option Item)}
    (h : ∀ id, Store.serve now (.get user id) s = (look id, s)) (ids : List String) :
    getEach now user ids s = (ids.map fun id => (id, look id), s) := by
  induction ids with
  | nil => rfl
  | cons id ids ih =>
    unfold getEach
    simp only [h, ih, List.map_cons]

/-! ## Caches -/

namespace Cache

open Recency (found?)

/-- The cache holds the entries of a list. -/
def Orderly (c : Cache) : Prop := ∃ es, c.arena.Shows es

section Orderly

variable {c : Cache}

theorem orderly_ofLimits (capacity : Nat) (lifetime : Span) :
    (ofLimits capacity lifetime).Orderly := ⟨[], .empty⟩

/-- The list to which the cache is alike. -/
theorem Orderly.mirrors (h : c.Orderly) : ∃ l, Mirrors c l := by
  obtain ⟨es, hshows⟩ := h
  exact ⟨⟨c.capacity, c.lifetime, es⟩, rfl, rfl, hshows⟩

theorem Orderly.purgeIf (h : c.Orderly) (now : Instant) (isAsked : Sweep → Bool) :
    (c.purgeIf now isAsked).Orderly := by
  unfold Cache.purgeIf
  split
  · obtain ⟨es, hshows⟩ := h
    exact ⟨_, (hshows.purge now).2⟩
  · exact h

/-- **A cache stays orderly**, whatever is asked of it and however much time passes. -/
theorem stable_orderly : Stable Orderly where
  serve now request c h := by
    obtain ⟨l, hmirrors⟩ := Orderly.mirrors h
    exact ⟨_, (hmirrors.serve now request).2.arena⟩
  pass now ms c h := Orderly.purgeIf h now _

theorem Orderly.run (h : c.Orderly) (ops : List (Instant × Op)) : (run step ops c).2.Orderly := by
  obtain ⟨l, hmirrors⟩ := h.mirrors
  exact ⟨_, (hmirrors.run ops).2.arena⟩

end Orderly

section Looks

variable {c : Cache} {now : Instant} {user id : String} {ids : List String} {item : Item}

theorem get_eq_look (huser : Identity.Valid user) (hid : Identity.Valid id) :
    c.get now user id = (.ok (found? (c.look (Identity.key user id) now).1),
      (c.look (Identity.key user id) now).2) := by
  unfold get
  rw [Identity.checkAll_one huser hid]
  rcases c.look (Identity.key user id) now with ⟨_ | _ | _, c'⟩ <;> rfl

/-- Several looks are the requests for each item: what they find, and what they leave. -/
theorem lookAll_eq_gather (c : Cache) (now : Instant) (huser : Identity.Valid user)
    (hids : ∀ id ∈ ids, Identity.Valid id) (found : Found) :
    gather found (getEach now user ids c).1 = .ok (c.lookAll now user found ids).1 ∧
      (getEach now user ids c).2 = (c.lookAll now user found ids).2 := by
  induction ids generalizing c found with
  | nil => exact ⟨rfl, rfl⟩
  | cons id ids ih =>
    obtain ⟨hid, hrest⟩ := List.forall_mem_cons.1 hids
    have hget : Store.serve now (.get user id) c = _ := get_eq_look huser hid
    unfold getEach lookAll
    rw [hget]
    rcases c.look (Identity.key user id) now with ⟨stored | _ | _, c'⟩
    · exact ih c' hrest (found.insert id stored)
    · exact ih c' hrest found
    · exact ih c' hrest found

/-- What several looks find is what each of them finds at the start. -/
theorem Orderly.getElem?_lookAll (h : c.Orderly) (huser : Identity.Valid user)
    (hids : ∀ id ∈ ids, Identity.Valid id) (id : String) (item : Item) :
    (c.lookAll now user ∅ ids).1[id]? = some item ↔
      id ∈ ids ∧ (c.get now user id).1 = .ok (some item) := by
  obtain ⟨l, hmirrors⟩ := h.mirrors
  rw [(hmirrors.lookAll now user ∅ ids).1, Recency.getElem?_lookAll]
  by_cases hmem : id ∈ ids
  · rw [if_pos hmem, Std.ExtTreeMap.getElem?_empty, Option.or_none, and_iff_right hmem,
      get_eq_look huser (hids id hmem), (hmirrors.look now _).1, Except.ok.injEq]
  · rw [if_neg hmem, Std.ExtTreeMap.getElem?_empty]
    exact iff_of_false nofun fun h => hmem h.1

end Looks

end Cache

/-! ## Tables -/

namespace Table

variable {t : Table} {user : String} {ids : List String}

/-- The list may be read in any pieces that come to the same items. -/
theorem collectChunks_eq (hall : ∀ id ∈ ids, ∃ one, t.get user id = .ok one)
    {pieces : List (List String)} (hmem : ∀ id, id ∈ pieces.flatten ↔ id ∈ ids) :
    t.collectChunks user ∅ pieces = gather ∅ (ids.map fun id => (id, t.get user id)) := by
  have hpieces : Contents.Gathers t.get user ∅ ids (t.collectChunks user ∅ pieces) :=
    (t.collectChunks_gathers pieces ∅ Contents.backs_empty).of_mem_iff hmem
  have hsingle := Contents.gather_gathers t.get user ids Contents.backs_empty
  obtain ⟨found, hfound⟩ := hpieces.ok_iff.2 hall
  obtain ⟨found', hfound'⟩ := hsingle.ok_iff.2 hall
  rw [hfound] at hpieces ⊢
  rw [hfound'] at hsingle ⊢
  rw [hpieces.unique hsingle]

end Table

/-! ## Backends -/

namespace Backend

/-- Each row is read as the item that its key is for, and a cache holds the entries of a list. -/
inductive Intact : Backend → Prop where
  | cache {c : Cache} (entries : c.Orderly) : Intact (cache c)
  | tree {t : Tree} (rows : t.Each fun key bytes =>
      ∃ item, Record.decode bytes = .ok item ∧ key = Tree.keyOf item) : Intact (tree t)
  | table {t : Table} (rows : ∀ (key : Table.Key) row, t.rows[key]? = some row →
      ∃ item, Table.itemOf key row = .ok item) : Intact (table t)

/-- The backend answers requests that read. -/
def Answers : Backend → Prop
  | table t => t.closed = false
  | _ => True

/-- The items that were found are those that a look at each of several items finds. -/
def Finds (b : Backend) (now : Instant) (user : String) (ids : List String) (found : Found) :
    Prop :=
  ∀ id item, found[id]? = some item ↔
    id ∈ ids ∧ (Store.serve now (.get user id) b).1 = .ok (some item)

variable {b : Backend} {now : Instant} {user : String} {ids : List String}

theorem getEach_cache (c : Cache) : getEach now user ids (cache c) =
    ((getEach now user ids c).1, cache (getEach now user ids c).2) := by
  induction ids generalizing c with
  | nil => rfl
  | cons id ids ih =>
    unfold getEach
    have hserve : Store.serve now (.get user id) (cache c) =
      ((Store.serve now (.get user id) c).1, cache (Store.serve now (.get user id) c).2) := rfl
    simp only [hserve, ih]

theorem serve_table {t t' : Table} {request : Request} {answer : Result request.Answer}
    (h : Table.serve request t = (answer, t')) :
    Store.serve now request (table t) = (answer, table t') :=
  congrArg (fun r : Result request.Answer × Table => (r.1, table r.2)) h

theorem cache_getMany (c : Cache) (now : Instant) (huser : Identity.Valid user)
    (hids : ∀ id ∈ ids, Identity.Valid id) : Store.serve now (.getMany user ids) (cache c) =
      (.ok (c.lookAll now user ∅ ids).1, cache (c.lookAll now user ∅ ids).2) := by
  have hcheck : Identity.checkAll user ids = .ok () := Identity.checkAll_eq_ok_iff.2 ⟨huser, hids⟩
  show ((c.getMany now user ids).1, cache (c.getMany now user ids).2) = _
  unfold Cache.getMany
  rw [hcheck]

/-- A closed table fails in the same way at several items and at each of them, and nothing is asked
of it for no items. -/
theorem table_getMany_closed {t : Table} (h : t.closed = true) :
    Store.serve now (.getMany user ids) (table t) =
      (gather ∅ (getEach now user ids (table t)).1, (getEach now user ids (table t)).2) := by
  have hrefused {α : Type} (run : Result α × Table) :
      t.reading run = (.error Table.refused, t) := by
    rw [Table.reading, if_pos h]
  rw [getEach_still fun id => serve_table (hrefused (t.get user id, t))]
  cases ids with
  | nil => rfl
  | cons id ids => exact serve_table (hrefused _)

/-- Looks over rows find what is kept, and change nothing. -/
theorem finds_gather {c : Contents}
    (hserve : ∀ id, Store.serve now (.get user id) b = (c user id, b))
    (hall : ∀ id ∈ ids, ∃ one, c user id = .ok one) :
    ∃ found, gather ∅ (getEach now user ids b).1 = .ok found ∧ b.Finds now user ids found := by
  have hgathers := Contents.gather_gathers c user ids Contents.backs_empty
  obtain ⟨found, hfound⟩ := hgathers.ok_iff.2 hall
  rw [hfound] at hgathers
  rw [getEach_still hserve]
  refine ⟨found, hfound, fun id item => ?_⟩
  rw [hserve]
  exact hgathers.found_iff

/-- **A look at several items is a look at each of them**, in the order of the list, as often as it
names them: it answers what they add up to, and leaves what they leave, which for a cache are the
same entries, expiries and order of use. If the backend answers at all, what is found are the items
that each look by itself would find, and a table may read the list in any pieces. -/
theorem getMany_eq_getEach (h : b.Intact) (now : Instant) (huser : Identity.Valid user)
    (hids : ∀ id ∈ ids, Identity.Valid id) :
    Store.serve now (.getMany user ids) b =
      (gather ∅ (getEach now user ids b).1, (getEach now user ids b).2) ∧
    (b.Answers → ∃ found, gather ∅ (getEach now user ids b).1 = .ok found ∧
      b.Finds now user ids found ∧
      ∀ t pieces, b = table t → (∀ id, id ∈ pieces.flatten ↔ id ∈ ids) →
        t.collectChunks user ∅ pieces = .ok found) := by
  cases h with
  | @cache c entries =>
    obtain ⟨hgather, hleft⟩ := c.lookAll_eq_gather now huser hids ∅
    rw [getEach_cache, hgather, hleft]
    exact ⟨cache_getMany c now huser hids, fun _ =>
      ⟨_, rfl, entries.getElem?_lookAll huser hids, fun _ _ ht => by cases ht⟩⟩
  | @tree t rows =>
    have hserve (id : String) :
        Store.serve now (.get user id) (tree t) = (t.get user id, tree t) := rfl
    constructor
    · rw [getEach_still hserve, ← t.getAll_eq_gather]
      rfl
    · intro _
      obtain ⟨found, hfound, hfinds⟩ := finds_gather (c := t.get) hserve fun id _ =>
        Tree.get_ok fun bytes hrow => (rows _ bytes hrow).imp fun _ h => h.1
      exact ⟨found, hfound, hfinds, fun _ _ ht => by cases ht⟩
  | @table t rows =>
    cases hclosed : t.closed with
    | true =>
      refine ⟨table_getMany_closed hclosed, fun hanswers => ?_⟩
      cases hclosed.symm.trans hanswers
    | false =>
      have hserve (id : String) :
          Store.serve now (.get user id) (table t) = (t.get user id, table t) :=
        serve_table (Table.reading_unclosed hclosed _)
      have hall : ∀ id ∈ ids, ∃ one, t.get user id = .ok one := fun id _ => Table.get_ok (rows _)
      obtain ⟨found, hfound, hfinds⟩ := finds_gather (c := t.get) hserve hall
      rw [getEach_still hserve] at hfound ⊢
      rw [hfound]
      refine ⟨serve_table ?_, fun _ => ⟨found, rfl, hfinds, fun _ pieces ht hmem => ?_⟩⟩
      · -- the table reads the list in its own pieces
        have hchunks : ∀ id, id ∈ (Table.chunks ids.length ids).flatten ↔ id ∈ ids := by
          rw [Table.chunks_flatten _ _ (Nat.le_refl _)]
          exact fun _ => Iff.rfl
        rw [Table.serve_getMany_unclosed hclosed, Table.getMany,
          Table.collectChunks_eq hall hchunks, hfound]
      · cases ht
        rw [Table.collectChunks_eq hall hmem, hfound]

/-- Two items are written to a cache, the second one five milliseconds after the first. -/
def inTurn : List (Instant × Cache.Op) :=
  [(Cache.afterMillis 0, .ask (.create (Cache.sample "a" Identity.valid_a))),
    (Cache.afterMillis 5, .ask (.create (Cache.sample "b" Identity.valid_b)))]

/-- When the first one has expired, the second one is found as often as it is named. -/
theorem getMany_eq_getEach_expired :
    let now := Cache.afterMillis 12
    let b := cache (Cache.run Cache.step inTurn (Cache.ofLimits 2 (.ofMillis 10))).2
    let each := getEach now "u" ["b", "a", "b"] b
    each.1 = [("b", .ok (some (Cache.sample "b" Identity.valid_b))), ("a", .ok none),
        ("b", .ok (some (Cache.sample "b" Identity.valid_b)))] ∧
      Store.serve now (.getMany "u" ["b", "a", "b"]) b = (gather ∅ each.1, each.2) ∧
      ∃ found, gather ∅ each.1 = .ok found ∧ b.Finds now "u" ["b", "a", "b"] found := by
  intro now b each
  have hintact : b.Intact := .cache ((Cache.orderly_ofLimits 2 (.ofMillis 10)).run inTurn)
  have hids : ∀ id ∈ ["b", "a", "b"], Identity.Valid id := by decide
  obtain ⟨hserve, hfinds⟩ := getMany_eq_getEach hintact now Identity.valid_u hids
  obtain ⟨found, hfound, hfinds, -⟩ := hfinds trivial
  exact ⟨rfl, hserve, found, hfound, hfinds⟩

end Backend

end Dismissal
