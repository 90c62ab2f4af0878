import Dismissal.Proofs.Lifecycle.Refinement
import Dismissal.Proofs.Store.Insertion

/-!
# A batch is its items one by one

Over a tree or a table whose rows are all read as items (`Backend.Legible`), presenting a batch and
presenting its distinct items one after the other cannot be told apart: the answers, the events and
the rows are the same. Both come to what `Backend.presented` answers to each name, and to the rows
of those items that were created.

* `getOrCreate_each`: the items one by one, by induction on the names; what is written for one of
  them leaves what is answered to the others as it is (`Legible.presented_settle`).
* `getOrCreateMany_at_once`: the whole batch.
* `getOrCreateMany_eq_each`: both together, and what becomes of malformed identities.
-/

namespace Dismissal

open Lifecycle

namespace Backend

/-- Each row is read as an item, which is the one that the key of the row is for. A table answers
all statements, and its rows are read under their keys. -/
inductive Legible : Backend → Prop where
  | tree {t : Tree} (rows : t.Each fun key bytes =>
      ∃ item, Record.decode bytes = .ok item ∧ key = Tree.keyOf item) : Legible (tree t)
  | table {t : Table} (isOpen : t.Open) (rows : ∀ (key : Table.Key) row, t.rows[key]? = some row →
      ∃ item, Table.itemOf key row = .ok item) : Legible (table t)

/-- What presenting an item answers: the item that is there, or else a new one. -/
def presented (b : Backend) (now : Instant) (n : Name) : Presented :=
  match b.look n.user n.id with
  | .ok (some item) => ⟨item, false⟩
  | _ => ⟨n.item (.new now), true⟩

/-- The items that were created, of those that were presented. -/
def created (ps : List Presented) : List Item := (ps.filter Presented.created).map Presented.item

section Legible

variable {b : Backend} {item : Item} {user id : String}

theorem Legible.writable (h : b.Legible) : b.Writable := by
  cases h with
  | tree rows => trivial
  | table isOpen rows => exact isOpen

theorem Legible.sound (h : b.Legible) : Durable.Sound b := by
  cases h with
  | tree rows =>
    intro key bytes item hrow hdec
    obtain ⟨x, hx, hkey⟩ := rows key bytes hrow
    cases hdec.symm.trans hx
    exact hkey
  | table isOpen rows => exact isOpen

/-- No look fails. -/
theorem Legible.look_ok (h : b.Legible) (user id : String) :
    ∃ found, b.look user id = .ok found := by
  cases h with
  | tree rows =>
    refine Tree.get_ok fun bytes hrow => ?_
    obtain ⟨item, hitem, -⟩ := rows _ bytes hrow
    exact ⟨item, hitem⟩
  | table isOpen rows => exact Table.get_ok (rows _)

theorem Legible.write (h : b.Legible) (item : Item) : (b.write item).Legible := by
  cases h with
  | tree rows => exact .tree (rows.insert ⟨item, Record.decode_encode item, rfl⟩)
  | @table t isOpen rows =>
    refine .table isOpen fun key row hrow => ?_
    rw [getElem?_insert_eq] at hrow
    split at hrow
    · rename_i hkey
      cases hrow
      exact ⟨item, hkey ▸ Table.itemOf_rowOf item⟩
    · exact rows key row hrow

/-- The row of an item puts it in its place. -/
theorem Writable.look_write (h : b.Writable) (item : Item) :
    (b.write item).look = Contents.put b.look item := by
  cases b with
  | cache c => exact h.elim
  | tree t => exact Tree.get_insert_encode
  | table t => exact Table.get_insert (Table.itemOf_rowOf item)

/-- An item has no row exactly if nothing is found for it. -/
theorem Writable.row?_eq_none_iff (h : b.Writable) :
    b.row? (b.slotOf item) = none ↔ b.look item.user item.id = .ok none := by
  cases b with
  | cache c => exact h.elim
  | tree t => exact Option.map_eq_none_iff.trans Tree.get_eq_none_iff.symm
  | table t => exact Option.map_eq_none_iff.trans Table.get_eq_none_iff.symm

end Legible

/-! ## What is presented -/

section Presented

variable {b : Backend} {now : Instant} {n other : Name} {item : Item} {names : List Name}

theorem created_cons (p : Presented) (ps : List Presented) :
    created (p :: ps) = created [p] ++ created ps := by
  rw [created, created, created, ← List.map_append, ← List.filter_append, List.singleton_append]

theorem presented_found (h : b.look n.user n.id = .ok (some item)) :
    b.presented now n = ⟨item, false⟩ := by
  rw [presented, h]

theorem presented_vacant (h : b.look n.user n.id = .ok none) :
    b.presented now n = ⟨n.item (.new now), true⟩ := by
  rw [presented, h]

/-- An item is created if nothing is found for it, and then it is the new one. -/
theorem Legible.presented_created (h : b.Legible) (hcreated : (b.presented now n).created = true) :
    b.look n.user n.id = .ok none ∧ (b.presented now n).item = n.item (.new now) := by
  obtain ⟨found, hlook⟩ := h.look_ok n.user n.id
  cases found with
  | none => exact ⟨hlook, by rw [presented_vacant hlook]⟩
  | some item =>
    rw [presented_found hlook] at hcreated
    cases hcreated

/-- Writing an item changes what is presented for no other name. -/
theorem Legible.presented_write (h : b.Legible) (hne : n ≠ other) (v : Version) :
    (b.write (n.item v)).presented now other = b.presented now other := by
  have hother : ¬(other.user = (n.item v).user ∧ other.id = (n.item v).id) :=
    fun heq => hne (Name.eq_iff.2 heq)
  unfold presented
  rw [h.writable.look_write, Contents.put_of_ne hother]

/-- What is left when an item was presented, as far as others are concerned. -/
theorem Legible.presented_settle (h : b.Legible) (now : Instant) (n : Name) :
    ((created [b.presented now n]).foldl Backend.write b).Legible ∧ ∀ other, n ≠ other →
      ((created [b.presented now n]).foldl Backend.write b).presented now other =
        b.presented now other := by
  cases hcreated : (b.presented now n).created with
  | false =>
    have hnone : created [b.presented now n] = [] := by simp [created, hcreated]
    rw [hnone]
    exact ⟨h, fun _ _ => rfl⟩
  | true =>
    have hone : created [b.presented now n] = [n.item (.new now)] := by
      simp [created, hcreated, (h.presented_created hcreated).2]
    rw [hone]
    exact ⟨h.write _, fun _ hne => h.presented_write hne _⟩

/-- The items that presenting names creates are the new ones of those for which nothing is found. -/
theorem Legible.created_presented (h : b.Legible) (now : Instant) (names : List Name) :
    created (names.map (b.presented now)) =
      (names.filter fun n => (b.presented now n).created).map fun n => n.item (.new now) := by
  rw [created, List.filter_map, List.map_map]
  refine List.map_congr_left fun n hmem => ?_
  exact (h.presented_created (List.mem_filter.1 hmem).2).2

/-- The items that presenting different names creates are a batch that gets through. -/
theorem Legible.free_created (h : b.Legible) (now : Instant) (hnodup : names.Nodup) :
    b.Free (created (names.map (b.presented now))) := by
  rw [h.created_presented]
  constructor
  · rw [List.map_map]
    refine (hnodup.filter _).map_on fun n _ other _ heq => ?_
    exact Name.eq_iff.2 (key_eq_key_iff.1 heq.symm)
  · intro item hmem
    obtain ⟨n, hn, rfl⟩ := List.mem_map.1 hmem
    exact h.writable.row?_eq_none_iff.2 (h.presented_created (List.mem_filter.1 hn).2).1

end Presented

end Backend

namespace Lifecycle

variable {b : Backend} (now : Instant) (context : Option Json) (told : List Event) {user : String}
  {names : List Name}

/-! ## One by one -/

/-- One item, presented over a backend whose rows are all read as items. -/
theorem getOrCreate_presented (h : b.Legible) (n : Name) :
    exec (getOrCreate now n.user n.id context) ⟨b, told⟩ =
      (.ok (b.presented now n), ⟨(Backend.created [b.presented now n]).foldl Backend.write b,
        told ++ [presentedEvent now context (b.presented now n)]⟩) := by
  have hget : Store.serve now (.get n.user n.id) b = (b.look n.user n.id, b) :=
    Durable.serve_get now n.user n.id h.sound
  obtain ⟨found, hlook⟩ := h.look_ok n.user n.id
  rw [hlook] at hget
  cases found with
  | some item =>
    rw [Backend.presented_found hlook]
    exact getOrCreate_found context hget
  | none =>
    rw [Backend.presented_vacant hlook]
    have hvacant : b.row? (b.slotOf (n.item (.new now))) = none :=
      h.writable.row?_eq_none_iff.2 hlook
    exact getOrCreate_new context hget (h.writable.serve_create now hvacant)

/-- Items, presented one by one. -/
theorem getOrCreate_each (h : b.Legible) (hnodup : names.Nodup)
    (huser : ∀ n ∈ names, n.user = user) :
    exec ((names.map Name.id).mapM fun id => getOrCreate now user id context) ⟨b, told⟩ =
      (.ok (names.map (b.presented now)),
        ⟨(Backend.created (names.map (b.presented now))).foldl Backend.write b,
          told ++ (names.map (b.presented now)).map (presentedEvent now context)⟩) := by
  induction names generalizing b told with
  | nil => simp [Backend.created]
  | cons n names ih =>
    obtain ⟨hn, hnodup⟩ := List.nodup_cons.1 hnodup
    obtain ⟨hnext, hothers⟩ := h.presented_settle now n
    have hsame : names.map (Backend.presented _ now) = names.map (b.presented now) :=
      List.map_congr_left fun other hmem => hothers other (by rintro rfl; exact hn hmem)
    have hone := getOrCreate_presented now context told h n
    have hrest := ih (told ++ [presentedEvent now context (b.presented now n)]) hnext
      hnodup fun other hmem => huser other (List.mem_cons_of_mem _ hmem)
    rw [hsame] at hrest
    rw [huser n List.mem_cons_self] at hone
    rw [List.map_cons, List.mapM_cons, exec_bind_ok hone, exec_bind_ok hrest, exec_pure,
      List.map_cons, List.map_cons, Backend.created_cons _ (names.map _), List.foldl_append,
      List.append_assoc, List.singleton_append]

/-! ## All at once -/

/-- All names of a batch are looked at. -/
theorem serve_getMany (h : b.Legible) (huser : ∀ n ∈ names, n.user = user) :
    ∃ found : Found, Store.serve now (.getMany user (names.map Name.id)) b = (.ok found, b) ∧
      ∀ n ∈ names, b.look n.user n.id = .ok found[n.id]? := by
  obtain ⟨answer, hserve, hgathers⟩ := Durable.serve_getMany now user (names.map Name.id) h.sound
  cases answer with
  | error e =>
    obtain ⟨id, -, herr⟩ := hgathers
    obtain ⟨found, hlook⟩ := h.look_ok user id
    cases hlook.symm.trans herr
  | ok found =>
    refine ⟨found, hserve, fun n hmem => ?_⟩
    rw [huser n hmem]
    exact (hgathers n.id).1 (List.mem_map_of_mem hmem)

/-- What a batch answers to a name is what is presented, if what was found is what is there. -/
theorem presentedOf_eq {found : Found} {n : Name}
    (hfound : b.look n.user n.id = .ok found[n.id]?) :
    presentedOf now found n = b.presented now n := by
  unfold presentedOf Backend.presented
  rw [hfound]
  cases found[n.id]? <;> rfl

/-- The items that a batch creates are those that are presented as created. -/
theorem newItems_eq (h : b.Legible) {found : Found}
    (hfound : ∀ n ∈ names, b.look n.user n.id = .ok found[n.id]?) :
    newItems now found names = Backend.created (names.map (b.presented now)) := by
  rw [h.created_presented, newItems]
  refine congrArg _ (List.filter_congr fun n hmem => ?_)
  rw [← presentedOf_eq now (hfound n hmem), Std.ExtTreeMap.contains_eq_isSome_getElem?, presentedOf]
  cases found[n.id]? <;> rfl

/-- New items are created all at once. -/
theorem createMissing_free (h : b.Writable) {missing : List Item} (hfree : b.Free missing) :
    exec (createMissing now missing) ⟨b, told⟩ =
      (.ok (settledAll missing), ⟨missing.foldl Backend.write b, told⟩) := by
  cases missing with
  | nil => rfl
  | cons item missing =>
    refine createMissing_created ?_
    rw [h.serve_createMany, Backend.writeAll_free h hfree]
    rfl

/-- A batch, presented at once. -/
theorem getOrCreateMany_at_once (h : b.Legible) {ids : List String}
    (hids : names.map Name.id = ids.eraseDups) (huser : ∀ n ∈ names, n.user = user)
    (hvalid : malformed? user ids = none) :
    exec (getOrCreateMany now user ids context) ⟨b, told⟩ =
      (.ok (names.map (b.presented now)),
        ⟨(Backend.created (names.map (b.presented now))).foldl Backend.write b,
          told ++ (names.map (b.presented now)).map (presentedEvent now context)⟩) := by
  have hnodup : (names.map Name.id).Nodup := hids ▸ nodup_eraseDups ids
  have hcheck : Identity.checkAll user ids = .ok () := by
    rw [Identity.checkAll_eq, hvalid]
  obtain ⟨found, hget, hfound⟩ := serve_getMany now h huser
  have hcreate := createMissing_free now told h.writable (h.free_created now hnodup.of_map)
  rw [← newItems_eq now h hfound] at hcreate ⊢
  have hpresented : names.map (b.presented now) = names.map (presentedOf now found) :=
    List.map_congr_left fun n hmem => (presentedOf_eq now (hfound n hmem)).symm
  rw [hpresented]
  rcases eq_or_ne names [] with rfl | hnames
  · rw [getOrCreateMany_nothing context hcheck hids.symm]
    simp [newItems]
  · exact getOrCreateMany_through context hcheck hids huser hnames (hids ▸ hget) hcreate

/-- If all identities are well formed, the batch and its items one by one are both answered. -/
theorem getOrCreateMany_valid (h : b.Legible) {ids : List String}
    (hvalid : malformed? user ids = none) : ∃ ps s',
      exec (getOrCreateMany now user ids context) ⟨b, told⟩ = (.ok ps, s') ∧
      exec (ids.eraseDups.mapM fun id => getOrCreate now user id context) ⟨b, told⟩ =
        (.ok ps, s') := by
  obtain ⟨huser, hids⟩ := malformed?_eq_none_iff.1 hvalid
  have hdistinct : ∀ id ∈ ids.eraseDups, Identity.Valid id :=
    fun id hmem => hids id (List.mem_eraseDups.1 hmem)
  have hnames : (Name.all user huser ids.eraseDups hdistinct).map Name.id = ids.eraseDups :=
    Name.map_id_all
  have hnodup : (Name.all user huser ids.eraseDups hdistinct).Nodup :=
    .of_map Name.id (by rw [hnames]; exact nodup_eraseDups ids)
  have howner : ∀ n ∈ Name.all user huser ids.eraseDups hdistinct, n.user = user :=
    fun n hmem => Name.user_of_mem_all hmem
  have heach := getOrCreate_each now context told h hnodup howner
  rw [hnames] at heach
  exact ⟨_, _, getOrCreateMany_at_once now context told h hnames howner hvalid, heach⟩

/-- A malformed user is refused by the batch, and by each of its items. -/
theorem getOrCreateMany_malformed_user (b : Backend) {ids : List String}
    (huser : ¬Identity.Valid user) (hids : ids ≠ []) :
    exec (getOrCreateMany now user ids context) ⟨b, told⟩ =
      exec (ids.eraseDups.mapM fun id => getOrCreate now user id context) ⟨b, told⟩ := by
  obtain ⟨flaw, hflaw⟩ := Option.ne_none_iff_exists'.1 (mt Identity.flaw?_eq_none_iff.1 huser)
  have hrefused (ids : List String) : malformed? user ids = some (flaw.reason "userId") := by
    rw [malformed?, hflaw]
  cases ids with
  | nil => exact absurd rfl hids
  | cons id ids =>
    have hfirst : exec (getOrCreate now user id context) ⟨b, told⟩ =
        (.error (.invalidArgument (flaw.reason "userId")), ⟨b, told⟩) :=
      exec_malformed (hrefused [id]) _
    rw [List.eraseDups_cons, List.mapM_cons, exec_bind_error hfirst]
    exact exec_malformed (hrefused (id :: ids)) _

/-- **A batch is its distinct items one by one.** If identities are malformed, it is refused for the
first of them, and nothing happens. -/
theorem getOrCreateMany_eq_each (h : b.Legible) (user : String)
    (ids : List String) :
    ((∀ id ∈ ids, Identity.Valid id) → (ids = [] → Identity.Valid user) →
      exec (getOrCreateMany now user ids context) ⟨b, told⟩ =
        exec (ids.eraseDups.mapM fun id => getOrCreate now user id context) ⟨b, told⟩) ∧
    (malformed? user ids = none →
      ∃ ps, (exec (getOrCreateMany now user ids context) ⟨b, told⟩).1 = .ok ps) ∧
    ∀ reason, malformed? user ids = some reason →
      exec (getOrCreateMany now user ids context) ⟨b, told⟩ =
        (.error (.invalidArgument reason), ⟨b, told⟩) := by
  refine ⟨fun hids huser => ?_, fun hvalid => ?_, fun reason hbad => exec_malformed hbad _⟩
  · by_cases hvalid : Identity.Valid user
    · obtain ⟨ps, s', hmany, heach⟩ := getOrCreateMany_valid now context told h
        (malformed?_eq_none_iff.2 ⟨hvalid, hids⟩)
      rw [hmany, heach]
    · exact getOrCreateMany_malformed_user now context told b hvalid (mt huser hvalid)
  · obtain ⟨ps, s', hmany, -⟩ := getOrCreateMany_valid now context told h hvalid
    exact ⟨ps, by rw [hmany]⟩

/-- One of two items is there, and the other is named twice. -/
theorem getOrCreateMany_eq_each_repeated : ((Backend.tree {}).write Table.kept).Legible ∧
    exec (getOrCreateMany .origin "u" ["a", "b", "a"] none)
        ⟨(Backend.tree {}).write Table.kept, []⟩ =
      exec (["a", "b"].mapM fun id => getOrCreate .origin "u" id none)
        ⟨(Backend.tree {}).write Table.kept, []⟩ := by
  have hempty : (Backend.tree {}).Legible := .tree fun key bytes hrow => by simp at hrow
  have hlegible := hempty.write Table.kept
  exact ⟨hlegible, (getOrCreateMany_eq_each .origin none [] hlegible "u" ["a", "b", "a"]).1
    (by decide) (fun _ => Identity.valid_u)⟩

end Lifecycle

end Dismissal
