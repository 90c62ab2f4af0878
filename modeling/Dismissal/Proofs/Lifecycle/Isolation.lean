import Dismissal.Proofs.Lifecycle.Substitution

/-!
# Users do not meet

What a call about an item does on the reference machine follows from what is on record for that item
alone (`Machine.Local`). So two machines that `Agree` on a user, in what is on record and in what
was told, still agree when both do a call of that user, and when one of them does a call of another.

* `users_isolated`: over a tree or a table, leaving out the calls of all other users changes neither
  the answers that a user gets nor the events about that user.
-/

namespace Dismissal

open Lifecycle

/-- The user whom a call is about. A reset is about nobody in particular. -/
def Lifecycle.Call.user? : Call → Option String
  | getOrCreate user _ _ => some user
  | getOrCreateMany user _ _ => some user
  | dismiss user _ _ => some user
  | restore user _ _ => some user
  | deleteItem user _ => some user
  | reset => none

/-- Whether a call is not about another user. -/
def Lifecycle.Call.concerns (user : String) (c : Call) : Bool := c.user?.all (· == user)

/-- Whether a move is a setting of the clock, or a call that is not about another user. -/
def Move.concerns (user : String) : Move → Bool
  | call c => c.concerns user
  | setClock _ => true
  | advance _ => true

/-- The call that a move is. -/
def Move.call? : Move → Option Call
  | call c => some c
  | setClock _ => none
  | advance _ => none

/-- Out of the answers to the calls among some moves, those to calls that are not about another
user. -/
def answersTo (user : String) (moves : List Move) (answers : List (Result Outcome)) :
    List (Result Outcome) :=
  (((moves.filterMap Move.call?).zip answers).filter fun (c, _) => c.concerns user).map Prod.snd

namespace Machine

/-! ## One item -/

section Local

variable {α β : Type} {n : Name} {act : Machine → α × Machine} {m m' : Machine} {user : String}

/-- An act that concerns the item of one name: machines with the same version on record for it give
the same answer, have the same version afterwards and tell the same events, all of them about the
user of the name. What is on record for other items stays. -/
def Local (n : Name) (act : Machine → α × Machine) : Prop :=
  ∀ m m' : Machine, m.ledger[n]? = m'.ledger[n]? →
    (act m).1 = (act m').1 ∧ (act m).2.ledger[n]? = (act m').2.ledger[n]? ∧
    (∀ other, n ≠ other → (act m).2.ledger[other]? = m.ledger[other]?) ∧
    ∃ told : List Event, (∀ e ∈ told, e.user = n.user) ∧
      (act m).2.published = m.published ++ told ∧ (act m').2.published = m'.published ++ told

/-- One machine has on record and has told of a user what the other one has. The other one has told
of nobody else. -/
structure Agree (user : String) (m m' : Machine) : Prop where
  ledger : ∀ n : Name, n.user = user → m.ledger[n]? = m'.ledger[n]?
  published : m.published.filter (·.user == user) = m'.published

/-- The answer may be put in another form. -/
theorem Local.map (h : Local n act) (f : α → β) :
    Local n fun m => (f (act m).1, (act m).2) := by
  intro m m' hsame
  obtain ⟨hanswer, hrest⟩ := h m m' hsame
  exact ⟨congrArg f hanswer, hrest⟩

/-- An act that only looks is local. -/
theorem Local.look (n : Name) (f : Option Version → α) : Local n fun m => (f m.ledger[n]?, m) := by
  intro m m' hsame
  refine ⟨congrArg f hsame, hsame, fun _ _ => rfl, [], by simp, ?_, ?_⟩ <;> simp

/-- Machines still agree on a user when both did something to an item of the user. -/
theorem Local.own (hlocal : Local n act) (h : Agree n.user m m') :
    (act m).1 = (act m').1 ∧ Agree n.user (act m).2 (act m').2 := by
  obtain ⟨hanswer, hsame, hother, told, htold, hpub, hpub'⟩ := hlocal m m' (h.ledger n rfl)
  obtain ⟨-, -, hother', -⟩ := hlocal m' m (h.ledger n rfl).symm
  refine ⟨hanswer, ?_, ?_⟩
  · intro k hk
    by_cases heq : n = k
    · subst heq
      exact hsame
    · rw [hother k heq, hother' k heq, h.ledger k hk]
  · have hall : told.filter (·.user == n.user) = told := by simpa using htold
    rw [hpub, hpub', List.filter_append, h.published, hall]

/-- Machines still agree on a user when one of them did something to an item of another user. -/
theorem Local.other (hlocal : Local n act) (hne : n.user ≠ user) (h : Agree user m m') :
    Agree user (act m).2 m' := by
  obtain ⟨-, -, hother, told, htold, hpub, -⟩ := hlocal m m rfl
  constructor
  · intro k hk
    rw [hother k (by rintro rfl; exact hne hk), h.ledger k hk]
  · have hnone : told.filter (·.user == user) = [] := by
      rw [List.filter_eq_nil_iff]
      intro e he
      simp [htold e he, hne]
    rw [hpub, List.filter_append, h.published, hnone, List.append_nil]

variable (now : Instant) (context : Option Json)

/-- Putting a version on record is local, and so is telling of it. -/
theorem record_local (n : Name) (v : Version) (change : Change) (a : α) :
    Local n fun m => (a, m.record now context n v change) := by
  intro m m' _
  refine ⟨rfl, ?_, ?_, [⟨change, n.user, n.id, n.item v, context, now⟩], by simp, rfl, rfl⟩
  · simp [record]
  · intro other hne
    simp [record, getElem?_insert_eq, hne]

theorem present_local (n : Name) : Local n fun m => m.present now context n := by
  intro m m' hsame
  simp only [present, hsame]
  cases m'.ledger[n]? with
  | some v =>
    exact ⟨rfl, hsame, fun _ _ => rfl, [⟨.retrieved, n.user, n.id, n.item v, context, now⟩],
      by simp, rfl, rfl⟩
  | none => exact record_local now context n (.new now) .created _ m m' hsame

theorem dismiss_local (n : Name) : Local n fun m => m.dismiss now context n := by
  intro m m' hsame
  have hlook (e : Failure) := Local.look n (fun _ => (.error e : Result Transition)) m m' hsame
  simp only [dismiss, hsame]
  cases m'.ledger[n]? with
  | none => exact hlook _
  | some v =>
    simp only
    split
    · exact hlook _
    · split
      · exact record_local now context n _ _ _ m m' hsame
      · exact hlook _

theorem restore_local (n : Name) : Local n fun m => m.restore now context n := by
  intro m m' hsame
  have hlook (e : Failure) := Local.look n (fun _ => (.error e : Result Transition)) m m' hsame
  simp only [restore, hsame]
  cases m'.ledger[n]? with
  | none => exact hlook _
  | some v =>
    simp only
    split
    · exact record_local now context n _ _ _ m m' hsame
    · exact hlook _

theorem erase_local (n : Name) (a : α) :
    Local n fun m => (a, { m with ledger := m.ledger.erase n }) := by
  intro m m' _
  refine ⟨rfl, ?_, ?_, [], by simp, by simp, by simp⟩
  · simp
  · intro other hne
    simp [getElem?_erase_eq, hne]

end Local

/-! ## Calls -/

section Calls

variable {m m' : Machine} {user id : String} {now : Instant}

/-- A malformed name is refused by all machines; all go on with a well-formed one. -/
theorem named_cases (user id : String) :
    (∃ reason, ∀ (m : Machine) act,
      m.named user id act = (.error (.invalidArgument reason), m)) ∨
    ∃ n : Name, n.user = user ∧ ∀ (m : Machine) act, m.named user id act = act n := by
  cases h : malformed? user [id] with
  | some reason =>
    refine .inl ⟨reason, fun m act => ?_⟩
    unfold named
    split <;> simp_all
  | none =>
    have hvalid := malformed?_eq_none_iff.1 h
    refine .inr ⟨⟨user, id, hvalid.1, hvalid.2 id List.mem_cons_self⟩, rfl, fun m act => ?_⟩
    unfold named
    split <;> simp_all

/-- A batch with a malformed name is refused by all machines; all present the items of another one
in the same order. -/
theorem presentAll_cases (now : Instant) (context : Option Json) (user : String)
    (ids : List String) :
    (∃ reason, ∀ m : Machine,
      m.presentAll now context user ids = (.error (.invalidArgument reason), m)) ∨
    ∃ names : List Name, (∀ n ∈ names, n.user = user) ∧ ∀ m : Machine,
      m.presentAll now context user ids =
        (.ok (.batch (m.presentEach now context names).1),
          (m.presentEach now context names).2) := by
  cases h : malformed? user ids with
  | some reason =>
    refine .inl ⟨reason, fun m => ?_⟩
    unfold presentAll
    split <;> simp_all
  | none =>
    have hvalid := malformed?_eq_none_iff.1 h
    refine .inr ⟨Name.all user hvalid.1 ids.eraseDups fun id hid =>
      hvalid.2 id (List.mem_eraseDups.1 hid), fun n hn => Name.user_of_mem_all hn, fun m => ?_⟩
    unfold presentAll
    split
    · simp_all
    · rfl

/-- Items of a user are presented alike by machines that agree on the user. -/
theorem Agree.presentEach (h : Agree user m m') (now : Instant) (context : Option Json)
    {names : List Name}
    (hnames : ∀ n ∈ names, n.user = user) :
    (m.presentEach now context names).1 = (m'.presentEach now context names).1 ∧
      Agree user (m.presentEach now context names).2 (m'.presentEach now context names).2 := by
  induction names generalizing m m' with
  | nil => exact ⟨rfl, h⟩
  | cons n names ih =>
    obtain ⟨hn, hnames⟩ := List.forall_mem_cons.1 hnames
    subst hn
    obtain ⟨hanswer, hnext⟩ := (present_local now context n).own h
    obtain ⟨hanswers, hlast⟩ := ih hnext hnames
    exact ⟨by rw [presentEach_cons, presentEach_cons, hanswer, hanswers], hlast⟩

/-- Presenting items of another user changes nothing for a user. -/
theorem Agree.presentEach_other (h : Agree user m m') (context : Option Json) {names : List Name}
    (hnames : ∀ n ∈ names, n.user ≠ user) :
    Agree user (m.presentEach now context names).2 m' := by
  induction names generalizing m with
  | nil => exact h
  | cons n names ih =>
    obtain ⟨hn, hnames⟩ := List.forall_mem_cons.1 hnames
    exact ih ((present_local now context n).other hn h) hnames

/-- A call that does something to one item, if its name is well-formed. -/
theorem Agree.named (h : Agree user m m') {act : Name → Machine → Result Outcome × Machine}
    (hlocal : ∀ n, Local n (act n)) (id : String) :
    (m.named user id fun n => act n m).1 = (m'.named user id fun n => act n m').1 ∧
      Agree user (m.named user id fun n => act n m).2 (m'.named user id fun n => act n m').2 := by
  rcases named_cases user id with ⟨reason, hbad⟩ | ⟨n, rfl, hgood⟩
  · rw [hbad, hbad]
    exact ⟨rfl, h⟩
  · rw [hgood, hgood]
    exact (hlocal n).own h

theorem Agree.named_other (h : Agree user m m') {act : Name → Machine → Result Outcome × Machine}
    (hlocal : ∀ n, Local n (act n)) {other : String} (hne : other ≠ user) (id : String) :
    Agree user (m.named other id fun n => act n m).2 m' := by
  rcases named_cases other id with ⟨reason, hbad⟩ | ⟨n, rfl, hgood⟩
  · rw [hbad]
    exact h
  · rw [hgood]
    exact (hlocal n).other hne h

/-- **A call of a user, or of nobody, is answered alike** by machines that agree on the user, and
they agree afterwards. -/
theorem Agree.call (now : Instant) (h : Agree user m m') {c : Call} (hc : c.concerns user = true) :
    (perform now c m).1 = (perform now c m').1 ∧
      Agree user (perform now c m).2 (perform now c m').2 := by
  cases c with
  | reset => exact ⟨rfl, fun n _ => by simp [Machine.perform], h.published⟩
  | getOrCreate u id context =>
    obtain rfl : u = user := by simpa [Call.concerns, Call.user?] using hc
    exact h.named (fun n => (present_local now context n).map fun p =>
      (.ok (.presented p) : Result Outcome)) id
  | getOrCreateMany u ids context =>
    obtain rfl : u = user := by simpa [Call.concerns, Call.user?] using hc
    simp only [perform]
    rcases presentAll_cases now context u ids with ⟨reason, hbad⟩ | ⟨names, hnames, hgood⟩
    · rw [hbad, hbad]
      exact ⟨rfl, h⟩
    · obtain ⟨hanswers, hnext⟩ := h.presentEach now context hnames
      rw [hgood, hgood, hanswers]
      exact ⟨rfl, hnext⟩
  | dismiss u id context =>
    obtain rfl : u = user := by simpa [Call.concerns, Call.user?] using hc
    exact h.named (fun n => (dismiss_local now context n).map _) id
  | restore u id context =>
    obtain rfl : u = user := by simpa [Call.concerns, Call.user?] using hc
    exact h.named (fun n => (restore_local now context n).map _) id
  | deleteItem u id =>
    obtain rfl : u = user := by simpa [Call.concerns, Call.user?] using hc
    exact h.named (fun n => erase_local n _) id

/-- **A call of another user changes nothing for a user.** -/
theorem Agree.call_other (now : Instant) (h : Agree user m m') {c : Call}
    (hc : c.concerns user = false) :
    Agree user (perform now c m).2 m' := by
  cases c with
  | reset => cases hc
  | getOrCreate other id context =>
    have hne : other ≠ user := by simpa [Call.concerns, Call.user?] using hc
    exact h.named_other (fun n => (present_local now context n).map fun p =>
      (.ok (.presented p) : Result Outcome)) hne id
  | getOrCreateMany other ids context =>
    have hne : other ≠ user := by simpa [Call.concerns, Call.user?] using hc
    simp only [perform]
    rcases presentAll_cases now context other ids with ⟨reason, hbad⟩ | ⟨names, hnames, hgood⟩
    · simp only [hbad]
      exact h
    · simp only [hgood]
      exact h.presentEach_other context fun n hn => by rwa [hnames n hn]
  | dismiss other id context =>
    have hne : other ≠ user := by simpa [Call.concerns, Call.user?] using hc
    exact h.named_other (fun n => (dismiss_local now context n).map _) hne id
  | restore other id context =>
    have hne : other ≠ user := by simpa [Call.concerns, Call.user?] using hc
    exact h.named_other (fun n => (restore_local now context n).map _) hne id
  | deleteItem other id =>
    have hne : other ≠ user := by simpa [Call.concerns, Call.user?] using hc
    exact h.named_other (fun n => erase_local n _) hne id

end Calls

/-! ## Runs -/

/-- **A user is served by the machine as if no other user called.** -/
theorem Agree.follow {user : String} {r r' : Course Machine} (hclock : r.clock = r'.clock)
    (h : Agree user r.state r'.state) (moves : List Move) :
    ∃ answers : List (Result Outcome),
      (r.follow perform moves).answers = r.answers ++ answers ∧
      (r'.follow perform (moves.filter (·.concerns user))).answers =
        r'.answers ++ answersTo user moves answers ∧
      Agree user (r.follow perform moves).state
        (r'.follow perform (moves.filter (·.concerns user))).state := by
  induction moves generalizing r r' with
  | nil => exact ⟨[], by simp [Course.follow], by simp [Course.follow, answersTo], h⟩
  | cons move moves ih =>
    cases move with
    | setClock t =>
      have hmoved : (r.move perform (.setClock t)).clock = (r'.move perform (.setClock t)).clock :=
        rfl
      exact ih hmoved h
    | advance d =>
      have hmoved : (r.move perform (.advance d)).clock = (r'.move perform (.advance d)).clock :=
        congrArg (·.advance d) hclock
      exact ih hmoved h
    | call c =>
      by_cases hc : c.concerns user = true
      · obtain ⟨hanswer, hnext⟩ := h.call r.clock hc
        have hnext' : Agree user (r.move perform (.call c)).state
            (r'.move perform (.call c)).state := by
          simpa only [Course.move, ← hclock] using hnext
        have hmoved : (r.move perform (.call c)).clock = (r'.move perform (.call c)).clock := hclock
        obtain ⟨answers, hall, hown, hlast⟩ := ih hmoved hnext'
        have hfilter : (Move.call c :: moves).filter (·.concerns user) =
            .call c :: moves.filter (·.concerns user) := List.filter_cons_of_pos hc
        refine ⟨(perform r.clock c r.state).1 :: answers, ?_, ?_, ?_⟩
        · simpa [Course.move, Course.follow] using hall
        · rw [hfilter]
          simpa [Course.move, Course.follow, answersTo, Move.call?, hc, ← hclock, hanswer]
            using hown
        · rw [hfilter]
          exact hlast
      · rw [Bool.not_eq_true] at hc
        have hmoved : (r.move perform (.call c)).clock = r'.clock := hclock
        have hnext : Agree user (r.move perform (.call c)).state r'.state := h.call_other r.clock hc
        obtain ⟨answers, hall, hown, hlast⟩ := ih hmoved hnext
        have hfilter : (Move.call c :: moves).filter (·.concerns user) =
            moves.filter (·.concerns user) := List.filter_cons_of_neg (by simp [Move.concerns, hc])
        refine ⟨(perform r.clock c r.state).1 :: answers, ?_, ?_, ?_⟩
        · simpa [Course.move, Course.follow] using hall
        · rw [hfilter]
          simpa [answersTo, Move.call?, hc] using hown
        · rw [hfilter]
          exact hlast

end Machine

/-- Starting with a store, each user is served as if no other user called: leaving out all calls of
others changes neither the answers to the calls of the user nor the events about the user. Calls
that are about nobody in particular stay. -/
def Isolates {σ : Type} [Store σ] (store : σ) : Prop :=
  ∀ (user : String) (clock : Instant) (moves : List Move),
    let whole := Course.serve clock store moves
    let alone := Course.serve clock store (moves.filter (·.concerns user))
    answersTo user moves whole.answers = alone.answers ∧
      whole.state.published.filter (·.user == user) = alone.state.published

/-- An empty durable store isolates users, since the reference machine does. -/
theorem isolates_durable {σ : Type} [Durable σ] {store : σ} (hsound : Durable.Sound store)
    (hempty : Durable.look store = fun _ _ => .ok none) : Isolates store := by
  intro user clock moves whole alone
  have hwhole := follows_durable hsound hempty clock moves
  have halone := follows_durable hsound hempty clock (moves.filter (·.concerns user))
  have hstart : Machine.Agree user {} {} := ⟨fun _ _ => rfl, rfl⟩
  let start : Course Machine := ⟨clock, {}, []⟩
  have hclock : start.clock = start.clock := rfl
  obtain ⟨answers, hall, hown, hagree⟩ := Machine.Agree.follow hclock hstart moves
  constructor
  · rw [hwhole.answers, halone.answers, hall, hown]
    rfl
  · rw [hwhole.state.published, halone.state.published, hagree.published]

/-- **Users are isolated from each other** over the tree and over the table. -/
theorem users_isolated : Isolates ({} : Tree) ∧ Isolates ({} : Table) :=
  ⟨isolates_durable (fun _ _ _ h => by cases h) rfl, isolates_durable ⟨rfl, rfl⟩ rfl⟩

end Dismissal
