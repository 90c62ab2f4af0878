import Dismissal.Proofs.Lifecycle.Checks
import Dismissal.Proofs.Lifecycle.Lockstep
import Dismissal.Proofs.Store.Stable
import Dismissal.Session.Basic

/-!
# Services behind a time limit

Every request takes as long as every other one, so a time limit either leaves a service alone or
lets none of its requests through. In the first case nobody can tell that there is a limit. In the
second one a call that is refused is refused as before, a batch of nothing is answered as before,
and every other call fails because its first request was given up. It asks for nothing else then:
nothing is written, no fault is used up, and nobody is told anything. All that happens to the store
is what it does by itself while first requests are waited for (`Move.waits` says when): a backend
with sweeps does those that fall due, one without them stays as it was.

* `Course.within`: a limit that is long enough makes no difference.
* `Course.beyond`: what becomes of a service whose limit is too short.
* `Course.limited`: both, for backends behind faults.
-/

namespace Dismissal

open Lifecycle

/-! ## Requests -/

namespace Faulty

variable {σ : Type} [Store σ] {f : Faulty σ} {now : Instant}

/-- Requests leave the delay as it is. -/
theorem delay_serve (now : Instant) (request : Request) (f : Faulty σ) :
    (Store.serve now request f).2.delay = f.delay := by
  have hdelayed : (f.delayed now).delay = f.delay := by
    unfold delayed
    split <;> rfl
  rw [← hdelayed, serve_eq]
  rcases (f.delayed now).faults.take request.method with ⟨_ | _, _⟩ <;> rfl

/-- The store when some time was waited for, once at each of several instants. -/
def waited (ms : Nat) (f : Faulty σ) (waits : List Instant) : Faulty σ :=
  waits.foldl (fun f t => Store.pass t ms f) f

/-- Nothing but the store behind changes while one waits, and what has passed of the time. -/
theorem waited_eq (ms : Nat) (f : Faulty σ) (waits : List Instant) :
    f.waited ms waits = { f with
      inner := waits.foldl (fun s t => Store.pass t ms s) f.inner
      elapsed := f.elapsed + waits.length * ms } := by
  induction waits generalizing f with
  | nil => simp [waited]
  | cons t waits ih =>
    show waited ms (f.pass t ms) waits = _
    rw [ih, pass, List.foldl_cons, List.length_cons, Nat.succ_mul]
    simp only [mk.injEq, true_and]
    omega

end Faulty

namespace Timed

variable {σ : Type} [Store σ] {s : σ} {ms : Nat}

/-- A request that takes no longer than the limit is handed on. -/
theorem serve_within (h : Store.latency s ≤ ms) (now : Instant) (request : Request) :
    Store.serve now request (⟨s, some ms⟩ : Timed σ) =
      ((Store.serve now request s).1, ⟨(Store.serve now request s).2, some ms⟩) :=
  if_neg (Nat.not_lt.2 h)

/-- A request that takes longer than the limit is given up. -/
theorem serve_beyond (h : ms < Store.latency s) (now : Instant) (request : Request) :
    Store.serve now request (⟨s, some ms⟩ : Timed σ) =
      (.error (expired request.method ms), ⟨Store.pass now ms s, some ms⟩) := if_pos h

end Timed

/-! ## Calls -/

/-- What a call answers whose requests are all given up. -/
def Lifecycle.Call.givenUp (ms : Nat) (c : Call) : Result Outcome :=
  match c.check, c.first? with
  | .error e, _ => .error e
  | .ok (), none => .ok (.batch [])
  | .ok (), some request => .error (Timed.expired request.method ms)

/-- When a call at an instant waits before it gives up: once, if it asks for anything. -/
def Lifecycle.Call.waits (now : Instant) (c : Call) : List Instant :=
  match c.check, c.first? with
  | .error _, _ => []
  | .ok (), none => []
  | .ok (), some _ => [now]

section Calls

variable {σ : Type} [Store σ] {f : Faulty σ} {ms : Nat}

/-- A call whose requests are given up waits for the first one at most. -/
theorem Lifecycle.Call.perform_beyond (h : ms < f.delay) (now : Instant) (published : List Event)
    (c : Call) :
    c.perform now ⟨(⟨f, some ms⟩ : Timed (Faulty σ)), published⟩ =
      (c.givenUp ms, ⟨⟨f.waited ms (c.waits now), some ms⟩, published⟩) := by
  unfold givenUp waits
  cases hcheck : c.check with
  | error e => exact perform_refused hcheck now _
  | ok _ =>
    cases hfirst : c.first? with
    | none => exact perform_idle hcheck hfirst now _
    | some request => exact perform_stopped hcheck hfirst (Timed.serve_beyond h now request)

end Calls

/-! ## Courses -/

/-- The calls among some moves. -/
def Move.calls (moves : List Move) : List Call :=
  moves.filterMap fun
    | .call c => some c
    | .setClock _ => none
    | .advance _ => none

/-- When the calls among some moves wait, if the clock shows a given time before the first move. -/
def Move.waits (clock : Instant) : List Move → List Instant
  | [] => []
  | .call c :: moves => c.waits clock ++ waits clock moves
  | .setClock t :: moves => waits t moves
  | .advance d :: moves => waits (clock.advance d) moves

section Courses

variable {σ : Type} [Store σ] {f : Faulty σ} {ms : Nat}

/-- A store behind a limit that is long enough for its requests, and the same store without it. -/
def WithinLimit (ms : Nat) (t : Timed (Faulty σ)) (f : Faulty σ) : Prop :=
  t = ⟨f, some ms⟩ ∧ f.delay ≤ ms

theorem WithinLimit.serve {t : Timed (Faulty σ)} (h : WithinLimit ms t f) (now : Instant)
    (request : Request) :
    (Store.serve now request t).1 = (Store.serve now request f).1 ∧
      WithinLimit ms (Store.serve now request t).2 (Store.serve now request f).2 := by
  obtain ⟨rfl, hdelay⟩ := h
  rw [Timed.serve_within hdelay]
  exact ⟨rfl, rfl, (Faulty.delay_serve now request f).symm ▸ hdelay⟩

/-- **A limit that is long enough makes no difference** to anything a service does. -/
theorem Course.within (h : f.delay ≤ ms) (clock : Instant) (published : List Event)
    (moves : List Move) :
    Course.Alike (Paired (WithinLimit ms))
      (Course.follow Call.perform ⟨clock, ⟨(⟨f, some ms⟩ : Timed (Faulty σ)), published⟩, []⟩ moves)
      (Course.follow Call.perform ⟨clock, ⟨f, published⟩, []⟩ moves) :=
  Lockstep.follow (R := WithinLimit ms) (fun now request _ _ hwithin => hwithin.serve now request)
    ⟨rfl, ⟨⟨rfl, h⟩, rfl⟩, rfl⟩ moves

/-- **A limit that is too short lets no request through.** A store behind it is waited for when a
call asks it for something, and that is all that becomes of it. -/
theorem Course.beyond (h : ms < f.delay) {published : List Event}
    {r : Course (State (Timed (Faulty σ)))} (hstate : r.state = ⟨⟨f, some ms⟩, published⟩)
    (moves : List Move) :
    (r.follow Call.perform moves).answers =
        r.answers ++ (Move.calls moves).map (Call.givenUp ms) ∧
      (r.follow Call.perform moves).state =
        ⟨⟨f.waited ms (Move.waits r.clock moves), some ms⟩, published⟩ := by
  induction moves generalizing r f with
  | nil => exact ⟨(List.append_nil _).symm, hstate⟩
  | cons m moves ih =>
    cases m with
    | call c =>
      have hcall := Call.perform_beyond h r.clock published c
      rw [← hstate] at hcall
      have hlate : ms < (f.waited ms (c.waits r.clock)).delay := by
        rw [Faulty.waited_eq]
        exact h
      have hmove : r.move Call.perform (.call c) = ⟨r.clock,
          ⟨⟨f.waited ms (c.waits r.clock), some ms⟩, published⟩,
          r.answers ++ [c.givenUp ms]⟩ := by
        simp only [Course.move, hcall]
      obtain ⟨hanswers, hmore⟩ := ih hlate (r := r.move Call.perform (.call c)) (by rw [hmove])
      constructor
      · rw [hmove, List.append_assoc] at hanswers
        show (Course.follow Call.perform (r.move Call.perform (.call c)) moves).answers = _
        rw [hmove, hanswers]
        rfl
      · rw [show f.waited ms (Move.waits r.clock (.call c :: moves)) =
            (f.waited ms (c.waits r.clock)).waited ms (Move.waits r.clock moves) from
          List.foldl_append]
        exact hmore
    | setClock t => exact ih h (r := r.move Call.perform (.setClock t)) hstate
    | advance d => exact ih h (r := r.move Call.perform (.advance d)) hstate

end Courses

/-! ## Backends -/

/-- The sweeps of a backend, by which it changes while time passes. -/
def Backend.sweeps : Backend → List Cache.Sweep
  | cache c => c.sweeps
  | tree _ => []
  | table _ => []

/-- A backend without sweeps does nothing by itself. -/
theorem Backend.pass_unswept {b : Backend} (h : b.sweeps = []) (now : Instant) (ms : Nat) :
    Store.pass now ms b = b := by
  cases b with
  | tree t => rfl
  | table t => rfl
  | cache c =>
    have hsweeps : c.sweeps = [] := h
    obtain ⟨capacity, lifetime, arena, sweeps⟩ := c
    cases hsweeps
    rfl

theorem Backend.waits_unswept {b : Backend} (h : b.sweeps = []) (ms : Nat) (waits : List Instant) :
    waits.foldl (fun b t => Store.pass t ms b) b = b := by
  induction waits with
  | nil => rfl
  | cons t waits ih => rw [List.foldl_cons, pass_unswept h, ih]

/-- A backend behind a limit of its own does by itself what it does without one. -/
theorem Timed.waits_inner {σ : Type} [Store σ] (ms : Nat) (waits : List Instant) (t : Timed σ) :
    (waits.foldl (fun t at_ => Store.pass at_ ms t) t).inner =
      waits.foldl (fun s at_ => Store.pass at_ ms s) t.inner := by
  induction waits generalizing t with
  | nil => rfl
  | cons at_ waits ih => exact ih _

/-- A course of a service none of whose requests is let through, from the bench `f` behind a limit,
some events told, and a time that the clock shows. -/
structure Course.Inert (ms : Nat) (clock : Instant) (f : Faulty (Timed Backend))
    (published : List Event) (moves : List Move) (r : Course (State Bench)) : Prop where
  answers : r.answers = (Move.calls moves).map (Call.givenUp ms)
  published : r.state.published = published
  faults : r.state.store.inner.faults = f.faults
  /-- All that happens to the backend it does by itself: it lets time pass at the instants at which
  calls ask for something. -/
  backend : r.state.store.backend =
    (Move.waits clock moves).foldl (fun b t => Store.pass t ms b) f.inner.inner
  /-- Without sweeps that is nothing. -/
  unswept : f.inner.inner.sweeps = [] → r.state.store.backend = f.inner.inner

/-- **A time limit makes no difference to a service, or lets it do nothing.** Over every backend,
whatever faults are queued, and along all moves: if requests take no longer than the limit, the
answers, the events, the backend and the faults that are left are those of a service without a
limit. If they take longer, every call that is not refused fails and names its first request, unless
it is a batch of nothing. Then nobody is told anything, all faults are left, and the backend is what
becomes of it by itself while the first requests are waited for, each of them at the time that the
clock shows at its call. A backend without sweeps is as it was; one with sweeps may have dropped
what has expired. -/
theorem Course.limited (f : Faulty (Timed Backend)) (ms : Nat) (clock : Instant)
    (published : List Event) (moves : List Move) :
    let free := Course.follow Call.perform ⟨clock, ⟨f, published⟩, []⟩ moves
    let limited := Course.follow Call.perform ⟨clock, ⟨(⟨f, some ms⟩ : Bench), published⟩, []⟩ moves
    (f.delay ≤ ms → limited.answers = free.answers ∧
        limited.state = ⟨⟨free.state.store, some ms⟩, free.state.published⟩) ∧
      (ms < f.delay → limited.Inert ms clock f published moves) := by
  refine ⟨fun hwithin => ?_, fun hbeyond => ?_⟩
  · have halike := Course.within hwithin clock published moves
    obtain ⟨hstore, -⟩ := halike.state.store
    refine ⟨halike.answers, ?_⟩
    rw [← hstore, ← halike.state.published]
  · obtain ⟨hanswers, hstate⟩ := Course.beyond hbeyond
      (r := ⟨clock, ⟨⟨f, some ms⟩, published⟩, []⟩) rfl moves
    rw [Faulty.waited_eq] at hstate
    have hbackend : Bench.backend (Course.follow Call.perform
        ⟨clock, ⟨⟨f, some ms⟩, published⟩, []⟩ moves).state.store =
          (Move.waits clock moves).foldl (fun b t => Store.pass t ms b) f.inner.inner := by
      rw [hstate]
      exact Timed.waits_inner ms _ f.inner
    exact {
      answers := hanswers
      published := by rw [hstate]
      faults := by rw [hstate]
      backend := hbackend
      unswept := fun h => hbackend.trans (Backend.waits_unswept h ms _) }

/-- A tree whose requests take five milliseconds. -/
def slowTree : Faulty (Timed Backend) := { inner := ⟨.tree {}, none⟩, delay := 5 }

/-- A limit of five milliseconds makes no difference to it, one of four stops every call. -/
theorem Course.limited_slowTree :
    let moves : List Move := [.call (.getOrCreate "u" "a" none), .call (.dismiss "u" "?" none),
      .call .reset]
    let course (ms : Nat) : Course (State Bench) :=
      Course.follow Call.perform ⟨.origin, ⟨⟨slowTree, some ms⟩, []⟩, []⟩ moves
    (course 5).answers =
        (Course.follow Call.perform ⟨.origin, ⟨slowTree, []⟩, []⟩ moves).answers ∧
      (course 4).answers = [.error (.timeout "get did not complete within 4ms"),
        .error (.invalidArgument
          "itemId must contain only letters, digits, hyphens or underscores"),
        .error (.timeout "delete_all did not complete within 4ms")] ∧
      (course 4).state.store.backend = .tree {} := by
  intro moves course
  have hlate := (Course.limited slowTree 4 .origin [] moves).2 (by decide)
  exact ⟨((Course.limited slowTree 5 .origin [] moves).1 (by decide)).1,
    hlate.answers.trans (by decide +kernel), hlate.unswept rfl⟩

end Dismissal
