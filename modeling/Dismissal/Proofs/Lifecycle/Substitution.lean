import Dismissal.Proofs.Cache.Keeping
import Dismissal.Proofs.Lifecycle.Refinement
import Dismissal.Proofs.Store.TableLaws

/-!
# All stores serve alike

A service gives the same answers and tells the same events over any two keepers, as long as what its
calls name is known and each write is near. This is so because it follows the reference machine over
both (`Follows.follow`).

* `backends_indistinguishable`: the cache, the tree and the table cannot be told apart by a service,
  while the cache has room for all names and nothing that was written has expired.
-/

namespace Dismissal

open Lifecycle

/-- The well-formed names in the call of a move. -/
def Move.names : Move → List Name
  | call c => c.names
  | setClock _ => []
  | advance _ => []

/-- The well-formed names in the calls of some moves, each once. -/
def Move.allNames (moves : List Move) : List Name := (moves.flatMap Move.names).eraseDups

/-- The course of a service over a store along some moves. -/
def Course.serve {σ : Type} [Store σ] (clock : Instant) (store : σ) (moves : List Move) :
    Course (State σ) :=
  Course.follow Call.perform ⟨clock, { store }, []⟩ moves

/-- Everything that was written, as the events tell, was written less than a lifetime ago. -/
def Course.Fresh {σ : Type} (lifetime : Span) (r : Course (State σ)) : Prop :=
  ∀ event ∈ r.state.published, event.change ≠ .retrieved → r.clock < event.time.advance lifetime

section Keepers

variable {σ : Type} [Store σ] {k : Keeper σ}

/-- **A service over a keeper follows the reference machine** along all moves whose names are known,
if at each call everything that was written is near. -/
theorem Follows.follow {r : Course (State σ)} {r' : Course Machine} {moves : List Move}
    (h : Course.Alike (Follows k) r r') (hknown : ∀ m ∈ moves, ∀ n ∈ m.names, k.Knows n)
    (hnear : ∀ before c after, moves = before ++ .call c :: after →
      ∀ t ∈ writes (r.follow Call.perform before).state.published,
        k.Near (r.follow Call.perform before).clock t) :
    Course.Alike (Follows k) (r.follow Call.perform moves) (r'.follow Machine.perform moves) := by
  induction moves generalizing r r' with
  | nil => exact h
  | cons m moves ih =>
    have hmove : Course.Alike (Follows k) (r.move Call.perform m) (r'.move Machine.perform m) := by
      refine h.move fun c hm => ?_
      subst hm
      have hrecent : k.Recent r.clock r'.state := by
        unfold Keeper.Recent
        rw [← h.state.published]
        exact hnear [] c moves rfl
      exact h.state.perform hrecent (hknown _ List.mem_cons_self)
    refine ih hmove (fun other hmem => hknown other (List.mem_cons_of_mem _ hmem)) ?_
    intro before c after heq
    exact hnear (m :: before) c after (by rw [heq]; rfl)

end Keepers

section Stores

variable {clock : Instant} {moves : List Move}

/-- A service over a durable store follows the reference machine along all moves. -/
theorem follows_durable {σ : Type} [Durable σ] {store : σ} (hsound : Durable.Sound store)
    (hempty : Durable.look store = fun _ _ => .ok none) (clock : Instant) (moves : List Move) :
    Course.Alike (Follows (Keeper.durable σ)) (Course.serve clock store moves)
      (Course.follow Machine.perform ⟨clock, {}, []⟩ moves) := by
  refine Follows.follow ⟨rfl, ⟨⟨hsound, ?_⟩, rfl⟩, rfl⟩ (fun _ _ _ _ => trivial)
    fun _ _ _ _ _ _ => trivial
  rw [hempty, Ledger.contents_empty]

/-- A service over a cache follows the reference machine, as long as there is room for all names and
nothing that was written has expired. -/
theorem follows_cache {capacity : Nat} {lifetime : Span}
    (hroom : (Move.allNames moves).length ≤ max capacity 1)
    (hfresh : ∀ before c after, moves = before ++ .call c :: after →
      (Course.serve clock (Cache.ofLimits capacity lifetime) before).Fresh lifetime) :
    Course.Alike (Follows (Cache.keeper (Move.allNames moves) lifetime))
      (Course.serve clock (Cache.ofLimits capacity lifetime) moves)
      (Course.follow Machine.perform ⟨clock, {}, []⟩ moves) := by
  refine Follows.follow ⟨rfl, ⟨?_, rfl⟩, rfl⟩ ?_ ?_
  · rw [Ledger.contents_empty]
    exact ⟨_, .ofLimits capacity lifetime, .ofLimits hroom⟩
  · intro m hm n hn
    exact List.mem_eraseDups.2 (List.mem_flatMap.2 ⟨m, hm, hn⟩)
  · intro before c after heq t ht
    obtain ⟨event, hevent, hchange, rfl⟩ := mem_writes.1 ht
    exact hfresh before c after heq event hevent hchange

/-- **The three stores cannot be told apart.** Along all moves from empty stores, a service gives
the same answers and tells the same events over the cache, the tree and the table, if the cache has
room for all names in the calls, and if at each call everything that was written was written less
than a lifetime ago. -/
theorem backends_indistinguishable (clock : Instant) (moves : List Move) (capacity : Nat)
    (lifetime : Span) (hroom : (Move.allNames moves).length ≤ max capacity 1)
    (hfresh : ∀ before c after, moves = before ++ .call c :: after →
      (Course.serve clock (Cache.ofLimits capacity lifetime) before).Fresh lifetime) :
    let cache := Course.serve clock (Cache.ofLimits capacity lifetime) moves
    let tree := Course.serve clock ({} : Tree) moves
    let table := Course.serve clock ({} : Table) moves
    (cache.answers = tree.answers ∧ cache.state.published = tree.state.published) ∧
      tree.answers = table.answers ∧ tree.state.published = table.state.published := by
  intro cache tree table
  have hcache := follows_cache hroom hfresh
  have hsound : Durable.Sound ({} : Tree) := fun _ _ _ h => by cases h
  have htree := follows_durable hsound rfl clock moves
  have hopen : Durable.Sound ({} : Table) := ⟨rfl, rfl⟩
  have htable := follows_durable hopen rfl clock moves
  exact ⟨⟨hcache.answers.trans htree.answers.symm,
      hcache.state.published.trans htree.state.published.symm⟩,
    htree.answers.trans htable.answers.symm,
    htree.state.published.trans htable.state.published.symm⟩

/-- Two items are created, and one of them is dismissed five milliseconds later. -/
def soonDismissed : List Move :=
  [.call (.getOrCreateMany "u" ["a", "b"] none), .advance (.ofMillis 5),
    .call (.dismiss "u" "a" none)]

/-- A cache with room for two items and ten milliseconds is enough for two names and five. -/
theorem soonDismissed_alike :
    let cache := Course.serve .origin (Cache.ofLimits 2 (.ofMillis 10)) soonDismissed
    let tree := Course.serve .origin ({} : Tree) soonDismissed
    let table := Course.serve .origin ({} : Table) soonDismissed
    (cache.answers = tree.answers ∧ cache.state.published = tree.state.published) ∧
      tree.answers = table.answers ∧ tree.state.published = table.state.published := by
  refine backends_indistinguishable .origin soonDismissed 2 (.ofMillis 10) (by decide) ?_
  intro before c after heq
  -- the first call finds nothing told yet, the second one what the first one created
  match before, heq with
  | [], _ => exact fun _ hevent => absurd hevent List.not_mem_nil
  | [_, _], heq =>
    cases heq
    intro event hevent _
    have htold : (Course.serve .origin (Cache.ofLimits 2 (.ofMillis 10))
        (soonDismissed.take 2)).state.published.map Event.time = [.origin, .origin] := rfl
    have htime : event.time ∈ [Instant.origin, .origin] := htold ▸ List.mem_map_of_mem hevent
    have horigin : event.time = .origin := by simpa using htime
    rw [horigin]
    decide
  | [_], heq => cases heq
  | _ :: _ :: _ :: before, heq => simp [soonDismissed] at heq

end Stores

end Dismissal
