import Dismissal.Proofs.Cache.Looks
import Dismissal.Proofs.Cache.Refinement
import Dismissal.Proofs.Store.BackendLaws
import Dismissal.Proofs.Store.Stable

/-!
# Obedient stores

A store is obedient if it answers what it was asked for: an item that is read has the identity that
was named, and what is written is answered as it was handed in, a batch with all of its items. A
obedient store may forget, so a cache is one like any other.

* `Obedient.faulty`: it takes a fault that leaves an item out to make an obedient store another.
* `Backend.obedient_grown`: backends of all kinds are obedient, whatever is asked of them and
  however much time passes.
-/

namespace Dismissal

/-- In the states of a stable property, a store answers what it was asked for. -/
structure Obedient {σ : Type} [Store σ] (P : σ → Prop) : Prop extends Stable P where
  get {now : Instant} {user id : String} {s s' : σ} {item : Item} : P s →
    Store.serve now (.get user id) s = (.ok (some item), s') → item.id = id
  create {now : Instant} {s s' : σ} {item created : Item} : P s →
    Store.serve now (.create item) s = (.ok created, s') → created = item
  createMany {now : Instant} {s s' : σ} {items created : List Item} : P s →
    Store.serve now (.createMany items) s = (.ok created, s') → created = items

/-! ## Durable stores -/

/-- A durable store is obedient. -/
theorem Durable.obedient {σ : Type} [Durable σ] : Obedient (Durable.Sound (σ := σ)) where
  serve now request _ h := Durable.serve_sound now request h
  pass now ms s h := by
    rw [Durable.pass_eq now ms h]
    exact h
  get {now user id s s' item} h hserve := by
    have hlook := (Prod.mk.inj ((Durable.serve_get now user id h).symm.trans hserve)).1
    exact (Durable.look_named h hlook).2
  create {now s s' item created} h hserve := by
    by_cases hvacant : (Durable.look s).Vacant item.user item.id
    · obtain ⟨_, hcreate, -⟩ := Durable.serve_create now h hvacant
      exact (Except.ok.inj (Prod.mk.inj (hcreate.symm.trans hserve)).1).symm
    · obtain ⟨_, htaken⟩ := Durable.serve_create_taken now h hvacant
      cases htaken.symm.trans hserve
  createMany {now s s' items created} h hserve := by
    by_cases hfresh : (Durable.look s).Fresh items
    · obtain ⟨_, hcreate, -⟩ := Durable.serve_createMany now h hfresh
      exact (Except.ok.inj (Prod.mk.inj (hcreate.symm.trans hserve)).1).symm
    · obtain ⟨_, htaken⟩ := Durable.serve_createMany_taken now h hfresh
      cases htaken.symm.trans hserve

/-! ## Backends -/

namespace Backend

/-- A backend is a cache that is a tidy list in slots, or a sound store of a durable kind. -/
inductive Kept : Backend → Prop where
  | cache {c : Cache} {l : Cache.Recency} : Cache.Mirrors c l → l.Tidy → Kept (cache c)
  | durable {b : Backend} : Durable.Sound b → Kept b

/-- What requests and time make of an empty backend of any kind. A cache may have sweeps. -/
inductive Grown : Backend → Prop where
  | cache (capacity : Nat) (lifetime : Span) (sweeps : List Cache.Sweep) :
    Grown (cache { Cache.ofLimits capacity lifetime with sweeps })
  | tree : Grown (tree {})
  | table : Grown (table {})
  | serve {b : Backend} (now : Instant) (request : Request) :
    Grown b → Grown (Store.serve now request b).2
  | pass {b : Backend} (now : Instant) (ms : Nat) : Grown b → Grown (Store.pass now ms b)
  | settle {b : Backend} (now : Instant) : Grown b → Grown (b.settle now)

section Kept

variable {b : Backend} {now : Instant}

theorem Kept.purgeIf {c : Cache} {l : Cache.Recency} (h : Cache.Mirrors c l) (htidy : l.Tidy)
    (now : Instant) (isAsked : Cache.Sweep → Bool) (sweeps : List Cache.Sweep) :
    Kept (.cache { c.purgeIf now isAsked with sweeps }) := by
  unfold Cache.purgeIf
  split
  · obtain ⟨-, hmirrors⟩ := h.step now .purge
    exact .cache ⟨hmirrors.capacity, hmirrors.lifetime, hmirrors.arena⟩ (htidy.step .purge)
  · exact .cache ⟨h.capacity, h.lifetime, h.arena⟩ htidy

theorem Grown.kept (h : b.Grown) : b.Kept := by
  induction h with
  | cache capacity lifetime sweeps =>
    have hmirrors := Cache.Mirrors.ofLimits capacity lifetime
    exact .cache ⟨hmirrors.capacity, hmirrors.lifetime, hmirrors.arena⟩
      (Cache.Recency.Tidy.ofLimits capacity lifetime)
  | tree => exact .durable Reachable.tree.sound
  | table => exact .durable Reachable.table.sound
  | serve now request _ ih =>
    cases ih with
    | cache hmirrors htidy => exact .cache (hmirrors.serve now request).2 (htidy.serve request)
    | durable hsound => exact .durable (Durable.serve_sound now request hsound)
  | pass now ms _ ih =>
    cases ih with
    | cache hmirrors htidy => exact Kept.purgeIf hmirrors htidy now _ _
    | durable hsound =>
      rw [Durable.pass_eq now ms hsound]
      exact .durable hsound
  | @settle b now _ ih =>
    cases ih with
    | cache hmirrors htidy => exact Kept.purgeIf hmirrors htidy now _ _
    | durable hsound =>
      cases b with
      | cache c => exact hsound.elim
      | tree t => exact .durable hsound
      | table t => exact .durable hsound

end Kept

/-- **A backend of any kind is obedient** in all that requests and time make of it. -/
theorem obedient_grown : Obedient Grown where
  serve now request _ h := h.serve now request
  pass now ms _ h := h.pass now ms
  get {now user id _ _ _} h hserve := by
    cases h.kept with
    | durable hsound => exact Durable.obedient.get hsound hserve
    | cache hmirrors htidy =>
      obtain ⟨hfound, -⟩ := Prod.mk.inj hserve
      exact (htidy.get_iff.1 ((hmirrors.get now user id).1.symm.trans hfound)).1.2
  create h hserve := by
    cases h.kept with
    | durable hsound => exact Durable.obedient.create hsound hserve
    | cache _ _ =>
      cases hserve
      rfl
  createMany h hserve := by
    cases h.kept with
    | durable hsound => exact Durable.obedient.createMany hsound hserve
    | cache _ _ =>
      cases hserve
      rfl

end Backend

/-! ## Faults -/

section Faulty

open Faulty

variable {σ : Type} [Store σ] {P : σ → Prop}

/-- What is answered is that a look finds nothing, or what the store answers, unless something is
left out. -/
theorem Faulty.Faced.of_ok {now : Instant} {request : Request} {f : Faulty σ}
    {answer : request.Answer} {inner : σ} (h : Faced now request f (.ok answer) inner)
    (hno : ¬f.Drops) :
    Fault.nothing request = some answer ∨
      Store.serve now request f.inner = (.ok answer, inner) := by
  cases h with
  | hidden _ hnothing => exact .inl hnothing
  | served hserve => exact .inr hserve
  | shortened hdrops _ => exact absurd hdrops hno

/-- **An obedient store stays obedient behind faults**, if none of them leaves an item out. -/
theorem Obedient.faulty (h : Obedient P) :
    Obedient fun f : Faulty σ => P f.inner ∧ ¬f.Drops := by
  have hanswer {now : Instant} {request : Request} {f f' : Faulty σ} {answer : request.Answer}
      (hf : P f.inner ∧ ¬f.Drops) (hserve : Store.serve now request f = (.ok answer, f')) :
      P (f.delayed now).inner ∧ (Fault.nothing request = some answer ∨
        Store.serve now request (f.delayed now).inner = (.ok answer, f'.inner)) := by
    obtain ⟨hfaced, -⟩ := serve_delayed now request f
    rw [hserve] at hfaced
    refine ⟨h.delayed now hf.1, hfaced.of_ok fun ⟨method, hmem⟩ => hf.2 ⟨method, ?_⟩⟩
    rwa [faults_delayed] at hmem
  constructor
  · constructor
    · intro now request f hf
      refine ⟨h.toStable.faulty.serve now request f hf.1, fun ⟨method, hmem⟩ => hf.2 ⟨method, ?_⟩⟩
      exact (serve_delayed now request f).2 hmem
    · intro now ms f hf
      exact ⟨h.toStable.faulty.pass now ms f hf.1, hf.2⟩
  · intro now user id f f' item hf hserve
    obtain ⟨hP, hnothing | hfound⟩ := hanswer hf hserve
    · cases hnothing
    · exact h.get hP hfound
  · intro now f f' item created hf hserve
    obtain ⟨hP, hnothing | hcreate⟩ := hanswer hf hserve
    · cases hnothing
    · exact h.create hP hcreate
  · intro now f f' items created hf hserve
    obtain ⟨hP, hnothing | hcreate⟩ := hanswer hf hserve
    · cases hnothing
    · exact h.createMany hP hcreate

end Faulty

end Dismissal
