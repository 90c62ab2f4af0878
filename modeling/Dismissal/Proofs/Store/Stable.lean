import Dismissal.Proofs.Store.FaultyLaws
import Dismissal.Store.Timed

/-!
# Stable properties

A property of the states of a store is stable if no request and no time makes it fail. What is
stable in a store is stable behind a time limit and behind faults, for neither does more to the
store behind than to let time pass and to hand requests on.
-/

namespace Dismissal

/-- A property that requests and passing time keep. -/
structure Stable {σ : Type} [Store σ] (P : σ → Prop) : Prop where
  serve : ∀ (now : Instant) (request : Request) (s : σ), P s → P (Store.serve now request s).2
  pass : ∀ (now : Instant) (ms : Nat) (s : σ), P s → P (Store.pass now ms s)

variable {σ : Type} [Store σ] {P : σ → Prop}

/-- A request is given up while time passes, or handed on. -/
theorem Timed.serve_cases (now : Instant) (request : Request) (t : Timed σ) :
    (∃ e ms,
        Store.serve now request t = (.error e, { t with inner := Store.pass now ms t.inner })) ∨
      Store.serve now request t = t.forward now request := by
  show (∃ e ms, serve now request t = _) ∨ serve now request t = _
  unfold serve
  split
  · exact .inr rfl
  · split
    · exact .inl ⟨_, _, rfl⟩
    · exact .inr rfl

theorem Stable.timed (h : Stable P) : Stable fun t : Timed σ => P t.inner := by
  constructor
  · intro now request t ht
    rcases Timed.serve_cases now request t with ⟨e, ms, hserve⟩ | hserve
    · rw [hserve]
      exact h.pass now ms t.inner ht
    · rw [hserve]
      exact h.serve now request t.inner ht
  · intro now ms t ht
    exact h.pass now ms t.inner ht

theorem Stable.delayed (h : Stable P) (now : Instant) {f : Faulty σ} (hf : P f.inner) :
    P (f.delayed now).inner := by
  unfold Faulty.delayed
  split
  · exact hf
  · exact h.pass now f.delay f.inner hf

theorem Stable.faulty (h : Stable P) : Stable fun f : Faulty σ => P f.inner := by
  constructor
  · intro now request f hf
    have hdelayed := h.delayed now hf
    obtain ⟨hfaced, -⟩ := Faulty.serve_delayed now request f
    rcases hfaced.inner_eq with heq | heq
    · rw [heq]
      exact hdelayed
    · rw [heq]
      exact h.serve now request _ hdelayed
  · intro now ms f hf
    exact h.pass now ms f.inner hf

end Dismissal
