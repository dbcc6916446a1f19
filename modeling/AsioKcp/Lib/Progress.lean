import Mathlib.Logic.Relation
import Mathlib.Tactic

/-! # Two parties that can always come closer to their goal

Two parties of one kind take steps beside each other.  If from every state either
of them can lower its rank, by steps of both and without raising the rank of the
other, then from every state both ranks can be brought to zero. -/
set_option autoImplicit false

namespace AsioKcp.Progress

open Relation

/-- Steps that bring the rank down bring it to zero. -/
theorem reaches_zero {α : Type} {r : α → α → Prop} {I : α → Prop} (rank : α → Nat)
    (closer : ∀ a, I a → 0 < rank a → ∃ b, ReflTransGen r a b ∧ I b ∧ rank b < rank a) :
    ∀ a, I a → ∃ b, ReflTransGen r a b ∧ I b ∧ rank b = 0 := by
  intro a
  induction n : rank a using Nat.strong_induction_on generalizing a with
  | _ n ih =>
      intro holds
      by_cases done : rank a = 0
      · exact ⟨a, .refl, holds, done⟩
      · obtain ⟨b, steps, still, lower⟩ := closer a holds (Nat.pos_of_ne_zero done)
        obtain ⟨c, more, after, zero⟩ := ih (rank b) (n ▸ lower) b rfl still
        exact ⟨c, steps.trans more, after, zero⟩

variable {σ : Type} {R : σ → σ → σ → Prop}

/-- One of the two goes on; `R own other own'` may look at the other party. -/
inductive Step (R : σ → σ → σ → Prop) : σ × σ → σ × σ → Prop
  | first {own other own' : σ} : R own other own' → Step R (own, other) (own', other)
  | second {own other own' : σ} : R own other own' → Step R (other, own) (other, own')

def Steps (R : σ → σ → σ → Prop) : σ × σ → σ × σ → Prop := ReflTransGen (Step R)

theorem Step.swap {p q : σ × σ} (step : Step R p q) : Step R p.swap q.swap := by
  cases step with
  | first step => exact .second step
  | second step => exact .first step

theorem Steps.swap {p q : σ × σ} (steps : Steps R p q) : Steps R p.swap q.swap := by
  induction steps with
  | refl => exact .refl
  | tail _ step ih => exact ih.tail step.swap

theorem Steps.trans {p q r : σ × σ} (before : Steps R p q) (after : Steps R q r) : Steps R p r :=
  ReflTransGen.trans before after

theorem Steps.first {own other own' : σ} (step : R own other own') :
    Steps R (own, other) (own', other) :=
  .single (.first step)

theorem Steps.second {own other other' : σ} (step : R other own other') :
    Steps R (own, other) (own, other') :=
  .single (.second step)

/-- The induction over the steps of both. -/
theorem Steps.invariant {I : σ → σ → Prop} (symm : ∀ {own other}, I own other → I other own)
    (step : ∀ {own other own'}, I own other → R own other own' → I own' other) {p q : σ × σ}
    (steps : Steps R p q) (start : I p.1 p.2) : I q.1 q.2 := by
  induction steps with
  | refl => exact start
  | tail _ taken ih =>
      cases taken with
      | first taken => exact step ih taken
      | second taken => exact symm (step (symm ih) taken)

theorem both_reach_zero {I : σ → σ → Prop} (rank : σ → Nat)
    (symm : ∀ {own other}, I own other → I other own)
    (closer : ∀ own other, I own other → 0 < rank own → ∃ own' other',
      Steps R (own, other) (own', other') ∧ I own' other' ∧ rank own' < rank own ∧
        rank other' ≤ rank other)
    (p : σ × σ) (holds : I p.1 p.2) :
    ∃ q, Steps R p q ∧ I q.1 q.2 ∧ rank q.1 = 0 ∧ rank q.2 = 0 := by
  have lower : ∀ p : σ × σ, I p.1 p.2 → 0 < rank p.1 + rank p.2 →
      ∃ q, ReflTransGen (Step R) p q ∧ I q.1 q.2 ∧ rank q.1 + rank q.2 < rank p.1 + rank p.2 := by
    intro p holds positive
    by_cases first : 0 < rank p.1
    · obtain ⟨own, other, steps, still, less, notMore⟩ := closer p.1 p.2 holds first
      exact ⟨(own, other), steps, still, Nat.add_lt_add_of_lt_of_le less notMore⟩
    · obtain ⟨own, other, steps, still, less, notMore⟩ :=
        closer p.2 p.1 (symm holds) (by omega)
      exact ⟨(other, own), steps.swap, symm still, Nat.add_lt_add_of_le_of_lt notMore less⟩
  obtain ⟨q, steps, still, zero⟩ :=
    reaches_zero (I := fun p : σ × σ => I p.1 p.2) (fun p => rank p.1 + rank p.2) lower p holds
  exact ⟨q, steps, still, by omega, by omega⟩

end AsioKcp.Progress
