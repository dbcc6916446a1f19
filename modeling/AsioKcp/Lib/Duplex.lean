import AsioKcp.Lib.Machine

/-! # Two machines side by side

Both run the same system, each with a note of what it has done so far, and take
steps in any order.  What one may do next may depend on the state of the other:
that is how a network passes on what the other has sent. -/
set_option autoImplicit false

namespace AsioKcp.Machine

structure Node (σ γ : Type) where
  config : Config σ
  note : γ

structure Duplex (σ γ : Type) where
  first : Node σ γ
  second : Node σ γ

/-- `allows own other` says which labels are open to `own`. -/
structure Peering (σ ε κ γ : Type) where
  system : System σ ε κ
  allows : Node σ γ → Node σ γ → Label ε κ → Prop
  mark : Node σ γ → Label ε κ → γ

variable {σ ε κ γ : Type}

namespace Peering

/-- One step of `own` beside `other`. -/
structure Move (P : Peering σ ε κ γ) (own other : Node σ γ) (label : Label ε κ)
    (own' : Node σ γ) : Prop where
  allowed : P.allows own other label
  stepped : P.system.step own.config label = some own'.config
  note : own'.note = P.mark own label

inductive Run (P : Peering σ ε κ γ) (p : Duplex σ γ) : Duplex σ γ → Prop
  | refl : P.Run p p
  | first {q : Duplex σ γ} {n : Node σ γ} (label : Label ε κ) : P.Run p q →
      P.Move q.first q.second label n → P.Run p ⟨n, q.second⟩
  | second {q : Duplex σ γ} {n : Node σ γ} (label : Label ε κ) : P.Run p q →
      P.Move q.second q.first label n → P.Run p ⟨q.first, n⟩

theorem Run.trans {P : Peering σ ε κ γ} {p q r : Duplex σ γ} (before : P.Run p q)
    (after : P.Run q r) : P.Run p r := by
  induction after with
  | refl => exact before
  | first label _ move ih => exact .first label ih move
  | second label _ move ih => exact .second label ih move

/-- The induction over a run: an invariant of both that each step of either keeps. -/
theorem invariant {P : Peering σ ε κ γ} {J : Node σ γ → Node σ γ → Prop}
    (symm : ∀ {own other}, J own other → J other own)
    (step : ∀ {own other own' label}, J own other → P.Move own other label own' → J own' other)
    {p q : Duplex σ γ} (start : J p.first p.second) (run : P.Run p q) :
    J q.first q.second := by
  induction run with
  | refl => exact start
  | first label _ move ih => exact step ih move
  | second label _ move ih => exact symm (step (symm ih) move)

/-! ## One side and the other -/

end Peering

/-- The second node is the one called `true`. -/
def Duplex.side (d : Duplex σ γ) : Bool → Node σ γ
  | false => d.first
  | true => d.second

namespace Peering

/-- One step, of the side `b`. -/
structure Turn (P : Peering σ ε κ γ) (b : Bool) (label : Label ε κ) (q r : Duplex σ γ) : Prop where
  move : P.Move (q.side b) (q.side !b) label (r.side b)
  rest : r.side (!b) = q.side !b

/-- An invariant of one side beside the other that the steps of both keep. -/
theorem directed {P : Peering σ ε κ γ} (b : Bool) {J : Node σ γ → Node σ γ → Prop}
    (ownMove : ∀ {own other own' label}, J own other → P.Move own other label own' → J own' other)
    (otherMove : ∀ {own other other' label}, J own other → P.Move other own label other' →
      J own other')
    {p q : Duplex σ γ} (start : J (p.side b) (p.side !b)) (run : P.Run p q) :
    J (q.side b) (q.side !b) := by
  induction run with
  | refl => exact start
  | first label _ move ih =>
      cases b with
      | false => exact ownMove ih move
      | true => exact otherMove ih move
  | second label _ move ih =>
      cases b with
      | false => exact otherMove ih move
      | true => exact ownMove ih move

/-! ## Runs on fixed labels -/

def execMove (P : Peering σ ε κ γ) [∀ own other label, Decidable (P.allows own other label)]
    (own other : Node σ γ) (label : Label ε κ) : Option (Node σ γ) :=
  if P.allows own other label then
    (P.system.step own.config label).map fun config => ⟨config, P.mark own label⟩
  else none

/-- Runs a list of steps; the flag says whether the first node takes the step. -/
def exec (P : Peering σ ε κ γ) [∀ own other label, Decidable (P.allows own other label)]
    (p : Duplex σ γ) : List (Bool × Label ε κ) → Option (Duplex σ γ)
  | [] => some p
  | (true, label) :: rest => do
      let n ← P.execMove p.first p.second label
      P.exec ⟨n, p.second⟩ rest
  | (false, label) :: rest => do
      let n ← P.execMove p.second p.first label
      P.exec ⟨p.first, n⟩ rest

variable (P : Peering σ ε κ γ) [∀ own other label, Decidable (P.allows own other label)]

theorem move_of_exec {own other own' : Node σ γ} {label : Label ε κ}
    (ran : P.execMove own other label = some own') : P.Move own other label own' := by
  unfold execMove at ran
  split at ran
  · rename_i allowed
    obtain ⟨config, stepped, rfl⟩ := Option.map_eq_some_iff.mp ran
    exact ⟨allowed, stepped, rfl⟩
  · cases ran

theorem run_of_exec (steps : List (Bool × Label ε κ)) :
    ∀ {p q : Duplex σ γ}, P.exec p steps = some q → P.Run p q := by
  induction steps with
  | nil =>
      intro p q ran
      cases ran
      exact .refl
  | cons step rest ih =>
      intro p q ran
      obtain ⟨isFirst, label⟩ := step
      cases isFirst with
      | true =>
          obtain ⟨n, moved, ran⟩ := Option.bind_eq_some_iff.mp ran
          exact (Run.first label .refl (P.move_of_exec moved)).trans (ih ran)
      | false =>
          obtain ⟨n, moved, ran⟩ := Option.bind_eq_some_iff.mp ran
          exact (Run.second label .refl (P.move_of_exec moved)).trans (ih ran)

/-- The end of a run satisfies what a check of its labels has found. -/
theorem exec_checked (p : Duplex σ γ) (steps : List (Bool × Label ε κ))
    (check : Duplex σ γ → Bool) (ran : (P.exec p steps).map check = some true) :
    ∃ q, P.Run p q ∧ check q = true := by
  obtain ⟨q, reached, holds⟩ := Option.map_eq_some_iff.mp ran
  exact ⟨q, P.run_of_exec steps reached, holds⟩

theorem exec_append (first second : List (Bool × Label ε κ)) :
    ∀ {p q : Duplex σ γ}, P.exec p first = some q →
      P.exec p (first ++ second) = P.exec q second := by
  induction first with
  | nil =>
      intro p q ran
      cases ran
      rfl
  | cons step rest ih =>
      intro p q ran
      obtain ⟨isFirst, label⟩ := step
      cases isFirst with
      | true =>
          obtain ⟨n, moved, ran⟩ := Option.bind_eq_some_iff.mp ran
          exact (congrArg (Option.bind · _) moved).trans (ih ran)
      | false =>
          obtain ⟨n, moved, ran⟩ := Option.bind_eq_some_iff.mp ran
          exact (congrArg (Option.bind · _) moved).trans (ih ran)

/-- A run on fixed labels that goes on by a turn, checked at its end. -/
theorem exec_turn {p q : Duplex σ γ} {steps : List (Bool × Label ε κ)}
    (before : P.exec p steps = some q) (isFirst : Bool) (label : Label ε κ)
    (check : Duplex σ γ → Bool)
    (ran : (P.exec p (steps ++ [(isFirst, label)])).map check = some true) :
    ∃ r, P.exec p (steps ++ [(isFirst, label)]) = some r ∧ P.Turn (!isFirst) label q r ∧
      check r = true := by
  obtain ⟨r, reached, holds⟩ := Option.map_eq_some_iff.mp ran
  have last := reached
  rw [P.exec_append steps [(isFirst, label)] before] at last
  refine ⟨r, reached, ?_, holds⟩
  cases isFirst with
  | true =>
      obtain ⟨n, moved, ended⟩ := Option.bind_eq_some_iff.mp last
      cases ended
      exact ⟨P.move_of_exec moved, rfl⟩
  | false =>
      obtain ⟨n, moved, ended⟩ := Option.bind_eq_some_iff.mp last
      cases ended
      exact ⟨P.move_of_exec moved, rfl⟩

/-- A run on fixed labels that goes on by more of them. -/
theorem exec_more {p q : Duplex σ γ} {steps : List (Bool × Label ε κ)}
    (before : P.exec p steps = some q) (more : List (Bool × Label ε κ)) (check : Duplex σ γ → Bool)
    (ran : (P.exec p (steps ++ more)).map check = some true) :
    ∃ r, P.exec p (steps ++ more) = some r ∧ P.Run q r ∧ check r = true := by
  obtain ⟨r, reached, holds⟩ := Option.map_eq_some_iff.mp ran
  have last := reached
  rw [P.exec_append steps more before] at last
  exact ⟨r, reached, P.run_of_exec more last, holds⟩

end Peering

end AsioKcp.Machine
