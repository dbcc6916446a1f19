import AsioKcp.Lib.Callback

/-! # Runs of a system whose code calls back into unknown code

A configuration is a state with the stack of code that waits for the unknown
code it has invoked.  While the unknown code has control it may call the system
again, return, or (with an exception in flight) catch it or let it pass; with
an empty stack the environment may also start an event.  Every nesting of calls,
returns and exceptions is a sequence of labels. -/
set_option autoImplicit false

namespace AsioKcp.Machine

open AsioKcp.Callback

structure Frame (σ : Type) where
  back : σ → Prog σ Unit
  unwound : σ → Prog σ Unit

inductive Control (σ : Type) where
  | run
  | asking (back : Bool → Prog σ Unit)
  | raising

structure Config (σ : Type) where
  state : σ
  control : Control σ
  stack : List (Frame σ)

inductive Label (ε κ : Type) where
  | event (e : ε)
  | call (k : κ)
  | back
  | answer (b : Bool)
  | raise
  | caught
  | unwind

structure System (σ ε κ : Type) where
  event : ε → Comp σ Unit
  call : κ → Comp σ Unit

variable {σ ε κ : Type}

/-- No code is under way: the environment may start the next event. -/
def Config.Idle (c : Config σ) : Prop := c.stack = [] ∧ c.control = .run

def Config.idle (s : σ) : Config σ := ⟨s, .run, []⟩

theorem Config.Idle.eq {c : Config σ} (idle : c.Idle) : c = .idle c.state := by
  obtain ⟨state, control, stack⟩ := c
  obtain ⟨empty, running⟩ := idle
  cases empty
  cases running
  rfl

def Config.enter (stack : List (Frame σ)) : Prog σ Unit → Config σ
  | .ret s _ => ⟨s, .run, stack⟩
  | .throw s => ⟨s, .raising, stack⟩
  | .invoke s back unwound => ⟨s, .run, ⟨back, unwound⟩ :: stack⟩
  | .ask s back => ⟨s, .asking back, stack⟩

theorem enter_state (stack : List (Frame σ)) (p : Prog σ Unit) :
    (Config.enter stack p).state = p.state := by
  cases p <;> rfl

def System.step (S : System σ ε κ) (c : Config σ) : Label ε κ → Option (Config σ)
  | .event e =>
      match c.control, c.stack with
      | .run, [] => some (.enter [] (S.event e c.state))
      | _, _ => none
  | .call k =>
      match c.control with
      | .run => some (.enter c.stack (S.call k c.state))
      | _ => none
  | .back =>
      match c.control, c.stack with
      | .run, frame :: stack => some (.enter stack (frame.back c.state))
      | _, _ => none
  | .answer b =>
      match c.control with
      | .asking back => some (.enter c.stack (back b))
      | _ => none
  | .raise =>
      match c.control with
      | .run => some { c with control := .raising }
      | _ => none
  | .caught =>
      match c.control with
      | .raising => some { c with control := .run }
      | _ => none
  | .unwind =>
      match c.control, c.stack with
      | .raising, frame :: stack => some (.enter stack (frame.unwound c.state))
      | _, _ => none

def System.run (S : System σ ε κ) : Config σ → List (Label ε κ) → Option (Config σ)
  | c, [] => some c
  | c, label :: rest => do
      let next ← S.step c label
      S.run next rest

/-- The runs of which every step is taken with a label that `ok` allows there. -/
inductive System.Steps (S : System σ ε κ) (ok : Config σ → Label ε κ → Prop) (c : Config σ) :
    Config σ → Prop
  | refl : S.Steps ok c c
  | tail {d e : Config σ} (label : Label ε κ) : S.Steps ok c d → ok d label →
      S.step d label = some e → S.Steps ok c e

theorem System.Steps.trans {S : System σ ε κ} {ok : Config σ → Label ε κ → Prop} {c d e : Config σ}
    (first : S.Steps ok c d) (second : S.Steps ok d e) : S.Steps ok c e := by
  induction second with
  | refl => exact first
  | tail label _ allowed stepped ih => exact .tail label ih allowed stepped

theorem System.Steps.mono {S : System σ ε κ} {ok ok' : Config σ → Label ε κ → Prop}
    (weaker : ∀ c label, ok c label → ok' c label) {c d : Config σ} (run : S.Steps ok c d) :
    S.Steps ok' c d := by
  induction run with
  | refl => exact .refl
  | tail label _ allowed stepped ih => exact .tail label ih (weaker _ label allowed) stepped

/-- A run that succeeds is a sequence of steps. -/
theorem steps_of_run (S : System σ ε κ) (ok : Label ε κ → Prop) (labels : List (Label ε κ))
    (allowed : ∀ label ∈ labels, ok label) {c d : Config σ} (ran : S.run c labels = some d) :
    S.Steps (fun _ => ok) c d := by
  induction labels generalizing c with
  | nil =>
      cases ran
      exact .refl
  | cons label rest ih =>
      simp only [System.run] at ran
      cases stepped : S.step c label with
      | none => simp [stepped] at ran
      | some next =>
          rw [stepped] at ran
          have first : S.Steps (fun _ => ok) c next :=
            .tail label .refl (allowed label (List.mem_cons_self ..)) stepped
          exact first.trans (ih (fun l member => allowed l (List.mem_cons_of_mem _ member)) ran)

def Config.isIdle (c : Config σ) : Bool :=
  match c.control, c.stack with
  | .run, [] => true
  | _, _ => false

theorem idle_of_isIdle {c : Config σ} (checked : c.isIdle = true) : c.Idle := by
  obtain ⟨state, control, stack⟩ := c
  cases control <;> cases stack <;> simp [Config.isIdle] at checked
  exact ⟨rfl, rfl⟩

/-- A run on fixed labels, checked at its end. -/
theorem run_checked (S : System σ ε κ) (c : Config σ) (labels : List (Label ε κ))
    (check : Config σ → Bool) (ran : (S.run c labels).map check = some true) :
    ∃ d, S.run c labels = some d ∧ check d = true :=
  Option.map_eq_some_iff.mp ran

/-- A run on fixed labels that stops at one that `ok` does not allow. -/
def System.runIf (S : System σ ε κ) (ok : Config σ → Label ε κ → Prop)
    [∀ c label, Decidable (ok c label)] : Config σ → List (Label ε κ) → Option (Config σ)
  | c, [] => some c
  | c, label :: rest =>
      if ok c label then do
        let next ← S.step c label
        S.runIf ok next rest
      else none

theorem runIf_checked (S : System σ ε κ) (ok : Config σ → Label ε κ → Prop)
    [∀ c label, Decidable (ok c label)] (c : Config σ) (labels : List (Label ε κ))
    (check : Config σ → Bool) (ran : (S.runIf ok c labels).map check = some true) :
    ∃ d, S.Steps ok c d ∧ check d = true := by
  induction labels generalizing c with
  | nil => exact ⟨c, .refl, Option.some.inj ran⟩
  | cons label rest ih =>
      simp only [System.runIf] at ran
      split at ran
      · rename_i allowed
        cases stepped : S.step c label with
        | none => simp [stepped] at ran
        | some next =>
            rw [stepped] at ran
            obtain ⟨d, run, checked⟩ := ih next ran
            exact ⟨d, (System.Steps.tail label .refl allowed stepped).trans run, checked⟩
      · cases ran

theorem run_append (S : System σ ε κ) (first second : List (Label ε κ)) {c d : Config σ}
    (ran : S.run c first = some d) : S.run c (first ++ second) = S.run d second := by
  induction first generalizing c with
  | nil =>
      cases ran
      rfl
  | cons label rest ih =>
      simp only [System.run, List.cons_append] at ran ⊢
      cases stepped : S.step c label with
      | none => simp [stepped] at ran
      | some next =>
          rw [stepped] at ran
          exact ih ran

/-- A run on fixed labels that goes on by one, checked at its end. -/
theorem step_checked (S : System σ ε κ) {start c : Config σ} {first : List (Label ε κ)}
    (before : S.run start first = some c) (label : Label ε κ) (check : Config σ → Bool)
    (ran : (S.run start (first ++ [label])).map check = some true) :
    ∃ d, S.step c label = some d ∧ S.run start (first ++ [label]) = some d ∧ check d = true := by
  obtain ⟨d, after, checked⟩ := run_checked S start (first ++ [label]) check ran
  have last := after
  rw [run_append S first [label] before] at last
  have stepped : S.step c label = some d := by
    simpa [System.run, Option.bind_eq_some_iff] using last
  exact ⟨d, stepped, after, checked⟩

/-- Who takes the step: the environment starts an event, or the system goes on. -/
theorem step_cases (S : System σ ε κ) {c c' : Config σ} {label : Label ε κ}
    (stepped : S.step c label = some c') :
    (∃ e, label = .event e ∧ c.stack = [] ∧ c.control = .run ∧
      c' = .enter [] (S.event e c.state)) ∨
    (∃ k, label = .call k ∧ c.control = .run ∧ c' = .enter c.stack (S.call k c.state)) ∨
    (∃ frame stack, label = .back ∧ c.control = .run ∧ c.stack = frame :: stack ∧
      c' = .enter stack (frame.back c.state)) ∨
    (∃ b back, label = .answer b ∧ c.control = .asking back ∧
      c' = .enter c.stack (back b)) ∨
    (label = .raise ∧ c.control = .run ∧ c' = { c with control := .raising }) ∨
    (label = .caught ∧ c.control = .raising ∧ c' = { c with control := .run }) ∨
    (∃ frame stack, label = .unwind ∧ c.control = .raising ∧ c.stack = frame :: stack ∧
      c' = .enter stack (frame.unwound c.state)) := by
  obtain ⟨state, control, stack⟩ := c
  cases label with
  | event e =>
      cases control <;> cases stack <;> simp [System.step] at stepped
      exact Or.inl ⟨e, rfl, rfl, rfl, stepped.symm⟩
  | call k =>
      cases control <;> simp [System.step] at stepped
      exact Or.inr (Or.inl ⟨k, rfl, rfl, stepped.symm⟩)
  | back =>
      cases control <;> cases stack <;> simp [System.step] at stepped
      exact Or.inr (Or.inr (Or.inl ⟨_, _, rfl, rfl, rfl, stepped.symm⟩))
  | answer b =>
      cases control <;> simp [System.step] at stepped
      exact Or.inr (Or.inr (Or.inr (Or.inl ⟨b, _, rfl, rfl, stepped.symm⟩)))
  | raise =>
      cases control <;> simp [System.step] at stepped
      exact Or.inr (Or.inr (Or.inr (Or.inr (Or.inl ⟨rfl, rfl, stepped.symm⟩))))
  | caught =>
      cases control <;> simp [System.step] at stepped
      exact Or.inr (Or.inr (Or.inr (Or.inr (Or.inr (Or.inl ⟨rfl, rfl, stepped.symm⟩)))))
  | unwind =>
      cases control <;> cases stack <;> simp [System.step] at stepped
      exact Or.inr (Or.inr (Or.inr (Or.inr (Or.inr (Or.inr
        ⟨_, _, rfl, rfl, rfl, stepped.symm⟩)))))

theorem step_call {S : System σ ε κ} {c c' : Config σ} {k : κ}
    (stepped : S.step c (.call k) = some c') :
    c.control = .run ∧ c' = .enter c.stack (S.call k c.state) := by
  obtain ⟨state, control, stack⟩ := c
  cases control <;> simp [System.step] at stepped
  exact ⟨rfl, stepped.symm⟩

theorem step_event {S : System σ ε κ} {c c' : Config σ} {e : ε}
    (stepped : S.step c (.event e) = some c') :
    c.Idle ∧ c' = .enter [] (S.event e c.state) := by
  obtain ⟨state, control, stack⟩ := c
  cases control <;> cases stack <;> simp [System.step] at stepped
  exact ⟨⟨rfl, rfl⟩, stepped.symm⟩

/-! ## Contracts along a run -/

/-- The frames of a stack, innermost first, lead back to `bottom`: each goes on
from the predicate its invocation relies on to that of the frame below. -/
def StackMeets (C : Contract σ) (bottom : σ → Prop) : (σ → Prop) → List (Frame σ) → Prop
  | P, [] => ∀ s, P s → bottom s
  | P, frame :: stack => ∃ P', StackMeets C bottom P' stack ∧ C.relies P' ∧
      ∀ s, P s → (frame.back s).Meets C (fun _ => P') P' s ∧
        (C.passes s → (frame.unwound s).Meets C (fun _ => P') P' s)

/-- The state satisfies a predicate `P` on which the stack relies. -/
def Config.Meets (C : Contract σ) (bottom : σ → Prop) (c : Config σ) : Prop :=
  ∃ P, C.relies P ∧ StackMeets C bottom P c.stack ∧
    match c.control with
    | .run => P c.state
    | .raising => P c.state
    | .asking back => ∀ b, C.answers c.state b → (back b).Meets C (fun _ => P) P c.state

section Contracts
variable {C : Contract σ} {bottom : σ → Prop}

theorem idle_meets {s : σ} (member : C.relies bottom) (holds : bottom s) :
    (Config.idle s).Meets C bottom :=
  ⟨bottom, member, fun _ h => h, holds⟩

theorem enter_meets {P : σ → Prop} (member : C.relies P) {stack : List (Frame σ)}
    (below : StackMeets C bottom P stack) {start : σ} {p : Prog σ Unit}
    (meets : p.Meets C (fun _ => P) P start) :
    C.guarantee start (Config.enter stack p).state ∧ (Config.enter stack p).Meets C bottom := by
  cases p with
  | ret s a => exact ⟨meets.1, P, member, below, meets.2⟩
  | throw s => exact ⟨meets.1, P, member, below, meets.2⟩
  | invoke s back unwound =>
      obtain ⟨first, P', member', holds, rest⟩ := meets
      exact ⟨first, P', member', ⟨P, below, member, rest⟩, holds⟩
  | ask s back => exact ⟨meets.1, P, member, below, meets.2⟩

/-- What the environment must respect in a step for the contract to bind the code. -/
structure Respects (C : Contract σ) (c : Config σ) (label : Label ε κ) : Prop where
  passes : label = .unwind → C.passes c.state
  answers : ∀ b, label = .answer b → C.answers c.state b

/-- A step keeps the contract, when the event or the call it starts does.  The
guarantee of an event runs from a state `start` of the caller's choice. -/
theorem step_meets (S : System σ ε κ) (start : σ) {c c' : Config σ} {label : Label ε κ}
    (respects : Respects C c label) (inv : c.Meets C bottom)
    (stepped : S.step c label = some c') (other : (∀ e, label ≠ .event e) → start = c.state)
    (event : ∀ e, label = .event e → bottom c.state →
      C.relies bottom ∧ (S.event e c.state).Meets C (fun _ => bottom) bottom start)
    (call : ∀ k P, label = .call k → C.relies P → P c.state →
      (S.call k c.state).Meets C (fun _ => P) P c.state) :
    C.guarantee start c'.state ∧ c'.Meets C bottom := by
  obtain ⟨P, member, below, holds⟩ := inv
  rcases step_cases S stepped with ⟨e, isEvent, empty, control, rfl⟩ | ⟨k, isCall, control, rfl⟩ |
      ⟨frame, stack, isBack, control, shape, rfl⟩ | ⟨b, back, isAnswer, control, rfl⟩ |
      ⟨isRaise, control, rfl⟩ | ⟨isCaught, control, rfl⟩ |
      ⟨frame, stack, isUnwind, control, shape, rfl⟩
  · rw [control] at holds
    rw [empty] at below
    obtain ⟨memberB, meets⟩ := event e isEvent (below _ holds)
    have base : StackMeets C bottom bottom [] := fun _ h => h
    exact enter_meets memberB base meets
  · rw [control] at holds
    rw [other (by simp [isCall])]
    exact enter_meets member below (call k P isCall member holds)
  · rw [control] at holds
    rw [shape] at below
    obtain ⟨P', below', member', rest⟩ := below
    rw [other (by simp [isBack])]
    exact enter_meets member' below' (rest _ holds).1
  · rw [control] at holds
    rw [other (by simp [isAnswer])]
    exact enter_meets member below (holds b (respects.answers b isAnswer))
  · rw [control] at holds
    rw [other (by simp [isRaise])]
    exact ⟨C.refl _, P, member, below, holds⟩
  · rw [control] at holds
    rw [other (by simp [isCaught])]
    exact ⟨C.refl _, P, member, below, holds⟩
  · rw [control] at holds
    rw [shape] at below
    obtain ⟨P', below', member', rest⟩ := below
    rw [other (by simp [isUnwind])]
    exact enter_meets member' below' ((rest _ holds).2 (respects.passes isUnwind))

/-- Between two events the state satisfies the predicate at the bottom. -/
theorem meets_bottom {c : Config σ} (inv : c.Meets C bottom) (idle : c.Idle) :
    bottom c.state := by
  obtain ⟨P, _, below, holds⟩ := inv
  rw [idle.1] at below
  rw [idle.2] at holds
  exact below _ holds

end Contracts

/-! ## One call, until it comes back -/

/-- The code that was entered above the frames `stack` has come back to them. -/
def Config.Back (stack : List (Frame σ)) (c : Config σ) : Prop :=
  c.stack = stack ∧ c.control = .run

/-- A step that is taken before the code comes back, and takes no exception out of it. -/
def Inside (stack : List (Frame σ)) (c : Config σ) (label : Label ε κ) : Prop :=
  ¬ c.Back stack ∧ (label = .unwind → c.stack ≠ stack)

/-- The configuration with the frames `stack` below its own. -/
def Config.above (stack : List (Frame σ)) (c : Config σ) : Config σ :=
  { c with stack := c.stack ++ stack }

theorem enter_above (stack frames : List (Frame σ)) (p : Prog σ Unit) :
    (Config.enter frames p).above stack = .enter (frames ++ stack) p := by
  cases p <;> rfl

/-- Until the code comes back, no step looks at the frames below it. -/
theorem step_inside (S : System σ ε κ) {stack : List (Frame σ)} {c d : Config σ}
    {label : Label ε κ} (inside : Inside stack (c.above stack) label)
    (stepped : S.step (c.above stack) label = some d) :
    (∀ e, label ≠ .event e) ∧ ∃ c', S.step c label = some c' ∧ d = c'.above stack := by
  obtain ⟨state, control, frames⟩ := c
  rcases step_cases S stepped with ⟨e, rfl, empty, running, rfl⟩ | ⟨k, rfl, running, rfl⟩ |
      ⟨frame, below, rfl, running, shape, rfl⟩ | ⟨b, back, rfl, asking, rfl⟩ |
      ⟨rfl, running, rfl⟩ | ⟨rfl, raising, rfl⟩ | ⟨frame, below, rfl, raising, shape, rfl⟩
  · obtain ⟨_, below⟩ := List.append_eq_nil_iff.mp empty
    exact absurd ⟨empty.trans below.symm, running⟩ inside.1
  · cases running
    exact ⟨by simp, _, rfl, (enter_above stack frames _).symm⟩
  · cases running
    cases frames with
    | nil => exact absurd ⟨rfl, rfl⟩ inside.1
    | cons first rest =>
        cases shape
        exact ⟨by simp, _, rfl, (enter_above stack rest _).symm⟩
  · cases asking
    exact ⟨by simp, _, rfl, (enter_above stack frames _).symm⟩
  · cases running
    exact ⟨by simp, _, rfl, rfl⟩
  · cases raising
    exact ⟨by simp, _, rfl, rfl⟩
  · cases raising
    cases frames with
    | nil => exact absurd rfl (inside.2 rfl)
    | cons first rest =>
        cases shape
        exact ⟨by simp, _, rfl, (enter_above stack rest _).symm⟩

section Calls
variable {C : Contract σ} {S : System σ ε κ} {ok : Config σ → Label ε κ → Prop}
  (respects : ∀ c label, ok c label → Respects C c label)
  (call : ∀ c k P, ok c (.call k) → C.relies P → P c.state →
    (S.call k c.state).Meets C (fun _ => P) P c.state)
include respects call

theorem inside_meets {Q : σ → Prop} {stack : List (Frame σ)} {c d : Config σ} (inv : c.Meets C Q)
    (run : S.Steps (fun c label => ok c label ∧ Inside stack c label) (c.above stack) d) :
    ∃ c' : Config σ, d = c'.above stack ∧ c'.Meets C Q := by
  induction run with
  | refl => exact ⟨c, rfl, inv⟩
  | tail label _ allowed stepped ih =>
      obtain ⟨c', rfl, inv'⟩ := ih
      obtain ⟨other, next, stepped', rfl⟩ := step_inside S allowed.2 stepped
      have respected : Respects C c' label :=
        ⟨(respects _ label allowed.1).passes, (respects _ label allowed.1).answers⟩
      refine ⟨next, rfl, (step_meets S c'.state respected inv' stepped' (fun _ => rfl)
        (fun e isEvent => absurd isEvent (other e)) ?_).2⟩
      rintro k P rfl member holds
      exact call (c'.above stack) k P allowed.1 member holds

/-- Code that keeps the contract comes back in its postcondition. -/
theorem back_meets {Q : σ → Prop} (member : C.relies Q) {start : σ} {p : Prog σ Unit}
    (meets : p.Meets C (fun _ => Q) Q start) {stack : List (Frame σ)} {d : Config σ}
    (run : S.Steps (fun c label => ok c label ∧ Inside stack c label) (.enter stack p) d)
    (back : d.Back stack) : Q d.state := by
  have base : StackMeets C Q Q [] := fun _ holds => holds
  have inv := (enter_meets member base meets).2
  have above : Config.enter stack p = (Config.enter [] p).above stack :=
    (enter_above stack [] p).symm
  rw [above] at run
  obtain ⟨c', rfl, inv'⟩ := inside_meets respects call inv run
  have idle : c'.Idle := ⟨List.append_left_eq_self.mp back.1, back.2⟩
  have bottom : Q c'.state := meets_bottom inv' idle
  exact bottom

end Calls

end AsioKcp.Machine
