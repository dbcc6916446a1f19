import AsioKcp.Acceptor.System
import AsioKcp.Connection.Runs

/-! # The contract of the acceptor

Between two of its own cuts the acceptor relies on what the user cannot change:
a predicate that is `Kept` by every act of a connection and by `async_accept`. -/
set_option autoImplicit false

namespace AsioKcp

open AsioKcp.Ikcp AsioKcp.Callback AsioKcp.Machine

/-- User code keeps the predicate, whichever connections it calls, and so does
the executor. -/
structure Kept (T : Terms) (J : Acceptor → Prop) : Prop where
  act : ∀ {a : Acceptor} {c : Nat} {l : Local}, Act T ((Acceptor.view c).get a) l → J a →
    J ((Acceptor.view c).put a l)
  push : ∀ {a : Acceptor}, J a → J a.push
  queue : ∀ {a : Acceptor} {env : Env}, a.env.Grows env → env.sent = a.env.sent → J a →
    J { a with env := env }
  serve : ∀ {a : Acceptor} (serving : Bool), J a → J (a.serve serving)

def Acceptor.phased (T : Terms) (phases : Nat → Phase) (a : Acceptor) : Prop :=
  ∀ c, (phases c).Holds T ((Acceptor.view c).get a)

/-- Every connection is outside of its `close`. -/
def Acceptor.Settled (T : Terms) (a : Acceptor) : Prop := a.phased T fun _ => .settled

/-- The contract of an acceptor that promises to keep `I`.  Where it is `guarded`,
nothing fails that the code of a service coroutine calls itself. -/
def Terms.accepting (T : Terms) (guarded : Prop) (I : Acceptor → Prop) : Contract Acceptor where
  relies P := ∃ phases J serving, Kept T J ∧ (∀ a, J a → I a) ∧
    ∀ a, P a ↔ a.phased T phases ∧ J a ∧ a.serving = serving
  passes a := ¬ T.strict ∧ ¬ (guarded ∧ a.serving = true)
  answers a b := T.reliable ∨ (guarded ∧ a.serving = true) → b = true
  guarantee a a' := I a → I a'
  refl _ := id
  trans first second := second ∘ first

section Contract
variable {T : Terms} {guarded : Prop} {I J J' : Acceptor → Prop}

theorem Kept.acts (kept : Kept T J) {a : Acceptor} {c : Nat} {l : Local}
    (acts : Acts T ((Acceptor.view c).get a) l) (holds : J a) : J ((Acceptor.view c).put a l) := by
  induction acts with
  | refl =>
      rw [(Acceptor.view c).put_get]
      exact holds
  | @tail l l' _ act ih =>
      rw [← (Acceptor.view c).put_put a l l']
      refine kept.act ?_ ih
      rw [(Acceptor.view c).get_put]
      exact act

theorem Kept.and (kept : Kept T J) (kept' : Kept T J') : Kept T fun a => J a ∧ J' a :=
  ⟨fun act holds => ⟨kept.act act holds.1, kept'.act act holds.2⟩,
    fun holds => ⟨kept.push holds.1, kept'.push holds.2⟩,
    fun grows sent holds => ⟨kept.queue grows sent holds.1, kept'.queue grows sent holds.2⟩,
    fun serving holds => ⟨kept.serve serving holds.1, kept'.serve serving holds.2⟩⟩

theorem view_other {c d : Nat} (other : d ≠ c) (a : Acceptor) (l : Local) :
    (Acceptor.view d).get ((Acceptor.view c).put a l) =
      { (Acceptor.view d).get a with env := l.env } := by
  simp [Acceptor.view, Function.update_of_ne other]

/-- A predicate on one connection that its acts keep, and those of the others. -/
theorem kept_view {Jc : Local → Prop} (stable : Stable T Jc) (c : Nat) :
    Kept T fun a => Jc ((Acceptor.view c).get a) where
  act := by
    intro a d l act holds
    by_cases same : d = c
    · subst same
      rw [(Acceptor.view d).get_put]
      exact stable.act act holds
    · rw [view_other (Ne.symm same)]
      exact stable.env (act_onward act).env holds
  push := by
    intro a holds
    have grows : a.env.Grows a.push.env :=
      ⟨List.prefix_refl _, List.prefix_refl _, le_refl _, Nat.le_succ _⟩
    exact stable.env grows holds
  queue := fun grows _ holds => stable.env grows holds
  serve := fun _ holds => holds

/-- A predicate that the environment does not touch holds beside one component. -/
theorem phase_env {phase : Phase} {l : Local} {env : Env} (holds : phase.Holds T l) :
    phase.Holds T { l with env := env } := by
  cases phase <;> exact holds

/-- The code of connection `c`, beside the other connections and what is kept. -/
theorem connection_lifts (kept : Kept T J) (within : ∀ a, J a → I a) (phases : Nat → Phase)
    (c : Nat) (serving : Bool) :
    Lifts (Acceptor.view c) (T.contract (guarded ∧ serving = true)) (T.accepting guarded I)
      (fun a => (∀ d, d ≠ c → (phases d).Holds T ((Acceptor.view d).get a)) ∧ J a ∧
        a.serving = serving) where
  stable := by
    intro a l framed acts
    refine ⟨fun d other => ?_, kept.acts acts framed.2.1, framed.2.2⟩
    rw [view_other other]
    exact phase_env (framed.1 d other)
  relies := by
    rintro P ⟨phase, Jc, stable, shape⟩
    refine ⟨Function.update phases c phase, fun a => Jc ((Acceptor.view c).get a) ∧ J a, serving,
      (kept_view stable c).and kept, fun a holds => within a holds.2, fun a => ?_⟩
    dsimp only
    rw [shape]
    constructor
    · rintro ⟨⟨here, jc⟩, others, j, serves⟩
      refine ⟨fun d => ?_, ⟨jc, j⟩, serves⟩
      by_cases same : d = c
      · subst same
        rw [Function.update_self]
        exact here
      · rw [Function.update_of_ne same]
        exact others d same
    · rintro ⟨all, ⟨jc, j⟩, serves⟩
      have here := all c
      rw [Function.update_self] at here
      refine ⟨⟨here, jc⟩, fun d other => ?_, j, serves⟩
      have there := all d
      rwa [Function.update_of_ne other] at there
  passes := by
    rintro a ⟨_, _, rfl⟩ passes
    exact passes
  answers := by
    rintro a b ⟨_, _, rfl⟩ answered
    exact answered
  guarantee := fun a l framed acts _ => within _ (kept.acts acts framed.2.1)

theorem meets_start {α : Type} {Q : α → Acceptor → Prop} {E : Acceptor → Prop} {a : Acceptor}
    (holds : I a) {p : Prog Acceptor α} (meets : p.Meets (T.accepting guarded I) Q E a)
    (start : Acceptor) : p.Meets (T.accepting guarded I) Q E start :=
  meets_from (C := T.accepting guarded I) (fun _ => holds) meets

variable (guarded) in
/-- Code of one connection, run by the acceptor. -/
theorem onConnection_meets {α : Type} {m : Comp Local α} {Q : α → Local → Prop}
    {E : Local → Prop} (phases : Nat → Phase) {c : Nat} {a : Acceptor} {start : Local}
    (kept : Kept T J) (within : ∀ a, J a → I a)
    (others : ∀ d, d ≠ c → (phases d).Holds T ((Acceptor.view d).get a))
    (holds : J ((Acceptor.view c).put a start))
    (meets : (m ((Acceptor.view c).get a)).Meets (T.contract (guarded ∧ a.serving = true)) Q E
      start) (begun : Acceptor) :
    (onConnection c m a).Meets (T.accepting guarded I)
      (fun r b => Q r ((Acceptor.view c).get b) ∧
        (∀ d, d ≠ c → (phases d).Holds T ((Acceptor.view d).get b)) ∧ J b ∧ b.serving = a.serving)
      (fun b => E ((Acceptor.view c).get b) ∧
        (∀ d, d ≠ c → (phases d).Holds T ((Acceptor.view d).get b)) ∧ J b ∧ b.serving = a.serving)
      begun := by
  have lifts : Lifts (Acceptor.view c) (T.contract (guarded ∧ a.serving = true))
      (T.accepting guarded I) _ := connection_lifts kept within phases c a.serving
  refine meets_start (within _ holds) (meets_zoom lifts ⟨fun d other => ?_, holds, rfl⟩ meets) begun
  rw [view_other other]
  exact phase_env (others d other)

end Contract

end AsioKcp
