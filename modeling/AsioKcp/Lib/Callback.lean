import Mathlib.Tactic

/-! # Programs that call back into unknown code

A `Prog` is one piece of sequential code over a state `σ`, cut at the points
where it gives control away: it returns, throws, invokes unknown code (which
may change the state before it comes back, or let an exception pass), or asks
its environment for the outcome of an action.  `Comp` is the monad of such code.

A `Contract` is a rely-guarantee condition on such code: the relation bounds what
the code itself does between two cuts; at each invocation some predicate that the
contract lists holds, and the code goes on from every state that satisfies it. -/
set_option autoImplicit false

namespace AsioKcp.Callback

inductive Prog (σ α : Type) : Type where
  | ret (s : σ) (a : α)
  | throw (s : σ)
  | invoke (s : σ) (back unwound : σ → Prog σ α)
  | ask (s : σ) (back : Bool → Prog σ α)

/-- Code as a function of the state it is begun in. -/
def Comp (σ α : Type) : Type := σ → Prog σ α

variable {σ τ α β : Type}

def Prog.bind : Prog σ α → (α → Comp σ β) → Prog σ β
  | .ret s a, f => f a s
  | .throw s, _ => .throw s
  | .invoke s back unwound, f =>
      .invoke s (fun t => (back t).bind f) (fun t => (unwound t).bind f)
  | .ask s back, f => .ask s (fun b => (back b).bind f)

/-- An exception that leaves the program, also out of invoked code, goes to `f`. -/
def Prog.tryCatch : Prog σ α → Comp σ α → Prog σ α
  | .ret s a, _ => .ret s a
  | .throw s, f => f s
  | .invoke s back unwound, f =>
      .invoke s (fun t => (back t).tryCatch f) (fun t => (unwound t).tryCatch f)
  | .ask s back, f => .ask s (fun b => (back b).tryCatch f)

/-- The state in which the program first gives control away. -/
def Prog.state : Prog σ α → σ
  | .ret s _ => s
  | .throw s => s
  | .invoke s _ _ => s
  | .ask s _ => s

instance : Monad (Comp σ) where
  pure a := fun s => .ret s a
  bind m f := fun s => (m s).bind f

namespace Comp

def get : Comp σ σ := fun s => .ret s s

def modify (f : σ → σ) : Comp σ Unit := fun s => .ret (f s) ()

def throw : Comp σ α := fun s => .throw s

/-- Hands control to unknown code; an exception it lets pass goes on outwards. -/
def invoke : Comp σ Unit := fun s => .invoke s (fun t => .ret t ()) (fun t => .throw t)

def ask : Comp σ Bool := fun s => .ask s (fun b => .ret s b)

def tryCatch (m handler : Comp σ α) : Comp σ α := fun s => (m s).tryCatch handler

@[simp] theorem pure_apply (a : α) (s : σ) : (pure a : Comp σ α) s = .ret s a := rfl

@[simp] theorem bind_apply (m : Comp σ α) (f : α → Comp σ β) (s : σ) :
    (m >>= f) s = (m s).bind f := rfl

@[simp] theorem get_apply (s : σ) : (get : Comp σ σ) s = .ret s s := rfl

@[simp] theorem modify_apply (f : σ → σ) (s : σ) : modify f s = .ret (f s) () := rfl

@[simp] theorem throw_apply (s : σ) : (throw : Comp σ α) s = .throw s := rfl

@[simp] theorem invoke_apply (s : σ) :
    (invoke : Comp σ Unit) s = .invoke s (fun t => .ret t ()) (fun t => .throw t) := rfl

@[simp] theorem ask_apply (s : σ) : (ask : Comp σ Bool) s = .ask s (fun b => .ret s b) := rfl

@[simp] theorem tryCatch_apply (m handler : Comp σ α) (s : σ) :
    tryCatch m handler s = (m s).tryCatch handler := rfl

@[simp] theorem ite_apply (c : Prop) [Decidable c] (m m' : Comp σ α) (s : σ) :
    (if c then m else m' : Comp σ α) s = if c then m s else m' s := by
  split <;> rfl

end Comp

@[simp] theorem Prog.bind_ret (s : σ) (a : α) (f : α → Comp σ β) :
    (Prog.ret s a).bind f = f a s := rfl

@[simp] theorem Prog.bind_throw (s : σ) (f : α → Comp σ β) :
    (Prog.throw s : Prog σ α).bind f = .throw s := rfl

@[simp] theorem Prog.bind_invoke (s : σ) (back unwound : σ → Prog σ α)
    (f : α → Comp σ β) :
    (Prog.invoke s back unwound).bind f =
      .invoke s (fun t => (back t).bind f) (fun t => (unwound t).bind f) := rfl

@[simp] theorem Prog.bind_ask (s : σ) (back : Bool → Prog σ α) (f : α → Comp σ β) :
    (Prog.ask s back).bind f = .ask s (fun b => (back b).bind f) := rfl

theorem Prog.bind_pure (p : Prog σ Unit) : (p.bind fun _ => (pure () : Comp σ Unit)) = p := by
  induction p with
  | ret s a => rfl
  | throw s => rfl
  | invoke s back unwound ihBack ihUnwound => simp only [Prog.bind, ihBack, ihUnwound]
  | ask s back ih => simp only [Prog.bind, ih]

theorem Prog.bind_assoc {γ : Type} (p : Prog σ α) (f : α → Comp σ β) (g : β → Comp σ γ) :
    (p.bind f).bind g = p.bind fun a s => (f a s).bind g := by
  induction p with
  | ret s a => rfl
  | throw s => rfl
  | invoke s back unwound ihBack ihUnwound => simp only [Prog.bind, ihBack, ihUnwound]
  | ask s back ih => simp only [Prog.bind, ih]

theorem Prog.state_bind {f : α → Comp σ β} (still : ∀ a s, (f a s).state = s) (p : Prog σ α) :
    (p.bind f).state = p.state := by
  cases p with
  | ret s a => exact still a s
  | _ => rfl

/-! ## Running a program on a component of a larger state -/

structure Lens (σ τ : Type) where
  get : σ → τ
  put : σ → τ → σ
  get_put : ∀ s t, get (put s t) = t
  put_put : ∀ s t u, put (put s t) u = put s u
  put_get : ∀ s, put s (get s) = s

def Prog.zoom (L : Lens σ τ) : σ → Prog τ α → Prog σ α
  | s, .ret t a => .ret (L.put s t) a
  | s, .throw t => .throw (L.put s t)
  | s, .invoke t back unwound =>
      .invoke (L.put s t) (fun s => zoom L s (back (L.get s)))
        (fun s => zoom L s (unwound (L.get s)))
  | s, .ask t back => .ask (L.put s t) (fun b => zoom L s (back b))

def Comp.zoom (L : Lens σ τ) (m : Comp τ α) : Comp σ α := fun s => Prog.zoom L s (m (L.get s))

@[simp] theorem Comp.zoom_apply (L : Lens σ τ) (m : Comp τ α) (s : σ) :
    Comp.zoom L m s = Prog.zoom L s (m (L.get s)) := rfl

/-! ## Contracts -/

/-- What code and the unknown code around it owe each other.  `passes` says in
which states invoked code may let an exception pass, and `answers` which
outcomes an action asked for in a state may have. -/
structure Contract (σ : Type) where
  relies : (σ → Prop) → Prop
  passes : σ → Prop
  answers : σ → Bool → Prop
  guarantee : σ → σ → Prop
  refl : ∀ s, guarantee s s
  trans : ∀ {a b c}, guarantee a b → guarantee b c → guarantee a c

/-- The program, begun in `start`, keeps the contract, returns in `Q` and
throws in `E`. -/
def Prog.Meets (C : Contract σ) (Q : α → σ → Prop) (E : σ → Prop) : σ → Prog σ α → Prop
  | start, .ret s a => C.guarantee start s ∧ Q a s
  | start, .throw s => C.guarantee start s ∧ E s
  | start, .invoke s back unwound => C.guarantee start s ∧ ∃ P, C.relies P ∧ P s ∧ ∀ t, P t →
      (back t).Meets C Q E t ∧ (C.passes t → (unwound t).Meets C Q E t)
  | start, .ask s back => C.guarantee start s ∧ ∀ b, C.answers s b → (back b).Meets C Q E s

section Meets
variable {C : Contract σ} {E : σ → Prop}

theorem meets_from {Q : α → σ → Prop} {start mid : σ} (first : C.guarantee start mid)
    {p : Prog σ α} (rest : p.Meets C Q E mid) : p.Meets C Q E start := by
  cases p with
  | ret s a => exact ⟨C.trans first rest.1, rest.2⟩
  | throw s => exact ⟨C.trans first rest.1, rest.2⟩
  | invoke s back unwound => exact ⟨C.trans first rest.1, rest.2⟩
  | ask s back => exact ⟨C.trans first rest.1, rest.2⟩

theorem meets_mono {Q Q' : α → σ → Prop} {E' : σ → Prop} (weaker : ∀ a s, Q a s → Q' a s)
    (weakerE : ∀ s, E s → E' s) {p : Prog σ α} :
    ∀ {start : σ}, p.Meets C Q E start → p.Meets C Q' E' start := by
  induction p with
  | ret s a => intro start meets; exact ⟨meets.1, weaker _ _ meets.2⟩
  | throw s => intro start meets; exact ⟨meets.1, weakerE _ meets.2⟩
  | invoke s back unwound ihBack ihUnwound =>
      intro start meets
      obtain ⟨first, P, member, holds, rest⟩ := meets
      exact ⟨first, P, member, holds, fun t ht =>
        ⟨ihBack t (rest t ht).1, fun pass => ihUnwound t ((rest t ht).2 pass)⟩⟩
  | ask s back ih => intro start meets; exact ⟨meets.1, fun b hb => ih b (meets.2 b hb)⟩

theorem meets_bind {Q : β → σ → Prop} (f : α → Comp σ β) {p : Prog σ α} :
    ∀ {start : σ}, p.Meets C (fun a s => (f a s).Meets C Q E s) E start →
      (p.bind f).Meets C Q E start := by
  induction p with
  | ret s a => intro start meets; exact meets_from meets.1 meets.2
  | throw s => intro start meets; exact meets
  | invoke s back unwound ihBack ihUnwound =>
      intro start meets
      obtain ⟨first, P, member, holds, rest⟩ := meets
      exact ⟨first, P, member, holds, fun t ht =>
        ⟨ihBack t (rest t ht).1, fun pass => ihUnwound t ((rest t ht).2 pass)⟩⟩
  | ask s back ih => intro start meets; exact ⟨meets.1, fun b hb => ih b (meets.2 b hb)⟩

theorem meets_tryCatch {Q : α → σ → Prop} (f : Comp σ α) {p : Prog σ α} :
    ∀ {start : σ}, p.Meets C Q (fun s => (f s).Meets C Q E s) start →
      (p.tryCatch f).Meets C Q E start := by
  induction p with
  | ret s a => intro start meets; exact meets
  | throw s => intro start meets; exact meets_from meets.1 meets.2
  | invoke s back unwound ihBack ihUnwound =>
      intro start meets
      obtain ⟨first, P, member, holds, rest⟩ := meets
      exact ⟨first, P, member, holds, fun t ht =>
        ⟨ihBack t (rest t ht).1, fun pass => ihUnwound t ((rest t ht).2 pass)⟩⟩
  | ask s back ih => intro start meets; exact ⟨meets.1, fun b hb => ih b (meets.2 b hb)⟩

/-- How a contract on a component becomes one on the whole, beside a predicate
`frame` that the code of the component keeps. -/
structure Lifts (L : Lens σ τ) (D : Contract τ) (C : Contract σ) (frame : σ → Prop) : Prop where
  stable : ∀ s t, frame s → D.guarantee (L.get s) t → frame (L.put s t)
  relies : ∀ P, D.relies P → C.relies (fun s => P (L.get s) ∧ frame s)
  passes : ∀ s, frame s → C.passes s → D.passes (L.get s)
  answers : ∀ s b, frame s → C.answers s b → D.answers (L.get s) b
  guarantee : ∀ s t, frame s → D.guarantee (L.get s) t → C.guarantee s (L.put s t)

/-- The frame rule. -/
theorem meets_zoom {L : Lens σ τ} {D : Contract τ} {frame : σ → Prop} (lifts : Lifts L D C frame)
    {Q : α → τ → Prop} {E : τ → Prop} {p : Prog τ α} :
    ∀ {s : σ} {start : τ}, frame (L.put s start) → p.Meets D Q E start →
      (p.zoom L s).Meets C (fun a s => Q a (L.get s) ∧ frame s)
        (fun s => E (L.get s) ∧ frame s) (L.put s start) := by
  have moved : ∀ s start t, frame (L.put s start) → D.guarantee start t →
      C.guarantee (L.put s start) (L.put s t) ∧ frame (L.put s t) := by
    intro s start t framed step
    have guar := lifts.guarantee (L.put s start) t framed
    have stable := lifts.stable (L.put s start) t framed
    rw [L.get_put, L.put_put] at guar stable
    exact ⟨guar step, stable step⟩
  induction p with
  | ret t a =>
      intro s start framed meets
      obtain ⟨guar, framed'⟩ := moved s start t framed meets.1
      refine ⟨guar, ?_, framed'⟩
      rw [L.get_put]
      exact meets.2
  | throw t =>
      intro s start framed meets
      obtain ⟨guar, framed'⟩ := moved s start t framed meets.1
      refine ⟨guar, ?_, framed'⟩
      rw [L.get_put]
      exact meets.2
  | invoke t back unwound ihBack ihUnwound =>
      intro s start framed meets
      obtain ⟨first, P, member, holds, rest⟩ := meets
      obtain ⟨guar, framed'⟩ := moved s start t framed first
      refine ⟨guar, _, lifts.relies P member, ⟨?_, framed'⟩, fun u hu => ?_⟩
      · rw [L.get_put]
        exact holds
      · obtain ⟨restBack, restUnwound⟩ := rest (L.get u) hu.1
        have here : frame (L.put u (L.get u)) := by
          rw [L.put_get]
          exact hu.2
        have back := ihBack (L.get u) here restBack
        rw [L.put_get] at back
        refine ⟨back, fun pass => ?_⟩
        have unwound := ihUnwound (L.get u) here (restUnwound (lifts.passes u hu.2 pass))
        rwa [L.put_get] at unwound
  | ask t back ih =>
      intro s start framed meets
      obtain ⟨guar, framed'⟩ := moved s start t framed meets.1
      refine ⟨guar, fun b hb => ?_⟩
      have answered := lifts.answers (L.put s t) b framed' hb
      rw [L.get_put] at answered
      exact ih b framed' (meets.2 b answered)

end Meets

end AsioKcp.Callback
