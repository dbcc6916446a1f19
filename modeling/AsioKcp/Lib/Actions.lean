import AsioKcp.Lib.Machine

/-! # Code by the actions it takes

Code takes only the actions `G` if it does so between any two points where it
gives control away, whatever state the unknown code comes back in.  Nothing is
asked of the unknown code: what a run adds to the actions is up to its calls. -/
set_option autoImplicit false

namespace AsioKcp.Callback

open Relation

variable {σ α β : Type}

/-- The contract that relies on nothing. -/
def Contract.taking (G : σ → σ → Prop) : Contract σ where
  relies P := ∀ s, P s
  passes _ := True
  answers _ _ := True
  guarantee := ReflTransGen G
  refl _ := .refl
  trans := ReflTransGen.trans

def Comp.Takes (G : σ → σ → Prop) (m : Comp σ α) : Prop :=
  ∀ s, (m s).Meets (.taking G) (fun _ _ => True) (fun _ => True) s

section Takes
variable {G : σ → σ → Prop}

theorem takes_pure (a : α) : (pure a : Comp σ α).Takes G := fun _ => ⟨.refl, trivial⟩

theorem takes_get : (Comp.get : Comp σ σ).Takes G := fun _ => ⟨.refl, trivial⟩

theorem takes_modify {f : σ → σ} (acts : ∀ s, ReflTransGen G s (f s)) :
    (Comp.modify f).Takes G := fun s => ⟨acts s, trivial⟩

theorem takes_bind {m : Comp σ α} {f : α → Comp σ β} (first : m.Takes G)
    (rest : ∀ a, (f a).Takes G) : (m >>= f).Takes G := fun s =>
  meets_bind f (meets_mono (fun a t _ => rest a t) (fun _ _ => trivial) (first s))

/-- Code that begins by invoking unknown code. -/
theorem invoke_takes {start s : σ} (acts : ReflTransGen G start s) {back : Comp σ α}
    {unwound : Comp σ α} (returns : back.Takes G) (throws : unwound.Takes G) :
    (Prog.invoke s back unwound).Meets (.taking G) (fun _ _ => True) (fun _ => True) start :=
  ⟨acts, fun _ => True, fun _ => trivial, trivial, fun t _ => ⟨returns t, fun _ => throws t⟩⟩

/-- Actions before the code. -/
theorem Comp.Takes.after {m : Comp σ α} (takes : m.Takes G) {start s : σ}
    (acts : ReflTransGen G start s) :
    (m s).Meets (.taking G) (fun _ _ => True) (fun _ => True) start :=
  meets_from acts (takes s)

end Takes

end AsioKcp.Callback

namespace AsioKcp.Machine

open AsioKcp.Callback Relation

variable {σ ε κ : Type} {G : σ → σ → Prop}

/-- Whatever has been called or raised, the code on the stack takes only actions. -/
def Config.Taking (G : σ → σ → Prop) (c : Config σ) : Prop :=
  c.Meets (.taking G) fun _ => True

theorem idle_taking (s : σ) : (Config.idle s).Taking G :=
  idle_meets (fun _ => trivial) trivial

/-- A step that calls nothing takes actions. -/
theorem step_taking {S : System σ ε κ} (events : ∀ e, (S.event e).Takes G) {c c' : Config σ}
    {label : Label ε κ} (taking : c.Taking G) (silent : ∀ k, label ≠ .call k)
    (stepped : S.step c label = some c') : ReflTransGen G c.state c'.state ∧ c'.Taking G :=
  step_meets S c.state ⟨fun _ => trivial, fun _ _ => trivial⟩ taking stepped (fun _ => rfl)
    (fun e _ _ => ⟨fun _ => trivial, events e c.state⟩) fun k _ isCall => absurd isCall (silent k)

/-- A call that takes only actions. -/
theorem call_taking {S : System σ ε κ} {k : κ} (call : (S.call k).Takes G) {c c' : Config σ}
    (taking : c.Taking G) (stepped : S.step c (.call k) = some c') :
    ReflTransGen G c.state c'.state ∧ c'.Taking G := by
  refine step_meets S c.state ⟨fun _ => trivial, fun _ _ => trivial⟩ taking stepped
    (fun _ => rfl) (fun e isEvent => by cases isEvent) ?_
  rintro k' P isCall member -
  cases isCall
  exact meets_mono (fun _ s _ => member s) (fun s _ => member s) (call c.state)

/-- A call that comes back at once, whatever it has done. -/
theorem call_returned {S : System σ ε κ} {k : κ} {c c' : Config σ} {s : σ}
    (taking : c.Taking G) (returns : S.call k c.state = .ret s ())
    (stepped : S.step c (.call k) = some c') : c'.state = s ∧ c'.Taking G := by
  obtain ⟨running, rfl⟩ := step_call stepped
  obtain ⟨P, member, below, _⟩ := taking
  rw [returns]
  exact ⟨rfl, P, member, below, member s⟩

end AsioKcp.Machine
