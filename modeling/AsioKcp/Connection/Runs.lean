import AsioKcp.Connection.Contract

/-! # Runs of one connection

A step of a run is the entry of an event, if it starts one, followed by acts.
So what entries and acts keep, every run keeps. -/
set_option autoImplicit false

namespace AsioKcp

open AsioKcp.Ikcp AsioKcp.Callback AsioKcp.Machine

/-- The step respects the terms. -/
structure Terms.Allows (T : Terms) (c : Config Local) (label : Label Event Call) : Prop where
  passes : label = .unwind → ¬ T.strict
  answers : ∀ b, label = .answer b → T.reliable → b = true
  calls : ∀ k, label = .call k → T.calls k c.state

/-- The terms that assume nothing. -/
def Terms.any : Terms := ⟨False, False, fun _ _ => True, False.elim⟩

theorem Terms.any_allows (c : Config Local) (label : Label Event Call) : Terms.any.Allows c label :=
  ⟨fun _ => id, fun _ _ => False.elim, fun _ _ => trivial⟩

/-- The state in which the code of a step begins. -/
def begun : Label Event Call → Local → Local
  | .event e, l => entry e l
  | _, l => l

def Keeps (T : Terms) (c : Config Local) : Prop :=
  c.Meets (T.contract False) (Phase.settled.Holds T)

theorem keeps_step {T : Terms} {c c' : Config Local} {label : Label Event Call}
    (keeps : Keeps T c) (allows : T.Allows c label)
    (stepped : connectionSystem.step c label = some c') :
    Acts T (begun label c.state) c'.state ∧ Keeps T c' := by
  refine step_meets connectionSystem (begun label c.state) ?_ keeps stepped ?_ ?_ ?_
  · exact ⟨fun unwinds => ⟨allows.passes unwinds, id⟩,
      fun b answer must => allows.answers b answer (must.resolve_right id)⟩
  · intro other
    cases label with
    | event e => exact absurd rfl (other e)
    | _ => rfl
  · rintro e rfl settled
    exact ⟨relies_phase .settled, runEvent_meets e settled⟩
  · rintro k P rfl member holds
    exact runCall_meets k (allows.calls k rfl) member holds

theorem acts_invariant {T : Terms} {J : Local → Prop} (act : ∀ {l l'}, Act T l l' → J l → J l')
    {l l' : Local} (acts : Acts T l l') (holds : J l) : J l' := by
  induction acts with
  | refl => exact holds
  | tail _ step ih => exact act step ih

/-- The induction over a run. -/
theorem run_invariant {T : Terms} {ok : Config Local → Label Event Call → Prop}
    (allows : ∀ c label, ok c label → T.Allows c label) {J : Local → Prop}
    (entered : ∀ c e, ok c (.event e) → J c.state → J (entry e c.state))
    (act : ∀ {l l'}, Act T l l' → J l → J l')
    {c d : Config Local} (keeps : Keeps T c) (holds : J c.state)
    (run : connectionSystem.Steps ok c d) : Keeps T d ∧ J d.state := by
  induction run with
  | refl => exact ⟨keeps, holds⟩
  | @tail d e label _ allowed stepped ih =>
      obtain ⟨acts, keeps'⟩ := keeps_step ih.1 (allows d label allowed) stepped
      refine ⟨keeps', acts_invariant act acts ?_⟩
      cases label with
      | event event => exact entered d event allowed ih.2
      | _ => exact ih.2

/-- A connection as `handshark` or `async_connect` makes it. -/
inductive Started (conv : UInt32) : Config Local → Prop
  | server (endpoint : Endpoint) (now : Int) (streambufs : Nat → StreamBuf) :
      Started conv (serverStart conv endpoint now streambufs)
  | client (endpoint : Endpoint) (now : Int) (streambufs : Nat → StreamBuf) :
      Started conv (clientStart conv endpoint now streambufs)

/-- A client connection after `run_client`. -/
def clientLocal (conv : UInt32) (endpoint : Endpoint) (now : Int)
    (streambufs : Nat → StreamBuf) : Local where
  conn := { Connection.make 0 conv endpoint false now with
    state := .opened, receiving := true, receivesArmed := 1, timerWaiting := true, timersArmed := 1 }
  env := .empty streambufs

theorem clientStart_eq (conv : UInt32) (endpoint : Endpoint) (now : Int)
    (streambufs : Nat → StreamBuf) :
    clientStart conv endpoint now streambufs = .idle (clientLocal conv endpoint now streambufs) :=
  rfl

/-- The two kinds of connection at their start. -/
theorem Started.cases {conv : UInt32} {c : Config Local} (started : Started conv c) :
    ∃ l : Local, c = .idle l ∧
      ((∃ endpoint now streambufs, l =
          ⟨.make 0 conv endpoint true now, .empty streambufs⟩) ∨
        ∃ endpoint now streambufs, l = clientLocal conv endpoint now streambufs) := by
  cases started with
  | server endpoint now streambufs =>
      exact ⟨_, rfl, Or.inl ⟨endpoint, now, streambufs, rfl⟩⟩
  | client endpoint now streambufs =>
      exact ⟨_, clientStart_eq .., Or.inr ⟨endpoint, now, streambufs, rfl⟩⟩

theorem Started.keeps {conv : UInt32} {c : Config Local} (started : Started conv c) (T : Terms) :
    Keeps T c := by
  obtain ⟨l, rfl, shape⟩ := started.cases
  refine idle_meets (relies_phase .settled) ?_
  rcases shape with ⟨_, _, _, rfl⟩ | ⟨_, _, _, rfl⟩ <;>
    exact ⟨by simp [Connection.make, clientLocal], fun _ _ => ⟨rfl, rfl⟩, fun _ _ closed => by
      simp [Local.closed, Connection.make, clientLocal] at closed⟩

/-! ## Inputs for runs on fixed labels -/

def loopback : Endpoint := ⟨.v4 2130706433, 4000⟩

def neighbour : Endpoint := ⟨.v4 2130706433, 4001⟩

def noStreambufs : Nat → StreamBuf := fun _ => ⟨[], 0⟩

def keepalive : List UInt8 := opcodeKeepalive :: List.replicate 23 0

end AsioKcp
