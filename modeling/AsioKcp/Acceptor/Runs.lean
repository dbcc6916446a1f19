import AsioKcp.Acceptor.Services

/-! # Runs of the acceptor -/
set_option autoImplicit false

namespace AsioKcp

open AsioKcp.Ikcp AsioKcp.Callback AsioKcp.Machine

section Runs
variable {T : Terms} {guarded : Prop} {I J : Acceptor → Prop}

theorem relies_sound (kept : Kept T J) (within : ∀ a, J a → I a) (serving : Bool) :
    (T.accepting guarded I).relies fun a => a.Sound T J ∧ a.serving = serving := by
  refine ⟨fun _ => .settled, fun a => J a ∧ a.Registry, serving, kept.and registry_kept,
    fun a h => within a h.1, fun a => ?_⟩
  constructor
  · rintro ⟨sound, serves⟩
    exact ⟨sound.settled, ⟨sound.holds, sound.registry⟩, serves⟩
  · rintro ⟨settled, ⟨holds, registry⟩, serves⟩
    exact ⟨⟨settled, registry, holds⟩, serves⟩

theorem runAcceptorPosted_meets (kept : Kept T J) (within : ∀ a, J a → I a) (i : Nat)
    {a : Acceptor} (sound : a.Sound T J) (outside : a.serving = false) (begun : Acceptor) :
    (runAcceptorPosted i a).Meets (T.accepting guarded I)
      (fun _ b => b.Sound T J ∧ b.serving = false) (fun b => b.Sound T J ∧ b.serving = false)
      begun := by
  have queued : ∀ (b : Acceptor) (env : Env), b.Sound T J → b.env.Grows env →
      env.sent = b.env.sent → Acceptor.Sound T J { b with env := env } := by
    intro b env sound grows sent
    exact ⟨fun c => phase_env (sound.settled c),
      ⟨sound.registry.unique, sound.registry.made, sound.registry.own⟩,
      kept.queue grows sent sound.holds⟩
  simp only [runAcceptorPosted, Comp.bind_apply, Comp.get_apply, Prog.bind_ret]
  cases found : a.env.posted[i]? with
  | none => exact ⟨fun _ => within _ sound.holds, sound, outside⟩
  | some task =>
      have taken := queued a { a.env with posted := a.env.posted.eraseIdx i } sound
        ⟨List.prefix_refl _, List.prefix_refl _, le_refl _, le_refl _⟩ rfl
      cases task with
      | completion c =>
          have recorded := queued _ { a.env with
              posted := a.env.posted.eraseIdx i, invoked := a.env.invoked ++ [c] } taken
            ⟨List.prefix_refl _, List.prefix_append _ _, le_refl _, le_refl _⟩ rfl
          exact ⟨fun _ => within _ recorded.holds, _, relies_sound kept within false,
            ⟨recorded, outside⟩, fun b hb => ⟨⟨id, hb⟩, fun _ => ⟨id, hb⟩⟩⟩
      | checkReadOp c =>
          have polled := settled_connection (I := I) guarded kept within taken.settled
            rfl taken.registry (by rw [(Acceptor.view c).put_get]; exact taken.holds)
            (fun _ _ h => h) (fun _ h => h.1) (checkReadOp_settled (taken.settled c)) begun
          exact meets_mono (fun _ b h => ⟨h.1, h.2.2.1.trans outside⟩)
            (fun b h => ⟨h.1, h.2.2.1.trans outside⟩) polled

/-- A call of the user keeps what the acceptor relies on. -/
theorem runAcceptorCall_meets (k : AcceptorCall) {a : Acceptor} {P : Acceptor → Prop}
    (allowed : ∀ c call, k = .connection c call → T.calls call ((Acceptor.view c).get a))
    (member : (T.accepting guarded I).relies P) (holds : P a) (begun : Acceptor) :
    (runAcceptorCall k a).Meets (T.accepting guarded I) (fun _ => P) P begun := by
  obtain ⟨phases, J, serving, kept, within, shape⟩ := member
  obtain ⟨phased, j, serves⟩ := (shape a).mp holds
  have inside : ∀ b, P b → I b := fun b hb => within b ((shape b).mp hb).2.1
  cases k with
  | asyncAccept =>
      have pushed : P a.push := (shape _).mpr
        ⟨fun c => phase_env (phased c), kept.push j, serves⟩
      exact ⟨fun _ => inside _ pushed, pushed⟩
  | connection c call =>
      simp only [runAcceptorCall, Comp.bind_apply, Comp.get_apply, Prog.bind_ret, Comp.ite_apply,
        Comp.pure_apply]
      split
      · have ran := onConnection_meets (I := I) (m := runCall call) (c := c)
          (a := a.serve false) guarded phases kept within (fun d _ => phased d)
          (by rw [(Acceptor.view c).put_get]; exact kept.serve false j)
          (runCall_phase (phases c) call (allowed c call rfl) (phased c)) begun
        have back : ∀ b : Acceptor, (phases c).Holds T ((Acceptor.view c).get b) ∧
            (∀ d, d ≠ c → (phases d).Holds T ((Acceptor.view d).get b)) ∧ J b ∧
              b.serving = (a.serve false).serving → P (b.serve a.serving) := by
          rintro b ⟨here, others, jb, _⟩
          refine (shape _).mpr ⟨fun d => ?_, kept.serve _ jb, serves⟩
          by_cases same : d = c
          · subst same
            exact here
          · exact others d same
        simp only [asUser, Comp.bind_apply, Comp.get_apply, Prog.bind_ret, Comp.modify_apply]
        refine meets_bind _ (meets_tryCatch _ (meets_mono ?_ ?_ ran))
        · exact fun _ b h => ⟨fun _ => inside _ (back b h), back b h⟩
        · exact fun b h => ⟨fun _ => inside _ (back b h), back b h⟩
      · exact ⟨fun _ => inside _ holds, holds⟩

/-- The step respects the contract. -/
structure Terms.Serves (T : Terms) (guarded : Prop) (c : Config Acceptor)
    (label : Label AcceptorEvent AcceptorCall) : Prop where
  passes : label = .unwind → ¬ T.strict ∧ ¬ (guarded ∧ c.state.serving = true)
  answers : ∀ b, label = .answer b → T.reliable ∨ (guarded ∧ c.state.serving = true) → b = true
  calls : ∀ i k, label = .call (.connection i k) → T.calls k ((Acceptor.view i).get c.state)

/-- Between events the acceptor is sound. -/
def Acceptor.Bottom (T : Terms) (J : Acceptor → Prop) (a : Acceptor) : Prop :=
  a.Sound T J ∧ a.serving = false

/-- What every event keeps, every run keeps. -/
theorem acceptor_run (kept : Kept T J) (within : ∀ a, J a → I a)
    {ok : Config Acceptor → Label AcceptorEvent AcceptorCall → Prop}
    (allows : ∀ c label, ok c label → T.Serves guarded c label)
    (events : ∀ c e, ok c (.event e) → c.state.Bottom T J →
      (runAcceptorEvent e c.state).Meets (T.accepting guarded I) (fun _ => Acceptor.Bottom T J)
        (Acceptor.Bottom T J) c.state)
    {c d : Config Acceptor} (inv : c.Meets (T.accepting guarded I) (Acceptor.Bottom T J))
    (holds : I c.state) (run : acceptorSystem.Steps ok c d) :
    d.Meets (T.accepting guarded I) (Acceptor.Bottom T J) ∧ I d.state := by
  induction run with
  | refl => exact ⟨inv, holds⟩
  | @tail d e label _ allowed stepped ih =>
      have serves := allows d label allowed
      have step := step_meets acceptorSystem d.state ⟨serves.passes, serves.answers⟩
        ih.1 stepped (fun _ => rfl)
        (fun event isEvent bottom => ⟨relies_sound kept within false,
          events d event (isEvent ▸ allowed) bottom⟩)
        (fun k P isCall member here => runAcceptorCall_meets k
          (fun i call same => serves.calls i call (isCall.trans (congrArg _ same))) member here _)
      exact ⟨step.2, step.1 ih.2⟩

theorem start_settled (T : Terms) (magic : List UInt8) (now : Int)
    (streambufs : Nat → StreamBuf) : (Acceptor.make magic now streambufs).Settled T :=
  fun c => make_settled T c 0 _ true now _

theorem start_meets (kept : Kept T J) (within : ∀ a, J a → I a) {magic : List UInt8} {now : Int}
    {streambufs : Nat → StreamBuf} (holds : J (.make magic now streambufs)) :
    (acceptorStart magic now streambufs).Meets (T.accepting guarded I) (Acceptor.Bottom T J) := by
  refine idle_meets (relies_sound kept within false) ⟨⟨start_settled T _ _ _, ?_, holds⟩, rfl⟩
  exact ⟨List.nodup_nil, fun _ member => absurd member List.not_mem_nil,
    fun _ member => absurd member List.not_mem_nil⟩

end Runs

end AsioKcp
