import AsioKcp.Lib.Machine

/-! # Two runs of one system in related states

Two programs are similar under a relation on their states if they give control
away in the same manner and in related states, and go on similarly from all
related states.  A system whose events and calls respect the relation takes the
same steps from related states: what the relation leaves out is never seen. -/
set_option autoImplicit false

namespace AsioKcp.Callback

variable {σ τ α β : Type}

def Prog.Similar (R : σ → σ → Prop) : Prog σ α → Prog σ α → Prop
  | .ret s a, .ret s' a' => R s s' ∧ a = a'
  | .throw s, .throw s' => R s s'
  | .invoke s back unwound, .invoke s' back' unwound' => R s s' ∧ ∀ t t', R t t' →
      (back t).Similar R (back' t') ∧ (unwound t).Similar R (unwound' t')
  | .ask s back, .ask s' back' => R s s' ∧ ∀ b, (back b).Similar R (back' b)
  | _, _ => False

/-- The code does not see what the relation leaves out. -/
def Comp.Respects (R : σ → σ → Prop) (m : Comp σ α) : Prop :=
  ∀ s s', R s s' → (m s).Similar R (m s')

section Similar
variable {R : σ → σ → Prop}

theorem similar_bind {f f' : α → Comp σ β} (rest : ∀ a s s', R s s' →
    (f a s).Similar R (f' a s')) {p : Prog σ α} :
    ∀ {p' : Prog σ α}, p.Similar R p' → (p.bind f).Similar R (p'.bind f') := by
  induction p with
  | ret s a =>
      intro p' similar
      cases p' with
      | ret s' a' =>
          obtain ⟨related, rfl⟩ := similar
          exact rest a s s' related
      | _ => cases similar
  | throw s =>
      intro p' similar
      cases p' with
      | throw s' => exact similar
      | _ => cases similar
  | invoke s back unwound ihBack ihUnwound =>
      intro p' similar
      cases p' with
      | invoke s' back' unwound' =>
          exact ⟨similar.1, fun t t' related =>
            ⟨ihBack t (similar.2 t t' related).1, ihUnwound t (similar.2 t t' related).2⟩⟩
      | _ => cases similar
  | ask s back ih =>
      intro p' similar
      cases p' with
      | ask s' back' => exact ⟨similar.1, fun b => ih b (similar.2 b)⟩
      | _ => cases similar

theorem similar_tryCatch {f f' : Comp σ α} (handled : ∀ s s', R s s' → (f s).Similar R (f' s'))
    {p : Prog σ α} :
    ∀ {p' : Prog σ α}, p.Similar R p' → (p.tryCatch f).Similar R (p'.tryCatch f') := by
  induction p with
  | ret s a =>
      intro p' similar
      cases p' with
      | ret s' a' => exact similar
      | _ => cases similar
  | throw s =>
      intro p' similar
      cases p' with
      | throw s' => exact handled s s' similar
      | _ => cases similar
  | invoke s back unwound ihBack ihUnwound =>
      intro p' similar
      cases p' with
      | invoke s' back' unwound' =>
          exact ⟨similar.1, fun t t' related =>
            ⟨ihBack t (similar.2 t t' related).1, ihUnwound t (similar.2 t t' related).2⟩⟩
      | _ => cases similar
  | ask s back ih =>
      intro p' similar
      cases p' with
      | ask s' back' => exact ⟨similar.1, fun b => ih b (similar.2 b)⟩
      | _ => cases similar

/-- The relation leaves out nothing of a component. -/
structure Lens.Sees (L : Lens σ τ) (R : σ → σ → Prop) : Prop where
  get : ∀ {s s'}, R s s' → L.get s = L.get s'
  put : ∀ {s s'} t, R s s' → R (L.put s t) (L.put s' t)

theorem similar_zoom {L : Lens σ τ} (sees : L.Sees R) (p : Prog τ α) :
    ∀ {s s' : σ}, R s s' → (p.zoom L s).Similar R (p.zoom L s') := by
  induction p with
  | ret t a => exact fun related => ⟨sees.put t related, rfl⟩
  | throw t => exact fun related => sees.put t related
  | invoke t back unwound ihBack ihUnwound =>
      intro s s' related
      refine ⟨sees.put t related, fun u u' later => ?_⟩
      dsimp only
      rw [sees.get later]
      exact ⟨ihBack _ later, ihUnwound _ later⟩
  | ask t back ih =>
      intro s s' related
      exact ⟨sees.put t related, fun b => ih b related⟩

theorem respects_zoom {L : Lens σ τ} (sees : L.Sees R) (m : Comp τ α) :
    (Comp.zoom L m).Respects R := by
  intro s s' related
  rw [Comp.zoom_apply, Comp.zoom_apply, sees.get related]
  exact similar_zoom sees _ related

theorem respects_pure (a : α) : (pure a : Comp σ α).Respects R := fun _ _ related => ⟨related, rfl⟩

theorem respects_invoke : (Comp.invoke : Comp σ Unit).Respects R :=
  fun _ _ related => ⟨related, fun _ _ later => ⟨⟨later, rfl⟩, later⟩⟩

theorem respects_modify {f : σ → σ} (kept : ∀ s s', R s s' → R (f s) (f s')) :
    (Comp.modify f).Respects R := fun s s' related => ⟨kept s s' related, rfl⟩

theorem respects_bind {m : Comp σ α} {f : α → Comp σ β} (first : m.Respects R)
    (rest : ∀ a, (f a).Respects R) : (m >>= f).Respects R :=
  fun s s' related => similar_bind (fun a => rest a) (first s s' related)

/-- The code goes on from the state in a way that does not depend on what is left out. -/
theorem respects_read {f : σ → Comp σ β} (blind : ∀ s s', R s s' → f s = f s')
    (rest : ∀ s, (f s).Respects R) : (Comp.get >>= f).Respects R := by
  intro s s' related
  simp only [Comp.bind_apply, Comp.get_apply, Prog.bind_ret]
  rw [← blind s s' related]
  exact rest s s s' related

theorem respects_tryCatch {m handler : Comp σ α} (first : m.Respects R)
    (handled : handler.Respects R) : (Comp.tryCatch m handler).Respects R :=
  fun s s' related => similar_tryCatch handled (first s s' related)

end Similar

end AsioKcp.Callback

namespace AsioKcp.Machine

open AsioKcp.Callback

variable {σ ε κ : Type} {R : σ → σ → Prop}

def Frame.Similar (R : σ → σ → Prop) (f f' : Frame σ) : Prop :=
  ∀ s s', R s s' → (f.back s).Similar R (f'.back s') ∧ (f.unwound s).Similar R (f'.unwound s')

def Control.Similar (R : σ → σ → Prop) : Control σ → Control σ → Prop
  | .run, .run => True
  | .asking back, .asking back' => ∀ b, (back b).Similar R (back' b)
  | .raising, .raising => True
  | _, _ => False

structure Config.Similar (R : σ → σ → Prop) (c c' : Config σ) : Prop where
  state : R c.state c'.state
  control : c.control.Similar R c'.control
  stack : List.Forall₂ (Frame.Similar R) c.stack c'.stack

theorem idle_similar {s s' : σ} (related : R s s') :
    (Config.idle s).Similar R (Config.idle s') :=
  ⟨related, trivial, .nil⟩

theorem Config.Similar.idle_iff {c c' : Config σ} (similar : c.Similar R c') :
    c.Idle ↔ c'.Idle := by
  obtain ⟨s, control, stack⟩ := c
  obtain ⟨s', control', stack'⟩ := c'
  obtain ⟨_, controls, frames⟩ := similar
  unfold Config.Idle
  cases control <;> cases control' <;> cases frames <;> simp_all [Control.Similar]

theorem enter_similar {stack stack' : List (Frame σ)}
    (frames : List.Forall₂ (Frame.Similar R) stack stack') {p p' : Prog σ Unit}
    (similar : p.Similar R p') : (Config.enter stack p).Similar R (Config.enter stack' p') := by
  cases p with
  | ret s a =>
      cases p' with
      | ret s' a' => exact ⟨similar.1, trivial, frames⟩
      | _ => cases similar
  | throw s =>
      cases p' with
      | throw s' => exact ⟨similar, trivial, frames⟩
      | _ => cases similar
  | invoke s back unwound =>
      cases p' with
      | invoke s' back' unwound' => exact ⟨similar.1, trivial, .cons similar.2 frames⟩
      | _ => cases similar
  | ask s back =>
      cases p' with
      | ask s' back' => exact ⟨similar.1, similar.2, frames⟩
      | _ => cases similar

/-- What the events and the calls respect, every step respects. -/
theorem step_similar {S : System σ ε κ} (events : ∀ e, (S.event e).Respects R)
    (calls : ∀ k, (S.call k).Respects R) {c c' d : Config σ} {label : Label ε κ}
    (similar : c.Similar R c') (stepped : S.step c label = some d) :
    ∃ d', S.step c' label = some d' ∧ d.Similar R d' := by
  obtain ⟨s', control', stack'⟩ := c'
  obtain ⟨related, controls, frames⟩ := similar
  rcases step_cases S stepped with ⟨e, rfl, empty, running, rfl⟩ | ⟨k, rfl, running, rfl⟩ |
      ⟨frame, below, rfl, running, shape, rfl⟩ | ⟨b, back, rfl, asking, rfl⟩ |
      ⟨rfl, running, rfl⟩ | ⟨rfl, raising, rfl⟩ | ⟨frame, below, rfl, raising, shape, rfl⟩
  · rw [running] at controls
    rw [empty] at frames
    cases control' with
    | run =>
        cases frames
        exact ⟨_, rfl, enter_similar .nil (events e _ _ related)⟩
    | _ => cases controls
  · rw [running] at controls
    cases control' with
    | run => exact ⟨_, rfl, enter_similar frames (calls k _ _ related)⟩
    | _ => cases controls
  · rw [running] at controls
    rw [shape] at frames
    cases control' with
    | run =>
        cases frames with
        | cons first rest => exact ⟨_, rfl, enter_similar rest (first _ _ related).1⟩
    | _ => cases controls
  · rw [asking] at controls
    cases control' with
    | asking back' => exact ⟨_, rfl, enter_similar frames (controls b)⟩
    | _ => cases controls
  · rw [running] at controls
    cases control' with
    | run => exact ⟨_, rfl, related, trivial, frames⟩
    | _ => cases controls
  · rw [raising] at controls
    cases control' with
    | raising => exact ⟨_, rfl, related, trivial, frames⟩
    | _ => cases controls
  · rw [raising] at controls
    rw [shape] at frames
    cases control' with
    | raising =>
        cases frames with
        | cons first rest => exact ⟨_, rfl, enter_similar rest (first _ _ related).2⟩
    | _ => cases controls

/-- The runs from similar configurations are the same, label by label. -/
theorem run_similar {S : System σ ε κ} (events : ∀ e, (S.event e).Respects R)
    (calls : ∀ k, (S.call k).Respects R) (labels : List (Label ε κ)) {c c' d : Config σ}
    (similar : c.Similar R c') (ran : S.run c labels = some d) :
    ∃ d', S.run c' labels = some d' ∧ d.Similar R d' := by
  induction labels generalizing c c' with
  | nil =>
      cases ran
      exact ⟨c', rfl, similar⟩
  | cons label rest ih =>
      simp only [System.run] at ran
      obtain ⟨next, stepped, continued⟩ := Option.bind_eq_some_iff.mp ran
      obtain ⟨next', stepped', later⟩ := step_similar events calls similar stepped
      obtain ⟨d', ran', ended⟩ := ih later continued
      refine ⟨d', ?_, ended⟩
      simp only [System.run]
      exact Option.bind_eq_some_iff.mpr ⟨next', stepped', ran'⟩

end AsioKcp.Machine
