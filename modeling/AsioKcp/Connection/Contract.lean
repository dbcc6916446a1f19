import AsioKcp.Connection.Events

/-! # The code keeps its contract

Every call and every event of a connection is a sequence of acts, and the code
that waits for a handler relies only on the phase in which it runs it. -/
set_option autoImplicit false

namespace AsioKcp

open AsioKcp.Ikcp AsioKcp.Callback AsioKcp.Machine

/-! ## One poll -/

section Poll
variable {ec : ErrorCode} {op : ReadOperation} {l l' : Local}

/-- A poll of the read operation leaves the control of the connection alone. -/
theorem pollRead_control (ec : ErrorCode) (op : ReadOperation) (l : Local) :
    (pollRead ec op l).2.conn.state = l.conn.state ∧
    (pollRead ec op l).2.conn.disconnectSent = l.conn.disconnectSent ∧
    (pollRead ec op l).2.conn.writeOp = l.conn.writeOp := by
  unfold pollRead
  cases op <;> dsimp only <;> split_ifs <;> exact ⟨rfl, rfl, rfl⟩

/-- The three outcomes of a poll of the read operation. -/
theorem pollRead_cases (ec : ErrorCode) (op : ReadOperation) (l : Local) :
    ((pollRead ec op l).1 = .pending ∧ ec = .success ∧
      (pollRead ec op l).2.conn.readOp = l.conn.readOp) ∨
    ((pollRead ec op l).1 = .refused ∧ ec = .success ∧
      (pollRead ec op l).2.conn.readOp = none ∧
      (pollRead ec op l).2.env.refused = l.env.refused + 1) ∨
    ((pollRead ec op l).1 = .done ∧ (pollRead ec op l).2.conn.readOp = none) := by
  unfold pollRead
  by_cases success : ec = .success
  · subst success
    rw [if_neg (by simp)]
    cases op with
    | readSome handler size =>
        dsimp only
        split_ifs
        · exact Or.inr (Or.inr ⟨rfl, rfl⟩)
        · exact Or.inl ⟨rfl, rfl, rfl⟩
    | read handler buffer need =>
        dsimp only
        split_ifs
        · exact Or.inr (Or.inl ⟨rfl, rfl, rfl, rfl⟩)
        · exact Or.inr (Or.inr ⟨rfl, rfl⟩)
        · exact Or.inl ⟨rfl, rfl, rfl⟩
  · rw [if_pos success]
    exact Or.inr (Or.inr ⟨rfl, rfl⟩)

theorem pollRead_pending (polled : pollRead ec op l = (.pending, l')) :
    ec = .success ∧ l'.conn.readOp = l.conn.readOp := by
  have cases := pollRead_cases ec op l
  simpa [polled] using cases

theorem pollRead_refused (polled : pollRead ec op l = (.refused, l')) :
    ec = .success ∧ l'.conn.readOp = none ∧ l'.env.refused = l.env.refused + 1 := by
  have cases := pollRead_cases ec op l
  simpa [polled] using cases

theorem pollRead_done (polled : pollRead ec op l = (.done, l')) :
    l'.conn.readOp = none := by
  have cases := pollRead_cases ec op l
  simpa [polled] using cases

end Poll

/-! ## The polls inside and outside of `close` -/

section Walk
variable {T : Terms} {firm : Prop}

theorem relies_phase (phase : Phase) : (T.contract firm).relies (phase.Holds T) :=
  ⟨phase, fun _ => True, ⟨fun _ _ => trivial, fun _ _ => trivial⟩, fun _ => by simp⟩

theorem acts_single {l l' : Local} (act : Act T l l') : Acts T l l' :=
  Relation.ReflTransGen.single act

/-- The poll of the write operation: `phase` is relied on while its handler runs. -/
theorem checkWriteOp_meets {ec : ErrorCode} {l : Local} {Q E : Local → Prop} (phase : Phase)
    (closing : ec ≠ .success → l.closed)
    (opened : T.strict → ec = .success → l.conn.writeOp ≠ none → ¬ l.closed)
    (waits : (∀ handler, l.conn.writeOp = some handler → ¬ writeReady ec l) → Q l)
    (runs : ∀ handler, l.conn.writeOp = some handler →
      phase.Holds T (l.takeWrite.record ⟨handler, ec, 0⟩))
    (returns : ∀ t, phase.Holds T t → Q t)
    (throws : ¬ T.strict → ¬ firm → ∀ t, phase.Holds T t → E t) :
    (checkWriteOp ec l).Meets (T.contract firm) (fun _ => Q) E l := by
  cases writeOp : l.conn.writeOp with
  | none =>
      rw [checkWriteOp_none writeOp]
      exact ⟨(T.contract firm).refl l, waits (by simp [writeOp])⟩
  | some handler =>
      by_cases ready : writeReady ec l
      · have act : Act T l (l.takeWrite.record ⟨handler, ec, 0⟩) :=
          .pollWrite ec handler writeOp ready closing
            fun strict success => opened strict success (by simp [writeOp])
        rw [checkWriteOp_ready writeOp ready]
        refine ⟨acts_single act, _, relies_phase phase, runs handler writeOp, fun t ht => ⟨?_, ?_⟩⟩
        · exact ⟨(T.contract firm).refl t, returns t ht⟩
        · intro passes
          exact ⟨(T.contract firm).refl t, throws passes.1 passes.2 t ht⟩
      · rw [checkWriteOp_pending ready]
        refine ⟨(T.contract firm).refl l, waits fun handler' same => ?_⟩
        exact ready

/-- A poll without an error keeps a connection settled. -/
theorem checkReadOp_settled {l : Local} (settled : Phase.settled.Holds T l) :
    (checkReadOp .success l).Meets (T.contract firm) (fun _ => Phase.settled.Holds T)
      (fun t => Phase.settled.Holds T t ∧ (firm → Refuses l)) l := by
  have write : ∀ {E : Local → Prop} {l : Local}, Phase.settled.Holds T l →
      (¬ firm → ∀ t, Phase.settled.Holds T t → E t) →
      (checkWriteOp .success l).Meets (T.contract firm) (fun _ => Phase.settled.Holds T) E l := by
    intro E l settled throws
    refine checkWriteOp_meets .settled (by simp) ?_ (fun _ => settled) ?_
      (fun t ht => ht) (fun _ => throws)
    · intro strict _ pending closed
      exact pending (settled.2.1 strict closed).2
    · intro handler pending
      exact ⟨settled.1, fun strict closed => ⟨(settled.2.1 strict closed).1, rfl⟩, settled.2.2⟩
  have unwound : ¬ firm → ∀ t, Phase.settled.Holds T t →
      Phase.settled.Holds T t ∧ (firm → Refuses l) :=
    fun lax t ht => ⟨ht, fun isFirm => absurd isFirm lax⟩
  cases readOp : l.conn.readOp with
  | none =>
      rw [checkReadOp_none readOp]
      exact write settled unwound
  | some op =>
      have opened : T.strict → ErrorCode.success = .success → ¬ l.closed := by
        intro strict _ closed
        have := (settled.2.1 strict closed).1
        simp [readOp] at this
      have act : Act T l (pollRead .success op l).2 :=
        .pollRead .success op readOp (by simp) opened
      have control := pollRead_control .success op l
      have kept : Phase.settled.Holds T (pollRead .success op l).2 := by
        refine ⟨?_, ?_, ?_⟩
        · rw [control.2.1, Local.closed, control.1]
          exact settled.1
        · rw [Local.closed, control.1]
          intro strict closed
          exact absurd closed (opened strict rfl)
        · rw [control.2.1, Local.closed, control.1]
          exact settled.2.2
      rw [checkReadOp_some readOp]
      rcases polled : pollRead .success op l with ⟨outcome, l'⟩
      rw [polled] at act kept
      cases outcome with
      | pending => exact meets_from (acts_single act) (write kept unwound)
      | refused =>
          exact ⟨acts_single act, kept, fun _ => ⟨op, readOp, congrArg Prod.fst polled⟩⟩
      | done =>
          refine ⟨acts_single act, _, relies_phase .settled, kept,
            fun t ht => ⟨write ht unwound, fun passes => ?_⟩⟩
          exact ⟨(T.contract firm).refl t, unwound passes.2 t ht⟩

/-- The poll of `close` empties both slots of a strict run. -/
theorem checkReadOp_closing {ec : ErrorCode} {l : Local} (closed : l.closed)
    (unsent : l.conn.disconnectSent = false) (error : T.strict → ec ≠ .success) :
    (checkReadOp ec l).Meets (T.contract firm) (fun _ => Phase.closingWrite.Holds T)
      (fun t => Phase.settled.Holds T t ∧ (firm → ec = .success)) l := by
  have lax : ¬ T.strict → (firm → ec = .success) → ∀ t : Local, t.conn.disconnectSent = false →
      Phase.settled.Holds T t ∧ (firm → ec = .success) := by
    intro lax thrown t unsent
    exact ⟨⟨by simp [unsent], fun strict => absurd strict lax, fun strict => absurd strict lax⟩,
      thrown⟩
  have write : ∀ l : Local, Phase.closingRead.Holds T l →
      (checkWriteOp ec l).Meets (T.contract firm) (fun _ => Phase.closingWrite.Holds T)
        (fun t => Phase.settled.Holds T t ∧ (firm → ec = .success)) l := by
    intro l closing
    refine checkWriteOp_meets .closingWrite (fun _ => closing.1) ?_ ?_ ?_ (fun t ht => ht)
      (fun loose passes t ht => lax loose (fun isFirm => absurd isFirm passes) t ht.2.1)
    · intro strict success
      exact absurd success (error strict)
    · intro waits
      refine ⟨closing.1, closing.2.1, fun strict => ⟨closing.2.2 strict, ?_⟩⟩
      cases pending : l.conn.writeOp with
      | none => rfl
      | some handler => exact absurd (Or.inl (error strict)) (waits handler pending)
    · intro handler pending
      exact ⟨closing.1, closing.2.1, fun strict => ⟨closing.2.2 strict, rfl⟩⟩
  cases readOp : l.conn.readOp with
  | none =>
      rw [checkReadOp_none readOp]
      exact write l ⟨closed, unsent, fun _ => readOp⟩
  | some op =>
      have act : Act T l (pollRead ec op l).2 :=
        .pollRead ec op readOp (fun _ => closed) fun strict success =>
          absurd success (error strict)
      have control := pollRead_control ec op l
      rw [checkReadOp_some readOp]
      rcases polled : pollRead ec op l with ⟨outcome, l'⟩
      rw [polled] at act control
      have closed' : l'.closed := by
        rw [Local.closed, control.1]
        exact closed
      have unsent' : l'.conn.disconnectSent = false := by rw [control.2.1]; exact unsent
      cases outcome with
      | pending =>
          refine meets_from (acts_single act) (write l' ⟨closed', unsent', fun strict => ?_⟩)
          exact absurd (pollRead_pending polled).1 (error strict)
      | refused =>
          have success := (pollRead_refused polled).1
          exact ⟨acts_single act,
            lax (fun strict => error strict success) (fun _ => success) l' unsent'⟩
      | done =>
          refine ⟨acts_single act, _, relies_phase .closingRead,
            ⟨closed', unsent', fun _ => pollRead_done polled⟩, fun t ht => ⟨write t ht, ?_⟩⟩
          intro passes
          exact ⟨(T.contract firm).refl t,
            lax passes.1 (fun isFirm => absurd isFirm passes.2) t ht.2.1⟩

/-- Stable predicates are kept beside what a program keeps. -/
theorem meets_stable {α : Type} {J : Local → Prop} (stable : Stable T J) {Q : α → Local → Prop}
    {E : Local → Prop} {p : Prog Local α} :
    ∀ {start : Local}, J start → p.Meets (T.contract firm) Q E start →
      p.Meets (T.contract firm) (fun a l => Q a l ∧ J l) (fun l => E l ∧ J l) start := by
  have along : ∀ {l l' : Local}, Acts T l l' → J l → J l' := by
    intro l l' acts holds
    induction acts with
    | refl => exact holds
    | tail _ act ih => exact stable.act act ih
  induction p with
  | ret s a => intro start holds meets; exact ⟨meets.1, meets.2, along meets.1 holds⟩
  | throw s => intro start holds meets; exact ⟨meets.1, meets.2, along meets.1 holds⟩
  | invoke s back unwound ihBack ihUnwound =>
      intro start holds meets
      obtain ⟨first, P, ⟨phase, J', stable', shape⟩, holdsP, rest⟩ := meets
      refine ⟨first, fun l => P l ∧ J l, ⟨phase, fun l => J' l ∧ J l, ?_, ?_⟩,
        ⟨holdsP, along first holds⟩, fun t ht => ⟨ihBack t ht.2 (rest t ht.1).1, ?_⟩⟩
      · exact ⟨fun act h => ⟨stable'.act act h.1, stable.act act h.2⟩,
          fun grows h => ⟨stable'.env grows h.1, stable.env grows h.2⟩⟩
      · intro l
        dsimp only
        rw [shape l, and_assoc]
      · intro passes
        exact ihUnwound t ht.2 ((rest t ht.1).2 passes)
  | ask s back ih =>
      intro start holds meets
      exact ⟨meets.1, fun b hb => ih b (along meets.1 holds) (meets.2 b hb)⟩

/-- A closed connection owes an error to each handler that is still pending. -/
def Failing (handlers : List Nat) (l : Local) : Prop :=
  l.closed ∧ ∀ handler ∈ handlers, handler ∈ l.conn.slots ∨ l.env.Failed handler

theorem failed_grows {env env' : Env} (grows : env.Grows env') {handler : Nat}
    (failed : env.Failed handler) : env'.Failed handler := by
  obtain ⟨c, member, own, error⟩ := failed
  exact ⟨c, grows.invoked.subset member, own, error⟩

theorem failing_frame {handlers : List Nat} {l l' : Local} (failing : Failing handlers l)
    (state : l'.conn.state = l.conn.state) (slots : l'.conn.slots = l.conn.slots)
    (invoked : l'.env.invoked = l.env.invoked) : Failing handlers l' := by
  refine ⟨state.trans failing.1, fun handler member => ?_⟩
  rw [slots, Env.Failed, invoked]
  exact failing.2 handler member

/-- A poll with an error moves a handler from its slot to the failed ones. -/
theorem failing_polled {handlers : List Nat} {l l' : Local} {ec : ErrorCode} {polled : Nat}
    (failing : Failing handlers l) (error : ec ≠ .success) (state : l'.conn.state = l.conn.state)
    (slots : ∀ handler ∈ l.conn.slots, handler = polled ∨ handler ∈ l'.conn.slots)
    (invoked : l'.env.invoked = l.env.invoked ++ [⟨polled, ec, 0⟩]) : Failing handlers l' := by
  refine ⟨state.trans failing.1, fun handler member => ?_⟩
  rw [Env.Failed, invoked]
  rcases failing.2 handler member with pending | ⟨c, past, own, failed⟩
  · rcases slots handler pending with rfl | still
    · exact Or.inr ⟨⟨handler, ec, 0⟩, by simp, rfl, error⟩
    · exact Or.inl still
  · exact Or.inr ⟨c, List.mem_append_left _ past, own, failed⟩

theorem failing_stable (strict : T.strict) (handlers : List Nat) :
    Stable T (Failing handlers) where
  act := by
    intro l l' act failing
    have error : ∀ {ec : ErrorCode}, (T.strict → ec = .success → ¬ l.closed) → ec ≠ .success :=
      fun opened success => opened strict success failing.1
    cases act with
    | refuseRead _ => exact failing_frame failing rfl rfl rfl
    | refuseWrite _ => exact failing_frame failing rfl rfl rfl
    | streambuf _ _ => exact failing_frame failing rfl rfl rfl
    | readSome _ _ _ opened => exact absurd failing.1 opened
    | read _ _ _ _ opened => exact absurd failing.1 opened
    | messageSize _ _ _ opened _ => exact absurd failing.1 opened
    | write _ _ _ opened _ => exact absurd failing.1 opened
    | writePending _ _ _ opened _ => exact absurd failing.1 opened
    | pollRead ec op pending _ opened =>
        have failed := error opened
        unfold pollRead
        rw [if_pos failed]
        refine failing_polled failing failed rfl (fun handler member => ?_) rfl
        simpa [Connection.slots, pending, Local.takeRead, Local.record] using member
    | pollWrite ec handler pending _ _ opened =>
        refine failing_polled failing (error opened) rfl (fun other member => ?_) rfl
        simpa [Connection.slots, pending, Local.takeWrite, Local.record, or_comm] using member
    | beginClose opened =>
        have closed := failing.1
        rw [Local.closed, opened] at closed
        cases closed
    | disconnect _ _ =>
        have same : l.disconnect.conn.state = l.conn.state ∧
            l.disconnect.conn.slots = l.conn.slots := by
          unfold Local.disconnect
          dsimp only
          split <;> exact ⟨rfl, rfl⟩
        exact failing_frame failing same.1 same.2 rfl
    | armReceive opened => exact absurd failing.1 opened
  env := by
    intro l env' grows failing
    refine ⟨failing.1, fun handler member => ?_⟩
    exact (failing.2 handler member).imp_right (failed_grows grows)

/-! ## `close` -/

/-- The end of `close`: its disconnect datagram is handed over, or the send throws. -/
theorem close_opened {l : Local} (ec : ErrorCode) (opened : l.conn.state = .opened) :
    close ec l = (checkReadOp ec l.beginClose).bind fun _ t =>
      .ask t fun sent => if sent then .ret t.disconnect () else .throw t := by
  have opcode : (opcodeDisconnect ≠ opcodeDisconnect) = False := by simp
  simp only [close, Comp.bind_apply, Comp.get_apply, Prog.bind_ret, opened, ne_eq,
    not_true_eq_false, if_false, modifyConn, Comp.modify_apply, rawSend]
  congr 1
  funext _ t
  simp only [Comp.bind_apply, Comp.get_apply, Prog.bind_ret, Comp.ask_apply, Prog.bind_ask]
  congr 1
  funext sent
  cases sent with
  | false => rfl
  | true =>
      cases server : t.conn.isserver <;>
        simp [Local.disconnect, server, modifyEnv]

theorem close_not_opened {l : Local} (ec : ErrorCode) (other : l.conn.state ≠ .opened) :
    close ec l = .ret l () := by
  simp [close, other]

/-- What `close` leaves, begun in `l`. -/
structure CloseDone (T : Terms) (l t : Local) : Prop where
  settled : Phase.settled.Holds T t
  closed : l.conn.state ≠ .idle → t.closed
  failed : T.strict → l.conn.state ≠ .idle → ∀ handler ∈ l.conn.slots, t.env.Failed handler
  sent : l.conn.state = .opened → ∃ d ∈ t.env.sent.drop l.env.sent.length, d.dest = l.conn.endpoint

/-- What was sent before, and where to, does not change. -/
theorem sent_stable (l : Local) :
    Stable T fun t => l.env.sent <+: t.env.sent ∧ t.conn.endpoint = l.conn.endpoint where
  act := fun act holds => ⟨holds.1.trans (act_onward act).env.sent,
    (act_onward act).endpoint.trans holds.2⟩
  env := fun grows holds => ⟨holds.1.trans grows.sent, holds.2⟩

theorem disconnect_control (t : Local) : t.disconnect.conn.state = t.conn.state ∧
    t.disconnect.conn.readOp = t.conn.readOp ∧ t.disconnect.conn.writeOp = t.conn.writeOp ∧
    t.disconnect.conn.disconnectSent = true := by
  unfold Local.disconnect
  dsimp only
  split <;> exact ⟨rfl, rfl, rfl, rfl⟩

theorem close_meets {l : Local} (ec : ErrorCode) (error : T.strict → ec ≠ .success)
    (settled : Phase.settled.Holds T l) :
    (close ec l).Meets (T.contract firm) (fun _ => CloseDone T l)
      (fun t => Phase.settled.Holds T t ∧ (firm → ec = .success)) l := by
  by_cases opened : l.conn.state = .opened
  · have unsent : l.conn.disconnectSent = false := by
      cases sent : l.conn.disconnectSent with
      | false => rfl
      | true =>
          have closed := settled.1 sent
          rw [Local.closed, opened] at closed
          cases closed
    have owed : Failing l.conn.slots l.beginClose := ⟨rfl, fun _ member => Or.inl member⟩
    have polls : (checkReadOp ec l.beginClose).Meets (T.contract firm)
        (fun _ t => (Phase.closingWrite.Holds T t ∧ (T.strict → Failing l.conn.slots t)) ∧
          l.env.sent <+: t.env.sent ∧ t.conn.endpoint = l.conn.endpoint)
        (fun t => Phase.settled.Holds T t ∧ (firm → ec = .success)) l.beginClose := by
      have begins : l.env.sent <+: l.beginClose.env.sent := by
        rw [Local.beginClose, flush_eq]
        exact List.prefix_append _ _
      have closing : (checkReadOp ec l.beginClose).Meets (T.contract firm) _ _ l.beginClose :=
        checkReadOp_closing rfl unsent error
      have walked := meets_stable (sent_stable l) ⟨begins, by rw [Local.beginClose, flush_eq]⟩
        closing
      by_cases strict : T.strict
      · exact meets_mono (fun _ _ h => ⟨⟨h.1.1, fun _ => h.2⟩, h.1.2⟩) (fun _ h => h.1.1)
          (meets_stable (failing_stable strict _) owed walked)
      · exact meets_mono (fun _ _ h => ⟨⟨h.1, fun isStrict => absurd isStrict strict⟩, h.2⟩)
          (fun _ h => h.1) walked
    rw [close_opened ec opened]
    refine meets_from (acts_single (.beginClose opened)) (meets_bind _ ?_)
    refine meets_mono ?_ (fun _ h => h) polls
    rintro _ t ⟨⟨closing, failing⟩, before, endpoint⟩
    refine ⟨(T.contract firm).refl t, fun sent answered => ?_⟩
    cases sent with
    | false =>
        have failed : ¬ (T.reliable ∨ firm) := fun must => absurd (answered must) (by simp)
        refine ⟨(T.contract firm).refl t, ⟨?_, ?_, ?_⟩, fun isFirm => absurd (Or.inr isFirm) failed⟩
        · simp [closing.2.1]
        · exact fun strict _ => closing.2.2 strict
        · exact fun _ reliable => absurd (Or.inl reliable) failed
    | true =>
        obtain ⟨state, readOp, writeOp, recorded⟩ := disconnect_control t
        have isClosed : t.disconnect.closed := state.trans closing.1
        refine ⟨acts_single (.disconnect closing.1 closing.2.1), ⟨fun _ => isClosed, ?_, ?_⟩,
          fun _ => isClosed, fun strict _ handler member => ?_, fun _ => ?_⟩
        · rw [readOp, writeOp]
          exact fun strict _ => closing.2.2 strict
        · exact fun _ _ _ => recorded
        · refine ((failing strict).2 handler member).resolve_left ?_
          rw [Connection.slots, (closing.2.2 strict).1, (closing.2.2 strict).2]
          simp
        · have sent : t.disconnect.env.sent = t.env.sent ++
              [⟨t.conn.endpoint, opcodeDisconnect :: List.replicate 32 0⟩] := rfl
          rw [sent, List.drop_append_of_le_length before.length_le]
          exact ⟨_, List.mem_append_right _ (List.mem_singleton_self _), endpoint⟩
  · rw [close_not_opened ec opened]
    have closed : l.conn.state ≠ .idle → l.closed := by
      intro busy
      cases state : l.conn.state with
      | idle => exact absurd state busy
      | opened => exact absurd state opened
      | closed => exact state
    refine ⟨(T.contract firm).refl l, settled, closed, fun strict busy handler member => ?_,
      fun isOpened => absurd isOpened opened⟩
    rw [Connection.slots, (settled.2.1 strict (closed busy)).1,
      (settled.2.1 strict (closed busy)).2] at member
    simp at member

/-! ## The user's calls -/

theorem initiateAsyncRead_eq (op : Nat → ReadOperation) (l : Local) :
    initiateAsyncRead op l = .ret (if l.conn.readOp ≠ none ∨ l.conn.closed
      then l.postCompletion (if l.conn.closed then .operationAborted else .inProgress)
      else l.installRead op) () := by
  simp only [initiateAsyncRead, newHandler, modifyEnv, modifyConn, post, Comp.bind_apply,
    Comp.get_apply, Prog.bind_ret, Comp.modify_apply, Comp.pure_apply]
  split <;> rfl

theorem asyncWrite_eq (buffer : List UInt8) (l : Local) :
    asyncWrite buffer l = .ret (if l.conn.writeOp ≠ none ∨ l.conn.closed
      then l.postCompletion (if l.conn.closed then .operationAborted else .inProgress)
      else if (l.sendResult buffer).1 < 0 then (l.writeRefused buffer).postCompletion .messageSize
      else if ikcpWaitsnd (l.sendResult buffer).2 ≤ idleSendPacketCount
        then (l.write buffer).postCompletion .success
      else (l.write buffer).installWrite) () := by
  simp only [asyncWrite, newHandler, modifyEnv, modifyConn, post, Comp.bind_apply,
    Comp.get_apply, Prog.bind_ret, Comp.modify_apply, Comp.pure_apply]
  split
  · rfl
  · change (if (l.sendResult buffer).1 < 0 then _ else _ : Comp Local Unit) _ = _
    split
    · rfl
    · change (if ikcpWaitsnd (l.sendResult buffer).2 ≤ _ then _ else _ : Comp Local Unit) _ = _
      split <;> rfl

/-- A phase looks at four fields only. -/
theorem phase_of_control {phase : Phase} {l l' : Local} (holds : phase.Holds T l)
    (state : l'.conn.state = l.conn.state)
    (sent : l'.conn.disconnectSent = l.conn.disconnectSent)
    (slots : T.strict → l.closed → l'.conn.readOp = l.conn.readOp ∧
      l'.conn.writeOp = l.conn.writeOp) : phase.Holds T l' := by
  have closed : l'.closed ↔ l.closed := by rw [Local.closed, Local.closed, state]
  cases phase with
  | settled =>
      refine ⟨by rw [sent, closed]; exact holds.1, fun strict isClosed => ?_,
        by rw [sent, closed]; exact holds.2.2⟩
      have slots := slots strict (closed.mp isClosed)
      rw [slots.1, slots.2]
      exact holds.2.1 strict (closed.mp isClosed)
  | closingRead =>
      refine ⟨closed.mpr holds.1, by rw [sent]; exact holds.2.1, fun strict => ?_⟩
      rw [(slots strict holds.1).1]
      exact holds.2.2 strict
  | closingWrite =>
      refine ⟨closed.mpr holds.1, by rw [sent]; exact holds.2.1, fun strict => ?_⟩
      rw [(slots strict holds.1).1, (slots strict holds.1).2]
      exact holds.2.2 strict

theorem not_closed_of_open {l : Local} {P : Prop} (accepted : ¬ (P ∨ l.conn.closed = true)) :
    ¬ l.closed := by
  intro closed
  exact accepted (Or.inr (decide_eq_true closed))

/-- A call keeps every phase. -/
theorem runCall_phase (phase : Phase) (k : Call) {l : Local} (allowed : T.calls k l)
    (holds : phase.Holds T l) :
    (runCall k l).Meets (T.contract firm) (fun _ => phase.Holds T) (phase.Holds T) l := by
  have kept : ∀ {l' : Local}, Act T l l' → l'.conn.state = l.conn.state →
      l'.conn.disconnectSent = l.conn.disconnectSent →
      (l.closed → l'.conn.readOp = l.conn.readOp ∧ l'.conn.writeOp = l.conn.writeOp) →
      (Prog.ret l' () : Prog Local Unit).Meets (T.contract firm) (fun _ => phase.Holds T)
        (phase.Holds T) l :=
    fun act state sent slots =>
      ⟨acts_single act, phase_of_control holds state sent fun _ => slots⟩
  have read : ∀ op : Nat → ReadOperation, (l.conn.readOp = none → ¬ l.closed →
      Act T l (l.installRead op)) →
      (initiateAsyncRead op l).Meets (T.contract firm) (fun _ => phase.Holds T) (phase.Holds T) l := by
    intro op install
    rw [initiateAsyncRead_eq]
    split
    · rename_i refused
      exact kept (.refuseRead refused) rfl rfl fun _ => ⟨rfl, rfl⟩
    · rename_i accepted
      have opened := not_closed_of_open accepted
      have free : l.conn.readOp = none := by simpa using fun h => accepted (Or.inl h)
      exact kept (install free opened) rfl rfl fun closed => absurd closed opened
  cases k with
  | asyncReadSome size => exact read _ (.readSome size allowed)
  | asyncRead buffer need => exact read _ (.read buffer need allowed)
  | asyncWrite buffer =>
      change (asyncWrite buffer l).Meets _ _ _ _
      rw [asyncWrite_eq]
      split
      · rename_i refused
        exact kept (.refuseWrite refused) rfl rfl fun _ => ⟨rfl, rfl⟩
      · rename_i accepted
        have opened := not_closed_of_open accepted
        have free : l.conn.writeOp = none := by simpa using fun h => accepted (Or.inl h)
        split
        · rename_i tooLong
          exact kept (.messageSize buffer allowed free opened tooLong) rfl rfl
            fun closed => absurd closed opened
        · rename_i fits
          split
          · exact kept (.write buffer allowed free opened fits) rfl rfl
              fun closed => absurd closed opened
          · exact kept (.writePending buffer allowed free opened fits) rfl rfl
              fun closed => absurd closed opened
  | close ec =>
      have error : T.strict → ec ≠ .success := fun strict => T.closes strict ec l allowed
      cases phase with
      | settled =>
          exact meets_mono (fun _ _ h => h.settled) (fun _ h => h.1) (close_meets ec error holds)
      | closingRead =>
          have other : l.conn.state ≠ .opened := by rw [holds.1]; simp
          change (close ec l).Meets _ _ _ _
          rw [close_not_opened ec other]
          exact ⟨(T.contract firm).refl l, holds⟩
      | closingWrite =>
          have other : l.conn.state ≠ .opened := by rw [holds.1]; simp
          change (close ec l).Meets _ _ _ _
          rw [close_not_opened ec other]
          exact ⟨(T.contract firm).refl l, holds⟩
  | streambuf id content => exact kept (.streambuf id content) rfl rfl fun _ => ⟨rfl, rfl⟩

theorem runCall_meets (k : Call) {l : Local} (allowed : T.calls k l) {P : Local → Prop}
    (member : (T.contract firm).relies P) (holds : P l) :
    (runCall k l).Meets (T.contract firm) (fun _ => P) P l := by
  obtain ⟨phase, J, stable, shape⟩ := member
  have here := (shape l).mp holds
  refine meets_mono ?_ ?_ (meets_stable stable here.2 (runCall_phase phase k allowed here.1))
  · intro _ l' h
    exact (shape l').mpr h
  · intro l' h
    exact (shape l').mpr h

/-! ## The events -/

theorem entry_settled (e : Event) {l : Local} (settled : Phase.settled.Holds T l) :
    Phase.settled.Holds T (entry e l) := by
  have control := entry_control e l
  refine ⟨?_, fun strict closed => ?_, ?_⟩
  · rw [control.disconnectSent, control.closed]
    exact settled.1
  · rw [control.readOp, control.writeOp]
    exact settled.2.1 strict (control.closed.mp closed)
  · rw [control.disconnectSent, control.closed]
    exact settled.2.2

theorem doReceive_meets {l : Local} (settled : Phase.settled.Holds T l) :
    (doReceive l).Meets (T.contract firm) (fun _ => Phase.settled.Holds T)
      (Phase.settled.Holds T) l := by
  simp only [doReceive, Comp.bind_apply, Comp.get_apply, Prog.bind_ret, Comp.ite_apply,
    Comp.pure_apply]
  split
  · exact ⟨(T.contract firm).refl l, settled⟩
  · rename_i opened
    exact ⟨acts_single (.armReceive opened), settled.1,
      fun _ closed => absurd closed opened, settled.2.2⟩

/-- `on_receive` throws only out of a poll that finds no room, where its handlers
and its send do not fail. -/
theorem onReceive_meets {l : Local} (data : List UInt8) (size : Nat) (t : Int)
    (settled : Phase.settled.Holds T (l.received data size t)) :
    (onReceive data size t l).Meets (T.contract firm) (fun _ => Phase.settled.Holds T)
      (fun l' => Phase.settled.Holds T l' ∧ (firm → 24 ≤ size ∧ data.getD 0 0 = opcodeData ∧
        Refuses (l.received data size t))) (l.received data size t) := by
  rw [onReceive_eq]
  split
  · rename_i short
    have unchanged : l.received data size t = l := if_pos short
    rw [unchanged] at settled ⊢
    exact ⟨(T.contract firm).refl l, settled⟩
  · rename_i long
    split
    · rename_i isData
      exact meets_mono (fun _ _ h => h)
        (fun _ h => ⟨h.1, fun isFirm => ⟨by omega, isData, h.2 isFirm⟩⟩) (checkReadOp_settled settled)
    · split
      · refine meets_mono (fun _ _ h => h.settled) (fun _ h => ⟨h.1, fun isFirm => ?_⟩)
          (close_meets .eof (by simp) settled)
        exact absurd (h.2 isFirm) (by simp)
      · exact ⟨(T.contract firm).refl _, settled⟩

/-- What a tick leaves that was begun in `l`. -/
structure TickDone (T : Terms) (now : Int) (l : Local) (expired : Bool) (t : Local) : Prop where
  settled : Phase.settled.Holds T t
  late : expired = true → l.conn.state = .idle → now - l.conn.nowTick > timeoutDuration
  closed : expired = true → l.conn.state ≠ .idle → t.closed
  failed : expired = true → T.strict → l.conn.state ≠ .idle →
    ∀ handler ∈ l.conn.slots, t.env.Failed handler

/-- A tick throws only where its handlers or its send fail. -/
theorem tick_meets {l : Local} (now : Int) (settled : Phase.settled.Holds T (l.update now)) :
    (tick now l).Meets (T.contract firm) (TickDone T now l)
      (fun t => Phase.settled.Holds T t ∧ ¬ firm) (l.update now) := by
  simp only [tick, update, Comp.bind_apply, Comp.modify_apply, Comp.get_apply,
    Comp.pure_apply, Prog.bind_ret, Comp.ite_apply]
  have control : (l.update now).conn.state = l.conn.state ∧
      (l.update now).conn.nowTick = l.conn.nowTick ∧
      (l.update now).conn.slots = l.conn.slots := by
    rw [update_eq]
    exact ⟨rfl, rfl, rfl⟩
  split
  · rename_i expired
    have error : (if (l.update now).conn.closed = true then ErrorCode.operationAborted
        else .timedOut) ≠ .success := by
      split <;> simp
    refine meets_bind _ (meets_mono ?_ (fun _ h => ⟨h.1, fun isFirm => error (h.2 isFirm)⟩)
      (close_meets _ (fun _ => error) settled))
    intro _ t done
    refine ⟨(T.contract firm).refl t, done.settled, fun _ idle => ?_, fun _ => ?_, fun _ => ?_⟩
    · rw [← control.2.1]
      refine expired.resolve_left fun closed => ?_
      rw [Connection.closed, control.1, idle] at closed
      cases closed
    · rw [← control.1]
      exact done.closed
    · rw [← control.1, ← control.2.2]
      exact done.failed
  · exact ⟨(T.contract firm).refl _, settled, by simp, by simp, by simp⟩

/-- After its entry, an event goes on with acts and keeps the connection settled. -/
theorem runEvent_meets (e : Event) {l : Local} (settled : Phase.settled.Holds T l) :
    (runEvent e l).Meets (T.contract firm) (fun _ => Phase.settled.Holds T)
      (Phase.settled.Holds T) (entry e l) := by
  have entered := entry_settled e settled
  have thrown : ∀ {P : Prop} (t : Local), Phase.settled.Holds T t ∧ P → Phase.settled.Holds T t :=
    fun _ h => h.1
  have rearmed : ∀ {rest : Comp Local Unit} {t : Local}, Rearms rest → Phase.settled.Holds T t →
      (rest t).Meets (T.contract firm) (fun _ => Phase.settled.Holds T)
        (Phase.settled.Holds T) t := by
    rintro rest t (rfl | rfl) ht
    · exact ⟨(T.contract firm).refl t, ht⟩
    · exact doReceive_meets ht
  obtain ⟨first, rest, continues, rearms, shape⟩ := runEvent_continues e l
  rw [shape]
  apply meets_bind
  refine meets_mono (fun _ t ht => rearmed rearms ht) (fun _ h => h) ?_
  cases continues with
  | idle _ => exact ⟨(T.contract firm).refl _, entered⟩
  | handler _ =>
      refine ⟨(T.contract firm).refl _, _, relies_phase .settled, entered,
        fun t ht => ⟨?_, fun _ => ?_⟩⟩
      · exact ⟨(T.contract firm).refl t, ht⟩
      · exact ⟨(T.contract firm).refl t, ht⟩
  | poll _ => exact meets_mono (fun _ _ h => h) thrown (checkReadOp_settled entered)
  | close ec _ error =>
      exact meets_mono (fun _ _ h => h.settled) thrown (close_meets ec (fun _ => error) entered)

end Walk

end AsioKcp
