import AsioKcp.Connection.Streams
import AsioKcp.Ikcp.Congestion
import AsioKcp.Lib.Similar

/-! # A connection never sees its congestion window

`init_kcp_context` turns congestion control off.  Two connections that differ in
their congestion windows alone send the same datagrams at the same times, and
complete the same operations. -/
set_option autoImplicit false

namespace AsioKcp

open AsioKcp.Ikcp AsioKcp.Callback AsioKcp.Machine

def Local.congested (g : Congestion) (l : Local) : Local := l.setObj (l.conn.obj.congested g)

/-- Congestion control is off, and the connections are the same beside the
variables that it would use. -/
structure SameButCongestion (l l' : Local) : Prop where
  nocwnd : l.conn.obj.nocwnd ≠ 0
  same : ∃ g, l' = l.congested g

section Blind
variable {α : Type}

/-- A change that does not depend on the congestion window. -/
theorem respects_blind {f : Local → Local}
    (kept : ∀ l : Local, (f l).conn.obj.nocwnd = l.conn.obj.nocwnd)
    (blind : ∀ (l : Local) g, l.conn.obj.nocwnd ≠ 0 →
      ∃ g', f (l.congested g) = (f l).congested g') :
    (Comp.modify f).Respects SameButCongestion := by
  apply respects_modify
  intro l l' related
  obtain ⟨g, rfl⟩ := related.same
  exact ⟨ne_of_eq_of_ne (kept l) related.nocwnd, blind l g related.nocwnd⟩

theorem modifyEnv_blind (f : Env → Env) : (modifyEnv f).Respects SameButCongestion :=
  respects_blind (fun _ => rfl) fun _ g _ => ⟨g, rfl⟩

/-- A change of a connection beside its control block. -/
theorem modifyConn_blind {f : Connection → Connection} (obj : ∀ c, (f c).obj = c.obj)
    (blind : ∀ c obj, f { c with obj := obj } = { f c with obj := obj }) :
    (modifyConn f).Respects SameButCongestion := by
  apply respects_blind
  · intro l
    exact congrArg Ikcpcb.nocwnd (obj l.conn)
  · intro l g _
    refine ⟨g, ?_⟩
    change Local.mk (f { l.conn with obj := l.conn.obj.congested g }) l.env =
      Local.mk { f l.conn with obj := (f l.conn).obj.congested g } l.env
    rw [blind, obj]

theorem respects_glance {f : Local → Comp Local α}
    (blind : ∀ (l : Local) g, f (l.congested g) = f l)
    (rest : ∀ l, (f l).Respects SameButCongestion) :
    (Comp.get >>= f).Respects SameButCongestion := by
  refine respects_read ?_ rest
  intro l l' related
  obtain ⟨g, rfl⟩ := related.same
  exact (blind l g).symm

theorem post_blind (task : Task) : (post task).Respects SameButCongestion := modifyEnv_blind _

theorem invokeHandler_blind (c : Completion) : (invokeHandler c).Respects SameButCongestion :=
  respects_bind (modifyEnv_blind _) fun _ => respects_invoke

theorem newHandler_blind : newHandler.Respects SameButCongestion :=
  respects_glance (fun _ _ => rfl) fun _ =>
    respects_bind (modifyEnv_blind _) fun _ => respects_pure _

end Blind

/-! ## What a flush and an update hand on -/

theorem ikcpRecv_nocwnd (kcp : Ikcpcb) (len : Int) : (ikcpRecv kcp len).2.2.nocwnd = kcp.nocwnd :=
  congrArg Params.nocwnd (ikcpRecv_params kcp len)

theorem ikcpUpdate_nocwnd (kcp : Ikcpcb) (now : UInt32) :
    (ikcpUpdate kcp now).1.nocwnd = kcp.nocwnd :=
  (params_lasting kcp.params).update now rfl |> congrArg Params.nocwnd

theorem flush_blind : (Comp.modify Local.flush).Respects SameButCongestion := by
  apply respects_blind
  · intro l
    rw [flush_eq]
    exact congrArg Params.nocwnd (ikcpFlush_params l.conn.obj)
  · intro l g nocwnd
    obtain ⟨g', flushed⟩ := ikcpFlush_congested g l.conn.obj nocwnd
    refine ⟨g', ?_⟩
    rw [flush_eq, flush_eq, show (l.congested g).conn.obj = l.conn.obj.congested g from rfl,
      flushed]
    rfl

theorem updateEffect_nocwnd (c : Connection) (now : Int) :
    (updateEffect c now).1.nocwnd = c.obj.nocwnd :=
  congrArg Params.nocwnd (lasting_updateEffect (params_lasting c.obj.params) now rfl)

theorem updateEffect_congested (g : Congestion) (c : Connection) (now : Int)
    (nocwnd : c.obj.nocwnd ≠ 0) : ∃ g', updateEffect { c with obj := c.obj.congested g } now =
      ((updateEffect c now).1.congested g', (updateEffect c now).2) := by
  obtain ⟨g₁, updated⟩ := ikcpUpdate_congested g c.obj nocwnd (UInt32.ofInt now)
  have still := ne_of_eq_of_ne (ikcpUpdate_nocwnd c.obj (UInt32.ofInt now)) nocwnd
  obtain ⟨g₂, flushed⟩ := ikcpFlush_congested g₁ _ still
  simp only [updateEffect, updated, ikcpCheck_congested, flushed]
  by_cases due : c.nextTick ≤ now
  · simp only [if_pos due]
    by_cases soon : ((ikcpCheck (ikcpUpdate c.obj (UInt32.ofInt now)).1
        (UInt32.ofInt now)).toNat : Int) - now < updateInterval
    · simp only [if_pos soon]
      exact ⟨g₂, rfl⟩
    · simp only [if_neg soon]
      exact ⟨g₁, rfl⟩
  · simp only [if_neg due]
    exact ⟨g, rfl⟩

theorem update_blind (now : Int) : (update now).Respects SameButCongestion := by
  refine respects_bind (respects_blind ?_ ?_) fun _ =>
    respects_glance (fun _ _ => rfl) fun _ => respects_pure _
  · intro l
    rw [update_eq]
    exact updateEffect_nocwnd l.conn now
  · intro l g nocwnd
    obtain ⟨g', updated⟩ := updateEffect_congested g l.conn now nocwnd
    refine ⟨g', ?_⟩
    rw [update_eq, update_eq,
      show (l.congested g).conn = { l.conn with obj := l.conn.obj.congested g } from rfl, updated]
    rfl

/-! ## The polls -/

theorem drain_congested (g : Congestion) (fuel : Nat) (obj : Ikcpcb) (buffer : StreamBuf) :
    drain fuel (obj.congested g) buffer =
      ((drain fuel obj buffer).1.congested g, (drain fuel obj buffer).2) := by
  induction fuel generalizing obj buffer with
  | zero => rfl
  | succ fuel ih =>
      simp only [drain, ikcpRecv_congested, ih]
      split_ifs <;> rfl

theorem pollRead_congested (g : Congestion) (ec : ErrorCode) (op : ReadOperation) (l : Local) :
    pollRead ec op (l.congested g) = ((pollRead ec op l).1, (pollRead ec op l).2.congested g) := by
  have drained : ∀ buffer, (l.congested g).drained buffer =
      ((l.drained buffer).1.congested g, (l.drained buffer).2) := fun buffer =>
    drain_congested g _ l.conn.obj (l.env.streambufs buffer)
  unfold pollRead
  by_cases failed : ec ≠ .success
  · rw [if_pos failed, if_pos failed]
    rfl
  · rw [if_neg failed, if_neg failed]
    cases op with
    | readSome handler size =>
        have received := ikcpRecv_congested g l.conn.obj (narrow size)
        change (ikcpRecv (l.congested g).conn.obj (narrow size)) = _ at received
        dsimp only
        rw [received]
        split_ifs <;> rfl
    | read handler buffer need =>
        dsimp only [Local.afterDrain]
        rw [drained]
        split_ifs <;> rfl

theorem pollRead_nocwnd (ec : ErrorCode) (op : ReadOperation) (l : Local) :
    (pollRead ec op l).2.conn.obj.nocwnd = l.conn.obj.nocwnd :=
  @pollRead_obj (fun kcp => kcp.nocwnd = l.conn.obj.nocwnd)
    (fun len before => (ikcpRecv_nocwnd _ len).trans before) ec op l rfl

theorem checkWriteOp_blind (ec : ErrorCode) : (checkWriteOp ec).Respects SameButCongestion := by
  refine respects_glance (fun _ _ => rfl) fun l => ?_
  cases l.conn.writeOp with
  | none => exact respects_pure ()
  | some op =>
      refine respects_bind (modifyConn_blind (fun _ => rfl) fun _ _ => rfl) fun _ =>
        respects_bind ?_ fun ready => ?_
      · unfold completeWrite
        split
        · exact respects_bind (invokeHandler_blind _) fun _ => respects_pure _
        · refine respects_glance (fun _ _ => rfl) fun before => ?_
          split
          · exact respects_bind (invokeHandler_blind _) fun _ => respects_pure _
          · exact respects_pure _
      · cases ready with
        | true => exact respects_pure ()
        | false =>
            rw [if_neg Bool.false_ne_true]
            exact modifyConn_blind (fun _ => rfl) fun _ _ => rfl

theorem checkReadOp_blind (ec : ErrorCode) : (checkReadOp ec).Respects SameButCongestion := by
  intro l l' related
  obtain ⟨g, rfl⟩ := related.same
  have slot : (l.congested g).conn.readOp = l.conn.readOp := rfl
  cases pending : l.conn.readOp with
  | none =>
      rw [checkReadOp_none pending, checkReadOp_none (slot.trans pending)]
      exact checkWriteOp_blind ec l _ related
  | some op =>
      have later : SameButCongestion (pollRead ec op l).2 ((pollRead ec op l).2.congested g) :=
        ⟨ne_of_eq_of_ne (pollRead_nocwnd ec op l) related.nocwnd, g, rfl⟩
      rw [checkReadOp_some pending, checkReadOp_some (slot.trans pending), pollRead_congested]
      generalize pollRead ec op l = polled at later ⊢
      obtain ⟨outcome, after⟩ := polled
      cases outcome with
      | pending => exact checkWriteOp_blind ec after _ later
      | refused => exact later
      | done => exact ⟨later, fun t t' back => ⟨checkWriteOp_blind ec t t' back, back⟩⟩

/-! ## The other functions -/

theorem rawSend_blind (data : List UInt8) (opcode : UInt8) :
    (rawSend data opcode).Respects SameButCongestion := by
  refine respects_glance (fun _ _ => rfl) fun l => ?_
  split
  · exact modifyEnv_blind _
  · refine respects_bind (fun s s' related => ⟨related, fun _ => ⟨related, rfl⟩⟩) fun sent => ?_
    cases sent with
    | true => exact respects_bind (modifyEnv_blind _) fun _ =>
        modifyConn_blind (fun _ => rfl) fun _ _ => rfl
    | false => exact fun s s' related => related

theorem close_blind (ec : ErrorCode) : (close ec).Respects SameButCongestion := by
  refine respects_glance (fun _ _ => rfl) fun l => ?_
  split
  · exact respects_pure ()
  · refine respects_bind (modifyConn_blind (fun _ => rfl) fun _ _ => rfl) fun _ =>
      respects_bind flush_blind fun _ => respects_bind (checkReadOp_blind ec) fun _ =>
        respects_bind (rawSend_blind _ _) fun _ => respects_glance (fun _ _ => rfl) fun after => ?_
    split
    · exact respects_pure ()
    · exact modifyConn_blind (fun _ => rfl) fun _ _ => rfl

theorem received_blind (data : List UInt8) (size : Nat) (t : Int) :
    (Comp.modify fun l => l.received data size t).Respects SameButCongestion := by
  apply respects_blind
  · intro l
    unfold Local.received
    by_cases short : size < 24
    · rw [if_pos short]
    · by_cases isData : data.getD 0 0 = opcodeData
      · rw [if_neg short, if_pos isData]
        exact congrArg Params.nocwnd (ikcpInput_params l.conn.obj _ _)
      · rw [if_neg short, if_neg isData]
  · intro l g _
    obtain ⟨g', input⟩ := ikcpInput_congested g l.conn.obj (data.drop 1) (size - 1)
    unfold Local.received
    by_cases short : size < 24
    · rw [if_pos short, if_pos short]
      exact ⟨g, rfl⟩
    · by_cases isData : data.getD 0 0 = opcodeData
      · rw [if_neg short, if_pos isData, if_neg short, if_pos isData,
          show (l.congested g).conn.obj = l.conn.obj.congested g from rfl, input]
        exact ⟨g', rfl⟩
      · rw [if_neg short, if_neg isData, if_neg short, if_neg isData]
        exact ⟨g, rfl⟩

theorem onReceive_blind (data : List UInt8) (size : Nat) (t : Int) :
    (onReceive data size t).Respects SameButCongestion := by
  intro l l' related
  have after : SameButCongestion (l.received data size t) (l'.received data size t) :=
    (received_blind data size t l l' related).1
  rw [onReceive_eq, onReceive_eq]
  split_ifs
  · exact ⟨related, rfl⟩
  · exact checkReadOp_blind .success _ _ after
  · exact close_blind .eof _ _ after
  · exact ⟨after, rfl⟩

theorem doReceive_blind : doReceive.Respects SameButCongestion := by
  refine respects_glance (fun _ _ => rfl) fun l => ?_
  split
  · exact respects_pure ()
  · exact modifyConn_blind (fun _ => rfl) fun _ _ => rfl

theorem runPosted_blind (i : Nat) : (runPosted i).Respects SameButCongestion := by
  refine respects_glance (fun _ _ => rfl) fun l => ?_
  cases l.env.posted[i]? with
  | none => exact respects_pure ()
  | some task =>
      refine respects_bind (modifyEnv_blind _) fun _ => ?_
      cases task with
      | completion c => exact invokeHandler_blind c
      | checkReadOp _ => exact checkReadOp_blind .success

theorem tick_blind (now : Int) : (tick now).Respects SameButCongestion := by
  refine respects_bind (update_blind now) fun received =>
    respects_glance (fun _ _ => rfl) fun l => ?_
  split
  · exact respects_bind (close_blind _) fun _ => respects_pure _
  · exact respects_pure _

theorem timerRuns_blind (now : Int) : (timerRuns now).Respects SameButCongestion := by
  refine respects_glance (fun _ _ => rfl) fun l => ?_
  split
  · exact respects_pure ()
  · refine respects_bind (modifyConn_blind (fun _ => rfl) fun _ _ => rfl) fun _ =>
      respects_bind (update_blind now) fun received => ?_
    split
    · exact close_blind .timedOut
    · exact modifyConn_blind (fun _ => rfl) fun _ _ => rfl

theorem receiveRuns_blind (now : Int) : (receiveRuns now).Respects SameButCongestion := by
  refine respects_glance (fun _ _ => rfl) fun l => ?_
  cases l.conn.receiveQueued with
  | nil => exact respects_pure ()
  | cons completion rest =>
      obtain ⟨ec, data, size⟩ := completion
      refine respects_bind (modifyConn_blind (fun _ => rfl) fun _ _ => rfl) fun _ => ?_
      unfold receiveHandler
      split
      · exact close_blind ec
      · exact respects_bind (onReceive_blind data size now) fun _ => doReceive_blind

theorem runEvent_blind (e : Event) : (runEvent e).Respects SameButCongestion := by
  cases e with
  | posted i => exact runPosted_blind i
  | onReceive data size t => exact onReceive_blind data size t
  | update now => exact respects_bind (update_blind now) fun _ => respects_pure ()
  | tick now => exact respects_bind (tick_blind now) fun _ => respects_pure ()
  | timerExpires =>
      apply modifyConn_blind
      · intro c
        unfold Connection.timerExpired
        split <;> rfl
      · intro c obj
        unfold Connection.timerExpired
        split <;> rfl
  | timerRuns now => exact timerRuns_blind now
  | receiveCompletes ec data size =>
      show (modifyConn fun c => c.receiveCompleted ec data size).Respects SameButCongestion
      apply modifyConn_blind
      · intro c
        unfold Connection.receiveCompleted
        split <;> rfl
      · intro c obj
        unfold Connection.receiveCompleted
        split <;> rfl
  | receiveRuns now => exact receiveRuns_blind now

theorem initiateAsyncRead_blind (op : Nat → ReadOperation) :
    (initiateAsyncRead op).Respects SameButCongestion := by
  refine respects_bind newHandler_blind fun handler => respects_glance (fun _ _ => rfl) fun l => ?_
  split
  · exact post_blind _
  · exact respects_bind (modifyConn_blind (fun _ => rfl) fun _ _ => rfl) fun _ => post_blind _

theorem asyncWrite_blind (buffer : List UInt8) :
    (asyncWrite buffer).Respects SameButCongestion := by
  refine respects_bind newHandler_blind fun handler => ?_
  intro l l' related
  obtain ⟨g, rfl⟩ := related.same
  have sent := ikcpSend_congested g l.conn.obj buffer (narrow buffer.length)
  have later : (ikcpSend l.conn.obj buffer (narrow buffer.length)).2.nocwnd ≠ 0 :=
    ne_of_eq_of_ne (congrArg Params.nocwnd (ikcpSend_params _ _ _)) related.nocwnd
  have waits : ikcpWaitsnd ((ikcpSend l.conn.obj buffer (narrow buffer.length)).2.congested g) =
      ikcpWaitsnd (ikcpSend l.conn.obj buffer (narrow buffer.length)).2 := rfl
  have busy_iff : (l.congested g).conn.writeOp ≠ none ∨ (l.congested g).conn.closed = true ↔
      l.conn.writeOp ≠ none ∨ l.conn.closed = true := Iff.rfl
  simp only [Comp.bind_apply, Comp.get_apply, Prog.bind_ret, Comp.ite_apply]
  by_cases busy : l.conn.writeOp ≠ none ∨ l.conn.closed = true
  · rw [if_pos busy, if_pos (busy_iff.mpr busy)]
    exact post_blind _ l _ related
  · rw [if_neg busy, if_neg (mt busy_iff.mp busy),
      show (l.congested g).conn.obj = l.conn.obj.congested g from rfl, sent]
    by_cases failed : (ikcpSend l.conn.obj buffer (narrow buffer.length)).1 < 0
    · rw [if_pos failed, if_pos failed]
      exact ⟨⟨later, g, rfl⟩, rfl⟩
    · rw [if_neg failed, if_neg failed]
      simp only [modifyConn, Comp.modify_apply, Prog.bind_ret, Comp.ite_apply, waits]
      split
      · exact ⟨⟨later, g, rfl⟩, rfl⟩
      · exact ⟨⟨later, g, rfl⟩, rfl⟩

theorem runCall_blind (k : Call) : (runCall k).Respects SameButCongestion := by
  cases k with
  | asyncReadSome size => exact initiateAsyncRead_blind _
  | asyncRead buffer need => exact initiateAsyncRead_blind _
  | asyncWrite buffer => exact asyncWrite_blind buffer
  | close ec => exact close_blind ec
  | streambuf id content => exact modifyEnv_blind fun env => env.setStreambuf id content

/-- Whatever the congestion window of a connection is changed to, the connection
goes on in the same way: it can take the same steps, hands over the same datagrams
and runs the same handlers. -/
theorem congestion_unseen {conv : UInt32} {ok : Config Local → Label Event Call → Prop}
    {start c : Config Local} (started : Started conv start)
    (reached : connectionSystem.Steps ok start c) (idle : c.Idle) (g : Congestion)
    (labels : List (Label Event Call)) :
    (∀ d, connectionSystem.run c labels = some d →
      ∃ d', connectionSystem.run (.idle (c.state.congested g)) labels = some d' ∧
        (∃ g', d'.state = d.state.congested g') ∧ (d.Idle ↔ d'.Idle)) ∧
    (connectionSystem.run c labels = none →
      connectionSystem.run (.idle (c.state.congested g)) labels = none) := by
  have params := run_lasting (params_lasting (initKcpContext conv).params) started rfl reached
  have nocwnd : c.state.conn.obj.nocwnd ≠ 0 :=
    ne_of_eq_of_ne (congrArg Params.nocwnd params) (suited_init conv).nocwnd
  have there : SameButCongestion c.state (c.state.congested g) := ⟨nocwnd, g, rfl⟩
  have back : SameButCongestion (c.state.congested g) c.state :=
    ⟨nocwnd, ⟨c.state.conn.obj.ssthresh, c.state.conn.obj.cwnd, c.state.conn.obj.incr⟩, rfl⟩
  rw [idle.eq]
  refine ⟨fun d ran => ?_, fun stuck => ?_⟩
  · obtain ⟨d', ran', similar⟩ := run_similar runEvent_blind runCall_blind labels
      (idle_similar there) ran
    exact ⟨d', ran', similar.state.same, similar.idle_iff⟩
  · cases ran : connectionSystem.run (.idle (c.state.congested g)) labels with
    | none => exact ran
    | some d' =>
        obtain ⟨d, ran', _⟩ := run_similar runEvent_blind runCall_blind labels
          (idle_similar back) ran
        rw [stuck] at ran'
        cases ran'

/-- Three bytes go out although the window is shut. -/
theorem congestion_unseen_shut :
    ∃ d', connectionSystem.run
        (.idle ((clientLocal 7 loopback 1000 noStreambufs).congested ⟨0, 0, 0⟩))
        [.call (.asyncWrite [1, 2, 3]), .event (.update 1000)] = some d' ∧
      d'.state.env.sent.length = 1 ∧ d'.Idle := by
  obtain ⟨d, ran, sent, idle⟩ : ∃ d, connectionSystem.run
      (clientStart 7 loopback 1000 noStreambufs)
      [.call (.asyncWrite [1, 2, 3]), .event (.update 1000)] = some d ∧
        d.state.env.sent.length = 1 ∧ d.Idle := ⟨_, rfl, by decide, rfl, rfl⟩
  have nothing : connectionSystem.Steps (fun _ _ => True) (clientStart 7 loopback 1000 noStreambufs)
      (clientStart 7 loopback 1000 noStreambufs) := .refl
  obtain ⟨d', ran', ⟨g', state⟩, ended⟩ := (congestion_unseen (.client loopback 1000 noStreambufs)
    nothing ⟨rfl, rfl⟩ ⟨0, 0, 0⟩ _).1 d ran
  refine ⟨d', ran', ?_, ended.mp idle⟩
  rw [state]
  exact sent

end AsioKcp
