import AsioKcp.Connection.Sessions
import AsioKcp.Ikcp.Messages

/-! # Datagrams that carry nothing for a connection

`on_receive` and `ikcp_input` reject them, in several places: before the size test
nothing has been changed, but the tests of the opcode and of the KCP header come
after the connection has been opened and has taken the time, and a rejected
payload still polls the pending operations. -/
set_option autoImplicit false

namespace AsioKcp

open AsioKcp.Ikcp AsioKcp.Callback AsioKcp.Machine AsioKcp.Bytes

/-- `ikcp_input` rejects the first header of `size` bytes. -/
def HeaderRejected (kcp : Ikcpcb) (data : List UInt8) (size : Nat) : Prop :=
  let seg := decodeSeg data
  let len := (read32 (data.drop 20)).toNat
  size < ikcpOverhead ∨ seg.conv ≠ kcp.conv ∨ (size - ikcpOverhead < len ∨ len ≥ 2 ^ 31) ∨
    (seg.cmd ≠ ikcpCmdPush ∧ seg.cmd ≠ ikcpCmdAck ∧ seg.cmd ≠ ikcpCmdWask ∧ seg.cmd ≠ ikcpCmdWins)

theorem ikcpInput_rejected {kcp : Ikcpcb} {data : List UInt8} {size : Nat}
    (rejected : HeaderRejected kcp data size) :
    (ikcpInput kcp data size).1 < 0 ∧ (ikcpInput kcp data size).2 = kcp := by
  by_cases short : size < ikcpOverhead
  · rw [ikcpInput, if_pos short]
    exact ⟨Int.negSucc_lt_zero 0, rfl⟩
  · have enough : size = (size - 1) + 1 := by
      simp only [ikcpOverhead] at short
      omega
    have rejects := rejected.resolve_left short
    have first : ∃ code < 0, inputLoop size data size ⟨kcp, false, 0⟩ = .error (code, kcp) := by
      rw [enough]
      simp only [inputLoop]
      rw [← enough, if_neg short]
      by_cases foreign : (decodeSeg data).conv ≠ kcp.conv
      · exact ⟨-1, by decide, if_pos foreign⟩
      · rw [if_neg foreign]
        rcases rejects.resolve_left foreign with long | unknown
        · exact ⟨-2, by decide, if_pos long⟩
        · rw [if_pos unknown]
          split
          · exact ⟨-2, by decide, rfl⟩
          · exact ⟨-3, by decide, rfl⟩
    obtain ⟨code, negative, ended⟩ := first
    rw [ikcpInput, if_neg short, ended]
    exact ⟨negative, rfl⟩

/-- The datagram is too short, has another opcode, or a payload that is rejected. -/
def CarriesNothing (kcp : Ikcpcb) (data : List UInt8) (size : Nat) : Prop :=
  size < 24 ∨
    (data.getD 0 0 ≠ opcodeData ∧ data.getD 0 0 ≠ opcodeKeepalive ∧
      data.getD 0 0 ≠ opcodeDisconnect) ∨
    (data.getD 0 0 = opcodeData ∧ HeaderRejected kcp (data.drop 1) (size - 1))

/-- The state, the receive time, the control block and the pending operations. -/
structure Unchanged (l l' : Local) : Prop where
  state : l'.conn.state = l.conn.state
  nowTick : l'.conn.nowTick = l.conn.nowTick
  obj : l'.conn.obj = l.conn.obj
  readOp : l'.conn.readOp = l.conn.readOp
  writeOp : l'.conn.writeOp = l.conn.writeOp

/-- A poll takes no message for the pending read, and does not end it. -/
def readBlocked (l : Local) : Prop :=
  match l.conn.readOp with
  | none => True
  | some (.readSome _ size) => Passive l.conn.obj (narrow size)
  | some (.read _ buffer need) =>
      (l.env.streambufs buffer).data.length + 2048 ≤ (l.env.streambufs buffer).maxSize ∧
        Refused l.conn.obj 2048 ∧ (l.env.streambufs buffer).data.length < need

/-- A datagram that carries nothing changes nothing here: it is too short for any
header, or the connection is past idle and has just taken this very time, and for
an opcode of data both pending operations have nothing to do. -/
def Insensitive (l : Local) (data : List UInt8) (size : Nat) (t : Int) : Prop :=
  size < 24 ∨ (l.conn.state ≠ .idle ∧ l.conn.nowTick = t ∧
    (data.getD 0 0 = opcodeData → readBlocked l ∧ writeStalled l))

/-! ## The poll -/

/-- One round of the loop of `read_op::do_complete`, for the control block. -/
theorem drained_same_iff (l : Local) (buffer : Nat) :
    ((l.drained buffer).2.2.2 = false ∧ (l.drained buffer).1 = l.conn.obj) ↔
      (l.env.streambufs buffer).data.length + 2048 ≤ (l.env.streambufs buffer).maxSize ∧
        Refused l.conn.obj 2048 := by
  have passive := @passive_iff l.conn.obj 2048
  have large : ¬(2048 : Int) < 0 := by decide
  simp only [Passive, large, false_and, or_false] at passive
  rcases drained_cases l buffer with ⟨full, threw⟩ | ⟨some, moved⟩ |
      ⟨fits, nothing, kept, _, _, obj⟩
  · rw [threw]
    constructor
    · rintro ⟨kept, _⟩
      cases kept
    · rintro ⟨fits, _⟩
      omega
  · constructor
    · rintro ⟨_, same⟩
      have stream := (drain_received (drainFuel l.conn.obj) l.conn.obj (l.env.streambufs buffer)).1
      change payload l.conn.obj.received =
        (l.drained buffer).2.2.1 ++ payload (l.drained buffer).1.received at stream
      rw [same] at stream
      exact absurd (List.self_eq_append_left.mp stream) moved
    · rintro ⟨_, refused⟩
      have negative := ikcpRecv_negative_iff.mpr refused
      omega
  · rw [obj]
    constructor
    · rintro ⟨_, same⟩
      exact ⟨fits, passive.mp ⟨nothing, same⟩⟩
    · rintro ⟨_, refused⟩
      exact ⟨kept, (passive.mpr refused).2⟩

theorem drained_content {l : Local} {buffer : Nat}
    (fits : (l.env.streambufs buffer).data.length + 2048 ≤ (l.env.streambufs buffer).maxSize)
    (refused : Refused l.conn.obj 2048) :
    (l.drained buffer).2.1 = l.env.streambufs buffer := by
  have negative := ikcpRecv_negative_iff.mpr refused
  rcases drained_cases l buffer with ⟨full, _⟩ | ⟨some, _⟩ | ⟨_, _, _, _, content, _⟩
  · omega
  · omega
  · exact content

theorem readBlocked_iff (l : Local) :
    readBlocked l ↔ l.ReadWaits ∧ l.polled.conn.obj = l.conn.obj := by
  unfold Local.ReadWaits readBlocked
  cases readOp : l.conn.readOp with
  | none => simp [polled_none readOp]
  | some op =>
      have only : (∀ other, some op = some other → (pollRead .success other l).1 = .pending) ↔
          (pollRead .success op l).1 = .pending := by simp
      rw [only, polled_some readOp]
      unfold pollRead
      rw [if_neg (by simp)]
      cases op with
      | readSome handler size =>
          dsimp only
          rw [← passive_iff]
          split_ifs with some
          · constructor
            · rintro ⟨none, _⟩
              omega
            · rintro ⟨pending, _⟩
              cases pending
          · exact ⟨fun passive => ⟨rfl, passive.2⟩, fun same => ⟨by omega, same.2⟩⟩
      | read handler buffer need =>
          dsimp only
          have drained := drained_same_iff l buffer
          split_ifs with threw enough
          · constructor
            · rintro ⟨fits, refused, _⟩
              have kept := (drained.mpr ⟨fits, refused⟩).1
              rw [threw] at kept
              cases kept
            · rintro ⟨pending, _⟩
              cases pending
          · constructor
            · rintro ⟨fits, refused, short⟩
              rw [drained_content fits refused] at enough
              omega
            · rintro ⟨pending, _⟩
              cases pending
          · constructor
            · rintro ⟨fits, refused, _⟩
              exact ⟨rfl, (drained.mpr ⟨fits, refused⟩).2⟩
            · rintro ⟨_, same⟩
              obtain ⟨fits, refused⟩ := drained.mp ⟨Bool.not_eq_true _ ▸ threw, same⟩
              rw [drained_content fits refused] at enough
              exact ⟨fits, refused, by omega⟩

/-- The code returns, and has changed nothing since `l`. -/
def Leaves (l : Local) (p : Prog Local Unit) : Prop := ∃ l', p = .ret l' () ∧ Unchanged l l'

/-- The poll changes nothing exactly when both operations have nothing to do. -/
theorem checkReadOp_leaves_iff (l : Local) :
    Leaves l (checkReadOp .success l) ↔ readBlocked l ∧ writeStalled l := by
  have kept := checkReadOp_kept_iff l
  have keeps := checkReadOp_keeps .success l
  rw [readBlocked_iff]
  constructor
  · rintro ⟨l', returned, unchanged⟩
    rw [returned] at kept
    obtain ⟨waits, stalled⟩ := kept.mp ⟨unchanged.readOp, unchanged.writeOp⟩
    have obj := unchanged.obj
    rw [checkReadOp_waits waits stalled] at returned
    cases returned
    exact ⟨⟨waits, obj⟩, stalled⟩
  · rintro ⟨⟨waits, obj⟩, stalled⟩
    obtain ⟨readOp, writeOp⟩ := kept.mpr ⟨waits, stalled⟩
    have returned := checkReadOp_waits waits stalled
    rw [returned] at keeps readOp writeOp
    exact ⟨l.polled, returned, keeps.1, keeps.2, obj, readOp, writeOp⟩

/-! ## The datagram -/

section Receive
variable {l : Local} {data : List UInt8} {size : Nat} {t : Int}

theorem onReceive_leaves_iff (nothing : CarriesNothing l.conn.obj data size) :
    Leaves l (onReceive data size t l) ↔ Insensitive l data size t := by
  rw [onReceive_eq, Insensitive]
  by_cases short : size < 24
  · rw [if_pos short]
    exact ⟨fun _ => Or.inl short, fun _ => ⟨l, rfl, rfl, rfl, rfl, rfl, rfl⟩⟩
  · rw [if_neg short]
    rcases nothing.resolve_left short with ⟨notData, _, notDisconnect⟩ | ⟨isData, rejected⟩
    · rw [if_neg notData, if_neg notDisconnect, received_touched short notData]
      constructor
      · rintro ⟨l', returned, unchanged⟩
        cases returned
        exact Or.inr ⟨(touched_state_iff l t).mp unchanged.state, unchanged.nowTick.symm,
          fun isData => absurd isData notData⟩
      · rintro (isShort | ⟨active, tick, _⟩)
        · exact absurd isShort short
        · exact ⟨_, rfl, (touched_state_iff l t).mpr active, tick.symm, rfl, rfl, rfl⟩
    · rw [if_pos isData, received_unfed short isData (ikcpInput_rejected rejected).2]
      have poll := checkReadOp_leaves_iff (l.unfed t)
      have keeps := checkReadOp_keeps .success (l.unfed t)
      constructor
      · rintro ⟨l', returned, unchanged⟩
        rw [returned] at keeps
        have blocked := poll.mp ⟨l', returned, keeps.1, keeps.2, unchanged.obj, unchanged.readOp,
          unchanged.writeOp⟩
        exact Or.inr ⟨(touched_state_iff l t).mp (keeps.1.symm.trans unchanged.state),
          (keeps.2.symm.trans unchanged.nowTick).symm, fun _ => blocked⟩
      · rintro (isShort | ⟨active, tick, stalled⟩)
        · exact absurd isShort short
        · obtain ⟨l', returned, within⟩ := poll.mpr (stalled isData)
          exact ⟨l', returned, within.state.trans ((touched_state_iff l t).mpr active),
            within.nowTick.trans tick.symm, within.obj, within.readOp, within.writeOp⟩

end Receive

theorem returned_of_idle {p : Prog Local Unit} (idle : (Config.enter [] p).Idle) :
    p = .ret p.state () := by
  obtain ⟨empty, running⟩ := idle
  cases p with
  | ret l a => rfl
  | throw l => cases running
  | invoke l back unwound => cases empty
  | ask l back => cases running

/-- Of the datagrams that carry nothing, `on_receive` ignores exactly those that
meet an insensitive connection. -/
theorem unrecognised_ignored_iff {c c' : Config Local} {data : List UInt8} {size : Nat} {t : Int}
    (nothing : CarriesNothing c.state.conn.obj data size)
    (stepped : connectionSystem.step c (.event (.onReceive data size t)) = some c') :
    (c'.Idle ∧ Unchanged c.state c'.state) ↔ Insensitive c.state data size t := by
  obtain ⟨_, rfl⟩ := step_event stepped
  rw [← onReceive_leaves_iff nothing]
  constructor
  · rintro ⟨idle, unchanged⟩
    rw [enter_state] at unchanged
    exact ⟨_, returned_of_idle idle, unchanged⟩
  · rintro ⟨l', returned, unchanged⟩
    have ended : Config.enter [] (connectionSystem.event (.onReceive data size t) c.state) =
        .idle l' := congrArg (Config.enter []) returned
    rw [ended]
    exact ⟨⟨rfl, rfl⟩, unchanged⟩

/-- An opened connection has heard a keepalive at time 0, and then hears zeros. -/
theorem unrecognised_ignored_zeros : ∃ c c',
    connectionSystem.run (serverStart 8 loopback 0 noStreambufs)
      [.event (.onReceive keepalive 24 0)] = some c ∧ c.state.conn.state = .opened ∧
    connectionSystem.step c (.event (.onReceive (List.replicate 24 0) 24 0)) = some c' ∧
    c'.Idle ∧ Unchanged c.state c'.state := by
  obtain ⟨c, ran, checked⟩ := run_checked connectionSystem (serverStart 8 loopback 0 noStreambufs)
    [.event (.onReceive keepalive 24 0)]
    (fun c => c.isIdle && decide (c.state.conn.state = .opened ∧ c.state.conn.nowTick = 0))
    (by decide)
  obtain ⟨isIdle, shape⟩ := Bool.and_eq_true_iff.mp checked
  obtain ⟨opened, tick⟩ := of_decide_eq_true shape
  have idle := (idle_of_isIdle isIdle).eq
  have nothing : CarriesNothing c.state.conn.obj (List.replicate 24 0) 24 :=
    Or.inr (Or.inl (by decide))
  have stepped : ∃ c', connectionSystem.step c
      (.event (.onReceive (List.replicate 24 0) 24 0)) = some c' := by
    rw [idle]
    exact ⟨_, rfl⟩
  obtain ⟨c', stepped⟩ := stepped
  have notData : ¬ (List.replicate 24 (0 : UInt8)).getD 0 0 = opcodeData := by decide
  refine ⟨c, c', ran, opened, stepped, (unrecognised_ignored_iff nothing stepped).mpr ?_⟩
  exact Or.inr ⟨by rw [opened]; decide, tick, fun isData => absurd isData notData⟩

/-- A datagram of 24 zero bytes opens a connection that has received nothing. -/
theorem zeros_open_connection :
    ∃ c', CarriesNothing (serverStart 8 loopback 0 noStreambufs).state.conn.obj
        (List.replicate 24 0) 24 ∧
      connectionSystem.step (serverStart 8 loopback 0 noStreambufs)
        (.event (.onReceive (List.replicate 24 0) 24 5)) = some c' ∧
      (serverStart 8 loopback 0 noStreambufs).state.conn.state = .idle ∧
      c'.state.conn.state = .opened ∧ c'.state.conn.nowTick = 5 ∧
      ¬(c'.Idle ∧ Unchanged (serverStart 8 loopback 0 noStreambufs).state c'.state) := by
  refine ⟨_, Or.inr (Or.inl (by decide)), rfl, rfl, rfl, rfl, ?_⟩
  rintro ⟨_, unchanged⟩
  cases unchanged.state

end AsioKcp
