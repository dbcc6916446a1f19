import AsioKcp.Ikcp.Offers

/-! # The congestion window without congestion control

With `nocwnd` set, `ikcp_input` and `ikcp_flush` still keep `cwnd`, `ssthresh` and
`incr` up to date, and nothing else ever depends on them. -/
set_option autoImplicit false

namespace AsioKcp.Ikcp

structure Congestion where
  ssthresh : UInt32
  cwnd : UInt32
  incr : UInt32

@[simps] def Ikcpcb.congested (g : Congestion) (kcp : Ikcpcb) : Ikcpcb :=
  { kcp with ssthresh := g.ssthresh, cwnd := g.cwnd, incr := g.incr }

section Congestion
variable (g : Congestion) (kcp : Ikcpcb)

theorem sendExtend_congested (buffer : List UInt8) : sendExtend (kcp.congested g) buffer =
    ((sendExtend kcp buffer).1.congested g, (sendExtend kcp buffer).2) := by
  simp only [sendExtend, Ikcpcb.congested_sndQueue, Ikcpcb.congested_mss]
  cases kcp.sndQueue.getLast? with
  | none => rfl
  | some old =>
      dsimp only
      split <;> rfl

theorem ikcpSend_congested (buffer : List UInt8) (len : Int) :
    ikcpSend (kcp.congested g) buffer len =
      ((ikcpSend kcp buffer len).1, (ikcpSend kcp buffer len).2.congested g) := by
  have extended := sendExtend_congested g kcp (buffer.take len.toNat)
  simp only [ikcpSend, Ikcpcb.congested_stream, extended]
  by_cases streams : kcp.stream = 0
  · simp only [streams, ne_eq, not_true_eq_false, if_false, Ikcpcb.congested_stream,
      Ikcpcb.congested_mss]
    split_ifs <;> rfl
  · simp only [streams, ne_eq, not_false_eq_true, if_true, Ikcpcb.congested_stream,
      Ikcpcb.congested_mss]
    split_ifs <;> rfl

theorem moveToRcvQueue_congested (segs : List IkcpSeg) :
    moveToRcvQueue segs (kcp.congested g) = (moveToRcvQueue segs kcp).congested g := by
  induction segs generalizing kcp with
  | nil => rfl
  | cons seg rest ih =>
      simp only [moveToRcvQueue, Ikcpcb.congested_rcvNxt, Ikcpcb.congested_nrcvQue,
        Ikcpcb.congested_rcvWnd]
      split
      · exact ih { kcp with
          nrcvBuf := kcp.nrcvBuf - 1
          rcvQueue := kcp.rcvQueue ++ [seg]
          nrcvQue := kcp.nrcvQue + 1
          rcvNxt := kcp.rcvNxt + 1 }
      · rfl

theorem ikcpRecv_congested (len : Int) : ikcpRecv (kcp.congested g) len =
    ((ikcpRecv kcp len).1, (ikcpRecv kcp len).2.1, (ikcpRecv kcp len).2.2.congested g) := by
  have peek : ikcpPeeksize (kcp.congested g) = ikcpPeeksize kcp := rfl
  have asks : ∀ (k : Ikcpcb) (p : Prop) [Decidable p],
      (if (k.congested g).nrcvQue < (k.congested g).rcvWnd ∧ p then
        { k.congested g with probe := (k.congested g).probe ||| ikcpAskTell } else k.congested g) =
      (if k.nrcvQue < k.rcvWnd ∧ p then
        { k with probe := k.probe ||| ikcpAskTell } else k).congested g := by
    intro k p _
    simp only [Ikcpcb.congested_nrcvQue, Ikcpcb.congested_rcvWnd]
    split <;> rfl
  have taken : (if len < 0 then kcp.congested g else
      { kcp.congested g with
        rcvQueue := (kcp.congested g).rcvQueue.drop (firstMessage (kcp.congested g).rcvQueue).length
        nrcvQue := (kcp.congested g).nrcvQue -
          UInt32.ofNat (firstMessage (kcp.congested g).rcvQueue).length }) =
      (if len < 0 then kcp else
        { kcp with
          rcvQueue := kcp.rcvQueue.drop (firstMessage kcp.rcvQueue).length
          nrcvQue := kcp.nrcvQue - UInt32.ofNat (firstMessage kcp.rcvQueue).length }).congested g := by
    split <;> rfl
  unfold ikcpRecv
  dsimp only
  rw [taken, Ikcpcb.congested_rcvBuf, moveToRcvQueue_congested, asks, peek,
    Ikcpcb.congested_rcvQueue, Ikcpcb.congested_nrcvQue, Ikcpcb.congested_rcvWnd]
  split_ifs <;> rfl

theorem ikcpParseData_congested (seg : IkcpSeg) :
    ikcpParseData (kcp.congested g) seg = (ikcpParseData kcp seg).congested g := by
  simp only [ikcpParseData, Ikcpcb.congested_rcvNxt, Ikcpcb.congested_rcvWnd,
    Ikcpcb.congested_rcvBuf]
  split
  · rfl
  · cases insertFromBack seg kcp.rcvBuf.reverse with
    | none => exact moveToRcvQueue_congested g kcp kcp.rcvBuf
    | some reversed =>
        exact moveToRcvQueue_congested g
          { kcp with rcvBuf := reversed.reverse, nrcvBuf := kcp.nrcvBuf + 1 } reversed.reverse

theorem ikcpShrinkBuf_congested :
    ikcpShrinkBuf (kcp.congested g) = (ikcpShrinkBuf kcp).congested g := by
  simp only [ikcpShrinkBuf, Ikcpcb.congested_sndBuf]
  split <;> rfl

theorem ikcpParseAck_congested (sn : UInt32) :
    ikcpParseAck (kcp.congested g) sn = (ikcpParseAck kcp sn).congested g := by
  simp only [ikcpParseAck, Ikcpcb.congested_sndUna, Ikcpcb.congested_sndNxt]
  split <;> rfl

theorem ikcpParseFastack_congested (sn : UInt32) :
    ikcpParseFastack (kcp.congested g) sn = (ikcpParseFastack kcp sn).congested g := by
  simp only [ikcpParseFastack, Ikcpcb.congested_sndUna, Ikcpcb.congested_sndNxt]
  split <;> rfl

theorem inputHeader_congested (seg : IkcpSeg) :
    inputHeader (kcp.congested g) seg = (inputHeader kcp seg).congested g :=
  ikcpShrinkBuf_congested g (ikcpParseUna { kcp with rmtWnd := seg.wnd } seg.una)

theorem inputAck_congested (seg : IkcpSeg) :
    inputAck (kcp.congested g) seg = (inputAck kcp seg).congested g := by
  have counted : (if itimediff (kcp.congested g).current seg.ts ≥ 0 then
      ikcpUpdateAck (kcp.congested g) (Int32.ofInt (itimediff (kcp.congested g).current seg.ts))
      else kcp.congested g) =
      (if itimediff kcp.current seg.ts ≥ 0 then
        ikcpUpdateAck kcp (Int32.ofInt (itimediff kcp.current seg.ts)) else kcp).congested g := by
    rw [Ikcpcb.congested_current]
    split <;> rfl
  unfold inputAck
  dsimp only
  rw [counted, ikcpParseAck_congested, ikcpShrinkBuf_congested]

theorem inputPush_congested (seg : IkcpSeg) :
    inputPush (kcp.congested g) seg = (inputPush kcp seg).congested g := by
  have parsed := ikcpParseData_congested g (ikcpAckPush kcp seg.sn seg.ts) seg
  have acked : ikcpAckPush (kcp.congested g) seg.sn seg.ts =
      (ikcpAckPush kcp seg.sn seg.ts).congested g := rfl
  unfold inputPush
  dsimp only
  rw [acked, parsed]
  simp only [Ikcpcb.congested_rcvNxt, Ikcpcb.congested_rcvWnd]
  split_ifs <;> rfl

theorem inputKcp_congested (seg : IkcpSeg) :
    inputKcp (kcp.congested g) seg = (inputKcp kcp seg).congested g := by
  unfold inputKcp
  dsimp only
  rw [inputHeader_congested, inputAck_congested, inputPush_congested]
  split_ifs <;> rfl

/-! ## `ikcp_input` -/

def InputState.congested (state : InputState) : InputState :=
  { state with kcp := state.kcp.congested g }

theorem inputSegment_congested (state : InputState) (seg : IkcpSeg) :
    inputSegment (state.congested g) seg = (inputSegment state seg).congested g :=
  congrArg (InputState.mk · _ _) (inputKcp_congested g state.kcp seg)

theorem inputLoop_congested (fuel : Nat) :
    ∀ (data : List UInt8) (size : Nat) (state : InputState), inputLoop fuel data size (state.congested g) =
      match inputLoop fuel data size state with
      | .ok after => .ok (after.congested g)
      | .error (code, kcp) => .error (code, kcp.congested g) := by
  induction fuel with
  | zero => exact fun _ _ _ => rfl
  | succ fuel ih =>
      intro data size state
      have conv : (state.congested g).kcp.conv = state.kcp.conv := rfl
      simp only [inputLoop, conv, inputSegment_congested, ih]
      split_ifs <;> rfl

theorem ikcpInput_congested (data : List UInt8) (size : Nat) : ∃ g',
    ikcpInput (kcp.congested g) data size =
      ((ikcpInput kcp data size).1, (ikcpInput kcp data size).2.congested g') := by
  have looped := inputLoop_congested g size data size ⟨kcp, false, 0⟩
  unfold ikcpInput
  by_cases short : size < ikcpOverhead
  · rw [if_pos short, if_pos short]
    exact ⟨g, rfl⟩
  · rw [if_neg short, if_neg short,
      show inputLoop size data size ⟨kcp.congested g, false, 0⟩ = _ from looped]
    cases inputLoop size data size ⟨kcp, false, 0⟩ with
    | error failure => exact ⟨g, rfl⟩
    | ok state =>
        have same : (if (state.congested g).flag then
            ikcpParseFastack (state.congested g).kcp (state.congested g).maxack
            else (state.congested g).kcp) =
            (if state.flag then ikcpParseFastack state.kcp state.maxack
            else state.kcp).congested g := by
          simp only [InputState.congested, ikcpParseFastack_congested]
          split <;> rfl
        dsimp only
        rw [same]
        exact ⟨⟨g.ssthresh, _, _⟩, rfl⟩

/-! ## `ikcp_flush` -/

theorem moveToSndBuf_congested (cwnd wnd : UInt32) (segs : List IkcpSeg) :
    moveToSndBuf cwnd wnd segs (kcp.congested g) =
      (moveToSndBuf cwnd wnd segs kcp).congested g := by
  induction segs generalizing kcp with
  | nil => rfl
  | cons newseg rest ih =>
      simp only [moveToSndBuf, Ikcpcb.congested_sndNxt, Ikcpcb.congested_sndUna]
      split
      · exact ih { kcp with
          sndBuf := _
          nsndQue := kcp.nsndQue - 1
          nsndBuf := kcp.nsndBuf + 1
          sndNxt := kcp.sndNxt + 1 }
      · rfl

theorem flushCwnd_congested (nocwnd : kcp.nocwnd ≠ 0) :
    flushCwnd (kcp.congested g) = flushCwnd kcp := by
  simp only [flushCwnd, Ikcpcb.congested_nocwnd, if_neg nocwnd, Ikcpcb.congested_sndWnd,
    Ikcpcb.congested_rmtWnd]

theorem flushMoved_congested (nocwnd : kcp.nocwnd ≠ 0) :
    flushMoved (kcp.congested g) = (flushMoved kcp).congested g := by
  have moved := moveToSndBuf_congested g { flushProbed kcp with probe := 0 }
  have window := flushCwnd_congested g { flushProbed kcp with probe := 0 } nocwnd
  change moveToSndBuf (flushCwnd (Ikcpcb.congested g { flushProbed kcp with probe := 0 }))
    (ikcpWndUnused kcp) kcp.sndQueue (Ikcpcb.congested g { flushProbed kcp with probe := 0 }) = _
  rw [window]
  exact moved _ _ _

theorem flushData_congested (wnd : UInt32) (segs : List IkcpSeg) (out : Output) :
    flushData (kcp.congested g) wnd segs out = flushData kcp wnd segs out := by
  induction segs generalizing out with
  | nil => rfl
  | cons seg rest ih => exact ih _

theorem ikcpFlush_congested (nocwnd : kcp.nocwnd ≠ 0) : ∃ g', ikcpFlush (kcp.congested g) =
    ((ikcpFlush kcp).1.congested g', (ikcpFlush kcp).2) := by
  have moved := flushMoved_congested g kcp nocwnd
  unfold ikcpFlush
  by_cases fresh : kcp.updated = 0
  · rw [if_pos fresh, if_pos (show (kcp.congested g).updated = 0 from fresh)]
    exact ⟨g, rfl⟩
  · rw [if_neg fresh, if_neg (show ¬ (kcp.congested g).updated = 0 from fresh)]
    dsimp only
    rw [moved, flushData_congested]
    exact ⟨⟨_, _, _⟩, rfl⟩

theorem updateReady_congested (now : UInt32) :
    updateReady (kcp.congested g) now = (updateReady kcp now).map (Ikcpcb.congested g) := by
  simp only [updateReady, Ikcpcb.congested_updated, Ikcpcb.congested_tsFlush,
    Ikcpcb.congested_interval]
  split_ifs <;> rfl

theorem ikcpUpdate_congested (nocwnd : kcp.nocwnd ≠ 0) (now : UInt32) : ∃ g',
    ikcpUpdate (kcp.congested g) now =
      ((ikcpUpdate kcp now).1.congested g', (ikcpUpdate kcp now).2) := by
  rw [ikcpUpdate_eq, ikcpUpdate_eq, updateReady_congested]
  cases isReady : updateReady kcp now with
  | none => exact ⟨g, rfl⟩
  | some ready =>
      obtain ⟨tsFlush, updated, shape⟩ := updateReady_retimed isReady
      apply ikcpFlush_congested
      rw [shape]
      exact nocwnd

theorem ikcpCheck_congested (now : UInt32) : ikcpCheck (kcp.congested g) now = ikcpCheck kcp now :=
  rfl

end Congestion

end AsioKcp.Ikcp
