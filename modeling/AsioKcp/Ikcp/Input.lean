import AsioKcp.Ikcp.Recv

/-! # `ikcp_input`

The input is the memory from the data pointer on together with the `size` the
caller names: a read past `size` is visible as a read of the bytes behind. -/
set_option autoImplicit false

namespace AsioKcp.Ikcp

open AsioKcp.Bytes

/-- The smoothed times of `ikcp_update_ack`: the new `rx_srtt` and `rx_rttval`.
The source computes `delta` and the sum it enters as `long`. -/
def smoothedRtt (kcp : Ikcpcb) (rtt : Int32) : Int32 × Int32 :=
  if kcp.rxSrtt = 0 then (rtt, rtt / 2)
  else
    let delta := (rtt - kcp.rxSrtt).toInt
    let delta := if delta < 0 then -delta else delta
    let srtt := (7 * kcp.rxSrtt + rtt) / 8
    (if srtt < 1 then 1 else srtt,
      Int32.ofInt (((3 * kcp.rxRttval).toInt + delta).tdiv 4))

def ikcpUpdateAck (kcp : Ikcpcb) (rtt : Int32) : Ikcpcb :=
  let srtt := (smoothedRtt kcp rtt).1
  let rttval := (smoothedRtt kcp rtt).2
  let rto := srtt.toUInt32 + imax kcp.interval (4 * rttval).toUInt32
  { kcp with
    rxSrtt := srtt
    rxRttval := rttval
    rxRto := (ibound kcp.rxMinrto.toUInt32 rto ikcpRtoMax).toInt32 }

def ikcpShrinkBuf (kcp : Ikcpcb) : Ikcpcb :=
  match kcp.sndBuf with
  | seg :: _ => { kcp with sndUna := seg.sn }
  | [] => { kcp with sndUna := kcp.sndNxt }

/-- The loop of `ikcp_parse_ack`: `snd_buf` without the segment `sn`. -/
def removeAcked (sn : UInt32) : List IkcpSeg → List IkcpSeg
  | [] => []
  | seg :: rest =>
      if sn = seg.sn then rest
      else if itimediff sn seg.sn < 0 then seg :: rest
      else seg :: removeAcked sn rest

def ikcpParseAck (kcp : Ikcpcb) (sn : UInt32) : Ikcpcb :=
  if itimediff sn kcp.sndUna < 0 ∨ itimediff sn kcp.sndNxt ≥ 0 then kcp
  else
    let left := removeAcked sn kcp.sndBuf
    { kcp with
      sndBuf := left
      nsndBuf := kcp.nsndBuf - UInt32.ofNat (kcp.sndBuf.length - left.length) }

def ikcpParseUna (kcp : Ikcpcb) (una : UInt32) : Ikcpcb :=
  let left := kcp.sndBuf.dropWhile fun seg => itimediff una seg.sn > 0
  { kcp with
    sndBuf := left
    nsndBuf := kcp.nsndBuf - UInt32.ofNat (kcp.sndBuf.length - left.length) }

/-- The loop of `ikcp_parse_fastack`. -/
def countFastack (sn : UInt32) : List IkcpSeg → List IkcpSeg
  | [] => []
  | seg :: rest =>
      if itimediff sn seg.sn < 0 then seg :: rest
      else if sn ≠ seg.sn then { seg with fastack := seg.fastack + 1 } :: countFastack sn rest
      else seg :: countFastack sn rest

def ikcpParseFastack (kcp : Ikcpcb) (sn : UInt32) : Ikcpcb :=
  if itimediff sn kcp.sndUna < 0 ∨ itimediff sn kcp.sndNxt ≥ 0 then kcp
  else { kcp with sndBuf := countFastack sn kcp.sndBuf }

def ikcpAckPush (kcp : Ikcpcb) (sn ts : UInt32) : Ikcpcb :=
  { kcp with acklist := kcp.acklist ++ [(sn, ts)] }

/-- The locals of `ikcp_input` that live across its loop; `latest_ts` is left
out, since only the `IKCP_FASTACK_CONSERVE` build reads it. -/
structure InputState where
  kcp : Ikcpcb
  flag : Bool
  maxack : UInt32

/-- What every segment does: `kcp->rmt_wnd = wnd` and the cumulative ack. -/
def inputHeader (kcp : Ikcpcb) (seg : IkcpSeg) : Ikcpcb :=
  ikcpShrinkBuf (ikcpParseUna { kcp with rmtWnd := seg.wnd } seg.una)

def inputAck (kcp : Ikcpcb) (seg : IkcpSeg) : Ikcpcb :=
  let kcp := if itimediff kcp.current seg.ts ≥ 0 then
    ikcpUpdateAck kcp (Int32.ofInt (itimediff kcp.current seg.ts)) else kcp
  ikcpShrinkBuf (ikcpParseAck kcp seg.sn)

def inputPush (kcp : Ikcpcb) (seg : IkcpSeg) : Ikcpcb :=
  if itimediff seg.sn (kcp.rcvNxt + kcp.rcvWnd) < 0 then
    let kcp := ikcpAckPush kcp seg.sn seg.ts
    if itimediff seg.sn kcp.rcvNxt ≥ 0 then ikcpParseData kcp seg else kcp
  else kcp

/-- What one decoded segment does to the control block, from
`kcp->rmt_wnd = wnd` to the end of the loop body. -/
def inputKcp (kcp : Ikcpcb) (seg : IkcpSeg) : Ikcpcb :=
  let kcp := inputHeader kcp seg
  if seg.cmd = ikcpCmdAck then inputAck kcp seg
  else if seg.cmd = ikcpCmdPush then inputPush kcp seg
  else if seg.cmd = ikcpCmdWask then { kcp with probe := kcp.probe ||| ikcpAskTell }
  else kcp

def inputSegment (state : InputState) (seg : IkcpSeg) : InputState where
  kcp := inputKcp state.kcp seg
  flag := state.flag || seg.cmd = ikcpCmdAck
  maxack :=
    if seg.cmd = ikcpCmdAck ∧ (state.flag = false ∨ itimediff seg.sn state.maxack > 0) then
      seg.sn else state.maxack

/-- The header at the front of `data`, with the payload of the length it names. -/
def decodeSeg (data : List UInt8) : IkcpSeg :=
  let len := read32 (data.drop 20)
  { ikcpSegmentNew (data.getD 5 0).toUInt32 ((data.drop ikcpOverhead).take len.toNat) with
    conv := read32 data
    cmd := (data.getD 4 0).toUInt32
    wnd := (read16 (data.drop 6)).toUInt32
    ts := read32 (data.drop 8)
    sn := read32 (data.drop 12)
    una := read32 (data.drop 16) }

/-- The `while (1)` loop.  Each round takes at least a header, so a fuel of
`size` rounds is never used up before `size` is below `IKCP_OVERHEAD`. -/
def inputLoop : Nat → List UInt8 → Nat → InputState → Except (Int × Ikcpcb) InputState
  | 0, _, _, state => .ok state
  | fuel + 1, data, size, state =>
      if size < ikcpOverhead then .ok state
      else
        let seg := decodeSeg data
        let len := (read32 (data.drop 20)).toNat
        let size := size - ikcpOverhead
        if seg.conv ≠ state.kcp.conv then .error (-1, state.kcp)
        else if size < len ∨ len ≥ 2 ^ 31 then .error (-2, state.kcp)
        else if seg.cmd ≠ ikcpCmdPush ∧ seg.cmd ≠ ikcpCmdAck ∧
            seg.cmd ≠ ikcpCmdWask ∧ seg.cmd ≠ ikcpCmdWins then .error (-3, state.kcp)
        else
          inputLoop fuel (data.drop (ikcpOverhead + len)) (size - len)
            (inputSegment state seg)

/-- The congestion window update at the end of `ikcp_input`: the new `cwnd`
and `incr`. -/
def acknowledgedCwnd (prevUna : UInt32) (kcp : Ikcpcb) : UInt32 × UInt32 :=
  if itimediff kcp.sndUna prevUna > 0 ∧ kcp.cwnd < kcp.rmtWnd then
    let mss := kcp.mss
    let grown := if kcp.cwnd < kcp.ssthresh then (kcp.cwnd + 1, kcp.incr + mss)
      else
        let incr := if kcp.incr < mss then mss else kcp.incr
        let incr := incr + (mss * mss) / incr + mss / 16
        (if (kcp.cwnd + 1) * mss ≤ incr then
          (incr + mss - 1) / (if mss > 0 then mss else 1) else kcp.cwnd, incr)
    if grown.1 > kcp.rmtWnd then (kcp.rmtWnd, kcp.rmtWnd * mss) else grown
  else (kcp.cwnd, kcp.incr)

def inputCwnd (prevUna : UInt32) (kcp : Ikcpcb) : Ikcpcb :=
  { kcp with
    cwnd := (acknowledgedCwnd prevUna kcp).1
    incr := (acknowledgedCwnd prevUna kcp).2 }

/-- For a size that an `int` holds. -/
def ikcpInput (kcp : Ikcpcb) (data : List UInt8) (size : Nat) : Int × Ikcpcb :=
  if size < ikcpOverhead then (-1, kcp)
  else
    match inputLoop size data size ⟨kcp, false, 0⟩ with
    | .error (code, kcp) => (code, kcp)
    | .ok state =>
        let after := if state.flag then ikcpParseFastack state.kcp state.maxack else state.kcp
        (0, inputCwnd kcp.sndUna after)

@[simp] theorem ikcpShrinkBuf_params (kcp : Ikcpcb) :
    (ikcpShrinkBuf kcp).params = kcp.params := by
  unfold ikcpShrinkBuf
  split <;> rfl

@[simp] theorem ikcpParseAck_params (kcp : Ikcpcb) (sn : UInt32) :
    (ikcpParseAck kcp sn).params = kcp.params := by
  unfold ikcpParseAck
  split <;> rfl

@[simp] theorem inputHeader_params (kcp : Ikcpcb) (seg : IkcpSeg) :
    (inputHeader kcp seg).params = kcp.params := by
  rw [inputHeader, ikcpShrinkBuf_params]
  rfl

@[simp] theorem inputAck_params (kcp : Ikcpcb) (seg : IkcpSeg) :
    (inputAck kcp seg).params = kcp.params := by
  rw [inputAck, ikcpShrinkBuf_params, ikcpParseAck_params]
  split <;> rfl

/-- A push touches the receive side and the ack list only. -/
theorem inputPush_keeps {α : Type} (f : Ikcpcb → α) (blind : ∀ kcp, f kcp.unreceived = f kcp)
    (acks : ∀ kcp sn ts, f (ikcpAckPush kcp sn ts) = f kcp) (kcp : Ikcpcb) (seg : IkcpSeg) :
    f (inputPush kcp seg) = f kcp := by
  unfold inputPush
  split
  · dsimp only
    split
    · rw [ikcpParseData_keeps f blind, acks]
    · rw [acks]
  · rfl

@[simp] theorem inputPush_params (kcp : Ikcpcb) (seg : IkcpSeg) :
    (inputPush kcp seg).params = kcp.params :=
  inputPush_keeps Ikcpcb.params (fun _ => rfl) (fun _ _ _ => rfl) kcp seg

@[simp] theorem inputKcp_params (kcp : Ikcpcb) (seg : IkcpSeg) :
    (inputKcp kcp seg).params = kcp.params := by
  have header := inputHeader_params kcp seg
  unfold inputKcp
  dsimp only
  split_ifs
  · rw [inputAck_params, header]
  · rw [inputPush_params, header]
  · exact header
  · exact header

theorem inputLoop_params (fuel : Nat) (data : List UInt8) (size : Nat) (state : InputState) :
    (∀ code kcp, inputLoop fuel data size state = .error (code, kcp) →
      kcp.params = state.kcp.params) ∧
    (∀ last, inputLoop fuel data size state = .ok last →
      last.kcp.params = state.kcp.params) := by
  induction fuel generalizing data size state with
  | zero =>
      simp only [inputLoop]
      exact ⟨nofun, fun last done => by cases done; rfl⟩
  | succ fuel ih =>
      simp only [inputLoop]
      split_ifs
      · exact ⟨nofun, fun last done => by cases done; rfl⟩
      · exact ⟨fun code kcp failed => by cases failed; rfl, nofun⟩
      · exact ⟨fun code kcp failed => by cases failed; rfl, nofun⟩
      · exact ⟨fun code kcp failed => by cases failed; rfl, nofun⟩
      · rw [← inputKcp_params state.kcp (decodeSeg data)]
        exact ih _ _ _

@[simp] theorem ikcpInput_params (kcp : Ikcpcb) (data : List UInt8) (size : Nat) :
    (ikcpInput kcp data size).2.params = kcp.params := by
  have loop := inputLoop_params size data size ⟨kcp, false, 0⟩
  unfold ikcpInput
  split
  · rfl
  · split
    · rename_i code after failed
      exact loop.1 code after failed
    · rename_i last done
      have fastack : (ikcpParseFastack last.kcp last.maxack).params = last.kcp.params := by
        unfold ikcpParseFastack
        split <;> rfl
      rw [← loop.2 last done]
      change (if last.flag = true then _ else _ : Ikcpcb).params = _
      split
      · exact fastack
      · rfl

end AsioKcp.Ikcp
