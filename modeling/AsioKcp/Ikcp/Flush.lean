import AsioKcp.Ikcp.Control

/-! # `ikcp_flush`, `ikcp_update` and `ikcp_check`

The output callback of the wrapper never calls back into KCP, so a flush
returns the datagrams it hands to `ikcp_output`, in order, with the new control
block. -/
set_option autoImplicit false

namespace AsioKcp.Ikcp

open AsioKcp.Bytes

def ikcpEncodeSeg (seg : IkcpSeg) : List UInt8 :=
  le32 seg.conv ++ [seg.cmd.toUInt8, seg.frg.toUInt8] ++ le16 seg.wnd.toUInt16 ++
    le32 seg.ts ++ le32 seg.sn ++ le32 seg.una ++ le32 (UInt32.ofNat seg.data.length)

/-- The datagrams handed to `ikcp_output` so far, and the bytes between
`buffer` and `ptr`. -/
structure Output where
  datagrams : List (List UInt8)
  buffer : List UInt8

/-- `ikcp_output` of the buffered bytes, then `ptr = buffer`. -/
def ikcpOutput (out : Output) : Output :=
  if out.buffer.length = 0 then out else ⟨out.datagrams ++ [out.buffer], []⟩

/-- One segment appended at `ptr`, after an output when it does not fit. -/
def Output.put (mtu : UInt32) (out : Output) (seg : IkcpSeg) : Output :=
  let need := ikcpOverhead + seg.data.length
  let out := if out.buffer.length + need > mtu.toNat then ikcpOutput out else out
  { out with buffer := out.buffer ++ (ikcpEncodeSeg seg ++ seg.data) }

def ikcpWndUnused (kcp : Ikcpcb) : UInt32 :=
  if kcp.nrcvQue < kcp.rcvWnd then kcp.rcvWnd - kcp.nrcvQue else 0

/-- The stack segment of `ikcp_flush`, which acks and probes are encoded from. -/
def controlSeg (kcp : Ikcpcb) : IkcpSeg :=
  { ikcpSegmentNew 0 [] with
    conv := kcp.conv, cmd := ikcpCmdAck, wnd := ikcpWndUnused kcp, una := kcp.rcvNxt }

/-- `flush acknowledges`; the stack segment keeps the last `sn` and `ts`. -/
def flushAcks (mtu : UInt32) : List (UInt32 × UInt32) → IkcpSeg → Output → IkcpSeg × Output
  | [], seg, out => (seg, out)
  | (sn, ts) :: rest, seg, out =>
      let seg := { seg with sn := sn, ts := ts }
      flushAcks mtu rest seg (out.put mtu seg)

/-- `probe window size (if remote window size equals zero)`: the new
`probe_wait`, `ts_probe` and `probe`. -/
def windowProbe (kcp : Ikcpcb) : UInt32 × UInt32 × UInt32 :=
  if kcp.rmtWnd = 0 then
    if kcp.probeWait = 0 then (ikcpProbeInit, kcp.current + ikcpProbeInit, kcp.probe)
    else if itimediff kcp.current kcp.tsProbe ≥ 0 then
      let wait := if kcp.probeWait < ikcpProbeInit then ikcpProbeInit else kcp.probeWait
      let wait := wait + wait / 2
      let wait := if wait > ikcpProbeLimit then ikcpProbeLimit else wait
      (wait, kcp.current + wait, kcp.probe ||| ikcpAskSend)
    else (kcp.probeWait, kcp.tsProbe, kcp.probe)
  else (0, 0, kcp.probe)

def probeWindow (kcp : Ikcpcb) : Ikcpcb :=
  { kcp with
    probeWait := (windowProbe kcp).1
    tsProbe := (windowProbe kcp).2.1
    probe := (windowProbe kcp).2.2 }

/-- `flush window probing commands`, both of them. -/
def flushProbes (kcp : Ikcpcb) (seg : IkcpSeg) (out : Output) : Output :=
  let out := if kcp.probe &&& ikcpAskSend ≠ 0 then
    out.put kcp.mtu { seg with cmd := ikcpCmdWask } else out
  if kcp.probe &&& ikcpAskTell ≠ 0 then
    out.put kcp.mtu { seg with cmd := ikcpCmdWins } else out

/-- The send window that `ikcp_flush` computes into its local `cwnd`. -/
def flushCwnd (kcp : Ikcpcb) : UInt32 :=
  let cwnd := imin kcp.sndWnd kcp.rmtWnd
  if kcp.nocwnd = 0 then imin kcp.cwnd cwnd else cwnd

/-- `move data from snd_queue to snd_buf`; its argument is `snd_queue`. -/
def moveToSndBuf (cwnd wnd : UInt32) : List IkcpSeg → Ikcpcb → Ikcpcb
  | [], kcp => { kcp with sndQueue := [] }
  | newseg :: rest, kcp =>
      if itimediff kcp.sndNxt (kcp.sndUna + cwnd) < 0 then
        let seg := { newseg with
          conv := kcp.conv
          cmd := ikcpCmdPush
          wnd := wnd
          ts := kcp.current
          sn := kcp.sndNxt
          una := kcp.rcvNxt
          resendts := kcp.current
          rto := kcp.rxRto.toUInt32
          fastack := 0
          xmit := 0 }
        moveToSndBuf cwnd wnd rest { kcp with
          sndBuf := kcp.sndBuf ++ [seg]
          nsndQue := kcp.nsndQue - 1
          nsndBuf := kcp.nsndBuf + 1
          sndNxt := kcp.sndNxt + 1 }
      else { kcp with sndQueue := newseg :: rest }

/-- What the `flush data segments` loop decides for one segment. -/
inductive Transmit where
  | skip
  | first
  | timeout
  | fast
  deriving DecidableEq

def resent (kcp : Ikcpcb) : UInt32 :=
  if kcp.fastresend > 0 then UInt32.ofInt kcp.fastresend else 0xffffffff

def rtomin (kcp : Ikcpcb) : UInt32 :=
  if kcp.nodelay = 0 then (kcp.rxRto >>> 3).toUInt32 else 0

def transmit (kcp : Ikcpcb) (seg : IkcpSeg) : Transmit :=
  if seg.xmit = 0 then .first
  else if itimediff kcp.current seg.resendts ≥ 0 then .timeout
  else if seg.fastack ≥ resent kcp then
    if seg.xmit.toInt32.toInt ≤ kcp.fastlimit ∨ kcp.fastlimit ≤ 0 then .fast else .skip
  else .skip

/-- The segment after the loop body; a sent one also gets `ts`, `wnd`, `una`. -/
def flushSegment (kcp : Ikcpcb) (wnd : UInt32) (seg : IkcpSeg) : IkcpSeg :=
  let stamped := { seg with xmit := seg.xmit + 1, ts := kcp.current, wnd := wnd, una := kcp.rcvNxt }
  match transmit kcp seg with
  | .skip => seg
  | .first =>
      let rto := kcp.rxRto.toUInt32
      { stamped with rto := rto, resendts := kcp.current + rto + rtomin kcp }
  | .timeout =>
      let rto := if kcp.nodelay = 0 then seg.rto + imax seg.rto kcp.rxRto.toUInt32
        else
          let step := if kcp.nodelay < 2 then seg.rto.toInt32 else kcp.rxRto
          seg.rto + (step / 2).toUInt32
      { stamped with rto := rto, resendts := kcp.current + rto }
  | .fast => { stamped with fastack := 0, resendts := kcp.current + seg.rto }

/-- `flush data segments`: the output after `snd_buf` has been walked. -/
def flushData (kcp : Ikcpcb) (wnd : UInt32) : List IkcpSeg → Output → Output
  | [], out => out
  | seg :: rest, out =>
      flushData kcp wnd rest
        (if transmit kcp seg = .skip then out else out.put kcp.mtu (flushSegment kcp wnd seg))

/-- `update ssthresh`, with the local window `cwnd` and the flags of the walk:
the new `ssthresh`, `cwnd` and `incr`. -/
def congestion (kcp : Ikcpcb) (cwnd : UInt32) (change lost : Bool) : UInt32 × UInt32 × UInt32 :=
  let atLeast (n : UInt32) := if n < ikcpThreshMin then ikcpThreshMin else n
  let changed := if change then
      let ssthresh := atLeast ((kcp.sndNxt - kcp.sndUna) / 2)
      (ssthresh, ssthresh + resent kcp, (ssthresh + resent kcp) * kcp.mss)
    else (kcp.ssthresh, kcp.cwnd, kcp.incr)
  let afterLoss := if lost then (atLeast (cwnd / 2), 1, kcp.mss) else changed
  if afterLoss.2.1 < 1 then (afterLoss.1, 1, kcp.mss) else afterLoss

def flushSsthresh (kcp : Ikcpcb) (cwnd : UInt32) (change lost : Bool) : Ikcpcb :=
  { kcp with
    ssthresh := (congestion kcp cwnd change lost).1
    cwnd := (congestion kcp cwnd change lost).2.1
    incr := (congestion kcp cwnd change lost).2.2 }

/-- The control block once the acks are out and the window probe is decided. -/
def flushProbed (kcp : Ikcpcb) : Ikcpcb := probeWindow { kcp with acklist := [] }

/-- The control block when the walk over `snd_buf` starts. -/
def flushMoved (kcp : Ikcpcb) : Ikcpcb :=
  let kcp := { flushProbed kcp with probe := 0 }
  moveToSndBuf (flushCwnd kcp) (ikcpWndUnused kcp) kcp.sndQueue kcp

def ikcpFlush (kcp : Ikcpcb) : Ikcpcb × List (List UInt8) :=
  if kcp.updated = 0 then (kcp, [])
  else
    let wnd := ikcpWndUnused kcp
    let acks := flushAcks kcp.mtu kcp.acklist (controlSeg kcp) ⟨[], []⟩
    let probed := flushProbed kcp
    let out := flushProbes probed acks.1 acks.2
    let moved := flushMoved kcp
    let out := ikcpOutput (flushData moved wnd moved.sndBuf out)
    let decisions := moved.sndBuf.map (transmit moved)
    (flushSsthresh { moved with sndBuf := moved.sndBuf.map (flushSegment moved wnd) }
        (flushCwnd probed) (decisions.contains .fast) (decisions.contains .timeout),
      out.datagrams)

def ikcpUpdate (kcp : Ikcpcb) (current : UInt32) : Ikcpcb × List (List UInt8) :=
  let kcp := { kcp with current := current }
  let kcp := if kcp.updated = 0 then
    { kcp with updated := 1, tsFlush := kcp.current } else kcp
  let slap := itimediff kcp.current kcp.tsFlush
  let reset := slap ≥ 10000 ∨ slap < -10000
  let kcp := if reset then { kcp with tsFlush := kcp.current } else kcp
  if reset ∨ slap ≥ 0 then
    let tsFlush := kcp.tsFlush + kcp.interval
    ikcpFlush { kcp with
      tsFlush := if itimediff kcp.current tsFlush ≥ 0 then kcp.current + kcp.interval else tsFlush }
  else (kcp, [])

/-- The loop of `ikcp_check`: `none` when some segment is due. -/
def checkPacket (current : UInt32) : List IkcpSeg → Int → Option Int
  | [], tmPacket => some tmPacket
  | seg :: rest, tmPacket =>
      let diff := itimediff seg.resendts current
      if diff ≤ 0 then none
      else checkPacket current rest (if diff < tmPacket then diff else tmPacket)

def ikcpCheck (kcp : Ikcpcb) (current : UInt32) : UInt32 :=
  if kcp.updated = 0 then current
  else
    let late := itimediff current kcp.tsFlush
    let tsFlush := if late ≥ 10000 ∨ late < -10000 then current else kcp.tsFlush
    if itimediff current tsFlush ≥ 0 then current
    else
      let tmFlush := itimediff tsFlush current
      match checkPacket current kcp.sndBuf 0x7fffffff with
      | none => current
      | some tmPacket =>
          let minimal := UInt32.ofInt (if tmPacket < tmFlush then tmPacket else tmFlush)
          current + (if minimal ≥ kcp.interval then kcp.interval else minimal)

/-- The control block beside what numbering its segments changes. -/
def Ikcpcb.unnumbered (kcp : Ikcpcb) : Ikcpcb :=
  { kcp with sndBuf := [], sndQueue := [], nsndBuf := 0, nsndQue := 0, sndNxt := 0 }

theorem moveToSndBuf_unnumbered (cwnd wnd : UInt32) (segs : List IkcpSeg) (kcp : Ikcpcb) :
    (moveToSndBuf cwnd wnd segs kcp).unnumbered = kcp.unnumbered := by
  induction segs generalizing kcp with
  | nil => rfl
  | cons seg rest ih =>
      simp only [moveToSndBuf]
      split
      · rw [ih]
        rfl
      · rfl

theorem moveToSndBuf_keeps {α : Type} (f : Ikcpcb → α) (blind : ∀ kcp, f kcp.unnumbered = f kcp)
    (cwnd wnd : UInt32) (segs : List IkcpSeg) (kcp : Ikcpcb) :
    f (moveToSndBuf cwnd wnd segs kcp) = f kcp := by
  rw [← blind, moveToSndBuf_unnumbered, blind]

@[simp] theorem moveToSndBuf_params (cwnd wnd : UInt32) (segs : List IkcpSeg) (kcp : Ikcpcb) :
    (moveToSndBuf cwnd wnd segs kcp).params = kcp.params :=
  moveToSndBuf_keeps Ikcpcb.params (fun _ => rfl) cwnd wnd segs kcp

theorem flushMoved_keeps {α : Type} (f : Ikcpcb → α) (blind : ∀ kcp, f kcp.unnumbered = f kcp)
    (kcp : Ikcpcb) : f (flushMoved kcp) = f { flushProbed kcp with probe := 0 } :=
  moveToSndBuf_keeps f blind _ _ _ _

@[simp] theorem flushMoved_params (kcp : Ikcpcb) : (flushMoved kcp).params = kcp.params := by
  rw [flushMoved, moveToSndBuf_params]
  rfl

@[simp] theorem ikcpFlush_params (kcp : Ikcpcb) : (ikcpFlush kcp).1.params = kcp.params := by
  unfold ikcpFlush
  split
  · rfl
  · exact flushMoved_params kcp

@[simp] theorem ikcpUpdate_params (kcp : Ikcpcb) (current : UInt32) :
    (ikcpUpdate kcp current).1.params = kcp.params := by
  unfold ikcpUpdate
  dsimp only
  split_ifs <;> first | rfl | (rw [ikcpFlush_params]; rfl)

end AsioKcp.Ikcp
