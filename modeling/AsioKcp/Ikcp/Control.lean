import AsioKcp.Lib.Serial
import AsioKcp.Lib.Bytes

/-! # The KCP control block

`IkcpSeg` and `Ikcpcb` are the C structures `IKCPSEG` and `IKCPCB`.  A segment's
`len` is the length of its `data`, and the intrusive queues are lists, oldest
first.  `acklist` with `ackcount` and `ackblock` is one list of pairs; `state`
(the dead-link mark), the counter `xmit`, `ts_recent` and `ts_lastack` are
written but never read by the library and are left out, as is logging. -/
set_option autoImplicit false

namespace AsioKcp.Ikcp

def ikcpRtoNdl : Int32 := 30
def ikcpRtoMin : Int32 := 100
def ikcpRtoDef : Int32 := 200
def ikcpRtoMax : UInt32 := 60000
def ikcpCmdPush : UInt32 := 81
def ikcpCmdAck : UInt32 := 82
def ikcpCmdWask : UInt32 := 83
def ikcpCmdWins : UInt32 := 84
def ikcpAskSend : UInt32 := 1
def ikcpAskTell : UInt32 := 2
def ikcpWndSnd : UInt32 := 32
def ikcpWndRcv : UInt32 := 128
def ikcpMtuDef : UInt32 := 1400
def ikcpInterval : UInt32 := 100
def ikcpOverhead : Nat := 24
def ikcpThreshInit : UInt32 := 2
def ikcpThreshMin : UInt32 := 2
def ikcpProbeInit : UInt32 := 7000
def ikcpProbeLimit : UInt32 := 120000
def ikcpFastackLimit : Int := 5

/-- `_itimediff`: the signed distance of two 32-bit clocks or sequence numbers. -/
def itimediff (later earlier : UInt32) : Int := Serial.distance later earlier

def imin (a b : UInt32) : UInt32 := if a ≤ b then a else b

def imax (a b : UInt32) : UInt32 := if a ≥ b then a else b

def ibound (lower middle upper : UInt32) : UInt32 := imin (imax lower middle) upper

structure IkcpSeg where
  conv : UInt32
  cmd : UInt32
  frg : UInt32
  wnd : UInt32
  ts : UInt32
  sn : UInt32
  una : UInt32
  resendts : UInt32
  rto : UInt32
  fastack : UInt32
  xmit : UInt32
  data : List UInt8
  deriving DecidableEq

structure Ikcpcb where
  conv : UInt32
  mtu : UInt32
  mss : UInt32
  sndUna : UInt32
  sndNxt : UInt32
  rcvNxt : UInt32
  ssthresh : UInt32
  rxRttval : Int32
  rxSrtt : Int32
  rxRto : Int32
  rxMinrto : Int32
  sndWnd : UInt32
  rcvWnd : UInt32
  rmtWnd : UInt32
  cwnd : UInt32
  probe : UInt32
  current : UInt32
  interval : UInt32
  tsFlush : UInt32
  nrcvBuf : UInt32
  nsndBuf : UInt32
  nrcvQue : UInt32
  nsndQue : UInt32
  nodelay : UInt32
  updated : UInt32
  tsProbe : UInt32
  probeWait : UInt32
  incr : UInt32
  sndQueue : List IkcpSeg
  rcvQueue : List IkcpSeg
  sndBuf : List IkcpSeg
  rcvBuf : List IkcpSeg
  acklist : List (UInt32 × UInt32)
  fastresend : Int
  fastlimit : Int
  nocwnd : Int
  stream : Int
  deriving DecidableEq

/-- `ikcp_segment_new`: the fields that `ikcp_send` leaves unset are set before
they are read, when `ikcp_flush` moves the segment to `snd_buf`. -/
def ikcpSegmentNew (frg : UInt32) (data : List UInt8) : IkcpSeg :=
  { conv := 0, cmd := 0, frg := frg, wnd := 0, ts := 0, sn := 0, una := 0,
    resendts := 0, rto := 0, fastack := 0, xmit := 0, data := data }

def ikcpCreate (conv : UInt32) : Ikcpcb where
  conv := conv
  mtu := ikcpMtuDef
  mss := ikcpMtuDef - UInt32.ofNat ikcpOverhead
  sndUna := 0
  sndNxt := 0
  rcvNxt := 0
  ssthresh := ikcpThreshInit
  rxRttval := 0
  rxSrtt := 0
  rxRto := ikcpRtoDef
  rxMinrto := ikcpRtoMin
  sndWnd := ikcpWndSnd
  rcvWnd := ikcpWndRcv
  rmtWnd := ikcpWndRcv
  cwnd := 0
  probe := 0
  current := 0
  interval := ikcpInterval
  tsFlush := ikcpInterval
  nrcvBuf := 0
  nsndBuf := 0
  nrcvQue := 0
  nsndQue := 0
  nodelay := 0
  updated := 0
  tsProbe := 0
  probeWait := 0
  incr := 0
  sndQueue := []
  rcvQueue := []
  sndBuf := []
  rcvBuf := []
  acklist := []
  fastresend := 0
  fastlimit := ikcpFastackLimit
  nocwnd := 0
  stream := 0

def ikcpSetmtu (kcp : Ikcpcb) (mtu : Int) : Ikcpcb :=
  if mtu < 50 ∨ mtu < ikcpOverhead then kcp
  else { kcp with
    mtu := UInt32.ofInt mtu
    mss := UInt32.ofInt mtu - UInt32.ofNat ikcpOverhead }

def ikcpNodelay (kcp : Ikcpcb) (nodelay interval resend nc : Int) : Ikcpcb :=
  let kcp := if nodelay ≥ 0 then
    { kcp with
      nodelay := UInt32.ofInt nodelay
      rxMinrto := if nodelay ≠ 0 then ikcpRtoNdl else ikcpRtoMin } else kcp
  let kcp := if interval ≥ 0 then
    { kcp with
      interval := UInt32.ofInt
        (if interval > 5000 then 5000 else if interval < 10 then 10 else interval) } else kcp
  let kcp := if resend ≥ 0 then { kcp with fastresend := resend } else kcp
  if nc ≥ 0 then { kcp with nocwnd := nc } else kcp

def ikcpWndsize (kcp : Ikcpcb) (sndwnd rcvwnd : Int) : Ikcpcb :=
  let kcp := if sndwnd > 0 then { kcp with sndWnd := UInt32.ofInt sndwnd } else kcp
  if rcvwnd > 0 then { kcp with rcvWnd := imax (UInt32.ofInt rcvwnd) ikcpWndRcv } else kcp

/-- The fields that no operation changes once a connection is configured. -/
structure Params where
  conv : UInt32
  mtu : UInt32
  mss : UInt32
  sndWnd : UInt32
  rcvWnd : UInt32
  interval : UInt32
  nodelay : UInt32
  rxMinrto : Int32
  fastresend : Int
  fastlimit : Int
  nocwnd : Int
  stream : Int
  deriving DecidableEq

def Ikcpcb.params (kcp : Ikcpcb) : Params :=
  ⟨kcp.conv, kcp.mtu, kcp.mss, kcp.sndWnd, kcp.rcvWnd, kcp.interval, kcp.nodelay,
    kcp.rxMinrto, kcp.fastresend, kcp.fastlimit, kcp.nocwnd, kcp.stream⟩

/-- `ikcp_waitsnd`; the source returns the sum as an `int` and its callers
compare it with a `size_t`, which reads a negative value as a huge one again. -/
def ikcpWaitsnd (kcp : Ikcpcb) : Nat := (kcp.nsndBuf + kcp.nsndQue).toNat

end AsioKcp.Ikcp
