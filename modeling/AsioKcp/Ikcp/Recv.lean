import AsioKcp.Ikcp.Control

/-! # `ikcp_recv`, `ikcp_peeksize` and `ikcp_parse_data` -/
set_option autoImplicit false

namespace AsioKcp.Ikcp

/-- The `move available data from rcv_buf -> rcv_queue` loop, which
`ikcp_recv` and `ikcp_parse_data` share; its argument is `rcv_buf`. -/
def moveToRcvQueue : List IkcpSeg → Ikcpcb → Ikcpcb
  | [], kcp => { kcp with rcvBuf := [] }
  | seg :: rest, kcp =>
      if seg.sn = kcp.rcvNxt ∧ kcp.nrcvQue < kcp.rcvWnd then
        moveToRcvQueue rest { kcp with
          nrcvBuf := kcp.nrcvBuf - 1
          rcvQueue := kcp.rcvQueue ++ [seg]
          nrcvQue := kcp.nrcvQue + 1
          rcvNxt := kcp.rcvNxt + 1 }
      else { kcp with rcvBuf := seg :: rest }

/-- The segments of the first message of a queue: up to the first `frg = 0`. -/
def firstMessage : List IkcpSeg → List IkcpSeg
  | [] => []
  | seg :: rest => if seg.frg = 0 then [seg] else seg :: firstMessage rest

def payload (segs : List IkcpSeg) : List UInt8 := segs.flatMap IkcpSeg.data

def ikcpPeeksize (kcp : Ikcpcb) : Int :=
  match kcp.rcvQueue with
  | [] => -1
  | seg :: _ =>
      if seg.frg = 0 then seg.data.length
      else if kcp.nrcvQue < seg.frg + 1 then -1
      else (payload (firstMessage kcp.rcvQueue)).length

/-- `len = -len` in an `int` of 32 bits: the least value stays as it is. -/
def negated (len : Int) : Int := (-len).bmod (2 ^ 32)

/-- `ikcp_recv` into a non-null buffer: the result, the bytes written to the
buffer and the new control block.  A negative `len` peeks. -/
def ikcpRecv (kcp : Ikcpcb) (len : Int) : Int × List UInt8 × Ikcpcb :=
  let peeksize := ikcpPeeksize kcp
  if kcp.rcvQueue.isEmpty then (-1, [], kcp)
  else if peeksize < 0 then (-2, [], kcp)
  -- a `len` of -2 ^ 31 has no room for any message
  else if peeksize > (if len < 0 then negated len else len) then (-3, [], kcp)
  else
    let recover := kcp.nrcvQue ≥ kcp.rcvWnd
    let message := firstMessage kcp.rcvQueue
    let kcp := if len < 0 then kcp else
      { kcp with
        rcvQueue := kcp.rcvQueue.drop message.length
        nrcvQue := kcp.nrcvQue - UInt32.ofNat message.length }
    let kcp := moveToRcvQueue kcp.rcvBuf kcp
    let kcp := if kcp.nrcvQue < kcp.rcvWnd ∧ recover then
      { kcp with probe := kcp.probe ||| ikcpAskTell } else kcp
    ((payload message).length, payload message, kcp)

/-- The search of `ikcp_parse_data` from the tail of `rcv_buf`, given here in
reverse: `none` when the segment is a repeat. -/
def insertFromBack (newseg : IkcpSeg) : List IkcpSeg → Option (List IkcpSeg)
  | [] => some [newseg]
  | seg :: rest =>
      if seg.sn = newseg.sn then none
      else if itimediff newseg.sn seg.sn > 0 then some (newseg :: seg :: rest)
      else (insertFromBack newseg rest).map (seg :: ·)

def ikcpParseData (kcp : Ikcpcb) (newseg : IkcpSeg) : Ikcpcb :=
  if itimediff newseg.sn (kcp.rcvNxt + kcp.rcvWnd) ≥ 0 ∨
      itimediff newseg.sn kcp.rcvNxt < 0 then kcp
  else
    let kcp := match insertFromBack newseg kcp.rcvBuf.reverse with
      | some reversed => { kcp with rcvBuf := reversed.reverse, nrcvBuf := kcp.nrcvBuf + 1 }
      | none => kcp
    moveToRcvQueue kcp.rcvBuf kcp

/-- The control block beside what moving received segments changes. -/
def Ikcpcb.unreceived (kcp : Ikcpcb) : Ikcpcb :=
  { kcp with rcvBuf := [], rcvQueue := [], nrcvBuf := 0, nrcvQue := 0, rcvNxt := 0 }

theorem moveToRcvQueue_unreceived (segs : List IkcpSeg) (kcp : Ikcpcb) :
    (moveToRcvQueue segs kcp).unreceived = kcp.unreceived := by
  induction segs generalizing kcp with
  | nil => rfl
  | cons seg rest ih =>
      simp only [moveToRcvQueue]
      split
      · rw [ih]
        rfl
      · rfl

theorem moveToRcvQueue_keeps {α : Type} (f : Ikcpcb → α) (blind : ∀ kcp, f kcp.unreceived = f kcp)
    (segs : List IkcpSeg) (kcp : Ikcpcb) : f (moveToRcvQueue segs kcp) = f kcp := by
  rw [← blind, moveToRcvQueue_unreceived, blind]

@[simp] theorem moveToRcvQueue_params (segs : List IkcpSeg) (kcp : Ikcpcb) :
    (moveToRcvQueue segs kcp).params = kcp.params :=
  moveToRcvQueue_keeps Ikcpcb.params (fun _ => rfl) segs kcp

@[simp] theorem ikcpRecv_params (kcp : Ikcpcb) (len : Int) :
    (ikcpRecv kcp len).2.2.params = kcp.params := by
  unfold ikcpRecv
  dsimp only
  split_ifs <;> first | rfl | exact moveToRcvQueue_params _ _

theorem ikcpParseData_unreceived (kcp : Ikcpcb) (seg : IkcpSeg) :
    (ikcpParseData kcp seg).unreceived = kcp.unreceived := by
  unfold ikcpParseData
  split
  · rfl
  · dsimp only
    rw [moveToRcvQueue_unreceived]
    split <;> rfl

theorem ikcpParseData_keeps {α : Type} (f : Ikcpcb → α) (blind : ∀ kcp, f kcp.unreceived = f kcp)
    (kcp : Ikcpcb) (seg : IkcpSeg) : f (ikcpParseData kcp seg) = f kcp := by
  rw [← blind, ikcpParseData_unreceived, blind]

end AsioKcp.Ikcp
