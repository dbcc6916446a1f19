import AsioKcp.Ikcp.Control

/-! # `ikcp_send` -/
set_option autoImplicit false

namespace AsioKcp.Ikcp

/-- The `fragment` loop of `ikcp_send`, run for the remaining `count` segments. -/
def sendFragments (stream : Int) (mss : Nat) : Nat → List UInt8 → List IkcpSeg
  | 0, _ => []
  | count + 1, buffer =>
      ikcpSegmentNew (if stream = 0 then UInt32.ofNat count else 0) (buffer.take mss) ::
        sendFragments stream mss count (buffer.drop mss)

/-- The streaming-mode append: the last queued segment is replaced by one that
also holds the first `extend` bytes.  Returns what is left of the buffer. -/
def sendExtend (kcp : Ikcpcb) (buffer : List UInt8) : Ikcpcb × List UInt8 :=
  match kcp.sndQueue.getLast? with
  | none => (kcp, buffer)
  | some old =>
      if old.data.length < kcp.mss.toNat then
        let capacity := kcp.mss.toNat - old.data.length
        let seg := ikcpSegmentNew 0 (old.data ++ buffer.take capacity)
        ({ kcp with sndQueue := kcp.sndQueue.dropLast ++ [seg] }, buffer.drop capacity)
      else (kcp, buffer)

/-- `ikcp_send` on the `len` bytes at the front of `buffer`. -/
def ikcpSend (kcp : Ikcpcb) (buffer : List UInt8) (len : Int) : Int × Ikcpcb :=
  if len < 0 then (-1, kcp)
  else
    let buffer := buffer.take len.toNat
    let (kcp, buffer) := if kcp.stream ≠ 0 then sendExtend kcp buffer else (kcp, buffer)
    if kcp.stream ≠ 0 ∧ buffer.length ≤ 0 then (0, kcp)
    else
      let mss := kcp.mss.toNat
      let count := if buffer.length ≤ mss then 1 else (buffer.length + mss - 1) / mss
      if count ≥ ikcpWndRcv.toNat then (-2, kcp)
      else
        let segs := sendFragments kcp.stream mss count buffer
        (0, { kcp with
          sndQueue := kcp.sndQueue ++ segs
          nsndQue := kcp.nsndQue + UInt32.ofNat segs.length })

@[simp] theorem sendExtend_params (kcp : Ikcpcb) (buffer : List UInt8) :
    (sendExtend kcp buffer).1.params = kcp.params := by
  unfold sendExtend
  split
  · rfl
  · split <;> rfl

@[simp] theorem ikcpSend_params (kcp : Ikcpcb) (buffer : List UInt8) (len : Int) :
    (ikcpSend kcp buffer len).2.params = kcp.params := by
  have extended := sendExtend_params kcp (buffer.take len.toNat)
  unfold ikcpSend
  dsimp only
  split_ifs <;> first | rfl | exact extended

end AsioKcp.Ikcp
