import AsioKcp.Ikcp.Input
import AsioKcp.Ikcp.Flush

/-! # The wire format

A datagram of KCP is a sequence of encoded segments.  `ikcp_input` reads back
exactly the segments that `ikcp_flush` packed. -/
set_option autoImplicit false

namespace AsioKcp.Ikcp

open AsioKcp.Bytes

def encodeSegs (segs : List IkcpSeg) : List UInt8 :=
  segs.flatMap fun seg => ikcpEncodeSeg seg ++ seg.data

@[simp] theorem encodeSegs_nil : encodeSegs [] = [] := rfl

theorem encodeSegs_cons (seg : IkcpSeg) (segs : List IkcpSeg) :
    encodeSegs (seg :: segs) = ikcpEncodeSeg seg ++ seg.data ++ encodeSegs segs := rfl

@[simp] theorem ikcpEncodeSeg_length (seg : IkcpSeg) :
    (ikcpEncodeSeg seg).length = ikcpOverhead := rfl

/-- The part of a segment that is sent, after the narrowing of its fields. -/
def onWire (seg : IkcpSeg) : IkcpSeg :=
  { ikcpSegmentNew seg.frg.toUInt8.toUInt32 seg.data with
    conv := seg.conv
    cmd := seg.cmd.toUInt8.toUInt32
    wnd := seg.wnd.toUInt16.toUInt32
    ts := seg.ts
    sn := seg.sn
    una := seg.una }

section Header
variable (seg : IkcpSeg) (rest : List UInt8)

theorem header_len :
    read32 ((ikcpEncodeSeg seg ++ rest).drop 20) = UInt32.ofNat seg.data.length := by
  have shape : (ikcpEncodeSeg seg ++ rest).drop 20 =
      le32 (UInt32.ofNat seg.data.length) ++ rest := rfl
  rw [shape, read32_le32_append]

theorem header_conv : read32 (ikcpEncodeSeg seg ++ rest) = seg.conv := by
  simp only [ikcpEncodeSeg, List.append_assoc, read32_le32_append]

theorem header_wnd : read16 ((ikcpEncodeSeg seg ++ rest).drop 6) = seg.wnd.toUInt16 := by
  have shape : (ikcpEncodeSeg seg ++ rest).drop 6 = le16 seg.wnd.toUInt16 ++
      (le32 seg.ts ++ le32 seg.sn ++ le32 seg.una ++
        le32 (UInt32.ofNat seg.data.length) ++ rest) := rfl
  rw [shape, read16_le16_append]

theorem header_ts : read32 ((ikcpEncodeSeg seg ++ rest).drop 8) = seg.ts := by
  have shape : (ikcpEncodeSeg seg ++ rest).drop 8 = le32 seg.ts ++
      (le32 seg.sn ++ le32 seg.una ++ le32 (UInt32.ofNat seg.data.length) ++ rest) := rfl
  rw [shape, read32_le32_append]

theorem header_sn : read32 ((ikcpEncodeSeg seg ++ rest).drop 12) = seg.sn := by
  have shape : (ikcpEncodeSeg seg ++ rest).drop 12 = le32 seg.sn ++
      (le32 seg.una ++ le32 (UInt32.ofNat seg.data.length) ++ rest) := rfl
  rw [shape, read32_le32_append]

theorem header_una : read32 ((ikcpEncodeSeg seg ++ rest).drop 16) = seg.una := by
  have shape : (ikcpEncodeSeg seg ++ rest).drop 16 = le32 seg.una ++
      (le32 (UInt32.ofNat seg.data.length) ++ rest) := rfl
  rw [shape, read32_le32_append]

theorem header_payload : (ikcpEncodeSeg seg ++ rest).drop ikcpOverhead = rest := rfl

end Header

/-- Decoding reads back what was encoded, whatever bytes come behind. -/
theorem decodeSeg_encode (seg : IkcpSeg) (rest : List UInt8)
    (short : seg.data.length < 2 ^ 32) :
    decodeSeg (ikcpEncodeSeg seg ++ (seg.data ++ rest)) = onWire seg := by
  have len : (UInt32.ofNat seg.data.length).toNat = seg.data.length := by
    rw [UInt32.toNat_ofNat', Nat.mod_eq_of_lt short]
  have cmd : (ikcpEncodeSeg seg ++ (seg.data ++ rest)).getD 4 0 = seg.cmd.toUInt8 := rfl
  have frg : (ikcpEncodeSeg seg ++ (seg.data ++ rest)).getD 5 0 = seg.frg.toUInt8 := rfl
  simp only [decodeSeg, onWire, header_len, header_conv, header_wnd, header_ts, header_sn,
    header_una, header_payload, len, cmd, frg, List.take_left']

/-- What `ikcp_input` demands of a segment before it looks at its content. -/
structure Decodable (conv : UInt32) (seg : IkcpSeg) : Prop where
  conv_eq : seg.conv = conv
  cmd_known : seg.cmd = ikcpCmdPush ∨ seg.cmd = ikcpCmdAck ∨ seg.cmd = ikcpCmdWask ∨
    seg.cmd = ikcpCmdWins
  short : seg.data.length < 2 ^ 31

theorem Decodable.wire {conv : UInt32} {seg : IkcpSeg} (ok : Decodable conv seg) :
    (onWire seg).cmd = seg.cmd := by
  rcases ok.cmd_known with cmd | cmd | cmd | cmd <;>
    · simp only [onWire, cmd]
      rfl

theorem inputSegment_conv (state : InputState) (seg : IkcpSeg) :
    (inputSegment state seg).kcp.conv = state.kcp.conv :=
  congrArg Params.conv (inputKcp_params state.kcp seg)

/-- What the loop of `ikcp_input` finds at the front of a datagram: `data`, of
which it has `size` bytes left, begins with the encoding of `seg`, and then
`after` and `left` remain. -/
structure Fronted (seg : IkcpSeg) (data : List UInt8) (size : Nat) (after : List UInt8)
    (left : Nat) : Prop where
  decoded : decodeSeg data = onWire seg
  len : (read32 (data.drop 20)).toNat = seg.data.length
  enough : ¬ size < ikcpOverhead
  fits : ¬ (size - ikcpOverhead < seg.data.length ∨ seg.data.length ≥ 2 ^ 31)
  known : ¬ ((onWire seg).cmd ≠ ikcpCmdPush ∧ (onWire seg).cmd ≠ ikcpCmdAck ∧
    (onWire seg).cmd ≠ ikcpCmdWask ∧ (onWire seg).cmd ≠ ikcpCmdWins)
  skip : data.drop (ikcpOverhead + seg.data.length) = after
  left : size - ikcpOverhead - seg.data.length = left

theorem encodeSegs_fronted {conv : UInt32} {seg : IkcpSeg} (segs : List IkcpSeg)
    (rest : List UInt8) (ok : Decodable conv seg) :
    Fronted seg (encodeSegs (seg :: segs) ++ rest) (encodeSegs (seg :: segs)).length
      (encodeSegs segs ++ rest) (encodeSegs segs).length := by
  have short := ok.short
  have total : (encodeSegs (seg :: segs)).length =
      ikcpOverhead + seg.data.length + (encodeSegs segs).length := by
    simp only [encodeSegs_cons, List.length_append, ikcpEncodeSeg_length]
  have shape : encodeSegs (seg :: segs) ++ rest =
      ikcpEncodeSeg seg ++ (seg.data ++ (encodeSegs segs ++ rest)) := by
    simp [encodeSegs_cons]
  rw [shape, total]
  refine ⟨decodeSeg_encode seg _ (by omega), ?_, by omega, by omega, ?_, ?_, by omega⟩
  · rw [header_len, UInt32.toNat_ofNat', Nat.mod_eq_of_lt (by omega)]
  · rw [ok.wire]
    rcases ok.cmd_known with cmd | cmd | cmd | cmd <;> simp [cmd]
  · rw [← List.drop_drop, header_payload, List.drop_left]

theorem inputLoop_encode (segs : List IkcpSeg) :
    ∀ (fuel : Nat) (rest : List UInt8) (state : InputState),
      segs.length ≤ fuel → (∀ seg ∈ segs, Decodable state.kcp.conv seg) →
      inputLoop fuel (encodeSegs segs ++ rest) (encodeSegs segs).length state =
        .ok (segs.foldl (fun s seg => inputSegment s (onWire seg)) state) := by
  induction segs with
  | nil =>
      intro fuel rest state _ _
      cases fuel <;> rfl
  | cons seg segs ih =>
      intro fuel rest state enough ok
      cases fuel with
      | zero => simp at enough
      | succ fuel =>
          have here := ok seg (List.mem_cons_self ..)
          have front := encodeSegs_fronted segs rest here
          have convOk : (onWire seg).conv = state.kcp.conv := here.conv_eq
          simp only [inputLoop, front.decoded, front.len, if_neg front.enough, convOk, ne_eq,
            not_true_eq_false, if_false, if_neg front.fits, if_neg front.known, front.skip,
            front.left]
          rw [ih fuel rest (inputSegment state (onWire seg))]
          · rfl
          · simpa using enough
          · intro other member
            rw [inputSegment_conv]
            exact ok other (List.mem_cons_of_mem _ member)

end AsioKcp.Ikcp
