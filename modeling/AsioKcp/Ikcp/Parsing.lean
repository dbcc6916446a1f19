import AsioKcp.Ikcp.Extent
import AsioKcp.Ikcp.Wire
import AsioKcp.Lib.Records

/-! # What `ikcp_input` accepts

Every input is a list of encoded segments and a remainder, in exactly one way.
The segments are applied in order, also when the remainder is refused; the code
that is returned only depends on the remainder. -/
set_option autoImplicit false

namespace AsioKcp.Ikcp

open AsioKcp.Bytes AsioKcp.Records

def KnownCmd (cmd : UInt32) : Prop :=
  cmd = ikcpCmdPush ∨ cmd = ikcpCmdAck ∨ cmd = ikcpCmdWask ∨ cmd = ikcpCmdWins

instance (cmd : UInt32) : Decidable (KnownCmd cmd) := inferInstanceAs (Decidable (_ ∨ _))

/-- Why no segment stands at the front of `text`; the end of the input is no
error. -/
def refusal (conv : UInt32) (text : List UInt8) : Option Int :=
  if text.length < ikcpOverhead then some 0
  else if (decodeSeg text).conv ≠ conv then some (-1)
  else if text.length - ikcpOverhead < (read32 (text.drop 20)).toNat ∨
      (read32 (text.drop 20)).toNat ≥ 2 ^ 31 then some (-2)
  else if ¬ KnownCmd (decodeSeg text).cmd then some (-3)
  else none

/-- The end of `ikcp_input`, after the last segment. -/
def finished (kcp : Ikcpcb) (segs : List IkcpSeg) : Ikcpcb :=
  let state := segs.foldl inputSegment ⟨kcp, false, 0⟩
  inputCwnd kcp.sndUna
    (if state.flag then ikcpParseFastack state.kcp state.maxack else state.kcp)

/-! ## A segment at the front -/

section Front
variable {conv : UInt32} {text : List UInt8} {seg : IkcpSeg}

/-- A header is the encoding of the fields that it spells. -/
theorem encode_decodeSeg (long : ikcpOverhead ≤ text.length)
    (len : UInt32.ofNat (decodeSeg text).data.length = read32 (text.drop 20)) :
    ikcpEncodeSeg (decodeSeg text) = text.take ikcpOverhead := by
  have piece : ∀ k n, k + n ≤ ikcpOverhead → ((text.drop k).take n).length = n := by
    intro k n inside
    rw [List.length_take, List.length_drop]
    omega
  have word32 : ∀ k, k + 4 ≤ ikcpOverhead → le32 (read32 (text.drop k)) = (text.drop k).take 4 := by
    intro k inside
    have four := piece k 4 inside
    conv_lhs => rw [← List.take_append_drop 4 (text.drop k)]
    rw [read32_append (Nat.le_of_eq four.symm), le32_read32 four]
  have word16 : le16 (read16 (text.drop 6)) = (text.drop 6).take 2 := by
    have two := piece 6 2 (by decide)
    conv_lhs => rw [← List.take_append_drop 2 (text.drop 6)]
    rw [read16_append (Nat.le_of_eq two.symm), le16_read16 two]
  have bytes : [text.getD 4 0, text.getD 5 0] = (text.drop 4).take 2 := by
    obtain ⟨a, b, same⟩ := List.length_eq_two.mp (piece 4 2 (by decide))
    have at4 : ((text.drop 4).take 2).getD 0 0 = text.getD 4 0 := by simp [List.getD_eq_getElem?_getD]
    have at5 : ((text.drop 4).take 2).getD 1 0 = text.getD 5 0 := by simp [List.getD_eq_getElem?_getD]
    rw [← at4, ← at5, same]
    rfl
  have split : text.take ikcpOverhead = text.take 4 ++ (text.drop 4).take 2 ++ (text.drop 6).take 2 ++
      (text.drop 8).take 4 ++ (text.drop 12).take 4 ++ (text.drop 16).take 4 ++
      (text.drop 20).take 4 := by
    simp only [← List.take_add, ikcpOverhead]
  have conv := word32 0 (by decide)
  rw [List.drop_zero] at conv
  rw [split, ikcpEncodeSeg, len, word32 20 (by decide), ← bytes, ← word16,
    ← word32 8 (by decide), ← word32 12 (by decide), ← word32 16 (by decide), ← conv]
  simp [decodeSeg, ikcpSegmentNew]

/-- What is not refused has a whole segment of this conversation at its front. -/
structure Accepted (conv : UInt32) (text : List UInt8) : Prop where
  long : ikcpOverhead ≤ text.length
  conv : (decodeSeg text).conv = conv
  inside : (read32 (text.drop 20)).toNat ≤ text.length - ikcpOverhead
  small : (read32 (text.drop 20)).toNat < 2 ^ 31
  known : KnownCmd (decodeSeg text).cmd

theorem refusal_none : refusal conv text = none ↔ Accepted conv text := by
  unfold refusal
  constructor
  · intro accepts
    split_ifs at accepts with short other overlong unknown
    exact ⟨by omega, not_not.mp other, by omega, by omega, unknown⟩
  · rintro ⟨long, conv, inside, small, known⟩
    rw [if_neg (by omega), if_neg (not_not.mpr conv), if_neg (by omega), if_neg (not_not.mpr known)]

theorem Accepted.data_length (accepted : Accepted conv text) :
    (decodeSeg text).data.length = (read32 (text.drop 20)).toNat := by
  have inside := accepted.inside
  change ((text.drop ikcpOverhead).take _).length = _
  rw [List.length_take, List.length_drop]
  omega

/-- The segment, written again, is what stood there. -/
theorem Accepted.written (accepted : Accepted conv text) :
    ikcpEncodeSeg (decodeSeg text) ++ (decodeSeg text).data =
      text.take (ikcpOverhead + (decodeSeg text).data.length) := by
  have length := accepted.data_length
  rw [encode_decodeSeg accepted.long (by rw [length, UInt32.ofNat_toNat]), List.take_add, length]
  rfl

/-- A segment that a peer can write: no field is wider than its place in the header. -/
structure Writable (conv : UInt32) (seg : IkcpSeg) : Prop extends Decodable conv seg where
  narrow : onWire seg = seg

theorem Accepted.writable (accepted : Accepted conv text) : Writable conv (decodeSeg text) where
  conv_eq := accepted.conv
  cmd_known := accepted.known
  short := by
    rw [accepted.data_length]
    exact accepted.small
  narrow := by simp [onWire, decodeSeg, ikcpSegmentNew]

theorem Writable.accepted (writable : Writable conv seg) (rest : List UInt8) :
    Accepted conv (ikcpEncodeSeg seg ++ seg.data ++ rest) ∧
      decodeSeg (ikcpEncodeSeg seg ++ seg.data ++ rest) = seg := by
  have short := writable.short
  have decoded := decodeSeg_encode seg rest (by omega)
  have len := header_len seg (seg.data ++ rest)
  rw [writable.narrow] at decoded
  rw [List.append_assoc]
  refine ⟨⟨?_, ?_, ?_, ?_, ?_⟩, decoded⟩
  · simp
  · rw [decoded]
    exact writable.conv_eq
  · rw [len, UInt32.toNat_ofNat', Nat.mod_eq_of_lt (by omega)]
    simp
  · rw [len, UInt32.toNat_ofNat', Nat.mod_eq_of_lt (by omega)]
    exact short
  · rw [decoded]
    exact writable.cmd_known

end Front

def frontSeg (conv : UInt32) (text : List UInt8) : Option IkcpSeg :=
  if refusal conv text = none then some (decodeSeg text) else none

theorem frontSeg_eq_some {conv : UInt32} {text : List UInt8} {seg : IkcpSeg} :
    frontSeg conv text = some seg ↔ Accepted conv text ∧ decodeSeg text = seg := by
  rw [frontSeg, ← refusal_none]
  simp

/-- The segments of one conversation as records of bytes. -/
def segments (conv : UInt32) : Format IkcpSeg UInt8 where
  write seg := ikcpEncodeSeg seg ++ seg.data
  front := frontSeg conv
  nonempty seg none := by
    have length := congrArg List.length none
    simp [ikcpOverhead] at length
  reads := by
    intro text seg found
    obtain ⟨accepted, rfl⟩ := frontSeg_eq_some.mp found
    rw [accepted.written]
    exact List.take_prefix _ _
  again := by
    intro text seg found rest
    obtain ⟨accepted, rfl⟩ := frontSeg_eq_some.mp found
    exact frontSeg_eq_some.mpr (accepted.writable.accepted rest)

section Input
variable {conv : UInt32} {text rest : List UInt8} {segs : List IkcpSeg} {seg : IkcpSeg}

theorem segments_front : (segments conv).front = frontSeg conv := rfl

theorem segments_write : (segments conv).write seg = ikcpEncodeSeg seg ++ seg.data := rfl

theorem segments_proper : (segments conv).Proper seg ↔ Writable conv seg := by
  simp only [Format.Proper, segments_front, segments_write, frontSeg_eq_some]
  constructor
  · intro proper
    obtain ⟨accepted, same⟩ := proper []
    rw [← same]
    exact accepted.writable
  · exact fun writable rest => writable.accepted rest

theorem segments_stops : (segments conv).front text = none ↔ ∃ code, refusal conv text = some code := by
  change frontSeg conv text = none ↔ _
  unfold frontSeg
  cases refusal conv text <;> simp

/-- How the loop ends on a remainder that is refused with `code`. -/
def stopped (code : Int) (state : InputState) : Except (Int × Ikcpcb) InputState :=
  if code = 0 then .ok state else .error (code, state.kcp)

theorem inputLoop_stop {fuel : Nat} {state : InputState} (enough : text.length ≤ fuel)
    {code : Int} (refused : refusal state.kcp.conv text = some code) :
    inputLoop fuel text text.length state = stopped code state := by
  cases fuel with
  | zero =>
      have short : text.length < ikcpOverhead := by
        simp only [ikcpOverhead]
        omega
      rw [refusal, if_pos short] at refused
      cases refused
      rfl
  | succ fuel =>
      unfold refusal at refused
      rw [inputLoop]
      dsimp only
      split_ifs at refused with short other overlong unknown
      · cases refused
        rw [if_pos short]
        rfl
      · cases refused
        rw [if_neg short, if_pos other]
        rfl
      · cases refused
        rw [if_neg short, if_neg other, if_pos overlong]
        rfl
      · cases refused
        simp only [KnownCmd, not_or] at unknown
        rw [if_neg short, if_neg other, if_neg overlong, if_pos unknown]
        rfl

theorem inputLoop_next {fuel : Nat} {state : InputState} (accepted : Accepted state.kcp.conv text) :
    inputLoop (fuel + 1) text text.length state =
      inputLoop fuel (text.drop (ikcpEncodeSeg (decodeSeg text) ++ (decodeSeg text).data).length)
        (text.drop (ikcpEncodeSeg (decodeSeg text) ++ (decodeSeg text).data).length).length
        (inputSegment state (decodeSeg text)) := by
  have known : ¬ ((decodeSeg text).cmd ≠ ikcpCmdPush ∧ (decodeSeg text).cmd ≠ ikcpCmdAck ∧
      (decodeSeg text).cmd ≠ ikcpCmdWask ∧ (decodeSeg text).cmd ≠ ikcpCmdWins) := by
    rintro ⟨notPush, notAck, notWask, notWins⟩
    rcases accepted.known with push | ack | wask | wins
    · exact notPush push
    · exact notAck ack
    · exact notWask wask
    · exact notWins wins
  have long := accepted.long
  have inside := accepted.inside
  have small := accepted.small
  rw [inputLoop]
  dsimp only
  rw [if_neg (by omega), if_neg (not_not.mpr accepted.conv), if_neg (by omega), if_neg known,
    List.length_append, ikcpEncodeSeg_length, accepted.data_length, List.length_drop, Nat.sub_add_eq]

theorem inputLoop_splits (splits : (segments conv).Splits text segs rest) {code : Int}
    (refused : refusal conv rest = some code) {fuel : Nat} (enough : text.length ≤ fuel)
    (state : InputState) (same : state.kcp.conv = conv) :
    inputLoop fuel text text.length state = stopped code (segs.foldl inputSegment state) := by
  have folded := splits.fold (I := fun state : InputState => state.kcp.conv = conv)
    (fun fuel text state => inputLoop fuel text text.length state)
    (fun rest state => stopped ((refusal conv rest).getD 0) state) inputSegment
    ?stop ?next enough same
  · rw [refused] at folded
    exact folded
  case stop =>
    intro fuel text state same enough stops
    obtain ⟨code, refused⟩ := segments_stops.mp stops
    rw [refused]
    rw [← same] at refused
    exact inputLoop_stop enough refused
  case next =>
    intro fuel text state seg same found
    obtain ⟨accepted, rfl⟩ := frontSeg_eq_some.mp found
    refine ⟨(inputSegment_conv _ _).trans same, ?_⟩
    rw [← same] at accepted
    exact inputLoop_next accepted

theorem foldl_inputSegment_kcp (segs : List IkcpSeg) (state : InputState) :
    (segs.foldl inputSegment state).kcp = segs.foldl inputKcp state.kcp := by
  induction segs generalizing state with
  | nil => rfl
  | cons seg rest ih => exact ih (inputSegment state seg)

end Input

/-- The input consists of `segs` and a remainder that is refused with `code`. -/
structure Reads (conv : UInt32) (input : List UInt8) (segs : List IkcpSeg) (rest : List UInt8)
    (code : Int) : Prop where
  shape : input = encodeSegs segs ++ rest
  writable : ∀ seg ∈ segs, Writable conv seg
  refused : refusal conv rest = some code

theorem Reads.splits {conv : UInt32} {input rest : List UInt8} {segs : List IkcpSeg} {code : Int}
    (reads : Reads conv input segs rest code) : (segments conv).Splits input segs rest where
  shape := reads.shape
  proper := fun seg member => segments_proper.mpr (reads.writable seg member)
  stops := segments_stops.mpr ⟨code, reads.refused⟩

/-- `ikcp_input` on any memory: the one way to read its input decides the code, and
the segments before what is refused have been applied all the same.  From `2 ^ 31`
bytes on the conversion `(int)size` makes the input too short. -/
theorem ikcpInput_reads (kcp : Ikcpcb) {data : List UInt8} {size : Nat}
    (within : size ≤ data.length) (_int : size < 2 ^ 31) :
    ∃ segs rest code, Reads kcp.conv (data.take size) segs rest code ∧
      (∀ segs' rest' code', Reads kcp.conv (data.take size) segs' rest' code' →
        segs' = segs ∧ rest' = rest ∧ code' = code) ∧
      ikcpInput kcp data size =
        if size < ikcpOverhead then (-1, kcp)
        else (code, if code = 0 then finished kcp segs else segs.foldl inputKcp kcp) := by
  obtain ⟨segs, rest, splits⟩ := (segments kcp.conv).splits_exists (data.take size)
  obtain ⟨code, refused⟩ := segments_stops.mp splits.stops
  have length : (data.take size).length = size := List.length_take_of_le within
  refine ⟨segs, rest, code,
    ⟨splits.shape, fun seg member => segments_proper.mp (splits.proper seg member), refused⟩, ?_, ?_⟩
  · intro segs' rest' code' reads
    obtain ⟨rfl, rfl⟩ := Format.splits_unique splits reads.splits
    rw [reads.refused] at refused
    exact ⟨rfl, rfl, Option.some.inj refused⟩
  · have agree : Agree size data (data.take size) := by
      rw [Agree, List.take_take, Nat.min_self]
    have loop := inputLoop_splits splits refused (Nat.le_of_eq length) ⟨kcp, false, 0⟩ rfl
    rw [length] at loop
    rw [ikcpInput_agree kcp agree, ikcpInput, loop]
    split_ifs with short ended
    · rfl
    · rw [stopped, if_pos ended, ended]
      rfl
    · rw [stopped, if_neg ended, foldl_inputSegment_kcp]

/-- A push before a header of another conversation is taken, and `-1` returned. -/
def refusedInput : List UInt8 :=
  encodeSegs [{ ikcpSegmentNew 0 [42] with conv := 7, cmd := ikcpCmdPush, wnd := 256 }] ++
    List.replicate 24 0

theorem ikcpInput_reads_refused :
    (ikcpInput (ikcpCreate 7) refusedInput 49).1 = -1 ∧
      ∃ segs rest code, Reads 7 refusedInput segs rest code ∧
        ikcpInput (ikcpCreate 7) refusedInput 49 = (code, segs.foldl inputKcp (ikcpCreate 7)) := by
  have returned : (ikcpInput (ikcpCreate 7) refusedInput 49).1 = -1 := by decide
  refine ⟨returned, ?_⟩
  obtain ⟨segs, rest, code, reads, _, result⟩ :=
    ikcpInput_reads (ikcpCreate 7) (show 49 ≤ refusedInput.length by decide) (by decide)
  have whole : refusedInput.take 49 = refusedInput := by decide
  rw [whole] at reads
  rw [if_neg (by decide)] at result
  have failed : code = -1 := (congrArg Prod.fst result).symm.trans returned
  rw [if_neg (by rw [failed]; decide)] at result
  exact ⟨segs, rest, code, reads, result⟩

end AsioKcp.Ikcp
