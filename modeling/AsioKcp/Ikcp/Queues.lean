import AsioKcp.Ikcp.Packing
import AsioKcp.Ikcp.Send
import Mathlib.Algebra.BigOperators.Group.List.Basic
import Mathlib.Algebra.Order.BigOperators.Group.List
import Mathlib.Algebra.Order.Group.Nat

/-! # The bytes in the queues

`received` lists the segments of the receive side, oldest first, and `pending`
those of the send side.  Reading, polling and flushing move segments between the
two queues of a side; only `ikcp_send` and a new push segment bring bytes in. -/
set_option autoImplicit false

namespace AsioKcp.Ikcp

open AsioKcp.Bytes

def Ikcpcb.received (kcp : Ikcpcb) : List IkcpSeg := kcp.rcvQueue ++ kcp.rcvBuf

def Ikcpcb.pending (kcp : Ikcpcb) : List IkcpSeg := kcp.sndBuf ++ kcp.sndQueue

@[simp] theorem payload_nil : payload [] = [] := rfl

@[simp] theorem payload_cons (seg : IkcpSeg) (segs : List IkcpSeg) :
    payload (seg :: segs) = seg.data ++ payload segs := rfl

@[simp] theorem payload_append (first second : List IkcpSeg) :
    payload (first ++ second) = payload first ++ payload second := by
  simp [payload]

theorem payload_map {f : IkcpSeg → IkcpSeg} (same : ∀ seg, (f seg).data = seg.data)
    (segs : List IkcpSeg) : payload (segs.map f) = payload segs := by
  induction segs with
  | nil => rfl
  | cons seg rest ih => simp [same, ih]

/-! ## The two sides of a control block -/

/-- The fields that the receive side reads and writes, besides the ack list. -/
structure RcvSide where
  rcvNxt : UInt32
  nrcvBuf : UInt32
  nrcvQue : UInt32
  rcvQueue : List IkcpSeg
  rcvBuf : List IkcpSeg

def Ikcpcb.rcvSide (kcp : Ikcpcb) : RcvSide :=
  ⟨kcp.rcvNxt, kcp.nrcvBuf, kcp.nrcvQue, kcp.rcvQueue, kcp.rcvBuf⟩

structure SndSide where
  sndUna : UInt32
  sndNxt : UInt32
  nsndBuf : UInt32
  nsndQue : UInt32
  sndQueue : List IkcpSeg
  sndBuf : List IkcpSeg
  updated : UInt32

def Ikcpcb.sndSide (kcp : Ikcpcb) : SndSide :=
  ⟨kcp.sndUna, kcp.sndNxt, kcp.nsndBuf, kcp.nsndQue, kcp.sndQueue, kcp.sndBuf, kcp.updated⟩

/-! ## The receive side -/

theorem moveToRcvQueue_sndSide (segs : List IkcpSeg) (kcp : Ikcpcb) :
    (moveToRcvQueue segs kcp).sndSide = kcp.sndSide ∧
      (moveToRcvQueue segs kcp).acklist = kcp.acklist :=
  ⟨moveToRcvQueue_keeps Ikcpcb.sndSide (fun _ => rfl) segs kcp,
    moveToRcvQueue_keeps Ikcpcb.acklist (fun _ => rfl) segs kcp⟩

theorem moveToRcvQueue_received (segs : List IkcpSeg) (kcp : Ikcpcb) :
    (moveToRcvQueue segs kcp).received = kcp.rcvQueue ++ segs := by
  induction segs generalizing kcp with
  | nil => rfl
  | cons seg rest ih =>
      simp only [moveToRcvQueue]
      split
      · rw [ih]
        simp
      · rfl

theorem firstMessage_append (segs : List IkcpSeg) :
    firstMessage segs ++ segs.drop (firstMessage segs).length = segs := by
  induction segs with
  | nil => rfl
  | cons seg rest ih =>
      simp only [firstMessage]
      split
      · rfl
      · simp [ih]

/-- A read takes its bytes off the front of the receive side; a peek (a negative
`len`) leaves them there. -/
theorem ikcpRecv_received (kcp : Ikcpcb) (len : Int) :
    payload kcp.received = (if len < 0 then [] else (ikcpRecv kcp len).2.1) ++
      payload (ikcpRecv kcp len).2.2.received := by
  unfold ikcpRecv
  dsimp only
  by_cases peek : len < 0
  · simp only [if_pos peek, List.nil_append]
    split_ifs
    · rfl
    · rfl
    · rfl
    all_goals
      rw [Ikcpcb.received, Ikcpcb.received]
      change _ = payload (moveToRcvQueue _ _).received
      rw [moveToRcvQueue_received]
  · simp only [if_neg peek]
    split_ifs
    · rfl
    · rfl
    · rfl
    all_goals
      rw [Ikcpcb.received, Ikcpcb.received]
      change _ = _ ++ payload (moveToRcvQueue _ _).received
      rw [moveToRcvQueue_received, ← payload_append, ← List.append_assoc, firstMessage_append]

theorem ikcpRecv_sndSide (kcp : Ikcpcb) (len : Int) :
    (ikcpRecv kcp len).2.2.sndSide = kcp.sndSide ∧
      (ikcpRecv kcp len).2.2.acklist = kcp.acklist := by
  unfold ikcpRecv
  dsimp only
  split_ifs <;> first | exact ⟨rfl, rfl⟩ | exact moveToRcvQueue_sndSide _ _

/-! ## What `ikcp_input` takes in -/

/-- The segments that the loop of `ikcp_input` processes: those before the end
of the datagram or the first one that it rejects. -/
def inputSegs (conv : UInt32) : Nat → List UInt8 → Nat → List IkcpSeg
  | 0, _, _ => []
  | fuel + 1, data, size =>
      if size < ikcpOverhead then []
      else
        let seg := decodeSeg data
        let len := (read32 (data.drop 20)).toNat
        let size := size - ikcpOverhead
        if seg.conv ≠ conv then []
        else if size < len ∨ len ≥ 2 ^ 31 then []
        else if seg.cmd ≠ ikcpCmdPush ∧ seg.cmd ≠ ikcpCmdAck ∧
            seg.cmd ≠ ikcpCmdWask ∧ seg.cmd ≠ ikcpCmdWins then []
        else seg :: inputSegs conv fuel (data.drop (ikcpOverhead + len)) (size - len)

/-- The control block after the loop, whether it ends or rejects a segment. -/
def loopKcp : Except (Int × Ikcpcb) InputState → Ikcpcb
  | .error (_, kcp) => kcp
  | .ok state => state.kcp

theorem inputLoop_segs (fuel : Nat) (data : List UInt8) (size : Nat) (state : InputState) :
    loopKcp (inputLoop fuel data size state) =
      (inputSegs state.kcp.conv fuel data size).foldl inputKcp state.kcp := by
  induction fuel generalizing data size state with
  | zero => rfl
  | succ fuel ih =>
      simp only [inputLoop, inputSegs]
      split_ifs
      · rfl
      · rfl
      · rfl
      · rfl
      · rw [ih, inputSegment_conv, List.foldl_cons]
        rfl

/-- A push segment inside the receive window that `rcv_buf` does not hold. -/
def newPush (kcp : Ikcpcb) (seg : IkcpSeg) : Prop :=
  seg.cmd = ikcpCmdPush ∧ itimediff seg.sn (kcp.rcvNxt + kcp.rcvWnd) < 0 ∧
    itimediff seg.sn kcp.rcvNxt ≥ 0 ∧ (insertFromBack seg kcp.rcvBuf.reverse).isSome

instance (kcp : Ikcpcb) (seg : IkcpSeg) : Decidable (newPush kcp seg) :=
  inferInstanceAs (Decidable (_ ∧ _ ∧ _ ∧ _))

theorem insertFromBack_perm {seg : IkcpSeg} {segs inserted : List IkcpSeg}
    (found : insertFromBack seg segs = some inserted) : inserted.Perm (seg :: segs) := by
  induction segs generalizing inserted with
  | nil =>
      cases found
      exact List.Perm.refl _
  | cons held rest ih =>
      simp only [insertFromBack] at found
      split_ifs at found
      · cases found
        exact List.Perm.refl _
      · obtain ⟨deeper, isDeeper, rfl⟩ := Option.map_eq_some_iff.mp found
        exact (List.Perm.cons held (ih isDeeper)).trans (List.Perm.swap seg held rest)

theorem payload_length_perm {first second : List IkcpSeg} (perm : first.Perm second) :
    (payload first).length = (payload second).length := by
  simp only [payload, List.length_flatMap]
  exact (perm.map _).sum_eq

theorem ikcpParseData_received (kcp : Ikcpcb) (seg : IkcpSeg) (push : seg.cmd = ikcpCmdPush) :
    (payload (ikcpParseData kcp seg).received).length =
      (payload kcp.received).length + if newPush kcp seg then seg.data.length else 0 := by
  unfold ikcpParseData
  split
  · rename_i outside
    have old : ¬ newPush kcp seg := by
      rintro ⟨_, inside, above, _⟩
      omega
    simp [old]
  · rename_i inside
    cases found : insertFromBack seg kcp.rcvBuf.reverse with
    | none =>
        have old : ¬ newPush kcp seg := by
          rintro ⟨_, _, _, new⟩
          simp [found] at new
        simp only [moveToRcvQueue_received, if_neg old]
        rfl
    | some inserted =>
        have new : newPush kcp seg := ⟨push, by omega, by omega, by simp [found]⟩
        have perm : (kcp.rcvQueue ++ inserted.reverse).Perm (seg :: kcp.received) := by
          have back : inserted.reverse.Perm (seg :: kcp.rcvBuf) :=
            (List.reverse_perm _).trans ((insertFromBack_perm found).trans
              ((List.reverse_perm _).cons seg))
          exact (back.append_left _).trans List.perm_middle
        simp only [moveToRcvQueue_received, if_pos new]
        rw [payload_length_perm perm, payload_cons, List.length_append]
        omega

theorem ikcpShrinkBuf_rcvSide (kcp : Ikcpcb) : (ikcpShrinkBuf kcp).rcvSide = kcp.rcvSide := by
  unfold ikcpShrinkBuf
  split <;> rfl

theorem inputHeader_rcvSide (kcp : Ikcpcb) (seg : IkcpSeg) :
    (inputHeader kcp seg).rcvSide = kcp.rcvSide := by
  rw [inputHeader, ikcpShrinkBuf_rcvSide]
  rfl

theorem inputAck_rcvSide (kcp : Ikcpcb) (seg : IkcpSeg) :
    (inputAck kcp seg).rcvSide = kcp.rcvSide := by
  rw [inputAck, ikcpShrinkBuf_rcvSide]
  unfold ikcpParseAck
  dsimp only
  split_ifs <;> rfl

theorem rcvSide_received {kcp kcp' : Ikcpcb} (same : kcp'.rcvSide = kcp.rcvSide) :
    kcp'.received = kcp.received :=
  congrArg (fun side : RcvSide => side.rcvQueue ++ side.rcvBuf) same

/-- The bytes of one segment that the receive side takes in. -/
def newBytes (kcp : Ikcpcb) (seg : IkcpSeg) : Nat :=
  if newPush kcp seg then seg.data.length else 0

theorem newBytes_congr {kcp kcp' : Ikcpcb} (seg : IkcpSeg) (side : kcp'.rcvSide = kcp.rcvSide)
    (params : kcp'.params = kcp.params) : newBytes kcp' seg = newBytes kcp seg := by
  have nxt : kcp'.rcvNxt = kcp.rcvNxt := congrArg RcvSide.rcvNxt side
  have buf : kcp'.rcvBuf = kcp.rcvBuf := congrArg RcvSide.rcvBuf side
  have wnd : kcp'.rcvWnd = kcp.rcvWnd := congrArg Params.rcvWnd params
  have same : newPush kcp' seg ↔ newPush kcp seg := by simp only [newPush, nxt, buf, wnd]
  simp only [newBytes, same]

theorem inputPush_received (kcp : Ikcpcb) {seg : IkcpSeg} (push : seg.cmd = ikcpCmdPush) :
    (payload (inputPush kcp seg).received).length =
      (payload kcp.received).length + newBytes kcp seg := by
  unfold inputPush
  split
  · dsimp only
    split
    · exact ikcpParseData_received (ikcpAckPush kcp seg.sn seg.ts) seg push
    · rename_i below
      have old : newBytes kcp seg = 0 := if_neg fun new => below new.2.2.1
      rw [old]
      rfl
  · rename_i outside
    have old : newBytes kcp seg = 0 := if_neg fun new => outside new.2.1
    rw [old]
    rfl

theorem inputKcp_received (kcp : Ikcpcb) (seg : IkcpSeg) :
    (payload (inputKcp kcp seg).received).length =
      (payload kcp.received).length + newBytes kcp seg := by
  have header := inputHeader_rcvSide kcp seg
  have same : (payload (inputHeader kcp seg).received).length = (payload kcp.received).length :=
    congrArg (fun segs => (payload segs).length) (rcvSide_received header)
  have other : seg.cmd ≠ ikcpCmdPush → newBytes kcp seg = 0 := fun notPush =>
    if_neg fun new => notPush new.1
  unfold inputKcp
  dsimp only
  split_ifs with isAck isPush isWask
  · rw [rcvSide_received ((inputAck_rcvSide _ seg).trans header), other (by rw [isAck]; decide)]
    rfl
  · rw [inputPush_received _ isPush, same,
      newBytes_congr seg header (inputHeader_params kcp seg)]
  · rw [other isPush]
    exact same
  · rw [other isPush]
    exact same

/-- The bytes that a sequence of segments brings in. -/
def takenBytes : Ikcpcb → List IkcpSeg → Nat
  | _, [] => 0
  | kcp, seg :: rest => newBytes kcp seg + takenBytes (inputKcp kcp seg) rest

theorem foldl_inputKcp_received (segs : List IkcpSeg) (kcp : Ikcpcb) :
    (payload (segs.foldl inputKcp kcp).received).length =
      (payload kcp.received).length + takenBytes kcp segs := by
  induction segs generalizing kcp with
  | nil => rfl
  | cons seg rest ih =>
      rw [List.foldl_cons, ih, inputKcp_received, takenBytes]
      omega

/-- The bytes that a datagram brings into the receive side. -/
def datagramBytes (kcp : Ikcpcb) (data : List UInt8) (size : Nat) : Nat :=
  if size < ikcpOverhead then 0 else takenBytes kcp (inputSegs kcp.conv size data size)

/-- What the end of `ikcp_input` does with the control block of its loop. -/
theorem ikcpInput_cases (kcp : Ikcpcb) (data : List UInt8) {size : Nat}
    (long : ¬ size < ikcpOverhead) :
    (ikcpInput kcp data size).2 =
      match inputLoop size data size ⟨kcp, false, 0⟩ with
      | .error (_, after) => after
      | .ok state => inputCwnd kcp.sndUna
          (if state.flag then ikcpParseFastack state.kcp state.maxack else state.kcp) := by
  unfold ikcpInput
  rw [if_neg long]
  cases inputLoop size data size ⟨kcp, false, 0⟩ with
  | error failure => rfl
  | ok state => rfl

theorem inputEnd_rcvSide (prevUna : UInt32) (state : InputState) :
    (inputCwnd prevUna
      (if state.flag then ikcpParseFastack state.kcp state.maxack else state.kcp)).rcvSide =
      state.kcp.rcvSide := by
  unfold ikcpParseFastack
  split_ifs <;> rfl

theorem ikcpInput_rcvSide (kcp : Ikcpcb) (data : List UInt8) {size : Nat}
    (long : ¬ size < ikcpOverhead) :
    (ikcpInput kcp data size).2.rcvSide =
      ((inputSegs kcp.conv size data size).foldl inputKcp kcp).rcvSide := by
  have loop := inputLoop_segs size data size ⟨kcp, false, 0⟩
  rw [ikcpInput_cases kcp data long]
  cases ran : inputLoop size data size ⟨kcp, false, 0⟩ with
  | error failure =>
      obtain ⟨code, after⟩ := failure
      rw [ran] at loop
      exact congrArg Ikcpcb.rcvSide loop
  | ok state =>
      rw [ran] at loop
      exact (inputEnd_rcvSide kcp.sndUna state).trans (congrArg Ikcpcb.rcvSide loop)

theorem ikcpInput_received (kcp : Ikcpcb) (data : List UInt8) (size : Nat) :
    (payload (ikcpInput kcp data size).2.received).length =
      (payload kcp.received).length + datagramBytes kcp data size := by
  by_cases short : size < ikcpOverhead
  · rw [ikcpInput, if_pos short, datagramBytes, if_pos short]
    rfl
  · rw [rcvSide_received (ikcpInput_rcvSide kcp data short), foldl_inputKcp_received,
      datagramBytes, if_neg short]

/-! ## The send side -/

theorem moveToSndBuf_pending (cwnd wnd : UInt32) (segs : List IkcpSeg) (kcp : Ikcpcb) :
    payload (moveToSndBuf cwnd wnd segs kcp).pending = payload kcp.sndBuf ++ payload segs := by
  induction segs generalizing kcp with
  | nil => simp [moveToSndBuf, Ikcpcb.pending]
  | cons seg rest ih =>
      simp only [moveToSndBuf]
      split
      · rw [ih]
        simp
      · simp [Ikcpcb.pending]

theorem moveToSndBuf_rcvSide (cwnd wnd : UInt32) (segs : List IkcpSeg) (kcp : Ikcpcb) :
    (moveToSndBuf cwnd wnd segs kcp).rcvSide = kcp.rcvSide :=
  moveToSndBuf_keeps Ikcpcb.rcvSide (fun _ => rfl) cwnd wnd segs kcp

theorem moveToSndBuf_acklist (cwnd wnd : UInt32) (segs : List IkcpSeg) (kcp : Ikcpcb) :
    (moveToSndBuf cwnd wnd segs kcp).acklist = kcp.acklist :=
  moveToSndBuf_keeps Ikcpcb.acklist (fun _ => rfl) cwnd wnd segs kcp

/-- The part of a segment that is fixed once it has its number. -/
structure SegCore where
  conv : UInt32
  cmd : UInt32
  frg : UInt32
  sn : UInt32
  data : List UInt8

def IkcpSeg.core (seg : IkcpSeg) : SegCore := ⟨seg.conv, seg.cmd, seg.frg, seg.sn, seg.data⟩

theorem map_core_data (segs : List IkcpSeg) :
    (segs.map IkcpSeg.core).map SegCore.data = segs.map IkcpSeg.data := by
  rw [List.map_map]
  rfl

theorem flushSegment_core (kcp : Ikcpcb) (wnd : UInt32) (seg : IkcpSeg) :
    (flushSegment kcp wnd seg).core = seg.core := by
  unfold flushSegment
  dsimp only
  split <;> rfl

theorem flushSegment_data (kcp : Ikcpcb) (wnd : UInt32) (seg : IkcpSeg) :
    (flushSegment kcp wnd seg).data = seg.data :=
  congrArg SegCore.data (flushSegment_core kcp wnd seg)

/-- A flush moves no byte out of its side. -/
theorem ikcpFlush_sides (kcp : Ikcpcb) :
    (ikcpFlush kcp).1.rcvSide = kcp.rcvSide ∧
      payload (ikcpFlush kcp).1.pending = payload kcp.pending := by
  unfold ikcpFlush
  split
  · exact ⟨rfl, rfl⟩
  · refine ⟨?_, ?_⟩
    · exact moveToSndBuf_rcvSide _ _ _ _
    · have moved := moveToSndBuf_pending (flushCwnd { flushProbed kcp with probe := 0 })
        (ikcpWndUnused { flushProbed kcp with probe := 0 }) kcp.sndQueue
        { flushProbed kcp with probe := 0 }
      change payload (List.map _ (flushMoved kcp).sndBuf ++ (flushMoved kcp).sndQueue) = _
      rw [payload_append, payload_map fun seg => flushSegment_data _ _ seg, ← payload_append]
      exact moved.trans (payload_append _ _).symm

theorem ikcpUpdate_sides (kcp : Ikcpcb) (current : UInt32) :
    (ikcpUpdate kcp current).1.rcvSide = kcp.rcvSide ∧
      payload (ikcpUpdate kcp current).1.pending = payload kcp.pending := by
  unfold ikcpUpdate
  dsimp only
  split_ifs <;>
    first
      | exact ⟨rfl, rfl⟩
      | exact ⟨(ikcpFlush_sides _).1.trans rfl, (ikcpFlush_sides _).2.trans rfl⟩

/-- Acks only take segments out of `snd_buf`. -/
structure Acked (kcp kcp' : Ikcpcb) : Prop where
  sndBuf : (kcp'.sndBuf.map IkcpSeg.core).Sublist (kcp.sndBuf.map IkcpSeg.core)
  sndQueue : kcp'.sndQueue = kcp.sndQueue

theorem Acked.refl (kcp : Ikcpcb) : Acked kcp kcp := ⟨List.Sublist.refl _, rfl⟩

theorem Acked.trans {kcp kcp' kcp'' : Ikcpcb} (first : Acked kcp kcp') (second : Acked kcp' kcp'') :
    Acked kcp kcp'' :=
  ⟨second.sndBuf.trans first.sndBuf, second.sndQueue.trans first.sndQueue⟩

theorem acked_same {kcp kcp' : Ikcpcb} (buf : kcp'.sndBuf = kcp.sndBuf)
    (queue : kcp'.sndQueue = kcp.sndQueue) : Acked kcp kcp' :=
  ⟨by rw [buf], queue⟩

theorem acked_of_sndSide {kcp kcp' : Ikcpcb} (same : kcp'.sndSide = kcp.sndSide) :
    Acked kcp kcp' :=
  acked_same (congrArg SndSide.sndBuf same) (congrArg SndSide.sndQueue same)

theorem ikcpShrinkBuf_acklist (kcp : Ikcpcb) : (ikcpShrinkBuf kcp).acklist = kcp.acklist := by
  unfold ikcpShrinkBuf
  split <;> rfl

theorem inputHeader_acklist (kcp : Ikcpcb) (seg : IkcpSeg) :
    (inputHeader kcp seg).acklist = kcp.acklist :=
  ikcpShrinkBuf_acklist _

theorem inputAck_acklist (kcp : Ikcpcb) (seg : IkcpSeg) :
    (inputAck kcp seg).acklist = kcp.acklist := by
  rw [inputAck, ikcpShrinkBuf_acklist]
  unfold ikcpParseAck
  dsimp only
  split_ifs <;> rfl

theorem ikcpParseData_acklist (kcp : Ikcpcb) (seg : IkcpSeg) :
    (ikcpParseData kcp seg).acklist = kcp.acklist :=
  ikcpParseData_keeps Ikcpcb.acklist (fun _ => rfl) kcp seg

theorem removeAcked_sublist (sn : UInt32) (segs : List IkcpSeg) :
    (removeAcked sn segs).Sublist segs := by
  induction segs with
  | nil => exact List.Sublist.refl _
  | cons seg rest ih =>
      simp only [removeAcked]
      split_ifs
      · exact List.sublist_cons_self _ _
      · exact List.Sublist.refl _
      · exact ih.cons_cons seg

theorem countFastack_core (sn : UInt32) (segs : List IkcpSeg) :
    (countFastack sn segs).map IkcpSeg.core = segs.map IkcpSeg.core := by
  induction segs with
  | nil => rfl
  | cons seg rest ih =>
      simp only [countFastack]
      split_ifs
      · rfl
      · rw [List.map_cons, List.map_cons, ih]
        rfl
      · rw [List.map_cons, List.map_cons, ih]

theorem ikcpShrinkBuf_acked (kcp : Ikcpcb) : Acked kcp (ikcpShrinkBuf kcp) := by
  unfold ikcpShrinkBuf
  split <;> exact acked_same rfl rfl

theorem inputHeader_acked (kcp : Ikcpcb) (seg : IkcpSeg) : Acked kcp (inputHeader kcp seg) := by
  have parsed : Acked kcp (ikcpParseUna { kcp with rmtWnd := seg.wnd } seg.una) :=
    ⟨(List.dropWhile_sublist _).map _, rfl⟩
  exact parsed.trans (ikcpShrinkBuf_acked _)

theorem ikcpParseAck_acked (kcp : Ikcpcb) (sn : UInt32) : Acked kcp (ikcpParseAck kcp sn) := by
  unfold ikcpParseAck
  split
  · exact Acked.refl kcp
  · exact ⟨(removeAcked_sublist sn kcp.sndBuf).map _, rfl⟩

theorem inputAck_acked (kcp : Ikcpcb) (seg : IkcpSeg) : Acked kcp (inputAck kcp seg) := by
  unfold inputAck
  dsimp only
  refine Acked.trans ?_ ((ikcpParseAck_acked _ seg.sn).trans (ikcpShrinkBuf_acked _))
  split <;> exact acked_same rfl rfl

theorem inputPush_sndSide (kcp : Ikcpcb) (seg : IkcpSeg) :
    (inputPush kcp seg).sndSide = kcp.sndSide :=
  inputPush_keeps Ikcpcb.sndSide (fun _ => rfl) (fun _ _ _ => rfl) kcp seg

theorem inputKcp_acked (kcp : Ikcpcb) (seg : IkcpSeg) : Acked kcp (inputKcp kcp seg) := by
  unfold inputKcp
  dsimp only
  refine (inputHeader_acked kcp seg).trans ?_
  split_ifs
  · exact inputAck_acked _ seg
  · exact acked_of_sndSide (inputPush_sndSide _ seg)
  · exact acked_same rfl rfl
  · exact Acked.refl _

theorem foldl_inputKcp_acked (segs : List IkcpSeg) (kcp : Ikcpcb) :
    Acked kcp (segs.foldl inputKcp kcp) := by
  induction segs generalizing kcp with
  | nil => exact Acked.refl kcp
  | cons seg rest ih => exact (inputKcp_acked kcp seg).trans (ih _)

theorem ikcpInput_acked (kcp : Ikcpcb) (data : List UInt8) (size : Nat) :
    Acked kcp (ikcpInput kcp data size).2 := by
  by_cases short : size < ikcpOverhead
  · rw [ikcpInput, if_pos short]
    exact Acked.refl kcp
  · have loop := inputLoop_segs size data size ⟨kcp, false, 0⟩
    have folded := foldl_inputKcp_acked (inputSegs kcp.conv size data size) kcp
    rw [ikcpInput_cases kcp data short]
    cases ran : inputLoop size data size ⟨kcp, false, 0⟩ with
    | error failure =>
        obtain ⟨code, after⟩ := failure
        rw [ran] at loop
        exact (congrArg (Acked kcp) loop).mpr folded
    | ok state =>
        rw [ran] at loop
        have fastack : Acked state.kcp
            (if state.flag then ikcpParseFastack state.kcp state.maxack else state.kcp) := by
          unfold ikcpParseFastack
          split_ifs
          · exact Acked.refl _
          · exact ⟨by rw [countFastack_core], rfl⟩
          · exact Acked.refl _
        exact ((congrArg (Acked kcp) loop).mpr folded).trans (fastack.trans ⟨List.Sublist.refl _, rfl⟩)

theorem payload_length_eq (segs : List IkcpSeg) :
    (payload segs).length = ((segs.map IkcpSeg.data).map List.length).sum := by
  simp [payload, List.length_flatMap, Function.comp_def]

theorem Acked.pending_le {kcp kcp' : Ikcpcb} (acked : Acked kcp kcp') :
    (payload kcp'.pending).length ≤ (payload kcp.pending).length := by
  have data := acked.sndBuf.map SegCore.data
  rw [map_core_data, map_core_data] at data
  have fewer := (data.map List.length).sum_le_sum (fun _ _ => Nat.zero_le _)
  simp only [Ikcpcb.pending, payload_append, List.length_append, acked.sndQueue,
    payload_length_eq kcp'.sndBuf, payload_length_eq kcp.sndBuf]
  omega

theorem sndSide_pending {kcp kcp' : Ikcpcb} (same : kcp'.sndSide = kcp.sndSide) :
    kcp'.pending = kcp.pending :=
  congrArg (fun side : SndSide => side.sndBuf ++ side.sndQueue) same

/-! ## `ikcp_send` -/

/-- `ikcp_send` only touches the queue of segments that have no number yet. -/
structure OnlyQueues (kcp kcp' : Ikcpcb) : Prop where
  rcvSide : kcp'.rcvSide = kcp.rcvSide
  sndBuf : kcp'.sndBuf = kcp.sndBuf
  sndUna : kcp'.sndUna = kcp.sndUna
  sndNxt : kcp'.sndNxt = kcp.sndNxt
  acklist : kcp'.acklist = kcp.acklist

theorem sendExtend_onlyQueues (kcp : Ikcpcb) (buffer : List UInt8) :
    OnlyQueues kcp (sendExtend kcp buffer).1 := by
  unfold sendExtend
  split
  · exact ⟨rfl, rfl, rfl, rfl, rfl⟩
  · split <;> exact ⟨rfl, rfl, rfl, rfl, rfl⟩

theorem ikcpSend_onlyQueues (kcp : Ikcpcb) (buffer : List UInt8) (len : Int) :
    OnlyQueues kcp (ikcpSend kcp buffer len).2 := by
  have extended := sendExtend_onlyQueues kcp (buffer.take len.toNat)
  unfold ikcpSend
  dsimp only
  split_ifs <;>
    first
      | exact ⟨rfl, rfl, rfl, rfl, rfl⟩
      | exact extended
      | exact ⟨extended.rcvSide, extended.sndBuf, extended.sndUna, extended.sndNxt,
          extended.acklist⟩

end AsioKcp.Ikcp
