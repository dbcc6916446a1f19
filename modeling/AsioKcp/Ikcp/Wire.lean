import AsioKcp.Ikcp.Reassembly

/-! # What the segments on the wire tell

A flush sends pushes with the numbers in `snd_buf`, acks with the numbers in the
ack list, and with each of them the value of `rcv_nxt`.  `ikcp_input` applies
the segments of a datagram one after the other. -/
set_option autoImplicit false

namespace AsioKcp.Ikcp

open AsioKcp.Serial

/-- A segment of a side that has numbered `out`: the numbers that it names as
pushed, as acked and as its `rcv_nxt` satisfy `push`, `ack` and `una`. -/
structure Tells (conv : UInt32) (out : List (List UInt8)) (push ack una : Nat → Prop)
    (seg : IkcpSeg) : Prop where
  decodable : Decodable conv seg
  push : seg.cmd = ikcpCmdPush → ∃ i, push i ∧ seg.core = numbered conv out i
  ack : seg.cmd = ikcpCmdAck → ∃ j, ack j ∧ seg.sn = UInt32.ofNat j
  una : ∃ x, una x ∧ seg.una = UInt32.ofNat x

theorem Tells.mono {conv : UInt32} {out out' : List (List UInt8)}
    {push ack una push' ack' una' : Nat → Prop} {seg : IkcpSeg}
    (told : Tells conv out push ack una seg)
    (pushes : ∀ i, push i → push' i ∧ numbered conv out' i = numbered conv out i)
    (acks : ∀ j, ack j → ack' j) (unas : ∀ x, una x → una' x) :
    Tells conv out' push' ack' una' seg where
  decodable := told.decodable
  push := by
    intro isPush
    obtain ⟨i, named, core⟩ := told.push isPush
    obtain ⟨named', same⟩ := pushes i named
    exact ⟨i, named', core.trans same.symm⟩
  ack := fun isAck => by
    obtain ⟨j, named, sn⟩ := told.ack isAck
    exact ⟨j, acks j named, sn⟩
  una := by
    obtain ⟨x, named, una⟩ := told.una
    exact ⟨x, unas x named, una⟩

/-- A push keeps its core on the wire. -/
theorem onWire_core {conv : UInt32} {out : List (List UInt8)} {i : Nat} {seg : IkcpSeg}
    (core : seg.core = numbered conv out i) : (onWire seg).core = numbered conv out i := by
  have cmd : seg.cmd = ikcpCmdPush := congrArg SegCore.cmd core
  have frg : seg.frg = 0 := congrArg SegCore.frg core
  have same : (onWire seg).core = seg.core := by
    simp only [IkcpSeg.core, onWire, ikcpSegmentNew, cmd, frg]
    rfl
  rw [same, core]

/-! ## What a flush sends -/

/-- The three kinds of segments that a flush encodes. -/
inductive Flushed (kcp : Ikcpcb) (seg : IkcpSeg) : Prop
  | ack (stamp : UInt32 × UInt32) : stamp ∈ kcp.acklist → seg.cmd = ikcpCmdAck →
      seg.sn = stamp.1 → seg.conv = kcp.conv → seg.data = [] → Flushed kcp seg
  | probe : seg.cmd = ikcpCmdWask ∨ seg.cmd = ikcpCmdWins → seg.conv = kcp.conv →
      seg.data = [] → Flushed kcp seg
  | data (sent : IkcpSeg) : sent ∈ (flushMoved kcp).sndBuf → seg.core = sent.core →
      Flushed kcp seg

/-- The fields that every segment of a flush has in common. -/
def Stamped (kcp : Ikcpcb) (seg : IkcpSeg) : Prop :=
  seg.una = kcp.rcvNxt ∧ seg.wnd = ikcpWndUnused kcp

theorem lastControlSeg_shape (kcp : Ikcpcb) : (lastControlSeg kcp).conv = kcp.conv ∧
    (lastControlSeg kcp).data = [] ∧ Stamped kcp (lastControlSeg kcp) := by
  have last : lastControlSeg kcp ∈ controlSeg kcp :: ackSegs kcp := List.getLastD_mem_cons
  rcases List.mem_cons.mp last with isControl | isAck
  · rw [isControl]
    exact ⟨rfl, rfl, rfl, rfl⟩
  · obtain ⟨ack, _, same⟩ := List.mem_map.mp isAck
    rw [← same]
    exact ⟨rfl, rfl, rfl, rfl⟩

theorem flushSegment_stamped {kcp : Ikcpcb} {seg : IkcpSeg}
    (sent : transmit kcp seg ≠ .skip) (wnd : UInt32) :
    (flushSegment kcp wnd seg).una = kcp.rcvNxt ∧ (flushSegment kcp wnd seg).wnd = wnd := by
  unfold flushSegment
  cases decided : transmit kcp seg with
  | skip => exact absurd decided sent
  | first => exact ⟨rfl, rfl⟩
  | timeout => exact ⟨rfl, rfl⟩
  | fast => exact ⟨rfl, rfl⟩

theorem flushSegs_cases {kcp : Ikcpcb} {seg : IkcpSeg} (member : seg ∈ flushSegs kcp) :
    Flushed kcp seg ∧ Stamped kcp seg := by
  obtain ⟨conv, data, stamped⟩ := lastControlSeg_shape kcp
  rw [flushSegs, List.mem_append, List.mem_append] at member
  rcases member with (member | member) | member
  · obtain ⟨ack, isPending, rfl⟩ := List.mem_map.mp member
    exact ⟨.ack ack isPending rfl rfl rfl rfl, rfl, rfl⟩
  · rw [probeSegs, List.mem_append] at member
    rcases member with member | member
    · split at member
      · rw [List.mem_singleton.mp member]
        exact ⟨.probe (Or.inl rfl) conv data, stamped⟩
      · cases member
    · split at member
      · rw [List.mem_singleton.mp member]
        exact ⟨.probe (Or.inr rfl) conv data, stamped⟩
      · cases member
  · obtain ⟨sent, isSent, rfl⟩ := List.mem_map.mp member
    obtain ⟨buffered, transmitted⟩ := List.mem_filter.mp isSent
    obtain ⟨una, wnd⟩ := flushSegment_stamped (of_decide_eq_true transmitted) (ikcpWndUnused kcp)
    have nxt : (flushMoved kcp).rcvNxt = kcp.rcvNxt :=
      congrArg RcvSide.rcvNxt (moveToSndBuf_rcvSide _ _ _ _)
    exact ⟨.data sent buffered (flushSegment_core _ _ _), una.trans nxt, wnd⟩

/-- The segments of a flush name the numbers in `snd_buf`, in the ack list and
of `rcv_nxt`. -/
theorem flushSegs_tell {conv : UInt32} {out : List (List UInt8)} {live : List Nat}
    {kcp : Ikcpcb} (suited : Suited conv kcp.params) (sending : Sending conv out live (flushMoved kcp))
    {acked : Nat → Prop} (acks : ∀ stamp ∈ kcp.acklist, ∃ j, acked j ∧ stamp.1 = UInt32.ofNat j)
    {next : Nat} (nxt : kcp.rcvNxt = UInt32.ofNat next) :
    ∀ seg ∈ flushSegs kcp, Tells conv out (· ∈ live) acked (· = next) seg := by
  intro seg member
  obtain ⟨flushed, una, _⟩ := flushSegs_cases member
  have isNext : ∃ x, x = next ∧ seg.una = UInt32.ofNat x := ⟨next, rfl, una.trans nxt⟩
  have empty : seg.data = [] → seg.data.length < 2 ^ 31 := by
    intro none
    rw [none]
    decide
  cases flushed with
  | ack stamp isPending cmd sn tagged none =>
      have known : Decodable conv seg :=
        ⟨tagged.trans suited.conv_eq, Or.inr (Or.inl cmd), empty none⟩
      refine ⟨known, fun push => ?_, fun _ => ?_, isNext⟩
      · rw [cmd] at push
        exact absurd push (by decide)
      · obtain ⟨j, named, same⟩ := acks stamp isPending
        exact ⟨j, named, sn.trans same⟩
  | probe cmd tagged none =>
      have known : Decodable conv seg :=
        ⟨tagged.trans suited.conv_eq, Or.inr (Or.inr cmd), empty none⟩
      refine ⟨known, fun push => ?_, fun ack => ?_, isNext⟩
      · rw [push] at cmd
        exact absurd cmd (by decide)
      · rw [ack] at cmd
        exact absurd cmd (by decide)
  | data sent buffered core =>
      have inBuf := List.mem_map_of_mem (f := IkcpSeg.core) buffered
      rw [sending.buf] at inBuf
      obtain ⟨i, isLive, same⟩ := List.mem_map.mp inBuf
      have named : seg.core = numbered conv out i := core.trans same.symm
      have cmd : seg.cmd = ikcpCmdPush := congrArg SegCore.cmd named
      have data : seg.data = out.getD i [] := congrArg SegCore.data named
      have below := sending.below i isLive
      refine ⟨⟨congrArg SegCore.conv named, Or.inl cmd, ?_⟩, fun _ => ⟨i, isLive, named⟩,
        fun ack => ?_, isNext⟩
      · rw [data, List.getD_eq_getElem?_getD, List.getElem?_eq_getElem below]
        exact sending.short _ (List.getElem_mem below)
      · rw [cmd] at ack
        exact absurd ack (by decide)

/-! ## What `ikcp_input` does with a datagram -/

/-- Two control blocks that agree on everything but times and congestion. -/
structure Alike (kcp kcp' : Ikcpcb) : Prop where
  nxt : kcp'.sndNxt = kcp.sndNxt
  una : kcp'.sndUna = kcp.sndUna
  buf : kcp'.sndBuf.map IkcpSeg.core = kcp.sndBuf.map IkcpSeg.core
  queue : kcp'.sndQueue = kcp.sndQueue
  rcvSide : kcp'.rcvSide = kcp.rcvSide
  acklist : kcp'.acklist = kcp.acklist
  rmtWnd : kcp'.rmtWnd = kcp.rmtWnd
  params : kcp'.params = kcp.params

theorem Alike.refl (kcp : Ikcpcb) : Alike kcp kcp := ⟨rfl, rfl, rfl, rfl, rfl, rfl, rfl, rfl⟩

theorem alike_retimed (kcp : Ikcpcb) (current tsFlush updated : UInt32) :
    Alike kcp { kcp with current := current, tsFlush := tsFlush, updated := updated } :=
  ⟨rfl, rfl, rfl, rfl, rfl, rfl, rfl, rfl⟩

/-- An update sets the times, and then flushes or not. -/
theorem ikcpUpdate_cases (kcp : Ikcpcb) (current : UInt32) :
    ∃ ready, Alike kcp ready ∧
      (ikcpUpdate kcp current = ikcpFlush ready ∨ ikcpUpdate kcp current = (ready, [])) := by
  unfold ikcpUpdate
  dsimp only
  split_ifs <;>
    first
      | exact ⟨_, alike_retimed kcp current _ _, Or.inl rfl⟩
      | exact ⟨_, alike_retimed kcp current _ _, Or.inr rfl⟩

theorem inputSegment_foldl (segs : List IkcpSeg) (state : InputState) :
    (segs.foldl (fun s seg => inputSegment s (onWire seg)) state).kcp =
      (segs.map onWire).foldl inputKcp state.kcp := by
  induction segs generalizing state with
  | nil => rfl
  | cons seg rest ih => exact ih (inputSegment state (onWire seg))

theorem length_le_encodeSegs (segs : List IkcpSeg) :
    ikcpOverhead * segs.length ≤ (encodeSegs segs).length := by
  induction segs with
  | nil => exact Nat.le_refl _
  | cons seg rest ih =>
      simp only [encodeSegs_cons, List.length_append, ikcpEncodeSeg_length, List.length_cons]
      rw [Nat.mul_succ]
      omega

/-- The datagram of `segs` is applied segment by segment. -/
theorem ikcpInput_encode {kcp : Ikcpcb} {segs : List IkcpSeg} (rest : List UInt8)
    (ok : ∀ seg ∈ segs, Decodable kcp.conv seg) :
    Alike ((segs.map onWire).foldl inputKcp kcp)
      (ikcpInput kcp (encodeSegs segs ++ rest) (encodeSegs segs).length).2 := by
  have enough := length_le_encodeSegs segs
  by_cases short : (encodeSegs segs).length < ikcpOverhead
  · have none : segs = [] := by
      apply List.eq_nil_of_length_eq_zero
      simp only [ikcpOverhead] at enough short
      omega
    rw [ikcpInput, if_pos short, none]
    exact Alike.refl _
  · have fuel : segs.length ≤ (encodeSegs segs).length := by
      simp only [ikcpOverhead] at enough
      omega
    rw [ikcpInput_cases kcp _ short, inputLoop_encode segs _ rest ⟨kcp, false, 0⟩ fuel ok,
      ← inputSegment_foldl segs ⟨kcp, false, 0⟩]
    dsimp only
    unfold ikcpParseFastack
    split_ifs
    · exact ⟨rfl, rfl, rfl, rfl, rfl, rfl, rfl, rfl⟩
    · exact ⟨rfl, rfl, countFastack_core _ _, rfl, rfl, rfl, rfl, rfl⟩
    · exact ⟨rfl, rfl, rfl, rfl, rfl, rfl, rfl, rfl⟩

end AsioKcp.Ikcp
