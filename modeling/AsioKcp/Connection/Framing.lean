import AsioKcp.Connection.Streams
import AsioKcp.Ikcp.Parsing

/-! # The datagrams of a flush

Whatever mix of acks, probes and data a flush packs, its datagrams fit the
buffers they pass through, and a connection with the same conv reads back the
segments that were encoded. -/
set_option autoImplicit false

namespace AsioKcp.Ikcp

/-- What one segment says on the wire; its `len` is the length of `data`. -/
structure WireSeg where
  conv : UInt32
  cmd : UInt32
  frg : UInt32
  wnd : UInt32
  ts : UInt32
  sn : UInt32
  una : UInt32
  data : List UInt8
  deriving DecidableEq

def IkcpSeg.wire (seg : IkcpSeg) : WireSeg :=
  ⟨seg.conv, seg.cmd, seg.frg, seg.wnd, seg.ts, seg.sn, seg.una, seg.data⟩

/-- A segment that survives the narrowing of its fields and fits into a datagram. -/
structure Encodable (conv mtu : UInt32) (seg : IkcpSeg) : Prop where
  decodable : Decodable conv seg
  frg : seg.frg = 0
  wnd : seg.wnd.toNat ≤ 256
  fits : ikcpOverhead + seg.data.length ≤ mtu.toNat
  filled : seg.cmd = ikcpCmdPush → seg.data ≠ []

theorem Encodable.wire {conv mtu : UInt32} {seg : IkcpSeg} (ok : Encodable conv mtu seg) :
    (onWire seg).wire = seg.wire := by
  have frg : (onWire seg).frg = seg.frg := by
    simp only [onWire, ikcpSegmentNew, ok.frg]
    rfl
  have wnd : (onWire seg).wnd = seg.wnd := by
    have small := ok.wnd
    apply UInt32.toNat_inj.mp
    simp only [onWire, UInt16.toNat_toUInt32, UInt32.toNat_toUInt16]
    exact Nat.mod_eq_of_lt (by omega)
  have cmd := ok.decodable.wire
  simp only [IkcpSeg.wire, frg, wnd, cmd]
  rfl

theorem ikcpWndUnused_le (kcp : Ikcpcb) : (ikcpWndUnused kcp).toNat ≤ kcp.rcvWnd.toNat := by
  unfold ikcpWndUnused
  split
  · rename_i some
    have below := UInt32.lt_iff_toNat_lt.mp some
    rw [UInt32.toNat_sub_of_le _ _ (UInt32.le_iff_toNat_le.mpr (by omega))]
    omega
  · exact Nat.zero_le _

theorem controlSegs_frg (kcp : Ikcpcb) : ∀ seg ∈ ackSegs kcp ++ probeSegs kcp, seg.frg = 0 := by
  have acks : ∀ seg ∈ ackSegs kcp, seg.frg = 0 := by
    intro seg member
    obtain ⟨ack, _, rfl⟩ := List.mem_map.mp member
    rfl
  have last : (lastControlSeg kcp).frg = 0 := by
    have either : lastControlSeg kcp ∈ controlSeg kcp :: ackSegs kcp := List.getLastD_mem_cons
    rcases List.mem_cons.mp either with isControl | isAck
    · rw [isControl]
      rfl
    · exact acks _ isAck
  intro seg member
  rcases List.mem_append.mp member with isAck | isProbe
  · exact acks seg isAck
  · rw [probeSegs, List.mem_append] at isProbe
    rcases isProbe with member | member <;>
      · split at member
        · rw [List.mem_singleton.mp member]
          exact last
        · cases member

/-- Every segment that a flush encodes can be read back. -/
theorem flushSegs_encodable {conv : UInt32} {kcp : Ikcpcb} (outgoing : Outgoing conv kcp)
    (mtu : kcp.mtu.toNat = ikcpOverhead + kcp.mss.toNat) :
    ∀ seg ∈ flushSegs kcp, Encodable conv kcp.mtu seg := by
  have moved := flushMoved_outgoing outgoing
  obtain ⟨out, live, sending, _⟩ := moved.numbering
  have mss : (flushMoved kcp).mss = kcp.mss := congrArg Params.mss (flushMoved_params kcp)
  have rcvWnd : kcp.rcvWnd = 256 := outgoing.suited.rcvWnd
  intro seg member
  obtain ⟨flushed, una, wnd⟩ := flushSegs_cases member
  have window : seg.wnd.toNat ≤ 256 := by
    have unused := ikcpWndUnused_le kcp
    rw [rcvWnd] at unused
    rw [wnd]
    exact unused
  have bare : seg.data = [] → ikcpOverhead + seg.data.length ≤ kcp.mtu.toNat := by
    intro none
    rw [none, List.length_nil]
    omega
  have acks : ∀ stamp ∈ kcp.acklist, ∃ j, True ∧ stamp.1 = UInt32.ofNat j :=
    fun stamp _ => ⟨stamp.1.toNat, trivial, UInt32.ofNat_toNat.symm⟩
  have nxt : kcp.rcvNxt = UInt32.ofNat kcp.rcvNxt.toNat := UInt32.ofNat_toNat.symm
  have told := flushSegs_tell outgoing.suited sending acks nxt seg member
  by_cases push : seg.cmd = ikcpCmdPush
  · obtain ⟨i, isLive, core⟩ := told.push push
    have held : (numbered conv out i).data ∈ (flushMoved kcp).pending.map IkcpSeg.data := by
      rw [Ikcpcb.pending, List.map_append, ← map_core_data, sending.buf]
      exact List.mem_append_left _
        (List.mem_map_of_mem (f := SegCore.data) (List.mem_map_of_mem isLive))
    have filled := moved.filled _ held
    rw [← show seg.data = (numbered conv out i).data from congrArg SegCore.data core, mss] at filled
    exact ⟨told.decodable, congrArg SegCore.frg core, window, by
      have := filled.2
      omega, fun _ => filled.1⟩
  · have isControl : seg ∈ ackSegs kcp ++ probeSegs kcp ∧ seg.data = [] := by
      rw [flushSegs] at member
      rcases List.mem_append.mp member with isControl | isData
      · refine ⟨isControl, ?_⟩
        cases flushed with
        | ack _ _ _ _ _ none => exact none
        | probe _ _ none => exact none
        | data sent buffered core =>
            have inBuf := List.mem_map_of_mem (f := IkcpSeg.core) buffered
            rw [sending.buf] at inBuf
            obtain ⟨i, _, same⟩ := List.mem_map.mp inBuf
            exact absurd (congrArg SegCore.cmd (core.trans same.symm)) push
      · obtain ⟨sent, isSent, rfl⟩ := List.mem_map.mp isData
        have core := flushSegment_core (flushMoved kcp) (ikcpWndUnused kcp) sent
        have inBuf := List.mem_map_of_mem (f := IkcpSeg.core) (List.mem_of_mem_filter isSent)
        rw [sending.buf] at inBuf
        obtain ⟨i, _, same⟩ := List.mem_map.mp inBuf
        exact absurd (congrArg SegCore.cmd (core.trans same.symm)) push
    exact ⟨told.decodable, controlSegs_frg kcp seg isControl.1, window, bare isControl.2,
      fun isPush => absurd isPush push⟩

/-- The loop of `ikcp_input` processes the encoded segments, all of them. -/
theorem inputSegs_encode {conv : UInt32} (segs : List IkcpSeg) :
    ∀ (fuel : Nat) (rest : List UInt8), segs.length ≤ fuel →
      (∀ seg ∈ segs, Decodable conv seg) →
      inputSegs conv fuel (encodeSegs segs ++ rest) (encodeSegs segs).length = segs.map onWire := by
  induction segs with
  | nil =>
      intro fuel rest _ _
      cases fuel <;> rfl
  | cons seg segs ih =>
      intro fuel rest enough ok
      cases fuel with
      | zero => simp at enough
      | succ fuel =>
          have here := ok seg (List.mem_cons_self ..)
          have front := encodeSegs_fronted segs rest here
          have convOk : (onWire seg).conv = conv := here.conv_eq
          simp only [inputSegs, front.decoded, front.len, if_neg front.enough, convOk, ne_eq,
            not_true_eq_false, if_false, if_neg front.fits, if_neg front.known, front.skip,
            front.left]
          rw [ih fuel rest (by simpa using enough) fun other member =>
            ok other (List.mem_cons_of_mem _ member)]
          rfl

/-- `ikcp_input` takes the encoded segments in order, and does what it does at the end
of its input. -/
theorem ikcpInput_encoded {kcp : Ikcpcb} {segs : List IkcpSeg} (rest : List UInt8)
    (long : ¬ (encodeSegs segs).length < ikcpOverhead)
    (ok : ∀ seg ∈ segs, Decodable kcp.conv seg) :
    ikcpInput kcp (encodeSegs segs ++ rest) (encodeSegs segs).length =
      (0, finished kcp (segs.map onWire)) := by
  have enough := length_le_encodeSegs segs
  have fuel : segs.length ≤ (encodeSegs segs).length := by
    simp only [ikcpOverhead] at enough
    omega
  rw [ikcpInput, if_neg long, inputLoop_encode segs _ rest ⟨kcp, false, 0⟩ fuel ok, finished,
    List.foldl_map]

end AsioKcp.Ikcp

namespace AsioKcp

open AsioKcp.Ikcp AsioKcp.Callback AsioKcp.Machine

/-- The control blocks that the next step of a connection may flush. -/
inductive Flushes (c : Connection) : Ikcpcb → Prop
  | close : Flushes c c.obj
  | update (now : Int) (ready : Ikcpcb) : updateReady c.obj (UInt32.ofInt now) = some ready →
      Flushes c ready
  /-- The second flush of `update`. -/
  | extra (now : Int) : Flushes c (ikcpUpdate c.obj (UInt32.ofInt now)).1

/-- The size of the `data_` of a `static_buffer`. -/
def staticBufferSize : Nat := 2048

/-- The datagram of `group` passes `raw_send`, and is read back by any connection
with this conv, whatever the memory holds behind it: `ikcp_input` applies the
segments that `group` has put on the wire, up to the last byte. -/
structure Framed (conv : UInt32) (group : List IkcpSeg) : Prop where
  low : 24 ≤ (encodeSegs group).length
  high : (encodeSegs group).length ≤ 1200
  asserted : (encodeSegs group).length ≤ 2048 ∧ (encodeSegs group).length + 1 < staticBufferSize
  received : (opcodeData :: encodeSegs group).length ≤ staticBufferSize
  heard : ∀ (peer : Local) (stale : List UInt8) (t : Int), peer.conn.obj.conv = conv →
    let memory := opcodeData :: encodeSegs group ++ stale
    let size := (opcodeData :: encodeSegs group).length
    onReceive memory size t peer = checkReadOp .success (peer.received memory size t) ∧
    (peer.received memory size t).conn.obj =
      (ikcpInput peer.conn.obj (memory.drop 1) (size - 1)).2 ∧
    ikcpInput peer.conn.obj (memory.drop 1) (size - 1) =
      (0, finished peer.conn.obj (group.map onWire)) ∧
    (group.map onWire).map IkcpSeg.wire = group.map IkcpSeg.wire ∧
    ((group.map onWire).map fun seg => ikcpOverhead + seg.data.length).sum = size - 1

theorem encodeSegs_length (segs : List IkcpSeg) :
    (encodeSegs segs).length = (segs.map fun seg => ikcpOverhead + seg.data.length).sum := by
  induction segs with
  | nil => rfl
  | cons seg rest ih =>
      rw [encodeSegs_cons, List.length_append, List.length_append, ikcpEncodeSeg_length, ih,
        List.map_cons, List.sum_cons]

theorem framed_of_encodable {conv mtu : UInt32} {group : List IkcpSeg} (nonempty : group ≠ [])
    (ok : ∀ seg ∈ group, Encodable conv mtu seg) (high : (encodeSegs group).length ≤ 1200) :
    Framed conv group := by
  have low : 24 ≤ (encodeSegs group).length := by
    have enough := length_le_encodeSegs group
    have some : 0 < group.length := List.length_pos_iff.mpr nonempty
    simp only [ikcpOverhead] at enough
    omega
  refine ⟨low, high, ?_, ?_, ?_⟩
  · simp only [staticBufferSize]
    omega
  · simp only [List.length_cons, staticBufferSize]
    omega
  · intro peer stale t same
    have size : (opcodeData :: encodeSegs group).length - 1 = (encodeSegs group).length := rfl
    have memory : (opcodeData :: encodeSegs group ++ stale).drop 1 = encodeSegs group ++ stale := rfl
    have opcode : (opcodeData :: encodeSegs group ++ stale).getD 0 0 = opcodeData := rfl
    have long : ¬ (opcodeData :: encodeSegs group).length < 24 := by
      rw [List.length_cons]
      omega
    have readable : ∀ seg ∈ group, Decodable conv seg := fun seg member => (ok seg member).decodable
    dsimp only
    rw [size, memory]
    refine ⟨?_, ?_, ?_, ?_, ?_⟩
    · rw [onReceive_eq, if_neg long, if_pos opcode]
    · rw [Local.received, if_neg long, opcode, if_pos rfl]
      rfl
    · apply ikcpInput_encoded
      · simp only [ikcpOverhead]
        omega
      · rw [same]
        exact readable
    · rw [List.map_map]
      exact List.map_congr_left fun seg member => (ok seg member).wire
    · rw [encodeSegs_length, List.map_map]
      rfl

/-- A control block as `init_kcp_context` has configured it, under arbitrary acks. -/
def Served (conv : UInt32) (kcp : Ikcpcb) : Prop :=
  kcp.params = (initKcpContext conv).params ∧ Outgoing conv kcp

theorem served_init (conv : UInt32) : Served conv (initKcpContext conv) := by
  have empty : (initKcpContext conv).pending = [] := rfl
  refine ⟨rfl, suited_init conv, ⟨[], [], ?_, Nat.zero_le _⟩, ?_⟩
  · exact ⟨rfl, rfl, rfl, List.Pairwise.nil, fun _ member => (List.not_mem_nil member).elim,
      fun _ member => (List.not_mem_nil member).elim, fun _ member => (List.not_mem_nil member).elim⟩
  · rw [empty]
    exact fun _ member => (List.not_mem_nil member).elim

theorem served_lasting (conv : UInt32) : Lasting (Served conv) :=
  (params_lasting _).and (outgoing_lasting conv)

theorem Served.mtu {conv : UInt32} {kcp : Ikcpcb} (served : Served conv kcp) :
    kcp.mtu = 1200 ∧ kcp.mss = 1176 :=
  ⟨congrArg Params.mtu served.1, congrArg Params.mss served.1⟩

/-- The groups of segments that a flush packs into its datagrams. -/
theorem flush_groups {conv : UInt32} {kcp : Ikcpcb} (served : Served conv kcp) :
    ∃ groups : List (List IkcpSeg), (ikcpFlush kcp).2 = groups.map encodeSegs ∧
      groups.flatten = (if kcp.updated = 0 then [] else flushSegs kcp) ∧
      ∀ group ∈ groups, group ≠ [] ∧ (∀ seg ∈ group, Encodable conv 1200 seg) ∧
        (encodeSegs group).length ≤ 1200 := by
  obtain ⟨mtu, mss⟩ := served.mtu
  have encodable := flushSegs_encodable served.2 (by rw [mtu, mss]; rfl)
  have within := ikcpFlush_within fun seg member => (encodable seg member).fits
  rw [mtu] at encodable within
  by_cases fresh : kcp.updated = 0
  · exact ⟨[], by simp [ikcpFlush, fresh], by simp [fresh], by simp⟩
  · obtain ⟨groups, datagrams, flatten, nonempty⟩ := ikcpFlush_packs kcp fresh
    refine ⟨groups, datagrams, by rw [if_neg fresh, flatten], fun group member => ?_⟩
    refine ⟨nonempty group member, fun seg inside => encodable seg ?_, within _ ?_⟩
    · rw [← flatten]
      exact List.mem_flatten.mpr ⟨group, member, inside⟩
    · rw [datagrams]
      exact List.mem_map_of_mem member

/-- The segments that a data datagram of a connection carries. -/
def Carried (conv : UInt32) (bytes : List UInt8) : Prop :=
  ∃ group, bytes = encodeSegs group ∧ group ≠ [] ∧ (∀ seg ∈ group, Encodable conv 1200 seg) ∧
    (encodeSegs group).length ≤ 1200

theorem flush_carried {conv : UInt32} {kcp : Ikcpcb} (served : Served conv kcp) :
    ∀ bytes ∈ (ikcpFlush kcp).2, Carried conv bytes := by
  obtain ⟨groups, datagrams, _, packed⟩ := flush_groups served
  intro bytes member
  rw [datagrams] at member
  obtain ⟨group, isGroup, rfl⟩ := List.mem_map.mp member
  exact ⟨group, rfl, packed group isGroup⟩

theorem flushes_served {conv : UInt32} {c : Connection} {kcp : Ikcpcb} (flushes : Flushes c kcp)
    (served : Served conv c.obj) : Served conv kcp := by
  have lasting := served_lasting conv
  cases flushes with
  | close => exact served
  | update now ready isReady => exact lasting.ready isReady served
  | extra now => exact lasting.update _ served

/-- Every flush of every reachable connection packs its segments into datagrams
that fit and that a connection with the same conv reads back in full, and
nothing else is ever sent but the disconnect datagram. -/
theorem datagrams_framed {conv : UInt32} {start c : Config Local} (started : Started conv start)
    (run : connectionSystem.Steps (fun _ _ => True) start c) :
    (∀ kcp, Flushes c.state.conn kcp → ∃ groups : List (List IkcpSeg),
      (ikcpFlush kcp).2 = groups.map encodeSegs ∧
      groups.flatten = (if kcp.updated = 0 then [] else flushSegs kcp) ∧
      ∀ group ∈ groups, Framed conv group) ∧
    ∀ d ∈ c.state.env.sent,
      Emits (fun bytes => ∃ group, bytes = encodeSegs group ∧ Framed conv group) d := by
  have lasting := served_lasting conv
  have served : Served conv c.state.conn.obj := run_lasting lasting started (served_init conv) run
  have framed : ∀ {group : List IkcpSeg}, group ≠ [] ∧ (∀ seg ∈ group, Encodable conv 1200 seg) ∧
      (encodeSegs group).length ≤ 1200 → Framed conv group :=
    fun packed => framed_of_encodable packed.1 packed.2.1 packed.2.2
  constructor
  · intro kcp flushes
    obtain ⟨groups, datagrams, flatten, packed⟩ := flush_groups (flushes_served flushes served)
    exact ⟨groups, datagrams, flatten, fun group member => framed (packed group member)⟩
  · intro d member
    have emitted := run_emits lasting flush_carried started (served_init conv) run d member
    refine emitted.imp_left ?_
    rintro ⟨bytes, shape, group, rfl, packed⟩
    exact ⟨_, shape, group, rfl, framed packed⟩

/-- A write that is flushed. -/
theorem datagrams_framed_write : ∃ c d, connectionSystem.run (clientStart 7 loopback 0 noStreambufs)
    [.call (.asyncWrite [1, 2, 3]), .event (.update 0)] = some c ∧ d ∈ c.state.env.sent ∧
      Emits (fun bytes => ∃ group, bytes = encodeSegs group ∧ Framed 7 group) d := by
  obtain ⟨c, ran, some⟩ := run_checked connectionSystem (clientStart 7 loopback 0 noStreambufs)
    [.call (.asyncWrite [1, 2, 3]), .event (.update 0)] (fun c => !c.state.env.sent.isEmpty)
    (by decide)
  have run := steps_of_run connectionSystem (fun _ => True) _ (fun _ _ => trivial) ran
  have filled : c.state.env.sent ≠ [] := by simpa using some
  have framed := datagrams_framed (.client loopback 0 noStreambufs) run
  exact ⟨c, _, ran, List.head_mem filled, framed.2 _ (List.head_mem filled)⟩

end AsioKcp
