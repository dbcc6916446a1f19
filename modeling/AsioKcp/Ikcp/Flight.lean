import AsioKcp.Ikcp.Ledger
import AsioKcp.Ikcp.Resends
import AsioKcp.Lib.Window

/-! # Two control blocks that hear each other in order

Each operation of KCP is a step of the window between the two sides.  So every
comparison of the code is between numbers that lie close together, and the
ledgers stay right however many segments have been numbered. -/
set_option autoImplicit false

namespace AsioKcp.Ikcp

open AsioKcp.Serial AsioKcp.Window

/-- Where one side of a transfer stands. -/
structure Standing where
  tally : Tally
  owed : List Nat
  rmtWnd : UInt32

def Standing.start : Standing := ⟨.start, [], ikcpWndRcv⟩

def Standing.sender (s : Standing) : Sender :=
  ⟨s.tally.out.length, s.tally.live, decide (s.rmtWnd ≠ 0)⟩

def Standing.receiver (s : Standing) : Receiver := ⟨s.tally.next, s.tally.held, s.owed⟩

structure Stands (conv : UInt32) (peer : Tally) (s : Standing) (got accepted : List UInt8)
    (kcp : Ikcpcb) : Prop where
  ledger : Ledger conv peer.out peer.has s.tally got accepted kcp
  owes : ∀ stamp ∈ kcp.acklist, ∃ j ∈ s.owed, stamp.1 = UInt32.ofNat j
  rmtWnd : s.rmtWnd = kcp.rmtWnd

/-- Two sides with what is in flight between them, from the first and back. -/
structure Linked (s p : Standing) (there back : List Note) : Prop where
  sends : Way 256 s.sender p.receiver there back
  hears : Way 256 p.sender s.receiver back there

theorem Linked.symm {s p : Standing} {there back : List Note} (linked : Linked s p there back) :
    Linked p s back there :=
  ⟨linked.hears, linked.sends⟩

/-- What the note of a segment says of it. -/
structure Noted (conv : UInt32) (out : List (List UInt8)) (seg : IkcpSeg) (n : Note) : Prop where
  tells : Tells conv out (n.push = some ·) (n.ack = some ·) (n.next = ·) seg
  pushes : n.push ≠ none → seg.cmd = ikcpCmdPush
  below : ∀ i, n.push = some i → i < out.length
  room : n.room = decide ((onWire seg).wnd ≠ 0)

/-- The notes of a datagram are those of its segments. -/
def Bears (conv : UInt32) (out : List (List UInt8)) (bytes : List UInt8) (notes : List Note) : Prop :=
  ∃ segs, bytes = encodeSegs segs ∧ List.Forall₂ (Noted conv out) segs notes

theorem Noted.mono {conv : UInt32} {out out' : List (List UInt8)} (grown : out <+: out') {n : Note}
    {seg : IkcpSeg} (noted : Noted conv out seg n) : Noted conv out' seg n := by
  obtain ⟨more, rfl⟩ := grown
  refine ⟨noted.tells.mono (fun i push => ⟨push, ?_⟩) (fun _ => id) fun _ => id, noted.pushes,
    fun i push => ?_, noted.room⟩
  · exact numbered_append (noted.below i push) more
  · have := noted.below i push
    rw [List.length_append]
    omega

theorem Bears.mono {conv : UInt32} {out out' : List (List UInt8)} (grown : out <+: out')
    {bytes : List UInt8} {notes : List Note} (bears : Bears conv out bytes notes) :
    Bears conv out' bytes notes := by
  obtain ⟨segs, same, noted⟩ := bears
  exact ⟨segs, same, noted.imp fun _ _ => Noted.mono grown⟩

section Stands
variable {conv : UInt32} {peer : Tally} {s p : Standing} {got accepted : List UInt8}
  {kcp kcp' : Ikcpcb} {there back : List Note}

theorem Stands.of_alike (stands : Stands conv peer s got accepted kcp) (alike : Alike kcp kcp') :
    Stands conv peer s got accepted kcp' where
  ledger := stands.ledger.of_alike alike
  owes := by
    rw [alike.acklist]
    exact stands.owes
  rmtWnd := stands.rmtWnd.trans alike.rmtWnd.symm

theorem Stands.peer_later {peer' : Tally} (later : peer.Later peer')
    (stands : Stands conv peer s got accepted kcp) : Stands conv peer' s got accepted kcp :=
  { stands with ledger := stands.ledger.peer_later later }

/-! ## `ikcp_send` and `ikcp_recv` -/

theorem sendExtend_more (kcp : Ikcpcb) (buffer : List UInt8) :
    ∃ more, payload (sendExtend kcp buffer).1.sndQueue = payload kcp.sndQueue ++ more := by
  unfold sendExtend
  cases last : kcp.sndQueue.getLast? with
  | none => exact ⟨[], (List.append_nil _).symm⟩
  | some old =>
      dsimp only
      split
      · have shape : kcp.sndQueue = kcp.sndQueue.dropLast ++ [old] :=
          (List.dropLast_append_getLast? old last).symm
        refine ⟨buffer.take (kcp.mss.toNat - old.data.length), ?_⟩
        conv_rhs => rw [shape]
        simp [ikcpSegmentNew]
      · exact ⟨[], (List.append_nil _).symm⟩

/-- A send, refused or not, queues some more bytes. -/
theorem ikcpSend_more {kcp : Ikcpcb} (suited : Suited conv kcp.params)
    (whole : ∀ seg ∈ kcp.sndQueue, Whole kcp.mss seg) (buffer : List UInt8) (len : Int) :
    ∃ more, payload (ikcpSend kcp buffer len).2.sndQueue = payload kcp.sndQueue ++ more ∧
      ∀ seg ∈ (ikcpSend kcp buffer len).2.sndQueue, Whole kcp.mss seg := by
  have stream : kcp.stream ≠ 0 := suited.stream
  obtain ⟨more, queued⟩ := sendExtend_more kcp (buffer.take len.toNat)
  obtain ⟨_, extended⟩ := sendExtend_queue whole (buffer.take len.toNat)
  have params := sendExtend_params kcp (buffer.take len.toNat)
  unfold ikcpSend
  dsimp only
  rw [if_pos stream]
  generalize sendExtend kcp (buffer.take len.toNat) = pair at queued extended params ⊢
  obtain ⟨kcp', rest⟩ := pair
  have mss : kcp'.mss = kcp.mss := congrArg Params.mss params
  have streaming : kcp'.stream ≠ 0 := by
    rw [show kcp'.stream = kcp.stream from congrArg Params.stream params]
    exact stream
  dsimp only at queued extended ⊢
  generalize (if rest.length ≤ kcp'.mss.toNat then 1
    else (rest.length + kcp'.mss.toNat - 1) / kcp'.mss.toNat) = count
  split_ifs
  · exact ⟨[], (List.append_nil _).symm, whole⟩
  · exact ⟨more, queued, extended⟩
  · exact ⟨more, queued, extended⟩
  · refine ⟨more ++ payload (sendFragments kcp'.stream kcp'.mss.toNat count rest), ?_,
      fun seg member => ?_⟩
    · rw [payload_append, queued, List.append_assoc]
    · rcases List.mem_append.mp member with before | fresh
      · exact extended seg before
      · rw [mss] at fresh
        exact sendFragments_whole streaming _ count rest seg fresh

theorem ikcpSend_rmtWnd (kcp : Ikcpcb) (buffer : List UInt8) (len : Int) :
    (ikcpSend kcp buffer len).2.rmtWnd = kcp.rmtWnd := by
  have extended : (sendExtend kcp (buffer.take len.toNat)).1.rmtWnd = kcp.rmtWnd := by
    unfold sendExtend
    split
    · rfl
    · split <;> rfl
  unfold ikcpSend
  dsimp only
  split_ifs <;> first | rfl | exact extended

theorem ikcpRecv_rmtWnd (kcp : Ikcpcb) (len : Int) :
    (ikcpRecv kcp len).2.2.rmtWnd = kcp.rmtWnd := by
  have moved : ∀ (segs : List IkcpSeg) (kcp : Ikcpcb),
      (moveToRcvQueue segs kcp).rmtWnd = kcp.rmtWnd :=
    moveToRcvQueue_keeps Ikcpcb.rmtWnd (fun _ => rfl)
  unfold ikcpRecv
  dsimp only
  split_ifs <;> first | rfl | exact moved _ _

/-- A send leaves alone what the window is about. -/
theorem Stands.queue (stands : Stands conv peer s got accepted kcp) {buffer more : List UInt8}
    {len : Int} (queued : payload (ikcpSend kcp buffer len).2.sndQueue = payload kcp.sndQueue ++ more)
    (whole : ∀ seg ∈ (ikcpSend kcp buffer len).2.sndQueue, Whole kcp.mss seg) :
    Stands conv peer s got (accepted ++ more) (ikcpSend kcp buffer len).2 where
  ledger := stands.ledger.queue queued whole
  owes := by
    rw [(ikcpSend_onlyQueues kcp buffer len).acklist]
    exact stands.owes
  rmtWnd := by
    have same : (ikcpSend kcp buffer len).2.rmtWnd = kcp.rmtWnd := ikcpSend_rmtWnd kcp buffer len
    rw [same]
    exact stands.rmtWnd

theorem Stands.send (stands : Stands conv peer s got accepted kcp) {buffer : List UInt8} {len : Int}
    (ok : ¬ (ikcpSend kcp buffer len).1 < 0) :
    Stands conv peer s got (accepted ++ buffer.take len.toNat) (ikcpSend kcp buffer len).2 := by
  obtain ⟨queued, whole⟩ :=
    ikcpSend_queue stands.ledger.suited stands.ledger.sending.queue buffer len ok
  exact stands.queue queued whole

theorem Stands.send_any (stands : Stands conv peer s got accepted kcp) (buffer : List UInt8)
    (len : Int) : ∃ more, Stands conv peer s got (accepted ++ more) (ikcpSend kcp buffer len).2 := by
  obtain ⟨more, queued, whole⟩ :=
    ikcpSend_more stands.ledger.suited stands.ledger.sending.queue buffer len
  exact ⟨more, stands.queue queued whole⟩

/-- A read moves the numbers of the receive side on. -/
theorem Stands.recv (stands : Stands conv p.tally s got accepted kcp)
    (linked : Linked s p there back) {len : Int} (whole : ¬ len < 0) :
    ∃ s', s.tally.Later s'.tally ∧
      Stands conv p.tally s' (got ++ (ikcpRecv kcp len).2.1) accepted (ikcpRecv kcp len).2.2 ∧
      Linked s' p there back := by
  have ordered : s.receiver.Ordered 256 := linked.hears.ends.receiver
  have spans : ∀ i ∈ s.tally.held, Spans s.tally.next i := by
    intro i isHeld
    obtain ⟨low, high⟩ := ordered.span i isHeld
    exact ⟨low, by change i < s.tally.next + 256 at high; omega⟩
  obtain ⟨k, taken, ledger⟩ := stands.ledger.recv_moves spans (Nat.le_refl _) (by omega) whole
  have gains : s.receiver.Gains 256 none ⟨s.tally.next + k, s.tally.held.drop k, s.owed⟩ := by
    refine ⟨ordered.drop taken, Nat.le_add_right _ _, fun i => ?_, fun j owed => Or.inl owed⟩
    exact (Receiver.has_drop taken).trans (or_iff_left nofun).symm
  refine ⟨{ s with tally := s.tally.take s.tally.held k }, ⟨List.prefix_refl _, fun i has => ?_⟩,
    ⟨ledger, ?_, ?_⟩, linked.sends, linked.hears.advance gains⟩
  · exact has_of_taken taken has
  · rw [(ikcpRecv_sndSide kcp len).2]
    exact stands.owes
  · rw [ikcpRecv_rmtWnd]
    exact stands.rmtWnd

/-- The next segment is not in `rcv_buf` while there is room in `rcv_queue`. -/
theorem moveToRcvQueue_rest (stands : Stands conv p.tally s got accepted kcp)
    (ordered : s.receiver.Ordered 256) : moveToRcvQueue kcp.rcvBuf kcp = kcp := by
  have receiving := stands.ledger.receiving
  have rcvWnd : kcp.rcvWnd = 256 := stands.ledger.suited.rcvWnd
  cases buf : kcp.rcvBuf with
  | nil =>
      change { kcp with rcvBuf := [] } = kcp
      rw [← buf]
  | cons seg rest =>
      have waits : ¬ (seg.sn = kcp.rcvNxt ∧ kcp.nrcvQue < kcp.rcvWnd) := by
        rintro ⟨isNext, free⟩
        have numbers := receiving.buf
        rw [buf] at numbers
        cases held : s.tally.held with
        | nil =>
            rw [held] at numbers
            cases numbers
        | cons i others =>
            rw [held] at numbers
            have sn : seg.sn = UInt32.ofNat i := congrArg SegCore.sn (List.cons.inj numbers).1
            obtain ⟨low, high⟩ := ordered.span i (by simp [Standing.receiver, held])
            change s.tally.next ≤ i at low
            change i < s.tally.next + 256 at high
            rw [sn, receiving.nxt, ofNat_eq_iff (by constructor <;> omega)] at isNext
            have full := stands.ledger.tight (by rw [held, isNext]; rfl)
            rw [receiving.count, full, rcvWnd] at free
            exact absurd free (by decide)
      rw [moveToRcvQueue_cons, if_neg waits, ← buf]

/-- A peek changes nothing. -/
theorem Stands.peek (stands : Stands conv p.tally s got accepted kcp)
    (linked : Linked s p there back) {len : Int} (peeks : len < 0) : (ikcpRecv kcp len).2.2 = kcp := by
  unfold ikcpRecv
  dsimp only
  simp only [if_pos peeks, moveToRcvQueue_rest stands linked.hears.ends.receiver]
  split_ifs with _ _ _ recovered
  · rfl
  · rfl
  · rfl
  · exact absurd recovered.1 (UInt32.not_lt.mpr recovered.2)
  · rfl

/-! ## `ikcp_input` -/

theorem insertNumber_sorted {i : Nat} {ns ns' : List Nat} (sorted : ns.Pairwise (· > ·))
    (found : insertNumber i ns = some ns') : ns'.Pairwise (· > ·) := by
  induction ns generalizing ns' with
  | nil =>
      cases found
      exact List.pairwise_singleton _ _
  | cons k rest ih =>
      obtain ⟨above, ordered⟩ := List.pairwise_cons.mp sorted
      simp only [insertNumber] at found
      split_ifs at found with same smaller
      · cases found
        refine List.pairwise_cons.mpr ⟨fun j member => ?_, sorted⟩
        rcases List.mem_cons.mp member with rfl | later
        · exact smaller
        · exact Nat.lt_trans (above j later) smaller
      · obtain ⟨others, deeper, rfl⟩ := Option.map_eq_some_iff.mp found
        have members := insertNumber_mem i rest
        rw [deeper] at members
        refine List.pairwise_cons.mpr ⟨fun j member => ?_, ih ordered deeper⟩
        rcases (members j).mp member with rfl | old
        · change j < k
          omega
        · exact above j old

theorem arrive_sorted {i : Nat} {held : List Nat} (sorted : held.Pairwise (· < ·)) :
    (arrive i held).Pairwise (· < ·) := by
  unfold arrive
  cases found : insertNumber i held.reverse with
  | none => exact sorted
  | some ns =>
      have inserted := insertNumber_sorted (List.pairwise_reverse.mpr sorted) found
      exact List.pairwise_reverse.mpr inserted

/-- A segment that comes in is among the numbers of the receiver, and owed. -/
theorem Ledger.Arrives.gains {i : Nat} {t t' : Tally} (arrives : Ledger.Arrives i t t') {owed : List Nat}
    (ordered : Receiver.Ordered 256 ⟨t.next, t.held, owed⟩) (window : i < t.next + 256) :
    Receiver.Gains 256 ⟨t.next, t.held, owed⟩ (some i) ⟨t'.next, t'.held, owed ++ [i]⟩ := by
  have owes : ∀ j ∈ owed ++ [i], j ∈ owed ∨ some i = some j := by
    intro j member
    rcases List.mem_append.mp member with old | new
    · exact Or.inl old
    · exact Or.inr (by rw [List.mem_singleton.mp new])
  cases arrives with
  | old taken =>
      refine ⟨⟨ordered.sorted, ordered.span⟩, Nat.le_refl _, fun j => ?_, owes⟩
      refine ⟨Or.inl, fun has => ?_⟩
      rcases has with has | same
      · exact has
      · cases same
        exact Or.inl taken
  | new k ahead taken =>
      have inserted : Receiver.Ordered 256 ⟨t.next, arrive i t.held, owed⟩ := by
        refine ⟨arrive_sorted ordered.sorted, fun j member => ?_⟩
        rcases mem_arrive.mp member with rfl | old
        · exact ⟨ahead, window⟩
        · exact ordered.span j old
      have arrived : ∀ j, Receiver.Has ⟨t.next, arrive i t.held, owed⟩ j ↔
          Receiver.Has ⟨t.next, t.held, owed⟩ j ∨ some i = some j := by
        intro j
        simp only [Receiver.Has, mem_arrive, Option.some.injEq]
        tauto
      exact ⟨inserted.drop taken, Nat.le_add_right _ _,
        fun j => (Receiver.has_drop taken).trans (arrived j), owes⟩

theorem ikcpShrinkBuf_rmtWnd (kcp : Ikcpcb) : (ikcpShrinkBuf kcp).rmtWnd = kcp.rmtWnd := by
  unfold ikcpShrinkBuf
  split <;> rfl

theorem inputHeader_rmtWnd (kcp : Ikcpcb) (seg : IkcpSeg) :
    (inputHeader kcp seg).rmtWnd = seg.wnd := by
  rw [inputHeader, ikcpShrinkBuf_rmtWnd]
  rfl

theorem inputAck_rmtWnd (kcp : Ikcpcb) (seg : IkcpSeg) :
    (inputAck kcp seg).rmtWnd = kcp.rmtWnd := by
  rw [inputAck, ikcpShrinkBuf_rmtWnd]
  unfold ikcpParseAck
  dsimp only
  split_ifs <;> rfl

theorem inputPush_rmtWnd (kcp : Ikcpcb) (seg : IkcpSeg) :
    (inputPush kcp seg).rmtWnd = kcp.rmtWnd :=
  inputPush_keeps Ikcpcb.rmtWnd (fun _ => rfl) (fun _ _ _ => rfl) kcp seg

/-- A side once it has applied the header of a segment. -/
def Standing.headed (s : Standing) (n : Note) (seg : IkcpSeg) : Standing :=
  ⟨s.tally.keep (n.next ≤ ·), s.owed, (onWire seg).wnd⟩

theorem Stands.header (stands : Stands conv p.tally s got accepted kcp) {n : Note}
    {seg : IkcpSeg} (linked : Linked s p there (n :: back)) (noted : Noted conv p.tally.out seg n) :
    Stands conv p.tally (s.headed n seg) got accepted (inputHeader kcp (onWire seg)) := by
  obtain ⟨ends, _, answers⟩ := linked.sends
  obtain ⟨x, rfl, una⟩ := noted.tells.una
  have onWireUna : (onWire seg).una = UInt32.ofNat n.next := una
  obtain ⟨low, high⟩ := next_near ends answers (List.mem_cons_self ..)
  have narrow := ends.sender.narrow
  refine ⟨stands.ledger.header onWireUna (fun i isLive => ?_) (fun i below => ?_), ?_, ?_⟩
  · have above := ends.sender.una_le isLive
    have below := ends.sender.below i isLive
    constructor <;> omega
  · have := answers.next_le n (List.mem_cons_self ..)
    exact Or.inl (Nat.lt_of_lt_of_le below this)
  · rw [inputHeader_acklist]
    exact stands.owes
  · rw [inputHeader_rmtWnd]
    rfl

theorem keep_from (t : Tally) {x i : Nat} (isLive : i ∈ t.live) :
    i ∈ (t.keep (x ≤ ·)).live ∨ i < x := by
  by_cases low : i < x
  · exact Or.inr low
  · exact Or.inl (List.mem_filter.mpr ⟨isLive, by simpa using by omega⟩)

/-- The header says what the sender hears, whatever else the segment is. -/
theorem Linked.headed {n : Note} {seg : IkcpSeg} (linked : Linked s p there (n :: back))
    (noted : Noted conv p.tally.out seg n) {s' : Standing} (out : s'.tally.out = s.tally.out)
    (live : s'.tally.live = (s.tally.keep (n.next ≤ ·)).live) (wnd : s'.rmtWnd = (onWire seg).wnd) :
    Way 256 s'.sender p.receiver there back := by
  refine linked.sends.hear_answer (congrArg List.length out) ?_ (fun i isLive => ?_) ?_
  · change s'.tally.live.Sublist s.tally.live
    rw [live]
    exact List.filter_sublist
  · change i ∈ s'.tally.live ∨ _
    rw [live]
    exact (keep_from s.tally isLive).imp_right Or.inl
  · change decide (s'.rmtWnd ≠ 0) = n.room
    rw [wnd, noted.room]

/-- Unless the segment is a push, the receive side stays where it is. -/
theorem Linked.no_push {n : Note} {seg : IkcpSeg} (linked : Linked s p there (n :: back))
    (noted : Noted conv p.tally.out seg n) (other : seg.cmd ≠ ikcpCmdPush) :
    Way 256 p.sender s.receiver back there := by
  have none : n.push = none := by
    by_contra some
    exact other (noted.pushes some)
  exact linked.hears.hear_none none

theorem Stands.segment_ack (stands : Stands conv p.tally s got accepted kcp) {n : Note}
    {seg : IkcpSeg} (linked : Linked s p there (n :: back)) (noted : Noted conv p.tally.out seg n)
    (isAck : seg.cmd = ikcpCmdAck) :
    ∃ s', s.tally.Later s'.tally ∧
      Stands conv p.tally s' got accepted (inputAck (inputHeader kcp (onWire seg)) (onWire seg)) ∧
      Linked s' p there back := by
  have headed := stands.header linked noted
  have first : n ∈ n :: back := List.mem_cons_self ..
  have sender := linked.sends.ends.sender
  have narrow := sender.narrow
  obtain ⟨j, acks, sn⟩ := noted.tells.ack isAck
  have onWireSn : (onWire seg).sn = UInt32.ofNat j := sn
  obtain ⟨low, high⟩ := ack_near linked.sends.ends linked.sends.answers first acks
  have near : ∀ i, s.sender.una ≤ i → i ≤ s.sender.out → Near j i := by
    intro i above below
    constructor <;> omega
  have fewer : (s.headed n seg).sender.live.Sublist s.sender.live := List.filter_sublist
  have left : (s.headed n seg).sender.Ordered 256 := sender.left rfl fewer
  refine ⟨⟨(s.headed n seg).tally.keep (· ≠ j), s.owed, (onWire seg).wnd⟩,
    ⟨List.prefix_refl _, fun _ => id⟩, ⟨headed.ledger.ack onWireSn (fun i member => ?_) ?_ ?_ ?_,
    ?_, ?_⟩, linked.sends.hear_answer rfl ?_ (fun i isLive => ?_) ?_,
    linked.no_push noted (by rw [isAck]; decide)⟩
  · have isLive := fewer.subset member
    exact near i (sender.una_le isLive) (Nat.le_of_lt (sender.below i isLive))
  · have una : s.sender.una ≤ (s.headed n seg).sender.una := sender.una_le_left rfl fewer
    exact near _ una left.una_le_out
  · exact near _ sender.una_le_out (Nat.le_refl _)
  · exact (linked.sends.answers.has n first j acks).1
  · rw [inputAck_acklist]
    exact headed.owes
  · rw [inputAck_rmtWnd]
    exact headed.rmtWnd
  · exact List.filter_sublist.trans fewer
  · rcases keep_from s.tally isLive with inside | below
    · by_cases same : i = j
      · exact Or.inr (Or.inr (by rw [acks, same]))
      · exact Or.inl (List.mem_filter.mpr ⟨inside, by simpa using same⟩)
    · exact Or.inr (Or.inl below)
  · exact noted.room.symm

theorem Stands.segment_push (stands : Stands conv p.tally s got accepted kcp) {n : Note}
    {seg : IkcpSeg} (linked : Linked s p there (n :: back)) (noted : Noted conv p.tally.out seg n)
    (isPush : seg.cmd = ikcpCmdPush) :
    ∃ s', s.tally.Later s'.tally ∧
      Stands conv p.tally s' got accepted (inputPush (inputHeader kcp (onWire seg)) (onWire seg)) ∧
      Linked s' p there back := by
  have headed := stands.header linked noted
  have first : n ∈ n :: back := List.mem_cons_self ..
  obtain ⟨i, pushes, told⟩ := noted.tells.push isPush
  have core := onWire_core told
  have sn : (onWire seg).sn = UInt32.ofNat i := congrArg SegCore.sn core
  obtain ⟨window, behind⟩ := push_near linked.hears.ends linked.hears.sends first pushes
  change i < s.tally.next + 256 at window
  change s.tally.next ≤ i + 256 at behind
  have ordered : s.receiver.Ordered 256 := linked.hears.ends.receiver
  have spans : ∀ k ∈ s.tally.held, Spans (s.tally.next - 256) k := by
    intro k isHeld
    obtain ⟨low, high⟩ := ordered.span k isHeld
    change s.tally.next ≤ k at low
    change k < s.tally.next + 256 at high
    constructor <;> omega
  obtain ⟨t', said, ledger⟩ := headed.ledger.push core (noted.below i pushes) spans
    ⟨by omega, by omega⟩ (Nat.sub_le _ _) (by change s.tally.next ≤ _; omega)
  rcases said with ⟨_, _, beyond⟩ | ⟨arrives, acklist⟩
  · have rcvWnd : (inputHeader kcp (onWire seg)).rcvWnd = 256 := headed.ledger.suited.rcvWnd
    have nxt : (inputHeader kcp (onWire seg)).rcvNxt = UInt32.ofNat s.tally.next :=
      headed.ledger.receiving.nxt
    have near : Near i (s.tally.next + 256) := by constructor <;> omega
    rw [sn, nxt, rcvWnd, ofNat_add_word] at beyond
    exact absurd ((itimediff_neg_iff near).mpr window) beyond
  · obtain ⟨later, out, live, _⟩ := arrives.later
    have gains := arrives.gains ordered window
    rw [← pushes] at gains
    refine ⟨⟨t', s.owed ++ [i], (onWire seg).wnd⟩, ⟨later.out, later.has⟩, ⟨ledger, ?_, ?_⟩,
      linked.headed noted out live rfl, linked.hears.hear_push gains⟩
    · rw [acklist]
      intro stamp member
      rcases List.mem_append.mp member with old | new
      · obtain ⟨j, owed, same⟩ := headed.owes stamp old
        exact ⟨j, List.mem_append_left _ owed, same⟩
      · rw [List.mem_singleton.mp new]
        exact ⟨i, by simp, sn⟩
    · rw [inputPush_rmtWnd]
      exact headed.rmtWnd

/-- Every segment that comes in drops out of the flight. -/
theorem Stands.segment (stands : Stands conv p.tally s got accepted kcp) {n : Note} {seg : IkcpSeg}
    (linked : Linked s p there (n :: back)) (noted : Noted conv p.tally.out seg n) :
    ∃ s', s.tally.Later s'.tally ∧ Stands conv p.tally s' got accepted (inputKcp kcp (onWire seg)) ∧
      Linked s' p there back := by
  have headed := stands.header linked noted
  have same : s.tally.Later (s.headed n seg).tally := ⟨List.prefix_refl _, fun _ => id⟩
  have sends : Way 256 (s.headed n seg).sender p.receiver there back :=
    linked.headed noted rfl rfl rfl
  have cmd := noted.tells.decodable.wire
  unfold inputKcp
  dsimp only
  split_ifs with isAck isPush
  · rw [cmd] at isAck
    exact stands.segment_ack linked noted isAck
  · rw [cmd] at isPush
    exact stands.segment_push linked noted isPush
  · rw [cmd] at isPush
    exact ⟨_, same, headed.of_alike ⟨rfl, rfl, rfl, rfl, rfl, rfl, rfl, rfl⟩, sends,
      linked.no_push noted isPush⟩
  · rw [cmd] at isPush
    exact ⟨_, same, headed, sends, linked.no_push noted isPush⟩

/-- A datagram of the other side, followed by whatever bytes. -/
theorem Stands.input {notes : List Note} {bytes : List UInt8}
    (bears : Bears conv p.tally.out bytes notes)
    (stands : Stands conv p.tally s got accepted kcp) (linked : Linked s p there (notes ++ back))
    (rest : List UInt8) :
    ∃ s', s.tally.Later s'.tally ∧
      Stands conv p.tally s' got accepted (ikcpInput kcp (bytes ++ rest) bytes.length).2 ∧
      Linked s' p there back := by
  obtain ⟨segs, rfl, noted⟩ := bears
  have walked : ∀ {s kcp}, Stands conv p.tally s got accepted kcp →
      Linked s p there (notes ++ back) → ∃ s', s.tally.Later s'.tally ∧
        Stands conv p.tally s' got accepted ((segs.map onWire).foldl inputKcp kcp) ∧
        Linked s' p there back := by
    clear stands linked
    induction noted with
    | nil =>
        intro s kcp stands linked
        exact ⟨s, .refl _, stands, linked⟩
    | cons first others ih =>
        intro s kcp stands linked
        obtain ⟨s', later, stands', linked'⟩ := stands.segment linked first
        obtain ⟨s'', later', stands'', linked''⟩ := ih stands' linked'
        exact ⟨s'', later.trans later', stands'', linked''⟩
  have ok : ∀ seg ∈ segs, Decodable kcp.conv seg := by
    intro seg member
    have decodable := noted.imp fun _ _ isNoted => And.intro isNoted.tells.decodable isNoted
    rw [show kcp.conv = conv from stands.ledger.suited.conv_eq]
    exact ((List.forall₂_and_left _ _).mp decodable).1 seg member
  obtain ⟨s', later, stands', linked'⟩ := walked stands linked
  exact ⟨s', later, stands'.of_alike (ikcpInput_encode rest ok), linked'⟩

/-! ## `ikcp_flush` -/

theorem onWire_wnd_zero {seg : IkcpSeg} (zero : seg.wnd = 0) : (onWire seg).wnd = 0 := by
  rw [onWire, zero]
  rfl

/-- A flush announces room only while the next segment has not come. -/
theorem Stands.room (stands : Stands conv p.tally s got accepted kcp)
    (ordered : s.receiver.Ordered 256) (room : ikcpWndUnused kcp ≠ 0) :
    s.tally.next ∉ s.tally.held := by
  have receiving := stands.ledger.receiving
  have rcvWnd : kcp.rcvWnd = 256 := stands.ledger.suited.rcvWnd
  apply ordered.next_not_held
  intro isHead
  have full := stands.ledger.tight isHead
  apply room
  rw [ikcpWndUnused, receiving.count, full, rcvWnd, if_neg (by decide)]

/-- The note of a segment that a flush sends once it has numbered up to `t.out`. -/
structure FlushNote (conv : UInt32) (s : Standing) (t : Tally) (seg : IkcpSeg) (n : Note) : Prop where
  noted : Noted conv t.out seg n
  out : n.out = t.out.length
  due : n.due = 0
  next : n.next = s.tally.next
  push : ∀ i, n.push = some i → i ∈ t.live
  ack : ∀ j, n.ack = some j → j ∈ s.owed
  room : n.room = true → s.tally.next ∉ s.tally.held

theorem Stands.flush_note (stands : Stands conv p.tally s got accepted kcp)
    (ordered : s.receiver.Ordered 256) {t : Tally}
    (sending : Sending conv t.out t.live (flushMoved kcp)) {seg : IkcpSeg}
    (sent : seg ∈ flushSegs kcp) : ∃ n, FlushNote conv s t seg n := by
  have tells := flushSegs_tell stands.ledger.suited sending stands.owes
    stands.ledger.receiving.nxt seg sent
  have una : ∃ x, s.tally.next = x ∧ seg.una = UInt32.ofNat x := by
    obtain ⟨x, rfl, same⟩ := tells.una
    exact ⟨_, rfl, same⟩
  obtain ⟨_, _, wnd⟩ := flushSegs_cases sent
  have room : decide ((onWire seg).wnd ≠ 0) = true → s.tally.next ∉ s.tally.held := by
    intro some
    apply stands.room ordered
    rw [← wnd]
    intro zero
    exact of_decide_eq_true some (onWire_wnd_zero zero)
  by_cases isPush : seg.cmd = ikcpCmdPush
  · obtain ⟨i, isLive, core⟩ := tells.push isPush
    have noAck : seg.cmd ≠ ikcpCmdAck := by
      rw [isPush]
      decide
    refine ⟨⟨some i, none, s.tally.next, decide ((onWire seg).wnd ≠ 0), t.out.length, 0⟩,
      ⟨⟨tells.decodable, fun _ => ⟨i, rfl, core⟩, fun isAck => absurd isAck noAck, una⟩,
        fun _ => isPush, ?_, rfl⟩, rfl, rfl, rfl, ?_, nofun, room⟩
    · rintro j ⟨⟩
      exact sending.below i isLive
    · rintro j ⟨⟩
      exact isLive
  · by_cases isAck : seg.cmd = ikcpCmdAck
    · obtain ⟨j, owed, sn⟩ := tells.ack isAck
      refine ⟨⟨none, some j, s.tally.next, decide ((onWire seg).wnd ≠ 0), t.out.length, 0⟩,
        ⟨⟨tells.decodable, fun push => absurd push isPush, fun _ => ⟨j, rfl, sn⟩, una⟩,
          fun some => absurd rfl some, nofun, rfl⟩, rfl, rfl, rfl, nofun, ?_, room⟩
      rintro i ⟨⟩
      exact owed
    · exact ⟨⟨none, none, s.tally.next, decide ((onWire seg).wnd ≠ 0), t.out.length, 0⟩,
        ⟨⟨tells.decodable, fun push => absurd push isPush, fun ack => absurd ack isAck, una⟩,
          fun some => absurd rfl some, nofun, rfl⟩, rfl, rfl, rfl, nofun, nofun, room⟩

/-- A flush sends every segment that it numbers. -/
theorem flushSegs_new {t : Tally} {moved : List (List UInt8)}
    (sending : Sending conv t.out t.live kcp)
    (sending' : Sending conv (t.number moved).out (t.number moved).live (flushMoved kcp)) {i : Nat}
    (new : i ∈ List.range' t.out.length moved.length) :
    ∃ seg ∈ flushSegs kcp, seg.core = numbered conv (t.number moved).out i := by
  obtain ⟨fresh, split, xmit⟩ := moveToSndBuf_fresh (flushCwnd kcp) (ikcpWndUnused kcp) kcp.sndQueue
    { flushProbed kcp with probe := 0 }
  have buf : (flushMoved kcp).sndBuf = kcp.sndBuf ++ fresh := split
  have numbers := sending'.buf
  have length : (kcp.sndBuf.map IkcpSeg.core).length =
      (t.live.map (numbered conv (t.number moved).out)).length := by
    rw [sending.buf, List.length_map, List.length_map]
  rw [buf, List.map_append] at numbers
  change _ = (t.live ++ List.range' t.out.length moved.length).map _ at numbers
  rw [List.map_append] at numbers
  obtain ⟨_, isNew⟩ := List.append_inj numbers length
  have member := List.mem_map_of_mem (f := numbered conv (t.number moved).out) new
  rw [← isNew] at member
  obtain ⟨seg, isFresh, core⟩ := List.mem_map.mp member
  have first : transmit (flushMoved kcp) seg = .first := if_pos (xmit seg isFresh).1
  refine ⟨flushSegment (flushMoved kcp) (ikcpWndUnused kcp) seg, ?_, ?_⟩
  · apply List.mem_append_right
    apply List.mem_map_of_mem
    refine List.mem_filter.mpr ⟨?_, by simp [first]⟩
    rw [buf]
    exact List.mem_append_right _ isFresh
  · rw [flushSegment_core, core]

/-- The notes of a flush go out as messages of the sender, and as answers. -/
theorem Linked.flush (linked : Linked s p there back)
    (stands : Stands conv p.tally s got accepted kcp) {moved : List (List UInt8)}
    (window : moved = [] ∨
      s.tally.out.length + moved.length ≤ s.tally.una + (flushCwnd kcp).toNat)
    (sending : Sending conv (s.tally.number moved).out (s.tally.number moved).live (flushMoved kcp))
    {notes : List Note}
    (noted : ∀ n ∈ notes, ∃ seg, FlushNote conv s (s.tally.number moved) seg n)
    (all : ∀ seg ∈ flushSegs kcp, ∃ n ∈ notes, FlushNote conv s (s.tally.number moved) seg n) :
    Linked ⟨s.tally.number moved, [], s.rmtWnd⟩ p (there ++ notes) back := by
  have suited := stands.ledger.suited
  have sender := linked.sends.ends.sender
  have length : (s.tally.number moved).out.length = s.tally.out.length + moved.length :=
    List.length_append
  have same : Standing.sender ⟨s.tally.number moved, [], s.rmtWnd⟩ =
      s.sender.number moved.length := by
    rw [Standing.sender, length]
    rfl
  have una_le : s.tally.una ≤ s.tally.out.length := sender.una_le_out
  have fits : moved.length = 0 ∨
      s.sender.room = true ∧ s.sender.out + moved.length ≤ s.sender.una + 256 := by
    rcases window with none | some
    · exact Or.inl (by rw [none]; rfl)
    · obtain ⟨small, shut⟩ := flushCwnd_le suited
      by_cases room : s.rmtWnd = 0
      · rw [shut (by rw [← stands.rmtWnd]; exact room)] at some
        change _ ≤ _ + 0 at some
        exact Or.inl (by omega)
      · refine Or.inr ⟨decide_eq_true room, ?_⟩
        change s.tally.out.length + moved.length ≤ s.tally.una + 256
        omega
  have ordered : (s.sender.number moved.length).Ordered 256 :=
    sender.number (fits.imp_right And.right)
  have narrow := ordered.narrow
  constructor
  · rw [same]
    refine linked.sends.number fits (fun n member => ?_) (fun i low high => ?_)
    · obtain ⟨seg, note⟩ := noted n member
      exact ⟨note.out.trans length, note.due, note.push⟩
    · have new : i ∈ List.range' s.tally.out.length moved.length :=
        List.mem_range'_1.mpr ⟨low, high⟩
      obtain ⟨seg, sent, core⟩ := flushSegs_new stands.ledger.sending sending new
      obtain ⟨n, member, note⟩ := all seg sent
      obtain ⟨j, push, core'⟩ := note.noted.tells.push (congrArg SegCore.cmd core)
      have isLive : j ∈ (s.sender.number moved.length).live := note.push j push
      have above := ordered.una_le isLive
      have below := ordered.below j isLive
      have sn : UInt32.ofNat j = UInt32.ofNat i :=
        (congrArg SegCore.sn core').symm.trans (congrArg SegCore.sn core)
      rw [Sender.number_una] at above narrow
      have near : Near j i := by
        change s.tally.una ≤ j at above
        change j < s.tally.out.length + moved.length at below
        change s.tally.out.length + moved.length ≤ s.tally.una + 256 at narrow
        change s.tally.out.length ≤ i at low
        change i < s.tally.out.length + moved.length at high
        constructor <;> omega
      rw [(ofNat_eq_iff near).mp sn] at push
      exact ⟨n, member, push⟩
  · refine linked.hears.answer (by decide) (fun n member => ?_)
    obtain ⟨seg, note⟩ := noted n member
    exact ⟨note.next, note.ack, note.room⟩

theorem Stands.flush (stands : Stands conv p.tally s got accepted kcp)
    (linked : Linked s p there back) :
    ∃ s' groups, s.tally.Later s'.tally ∧ Stands conv p.tally s' got accepted (ikcpFlush kcp).1 ∧
      Linked s' p (there ++ groups.flatten) back ∧
      List.Forall₂ (Bears conv s'.tally.out) (ikcpFlush kcp).2 groups := by
  by_cases fresh : kcp.updated = 0
  · rw [ikcpFlush_silent_of_not_updated fresh]
    exact ⟨s, [], .refl _, stands, by simpa using linked, List.Forall₂.nil⟩
  have small := (flushCwnd_le stands.ledger.suited).1
  have narrow : s.tally.out.length ≤ s.tally.una + 256 := linked.sends.ends.sender.narrow
  have una_le : s.tally.una ≤ s.tally.out.length := linked.sends.ends.sender.una_le_out
  obtain ⟨moved, sending, window, ledger⟩ :=
    stands.ledger.flush_numbers fresh (by constructor <;> omega)
  have noted := fun seg (sent : seg ∈ flushSegs kcp) =>
    stands.flush_note linked.hears.ends.receiver sending sent
  choose! note spec using noted
  obtain ⟨groups, datagrams, flat, _⟩ := ikcpFlush_packs kcp fresh
  have flushed := ikcpFlush_after fresh
  have bodies : ∀ n ∈ (flushSegs kcp).map note, ∃ seg,
      FlushNote conv s (s.tally.number moved) seg n := by
    intro n member
    obtain ⟨seg, sent, rfl⟩ := List.mem_map.mp member
    exact ⟨seg, spec seg sent⟩
  have linked' := linked.flush stands window sending bodies
    fun seg sent => ⟨note seg, List.mem_map_of_mem sent, spec seg sent⟩
  refine ⟨⟨s.tally.number moved, [], s.rmtWnd⟩, groups.map (List.map note),
    ⟨List.prefix_append _ _, fun _ => id⟩, ⟨ledger, ?_, ?_⟩, ?_, ?_⟩
  · rw [flushed.acklist]
    simp
  · rw [flushed.rmtWnd]
    exact stands.rmtWnd
  · rw [← List.map_flatten, flat]
    exact linked'
  · rw [datagrams, List.forall₂_map_left_iff, List.forall₂_map_right_iff, List.forall₂_same]
    intro group isGroup
    refine ⟨group, rfl, ?_⟩
    rw [List.forall₂_map_right_iff, List.forall₂_same]
    intro seg inGroup
    have sent : seg ∈ flushSegs kcp := by
      rw [← flat]
      exact List.mem_flatten.mpr ⟨group, isGroup, inGroup⟩
    exact (spec seg sent).noted

/-! ## A message that is not of KCP -/

/-- It tells how much has been numbered. -/
theorem Linked.mark (linked : Linked s p there back) :
    ∃ n : Note, n.push = none ∧ n.out = s.tally.out.length ∧ n.due = s.tally.out.length ∧
      Linked s p (there ++ [n]) back := by
  obtain ⟨base, answered⟩ := linked.hears.mark_answered
  exact ⟨⟨none, none, base, false, s.tally.out.length, s.tally.out.length⟩, rfl, rfl, rfl,
    linked.sends.mark_sent rfl rfl (Nat.le_refl _), answered _ rfl rfl rfl⟩

theorem Linked.drop {n : Note} (linked : Linked s p there (n :: back)) (push : n.push = none) :
    Linked s p there back :=
  ⟨linked.sends.skip_answer, linked.hears.hear_none push⟩

end Stands

end AsioKcp.Ikcp
