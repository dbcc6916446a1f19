import AsioKcp.Pair.System
import AsioKcp.Ikcp.Ledger

/-! # The streams of a connection pair

The invariant of a pair: each side has a ledger against the other, and every data
datagram that it has ever sent is true.  A late or repeated datagram stays true,
since a side never gives up what it has. -/
set_option autoImplicit false

namespace AsioKcp

open AsioKcp.Ikcp AsioKcp.Callback AsioKcp.Machine

/-- What one side of a pair keeps, against the numbers `p` of the other. -/
structure Books (conv : UInt32) (p t : Tally) (l : Local) : Prop where
  ledger : Ledger conv p.out p.has t l.conn.delivered l.conn.accepted l.conn.obj
  sent : ∀ d ∈ l.env.sent, ∀ bytes, d.bytes = opcodeData :: bytes → ToldBytes conv t bytes
  fits : ∀ op, l.conn.readOp = some op → op.Fits

/-- The books of a side while a step is under way that began with `n` segments. -/
def Midway (conv : UInt32) (p start : Tally) (n : Nat) (l : Local) : Prop :=
  ∃ t, start.Later t ∧ t.Within n ∧ Books conv p t l

/-- The terms on which both sides of a pair run. -/
def pairTerms : Terms where
  strict := False
  reliable := False
  calls k l := k.Proper (· < 2 ^ 32) l
  closes := False.elim

section Local
variable {conv : UInt32} {p start : Tally} {n : Nat} {l l' : Local}

theorem Books.of_same {t : Tally} (books : Books conv p t l) (obj : l'.conn.obj = l.conn.obj)
    (delivered : l'.conn.delivered = l.conn.delivered) (accepted : l'.conn.accepted = l.conn.accepted)
    (sent : l'.env.sent = l.env.sent) (fits : ∀ op, l'.conn.readOp = some op → op.Fits) :
    Books conv p t l' where
  ledger := by
    rw [obj, delivered, accepted]
    exact books.ledger
  sent := by
    rw [sent]
    exact books.sent
  fits := fits

theorem Midway.of_same (kept : Midway conv p start n l) (obj : l'.conn.obj = l.conn.obj)
    (delivered : l'.conn.delivered = l.conn.delivered) (accepted : l'.conn.accepted = l.conn.accepted)
    (sent : l'.env.sent = l.env.sent)
    (readOp : l'.conn.readOp = l.conn.readOp ∨ ∀ op, l'.conn.readOp = some op → op.Fits) :
    Midway conv p start n l' := by
  obtain ⟨t, later, within, books⟩ := kept
  refine ⟨t, later, within, books.of_same obj delivered accepted sent fun op pending => ?_⟩
  rcases readOp with same | fits
  · exact books.fits op (by rw [← same]; exact pending)
  · exact fits op pending

/-- New datagrams of a side whose numbers have gone on from `t` to `t'`. -/
theorem told_append {t t' : Tally} (later : t.Later t') {sent : List Datagram} {dest : Endpoint}
    {datagrams : List (List UInt8)}
    (before : ∀ d ∈ sent, ∀ bytes, d.bytes = opcodeData :: bytes → ToldBytes conv t bytes)
    (fresh : ∀ bytes ∈ datagrams, ToldBytes conv t' bytes) :
    ∀ d ∈ sent ++ dataDatagrams dest datagrams, ∀ bytes, d.bytes = opcodeData :: bytes →
      ToldBytes conv t' bytes := by
  intro d member bytes shape
  rcases List.mem_append.mp member with old | new
  · exact (before d old bytes shape).mono later
  · obtain ⟨body, isNew, rfl⟩ := List.mem_map.mp new
    obtain rfl : body = bytes := (List.cons.inj shape).2
    exact fresh body isNew

/-- A control block that flushes some datagrams keeps the books. -/
theorem Midway.flushed (kept : Midway conv p start n l) {conn : Connection}
    {datagrams : List (List UInt8)} (delivered : conn.delivered = l.conn.delivered)
    (accepted : conn.accepted = l.conn.accepted) (readOp : conn.readOp = l.conn.readOp)
    (flushed : ∀ {t}, t.Within n →
      Ledger conv p.out p.has t l.conn.delivered l.conn.accepted l.conn.obj →
      ∃ t', t.Later t' ∧ t'.Within n ∧
        Ledger conv p.out p.has t' l.conn.delivered l.conn.accepted conn.obj ∧
        ∀ bytes ∈ datagrams, ToldBytes conv t' bytes) :
    Midway conv p start n ⟨conn, { l.env with
      sent := l.env.sent ++ dataDatagrams l.conn.endpoint datagrams }⟩ := by
  obtain ⟨t, later, within, books⟩ := kept
  obtain ⟨t', later', within', ledger, told⟩ := flushed within books.ledger
  refine ⟨t', later.trans later', within', ⟨?_, told_append later' books.sent told, ?_⟩⟩
  · rw [delivered, accepted]
    exact ledger
  · rw [readOp]
    exact books.fits

/-- An accepted write appends its buffer to the stream. -/
theorem Midway.write (kept : Midway conv p start n l) {buffer : List UInt8}
    (short : buffer.length < 2 ^ 32) (ok : ¬ (l.sendResult buffer).1 < 0) :
    Midway conv p start n (l.write buffer) := by
  obtain ⟨t, later, within, books⟩ := kept
  have sent := books.ledger.send buffer (narrow buffer.length) ok
  have all : buffer.take (narrow buffer.length).toNat = buffer := by
    have refused : ¬ narrow buffer.length < 0 := by
      intro negative
      apply ok
      rw [Local.sendResult, ikcpSend, if_pos negative]
      exact Int.negSucc_lt_zero 0
    rw [narrow_of_nonneg short (by omega)]
    exact List.take_of_length_le (Nat.le_refl _)
  rw [all] at sent
  exact ⟨t, later, within, ⟨sent, books.sent, books.fits⟩⟩

theorem midway_act (few : n < 2 ^ 31) (peerFew : p.out.length < 2 ^ 31) (act : Act pairTerms l l')
    (kept : Midway conv p start n l) : Midway conv p start n l' := by
  cases act with
  | refuseRead _ => exact kept.of_same rfl rfl rfl rfl (Or.inl rfl)
  | readSome size proper _ _ =>
      refine kept.of_same rfl rfl rfl rfl (Or.inr fun op pending => ?_)
      cases pending
      exact proper
  | read buffer need _ _ _ =>
      refine kept.of_same rfl rfl rfl rfl (Or.inr fun op pending => ?_)
      cases pending
      trivial
  | refuseWrite _ => exact kept.of_same rfl rfl rfl rfl (Or.inl rfl)
  | messageSize buffer proper idle opened refused =>
      exact absurd refused (proper idle opened).2
  | write buffer proper idle opened ok =>
      exact (kept.write (proper idle opened).1 ok).of_same rfl rfl rfl rfl (Or.inl rfl)
  | writePending buffer proper idle opened ok =>
      exact (kept.write (proper idle opened).1 ok).of_same rfl rfl rfl rfl (Or.inl rfl)
  | streambuf _ _ => exact kept.of_same rfl rfl rfl rfl (Or.inl rfl)
  | pollRead ec op pending _ _ =>
      obtain ⟨t, later, within, books⟩ := kept
      obtain ⟨bytes, taken, polled⟩ := pollRead_stream ec op l
      obtain ⟨t', later', out, live, ledger⟩ := pollRead_invariant
        (P := fun got obj => ∃ t', t.Later t' ∧ t'.out = t.out ∧ t'.live = t.live ∧
          Ledger conv p.out p.has t' got l.conn.accepted obj)
        (fun got obj len whole holds => by
          obtain ⟨t', later', out, live, ledger⟩ := holds
          obtain ⟨t'', later'', out', live', ledger'⟩ := ledger.recv peerFew whole
          exact ⟨t'', later'.trans later'', out'.trans out, live'.trans live, ledger'⟩)
        ec (books.fits op pending) ⟨t, .refl t, rfl, rfl, books.ledger⟩
      refine ⟨t', later.trans later', ?_, ⟨?_, ?_, ?_⟩⟩
      · rw [Tally.Within, Tally.una, out, live]
        exact within
      · rw [polled.accepted]
        exact ledger
      · rw [polled.sent]
        exact fun d member bytes shape => (books.sent d member bytes shape).mono later'
      · intro op' pending'
        rcases pollRead_cases ec op l with ⟨_, _, same⟩ | ⟨_, _, none, _⟩ | ⟨_, none⟩
        · exact books.fits op' (by rw [← same]; exact pending')
        · rw [none] at pending'
          cases pending'
        · rw [none] at pending'
          cases pending'
  | pollWrite _ _ _ _ _ _ => exact kept.of_same rfl rfl rfl rfl (Or.inl rfl)
  | beginClose _ =>
      rw [Local.beginClose, flush_eq]
      have closing : Midway conv p start n { l with conn := { l.conn with state := .closed } } :=
        kept.of_same rfl rfl rfl rfl (Or.inl rfl)
      exact closing.flushed rfl rfl rfl fun within ledger => ledger.flush within few
  | disconnect _ _ =>
      obtain ⟨t, later, within, books⟩ := kept
      have same : l.disconnect.conn.obj = l.conn.obj ∧
          l.disconnect.conn.delivered = l.conn.delivered ∧
          l.disconnect.conn.accepted = l.conn.accepted ∧
          l.disconnect.conn.readOp = l.conn.readOp := by
        unfold Local.disconnect
        dsimp only
        split <;> exact ⟨rfl, rfl, rfl, rfl⟩
      refine ⟨t, later, within, ⟨?_, ?_, ?_⟩⟩
      · rw [same.1, same.2.1, same.2.2.1]
        exact books.ledger
      · intro d member bytes shape
        rcases List.mem_append.mp member with old | new
        · exact books.sent d old bytes shape
        · rw [List.mem_singleton.mp new] at shape
          exact absurd (List.cons.inj shape).1 (by decide)
      · rw [same.2.2.2]
        exact books.fits
  | armReceive _ => exact kept.of_same rfl rfl rfl rfl (Or.inl rfl)

theorem ledger_update {conv : UInt32} {p : Tally} {n : Nat} (few : n < 2 ^ 31) {t : Tally}
    {got accepted : List UInt8} {kcp : Ikcpcb} (within : t.Within n)
    (ledger : Ledger conv p.out p.has t got accepted kcp) (current : UInt32) :
    ∃ t', t.Later t' ∧ t'.Within n ∧
      Ledger conv p.out p.has t' got accepted (ikcpUpdate kcp current).1 ∧
      ∀ bytes ∈ (ikcpUpdate kcp current).2, ToldBytes conv t' bytes := by
  obtain ⟨ready, alike, flushes | waits⟩ := ikcpUpdate_cases kcp current
  · rw [flushes]
    exact (ledger.of_alike alike).flush within few
  · rw [waits]
    exact ⟨t, .refl t, within, ledger.of_alike alike, by simp⟩

theorem ledger_updateEffect (few : n < 2 ^ 31) {t : Tally} (within : t.Within n)
    (ledger : Ledger conv p.out p.has t l.conn.delivered l.conn.accepted l.conn.obj) (now : Int) :
    ∃ t', t.Later t' ∧ t'.Within n ∧
      Ledger conv p.out p.has t' l.conn.delivered l.conn.accepted (updateEffect l.conn now).1 ∧
      ∀ bytes ∈ (updateEffect l.conn now).2.2, ToldBytes conv t' bytes := by
  unfold updateEffect
  dsimp only
  split_ifs
  · obtain ⟨t₁, later₁, within₁, ledger₁, told₁⟩ :=
      ledger_update few within ledger (UInt32.ofInt now)
    obtain ⟨t₂, later₂, within₂, ledger₂, told₂⟩ := ledger₁.flush within₁ few
    refine ⟨t₂, later₁.trans later₂, within₂, ledger₂, fun bytes member => ?_⟩
    rcases List.mem_append.mp member with first | second
    · exact (told₁ bytes first).mono later₂
    · exact told₂ bytes second
  · exact ledger_update few within ledger (UInt32.ofInt now)
  · exact ⟨t, .refl t, within, ledger, by simp⟩

/-- The entry of an event with a datagram that the other side has sent. -/
theorem midway_entry {t : Tally} (few : t.out.length < 2 ^ 31) (peerFew : p.out.length < 2 ^ 31)
    (known : ∀ i, p.has i → i < t.out.length) {peer : Local}
    (told : ∀ d ∈ peer.env.sent, ∀ bytes, d.bytes = opcodeData :: bytes → ToldBytes conv p bytes)
    (e : Event) (carried : Carries peer.env.sent (heard l.conn e)) (books : Books conv p t l) :
    Midway conv p t t.out.length (entry e l) := by
  have streams := entry_streams e l
  have within : t.Within t.out.length :=
    ⟨books.ledger.sending.head_le_length, Or.inl (Nat.le_refl _)⟩
  have kept : Midway conv p t t.out.length l := ⟨t, .refl t, within, books⟩
  cases entry_effect e l with
  | same obj sent =>
      exact kept.of_same obj streams.delivered streams.accepted sent (Or.inl streams.readOp)
  | updated now obj sent =>
      have flushed : Midway conv p t t.out.length ⟨(entry e l).conn, { l.env with
          sent := l.env.sent ++ dataDatagrams l.conn.endpoint (updateEffect l.conn now).2.2 }⟩ := by
        apply kept.flushed streams.delivered streams.accepted streams.readOp
        intro t within ledger
        rw [obj]
        exact ledger_updateEffect few within ledger now
      exact flushed.of_same rfl rfl rfl sent (Or.inl rfl)
  | received data size hears isData long obj sent =>
      rw [hears] at carried
      obtain ⟨d, isSent, ⟨rest, arrived⟩, count⟩ := carried
      dsimp only at arrived count
      have shape : d.bytes = opcodeData :: d.bytes.tail := by
        cases bytes : d.bytes with
        | nil => simp [count, bytes] at long
        | cons opcode body =>
            rw [← arrived, bytes] at isData
            exact congrArg (· :: body) isData
      have body : data.drop 1 = d.bytes.tail ++ rest := by
        rw [← arrived, shape]
        rfl
      have size_eq : size - 1 = d.bytes.tail.length := by
        rw [List.length_tail]
        exact congrArg (· - 1) count
      obtain ⟨t', heard, ledger⟩ :=
        books.ledger.input few peerFew known (told d isSent _ shape) rest
      refine ⟨t', heard.later, ⟨?_, Or.inl (Nat.le_of_eq (congrArg List.length heard.out))⟩,
        ⟨?_, ?_, ?_⟩⟩
      · rw [← heard.out]
        exact ledger.sending.head_le_length
      · rw [streams.delivered, streams.accepted, obj, body, size_eq]
        exact ledger
      · rw [sent]
        exact fun d member bytes shape => (books.sent d member bytes shape).mono heard.later
      · rw [streams.readOp]
        exact books.fits

end Local

/-! ## The pair -/

/-- The true number of segments is still below `2 ^ 32`, so `snd_nxt` shows it. -/
def Countable (t : Tally) : Prop := t.out.length < 2 ^ 32

structure PairBooks (conv : UInt32) (t p : Tally) (own other : Node Local Nat) : Prop where
  own_books : Books conv p t own.config.state
  other_books : Books conv t p other.config.state
  own_count : Countable t
  other_count : Countable p
  own_keeps : Keeps pairTerms own.config
  other_keeps : Keeps pairTerms other.config

theorem few_of_countable {conv : UInt32} {p t : Tally} {l : Local} (books : Books conv p t l)
    (countable : Countable t) (few : Few l) : t.out.length < 2 ^ 31 := by
  unfold Few at few
  rw [books.ledger.sending.nxt, UInt32.toNat_ofNat', Nat.mod_eq_of_lt countable] at few
  exact few

/-- One step of a side. -/
theorem pairBooks_move {conv : UInt32} {t p : Tally} {own other own' : Node Local Nat}
    {label : Label Event Call} (books : PairBooks conv t p own other)
    (move : (lossy (· < 2 ^ 32)).Move own other label own') :
    ∃ t', PairBooks conv t' p own' other := by
  obtain ⟨few, peerFew, carried, proper⟩ := move.allowed
  have short := few_of_countable books.own_books books.own_count few
  have peerShort := few_of_countable books.other_books books.other_count peerFew
  have known : ∀ i, p.has i → i < t.out.length :=
    fun i has => books.other_books.ledger.receiving.has_below has
  have allows : pairTerms.Allows own.config label := by
    refine ⟨fun _ => id, fun _ _ => False.elim, fun k isCall => ?_⟩
    rw [isCall] at proper
    exact proper
  obtain ⟨acts, keeps⟩ := keeps_step books.own_keeps allows move.stepped
  have within : t.Within t.out.length :=
    ⟨books.own_books.ledger.sending.head_le_length, Or.inl (Nat.le_refl _)⟩
  have begins : Midway conv p t t.out.length (begun label own.config.state) := by
    cases label with
    | event e => exact midway_entry short peerShort known books.other_books.sent e carried books.own_books
    | _ => exact ⟨t, .refl t, within, books.own_books⟩
  obtain ⟨t', later, ⟨low, high⟩, after⟩ :=
    acts_invariant (midway_act short peerShort) acts begins
  refine ⟨t', after, ⟨?_, ?_, ?_⟩, ?_, books.other_count, keeps, books.other_keeps⟩
  · exact books.other_books.ledger.peer_later later
  · exact books.other_books.sent
  · exact books.other_books.fits
  · unfold Countable
    omega

/-! ## The start -/

theorem ledger_start (conv : UInt32) :
    Ledger conv [] Tally.start.has .start [] [] (initKcpContext conv) where
  suited := suited_init conv
  sending := ⟨rfl, rfl, rfl, List.Pairwise.nil, fun _ member => (List.not_mem_nil member).elim,
    fun _ member => (List.not_mem_nil member).elim, fun _ member => (List.not_mem_nil member).elim⟩
  receiving := ⟨rfl, Nat.le_refl _, rfl, rfl, fun _ member => (List.not_mem_nil member).elim, rfl,
    Nat.zero_le _⟩
  tight := fun isHead => nomatch isHead
  covers := fun _ below => (Nat.not_lt_zero _ below).elim
  accepted_eq := rfl
  acks := fun _ member => (List.not_mem_nil member).elim

theorem books_start {conv : UInt32} {l : Local} (obj : l.conn.obj = initKcpContext conv)
    (delivered : l.conn.delivered = []) (accepted : l.conn.accepted = [])
    (sent : l.env.sent = []) (readOp : l.conn.readOp = none) : Books conv .start .start l := by
  refine ⟨?_, by simp [sent], by simp [readOp]⟩
  rw [obj, delivered, accepted]
  exact ledger_start conv

theorem pairBooks_start (h : Handshake) :
    PairBooks h.conv .start .start h.pair.first h.pair.second where
  own_books := books_start rfl rfl rfl rfl rfl
  other_books := books_start rfl rfl rfl rfl rfl
  own_count := by unfold Countable; decide
  other_count := by unfold Countable; decide
  own_keeps := (Started.client h.server h.clientNow h.clientStreambufs).keeps pairTerms
  other_keeps := (Started.server h.client h.serverNow h.serverStreambufs).keeps pairTerms

theorem PairBooks.symm {conv : UInt32} {t p : Tally} {own other : Node Local Nat}
    (books : PairBooks conv t p own other) : PairBooks conv p t other own :=
  ⟨books.other_books, books.own_books, books.other_count, books.own_count, books.other_keeps,
    books.own_keeps⟩

theorem run_pairBooks (h : Handshake) {q : Duplex Local Nat}
    (run : (lossy (· < 2 ^ 32)).Run h.pair q) : ∃ t p, PairBooks h.conv t p q.first q.second := by
  apply Peering.invariant (J := fun own other => ∃ t p, PairBooks h.conv t p own other) _ _ _ run
  · rintro own other ⟨t, p, books⟩
    exact ⟨p, t, books.symm⟩
  · rintro own other own' label ⟨t, p, books⟩ move
    obtain ⟨t', books'⟩ := pairBooks_move books move
    exact ⟨t', p, books'⟩
  · exact ⟨.start, .start, pairBooks_start h⟩

/-! ## What the books say about a stream -/

/-- A number in a buffer stands for a segment with its payload. -/
theorem segment_of_number {conv : UInt32} {out : List (List UInt8)} {segs : List IkcpSeg}
    {ns : List Nat} (buf : segs.map IkcpSeg.core = ns.map (numbered conv out)) {i : Nat}
    (member : i ∈ ns) : ∃ seg ∈ segs, seg.sn = UInt32.ofNat i ∧ seg.data = out.getD i [] := by
  have core := List.mem_map_of_mem (f := numbered conv out) member
  rw [← buf] at core
  obtain ⟨seg, isSeg, same⟩ := List.mem_map.mp core
  exact ⟨seg, isSeg, congrArg SegCore.sn same, congrArg SegCore.data same⟩

theorem intact_of_ledgers {conv : UInt32} {t p : Tally} {got got' accepted accepted' : List UInt8}
    {sender receiver : Connection}
    (sends : Ledger conv p.out p.has t got' accepted sender.obj)
    (receives : Ledger conv t.out t.has p got accepted' receiver.obj)
    (written : accepted = sender.accepted) (read : got = receiver.delivered) :
    Intact sender receiver := by
  subst written read
  have queue := receives.receiving.queue
  have split : sender.accepted = receiver.delivered ++ payload receiver.obj.rcvQueue ++
      (t.out.drop p.next).flatten ++ payload sender.obj.sndQueue := by
    rw [queue, ← List.flatten_append, List.take_append_drop]
    exact sends.accepted_eq
  refine ⟨?_, t.out.drop p.next, split, fun k inside => ?_⟩
  · rw [split, List.append_assoc, List.append_assoc]
    exact List.prefix_append _ _
  · rw [List.length_drop] at inside
    have data : t.out.getD (p.next + k) [] = (t.out.drop p.next).get ⟨k, by simpa using inside⟩ := by
      rw [List.getD_eq_getElem?_getD, List.getElem?_eq_getElem (by omega)]
      simp
    have nxt : receiver.obj.rcvNxt + UInt32.ofNat k = UInt32.ofNat (p.next + k) := by
      rw [receives.receiving.nxt, UInt32.ofNat_add]
    rw [nxt, ← data]
    rcases sends.covers (p.next + k) (by omega) with (taken | waiting) | isLive
    · omega
    · obtain ⟨seg, isSeg, same⟩ := segment_of_number receives.receiving.buf waiting
      exact ⟨seg, List.mem_append_left _ isSeg, same⟩
    · obtain ⟨seg, isSeg, same⟩ := segment_of_number sends.sending.buf isLive
      exact ⟨seg, List.mem_append_right _ isSeg, same⟩

theorem intact_of_books {conv : UInt32} {t p : Tally} {sender receiver : Local}
    (sends : Books conv p t sender) (receives : Books conv t p receiver) :
    Intact sender.conn receiver.conn :=
  intact_of_ledgers sends.ledger receives.ledger rfl rfl

/-- While every accepted buffer is shorter than `2 ^ 32` bytes, both streams of
the pair are whole in every state. -/
theorem streams_intact (h : Handshake) {q : Duplex Local Nat}
    (run : (lossy (· < 2 ^ 32)).Run h.pair q) :
    Intact q.first.config.state.conn q.second.config.state.conn ∧
      Intact q.second.config.state.conn q.first.config.state.conn := by
  obtain ⟨t, p, books⟩ := run_pairBooks h run
  exact ⟨intact_of_books books.own_books books.other_books,
    intact_of_books books.other_books books.own_books⟩

/-! ## Runs on fixed labels -/

def localPair : Handshake where
  conv := 7
  client := loopback
  server := loopback
  clientNow := 0
  serverNow := 0
  clientStreambufs := noStreambufs
  serverStreambufs := noStreambufs

/-- The client writes a byte, the update sends it, and the server reads it from
the datagram, which comes in twice. -/
def writeAndRead : List (Bool × Label Event Call) :=
  let datagram := opcodeData :: encodeSegs [{ ikcpSegmentNew 0 [42] with
    conv := 7, cmd := ikcpCmdPush, wnd := 256 }]
  [(true, .call (.asyncWrite [42])), (true, .event (.update 0)),
    (false, .event (.onReceive datagram 26 0)), (false, .event (.onReceive datagram 26 0)),
    (false, .call (.asyncReadSome 8)), (false, .event (.posted 0)), (false, .back)]

theorem streams_intact_byte : ∃ q, (lossy (· < 2 ^ 32)).Run localPair.pair q ∧
    q.second.config.state.conn.delivered = [42] ∧
    Intact q.first.config.state.conn q.second.config.state.conn := by
  obtain ⟨q, run, delivered⟩ := Peering.exec_checked (lossy (· < 2 ^ 32)) localPair.pair writeAndRead
    (fun q => q.second.config.state.conn.delivered == [42]) (by decide)
  exact ⟨q, run, eq_of_beq delivered, (streams_intact localPair run).1⟩

/-! ## A buffer of `2 ^ 32` bytes -/

/-- Its length narrows to zero: nothing is queued, and nothing refused. -/
theorem sendResult_of_huge {l : Local} {buffer : List UInt8} (long : buffer.length = 2 ^ 32)
    (fresh : l.conn.obj = initKcpContext 7) : l.sendResult buffer = (0, initKcpContext 7) := by
  have zero : narrow buffer.length = 0 := by
    rw [long]
    decide
  rw [Local.sendResult, zero, fresh]
  rfl

/-- The first write of the client already loses the buffer. -/
theorem write_lost {buffer : List UInt8} (long : buffer.length = 2 ^ 32) :
    ∃ own, (lossy fun _ => True).Move localPair.pair.first localPair.pair.second
      (.call (.asyncWrite buffer)) own ∧
      ¬ Intact own.config.state.conn localPair.pair.second.config.state.conn := by
  have client : localPair.pair.first.config = .idle (clientLocal 7 loopback 0 noStreambufs) := rfl
  have lost := sendResult_of_huge (l := clientLocal 7 loopback 0 noStreambufs) long rfl
  have accepts : asyncWrite buffer (clientLocal 7 loopback 0 noStreambufs) =
      .ret (((clientLocal 7 loopback 0 noStreambufs).write buffer).postCompletion .success) () := by
    rw [asyncWrite_eq, if_neg (by decide), lost, if_neg (by decide), if_pos (by decide)]
  have proper : userProper (fun _ => True) localPair.pair.first.config.state
      (.call (.asyncWrite buffer)) := by
    intro _ _
    rw [client, Config.idle, lost]
    exact ⟨trivial, by decide⟩
  have stepped : connectionSystem.step localPair.pair.first.config (.call (.asyncWrite buffer)) =
      some (.idle (((clientLocal 7 loopback 0 noStreambufs).write buffer).postCompletion .success)) := by
    rw [client]
    change some (Config.enter [] (asyncWrite buffer (clientLocal 7 loopback 0 noStreambufs))) = _
    rw [accepts]
    rfl
  refine ⟨⟨_, 0⟩, ⟨⟨by decide, by decide, trivial, proper⟩, stepped, rfl⟩, fun intact => ?_⟩
  obtain ⟨chunks, stream, held⟩ := intact.held
  dsimp only [Config.idle, Local.postCompletion, Local.write] at stream held
  rw [lost] at stream held
  have none : chunks = [] := by
    cases chunks with
    | nil => rfl
    | cons chunk rest =>
        obtain ⟨seg, member, _⟩ := held 0 (Nat.zero_lt_succ _)
        cases member
  rw [none] at stream
  have empty : buffer = [] := stream
  rw [empty] at long
  cases long

theorem huge_write_lost : ∃ own, (lossy fun _ => True).Move localPair.pair.first
    localPair.pair.second (.call (.asyncWrite (List.replicate (2 ^ 32) 0))) own ∧
    ¬ Intact own.config.state.conn localPair.pair.second.config.state.conn :=
  write_lost List.length_replicate

end AsioKcp
