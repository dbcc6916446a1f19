import AsioKcp.Pair.Accounts
import AsioKcp.Tunnel.Relay

/-! # The streams through the tunnel

Both ends together run as two connections over a lossy network: whatever the
coroutines do is proper use of the connections.  So the bytes that leave one end
are those that have entered the other. -/
set_option autoImplicit false

namespace AsioKcp

open AsioKcp.Ikcp AsioKcp.Callback AsioKcp.Machine

section Stepped
variable {conv : UInt32} {own other own' : Tunnel} {n m : Nat}

/-- The network between the two connections of the tunnel. -/
def between : Peering Local Event Call Nat := lossy (· < 2 ^ 32)

/-- A step of the tunnel is a step of its connection, or none. -/
inductive Stepped (own other : Tunnel) (n m : Nat) (own' : Tunnel) : Prop
  | rests : own'.kcp = own.kcp → Stepped own other n m own'
  | goes (label : Label Event Call) (k : Nat) :
      between.Move ⟨own.kcp, n⟩ ⟨other.kcp, m⟩ label ⟨own'.kcp, k⟩ → Stepped own other n m own'

/-- What the sides have to keep for a step to be one of the pair. -/
structure Bounds (own other : Tunnel) : Prop where
  few : Few own.kcp.state
  otherFew : Few other.kcp.state

theorem Bounds.call (bounds : Bounds own other) {t : Tunnel} {k : Call}
    (called : t.call k = some own') (same : t.kcp = own.kcp)
    (proper : k.Proper (· < 2 ^ 32) own.kcp.state) : Stepped own other n m own' := by
  obtain ⟨kcp, goes, rfl⟩ := Option.map_eq_some_iff.mp called
  rw [same] at goes
  exact .goes (.call k) n ⟨⟨bounds.few, bounds.otherFew, trivial, proper⟩, goes, rfl⟩

theorem Bounds.readSome (bounds : Bounds own other) {t : Tunnel}
    (called : t.readSome = some own') (same : t.kcp = own.kcp) : Stepped own other n m own' :=
  have short : bufferSize < 2 ^ 31 := by decide
  bounds.call (k := .asyncReadSome bufferSize) called same short

theorem Bounds.catchKcp2Tcp (bounds : Bounds own other) {t : Tunnel}
    (called : t.catchKcp2Tcp = some own') (same : t.kcp = own.kcp) : Stepped own other n m own' :=
  bounds.call called same trivial

theorem Bounds.catchTcp2Kcp (bounds : Bounds own other) {t : Tunnel}
    (called : t.catchTcp2Kcp = some own') (same : t.kcp = own.kcp) : Stepped own other n m own' :=
  bounds.call called same trivial

theorem Bounds.write (bounds : Bounds own other) (relays : Relays conv own) {t : Tunnel}
    {bytes : List UInt8} (short : bytes.length ≤ bufferSize) (called : t.write bytes = some own')
    (same : t.kcp = own.kcp) : Stepped own other n m own' := by
  have fits := relays.attends.conveys.fits short
  have proper : (Call.asyncWrite bytes).Proper (· < 2 ^ 32) own.kcp.state :=
    fun _ _ => ⟨short.trans_lt (by decide), fits⟩
  exact bounds.call called same proper

theorem tunnel_stepped (relays : Relays conv own) {label : TunnelLabel} (allows : own.Allows other label)
    (stepped : own.step label = some own') : Stepped own other n m own' := by
  obtain ⟨few, otherFew, carries⟩ := allows
  have bounds : Bounds own other := ⟨few, otherFew⟩
  cases label with
  | kcp label =>
      simp only [Tunnel.step] at stepped
      split at stepped
      · cases stepped
      · cases stepped
      · rename_i silent _
        obtain ⟨kcp, goes, rfl⟩ := Option.map_eq_some_iff.mp stepped
        have proper : userProper (· < 2 ^ 32) own.kcp.state label := by
          cases label with
          | call k => exact absurd rfl (silent k)
          | _ => trivial
        exact .goes label _ ⟨⟨few, otherFew, carries, proper⟩, goes, rfl⟩
  | startKcp2Tcp =>
      simp only [Tunnel.step] at stepped
      split_ifs at stepped
      exact bounds.readSome stepped rfl
  | resumeKcp2Tcp =>
      simp only [Tunnel.step] at stepped
      split at stepped
      · split at stepped
        · cases stepped
        · split at stepped
          · cases stepped
            exact .rests rfl
          · exact bounds.catchKcp2Tcp stepped rfl
      · cases stepped
  | tcpWritten ec size =>
      simp only [Tunnel.step] at stepped
      split at stepped
      · split_ifs at stepped
        · exact bounds.readSome stepped rfl
        · exact bounds.catchKcp2Tcp stepped rfl
      · cases stepped
  | endKcp2Tcp threw =>
      simp only [Tunnel.step] at stepped
      split_ifs at stepped
      cases stepped
      exact .rests rfl
  | startTcp2Kcp =>
      simp only [Tunnel.step] at stepped
      split_ifs at stepped
      cases stepped
      exact .rests rfl
  | tcpReceived ec bytes =>
      simp only [Tunnel.step] at stepped
      split_ifs at stepped with _ _ sized
      · exact bounds.write relays sized.2 stepped rfl
      · exact bounds.catchTcp2Kcp stepped rfl
  | resumeTcp2Kcp =>
      simp only [Tunnel.step] at stepped
      split at stepped
      · split at stepped
        · cases stepped
        · split at stepped
          · cases stepped
            exact .rests rfl
          · exact bounds.catchTcp2Kcp stepped rfl
      · cases stepped
  | endTcp2Kcp threw =>
      simp only [Tunnel.step] at stepped
      split_ifs at stepped
      cases stepped
      exact .rests rfl

end Stepped

/-- The connections of the two ends run as a pair. -/
theorem tunnels_pair (h : Handshake) {q : Tunnels} (run : h.tunnels.Run q) :
    Relays h.conv q.near ∧ Relays h.conv q.far ∧
      ∃ n m, between.Run h.pair ⟨⟨q.near.kcp, n⟩, ⟨q.far.kcp, m⟩⟩ := by
  induction run with
  | refl =>
      exact ⟨relays_start (.client h.server h.clientNow h.clientStreambufs),
        relays_start (.server h.client h.serverNow h.serverStreambufs), 0, 0, .refl⟩
  | @near q t label _ allows stepped ih =>
      obtain ⟨near, far, n, m, pair⟩ := ih
      refine ⟨near.step stepped, far, ?_⟩
      cases tunnel_stepped (n := n) (m := m) near allows stepped with
      | rests same =>
          refine ⟨n, m, ?_⟩
          rw [same]
          exact pair
      | goes label' k move => exact ⟨k, m, .first label' pair move⟩
  | @far q t label _ allows stepped ih =>
      obtain ⟨near, far, n, m, pair⟩ := ih
      refine ⟨near, far.step stepped, ?_⟩
      cases tunnel_stepped (n := m) (m := n) far allows stepped with
      | rests same =>
          refine ⟨n, m, ?_⟩
          rw [same]
          exact pair
      | goes label' k move => exact ⟨n, k, .second label' pair move⟩

/-! ## From socket to socket -/

/-- The bytes that `kcp2tcp` has read and not yet written. -/
inductive Tunnel.Holding (t : Tunnel) : List UInt8 → Prop
  | awaiting : t.kcp.state.conn.readOp ≠ none → t.Holding []
  | writing (bytes : List UInt8) : t.kcp2tcp = .writing bytes → t.Holding bytes

theorem Relays.holding {conv : UInt32} {t : Tunnel} (relays : Relays conv t) {bytes : List UInt8}
    (holding : t.Holding bytes) : t.kcp.state.conn.delivered = t.written ++ bytes := by
  have reads := relays.attends.reads
  cases holding with
  | awaiting busy =>
      obtain ⟨op, pending⟩ := Option.ne_none_iff_exists'.mp busy
      obtain ⟨_, _, _, _, moved, _⟩ := reads.pending pending
      rw [moved, List.append_nil]
  | writing bytes isWriter =>
      rw [isWriter] at reads
      exact reads.2

/-- The stream from the TCP socket of `sender` to that of `receiver`. -/
structure Through (sender receiver : Tunnel) : Prop where
  ordered : receiver.written <+: sender.received
  /-- While the sending connection is open and `kcp2tcp` works, nothing is missing. -/
  held : ∀ bytes, ¬ sender.kcp.state.closed → receiver.Holding bytes →
    ∃ chunks : List (List UInt8),
      sender.received = receiver.written ++ bytes ++
        payload receiver.kcp.state.conn.obj.rcvQueue ++ chunks.flatten ++
        payload sender.kcp.state.conn.obj.sndQueue ∧
      ∀ k (inside : k < chunks.length),
        ∃ seg ∈ receiver.kcp.state.conn.obj.rcvBuf ++ sender.kcp.state.conn.obj.sndBuf,
          seg.sn = receiver.kcp.state.conn.obj.rcvNxt + UInt32.ofNat k ∧
            seg.data = chunks.get ⟨k, inside⟩

theorem through_of_intact {conv : UInt32} {sender receiver : Tunnel} (sends : Relays conv sender)
    (receives : Relays conv receiver)
    (intact : Intact sender.kcp.state.conn receiver.kcp.state.conn) : Through sender receiver where
  ordered := (receives.attends.reads.written_prefix.trans intact.ordered).trans
    sends.attends.conveys.accepted
  held := by
    intro bytes opened holding
    obtain ⟨chunks, whole, each⟩ := intact.held
    rw [sends.attends.conveys.whole opened, receives.holding holding] at whole
    exact ⟨chunks, whole, each⟩

/-- In every state of every run of the two ends, over a network that loses, repeats
and reorders datagrams, and with TCP sockets that may fail at any time: each end
has written to its TCP socket the beginning of what the other has read from its own. -/
theorem tunnel_streams (h : Handshake) {q : Tunnels} (run : h.tunnels.Run q) :
    Through q.near q.far ∧ Through q.far q.near := by
  obtain ⟨near, far, n, m, pair⟩ := tunnels_pair h run
  obtain ⟨t, p, books⟩ := run_pairBooks h pair
  exact ⟨through_of_intact near far (intact_of_books books.own_books books.other_books),
    through_of_intact far near (intact_of_books books.other_books books.own_books)⟩

/-- A byte from socket to socket. -/
theorem tunnel_streams_byte : ∃ q, localPair.tunnels.Run q ∧ q.near.received = [42] ∧
    q.far.written = [42] ∧ Through q.near q.far := by
  obtain ⟨q, run, checked⟩ := tunnels_checked localPair.tunnels
    [(true, .startTcp2Kcp), (true, .tcpReceived .success [42]), (true, .kcp (.event (.update 0))),
      (false, .startKcp2Tcp), (false, .kcp (.event (.onReceive (pushOf 0 42) 26 0))),
      (false, .resumeKcp2Tcp), (false, .kcp .back), (false, .tcpWritten .success 1)]
    (fun q => q.near.received == [42] && q.far.written == [42]) (by decide)
  obtain ⟨received, written⟩ := Bool.and_eq_true_iff.mp checked
  exact ⟨q, run, eq_of_beq received, eq_of_beq written, (tunnel_streams localPair run).1⟩

end AsioKcp
