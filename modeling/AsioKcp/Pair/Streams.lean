import AsioKcp.Pair.Accounts

/-! # The stream over a network that keeps the order

If each datagram arrives once and in order, the stream stays whole however many
segments it takes: their numbers may wrap as often as they like.  And once the
other side has heard all that was sent, `snd_buf` holds nothing that it lacks. -/
set_option autoImplicit false

namespace AsioKcp

open AsioKcp.Ikcp AsioKcp.Callback AsioKcp.Machine AsioKcp.Window

/-- Everything that has been numbered is in the queues of `receiver`. -/
def Landed (sender receiver : Connection) : Prop :=
  sender.accepted = receiver.delivered ++ payload receiver.obj.received ++
    payload sender.obj.sndQueue

section Pair
variable {closer : Bool} {conv : UInt32} {bye bye' : Option Farewell} {own other : Node Local Nat}

theorem Paired.intact (paired : Paired closer conv bye bye' own other)
    (isCloser : own.config.state.conn.isserver = closer)
    (isReader : other.config.state.conn.isserver ≠ closer) :
    Intact own.config.state.conn other.config.state.conn := by
  obtain ⟨s, p, got, accepted, got', accepted', groups, groups', outlook, outlook', _⟩ := paired
  exact intact_of_ledgers outlook.account.stands.ledger outlook'.account.stands.ledger
    (outlook.account.writes isCloser) (outlook'.account.reads isReader)

/-- With nothing left in flight, the receiver has what the sender has numbered. -/
theorem Paired.landed (paired : Paired closer conv bye bye' own other)
    (isCloser : own.config.state.conn.isserver = closer)
    (isReader : other.config.state.conn.isserver ≠ closer)
    (heardAll : other.note = own.config.state.env.sent.length) :
    Landed own.config.state.conn other.config.state.conn := by
  obtain ⟨s, p, got, accepted, got', accepted', groups, groups', outlook, outlook', _⟩ := paired
  have empty : groups = [] := by
    have flight := outlook.flight
    rw [List.drop_eq_nil_of_le (Nat.le_of_eq heardAll.symm)] at flight
    exact List.forall₂_nil_left_iff.mp flight
  have ends := outlook.linked.sends.ends
  have exactly : ∀ i, p.receiver.Has i ↔ i < s.tally.out.length := by
    intro i
    constructor
    · exact ends.below i
    · intro below
      apply (outlook.linked.sends.sends.reaches i below).resolve_right
      rintro ⟨n, member, _⟩
      rw [empty] at member
      cases member
  have all := received_below outlook'.account.stands.ledger.receiving ends.receiver
    (Nat.le_refl _) exactly
  rw [List.take_length, outlook'.account.reads isReader] at all
  rw [Landed, all, ← outlook.account.writes isCloser]
  exact outlook.account.stands.ledger.accepted_eq

end Pair

/-- In every state of such a run the stream out of the side that `closer` names is
whole, and what has been sent and heard has landed. -/
theorem orderly_streams (h : Handshake) (closer : Bool) {q : Duplex Local Nat}
    (run : (orderly closer).Run h.pair q) :
    Intact (q.side closer).config.state.conn (q.side !closer).config.state.conn ∧
      ((q.side !closer).note = (q.side closer).config.state.env.sent.length →
        Landed (q.side closer).config.state.conn (q.side !closer).config.state.conn) := by
  obtain ⟨bye, parties⟩ := run_parties h run
  obtain ⟨bye', paired⟩ := parties.paired
  exact ⟨paired.intact parties.isCloser parties.isReader,
    paired.landed parties.isCloser parties.isReader⟩

/-- One byte has arrived and lies unread, and a second one has not been sent. -/
theorem orderly_streams_byte : ∃ q, (orderly false).Run localPair.pair q ∧
    q.second.note = q.first.config.state.env.sent.length ∧
    q.first.config.state.conn.accepted = [42, 43] ∧
    Landed q.first.config.state.conn q.second.config.state.conn := by
  obtain ⟨q, run, checked⟩ := Peering.exec_checked (orderly false) localPair.pair
    [(true, .call (.asyncWrite [42])), (true, .event (.update 0)),
      (false, .event (.onReceive (pushOf 0 42) 26 0)), (true, .call (.asyncWrite [43]))]
    (fun q => decide (q.second.note = q.first.config.state.env.sent.length) &&
      q.first.config.state.conn.accepted == [42, 43]) (by decide)
  obtain ⟨all, accepted⟩ := Bool.and_eq_true_iff.mp checked
  have heardAll := of_decide_eq_true all
  exact ⟨q, run, heardAll, eq_of_beq accepted, (orderly_streams localPair false run).2 heardAll⟩

end AsioKcp
