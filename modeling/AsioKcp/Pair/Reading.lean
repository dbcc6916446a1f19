import AsioKcp.Pair.Integrity
import AsioKcp.Connection.Framing
import AsioKcp.Connection.Quiescence
import AsioKcp.Connection.Reads

/-! # Reads from a peer that runs the same code

Whatever the network does with the datagrams of a connection, its peer holds
only segments that are messages of their own and are not empty. -/
set_option autoImplicit false

namespace AsioKcp

open AsioKcp.Ikcp AsioKcp.Callback AsioKcp.Machine

/-- The network of a pair, with no terms for the users and no limit on how many
segments are numbered. -/
def network : Peering Local Event Call Nat where
  system := connectionSystem
  allows own other label := Carries other.config.state.env.sent (hears own.config label)
  mark := countHeard

/-- What one side of the pair keeps. -/
structure Streaming (conv : UInt32) (l : Local) : Prop where
  served : Served conv l.conn.obj
  sent : ∀ d ∈ l.env.sent, Emits (Carried conv) d
  plain : ∀ seg ∈ l.conn.obj.received, Plain seg

section Local
variable {conv : UInt32} {l l' : Local}

theorem streaming_act {T : Terms} (act : Act T l l') (streaming : Streaming conv l) :
    Streaming conv l' where
  served := lasting_act (served_lasting conv) act streaming.served
  sent := emits_act flush_carried act streaming.served streaming.sent
  plain := fun seg member => streaming.plain seg (act_received act seg member)

/-- The entry of an event with a datagram that the other side has sent. -/
theorem streaming_entry {peer : Local} (e : Event) (streaming : Streaming conv l)
    (told : ∀ d ∈ peer.env.sent, Emits (Carried conv) d)
    (carried : Carries peer.env.sent (heard l.conn e)) : Streaming conv (entry e l) := by
  have lasting := served_lasting conv
  refine ⟨lasting_entry lasting e streaming.served,
    emits_entry lasting flush_carried e streaming.served streaming.sent, ?_⟩
  cases entry_effect e l with
  | same obj _ =>
      rw [obj]
      exact streaming.plain
  | updated now obj _ =>
      rw [obj, rcvSide_received (updateEffect_sides l.conn now).1]
      exact streaming.plain
  | received data size hears isData long obj _ =>
      rw [hears] at carried
      obtain ⟨d, isSent, ⟨rest, arrived⟩, count⟩ := carried
      dsimp only at arrived count
      obtain ⟨bytes, shape, group, rfl, nonempty, encodable, _⟩ | shape := told d isSent
      · have body : data.drop 1 = encodeSegs group ++ rest := by
          rw [← arrived, shape]
          rfl
        have size_eq : size - 1 = (encodeSegs group).length := by
          rw [count, shape]
          rfl
        have conv_eq : l.conn.obj.conv = conv := congrArg Params.conv streaming.served.1
        have readable : ∀ seg ∈ group, Decodable l.conn.obj.conv seg := fun seg member => by
          rw [conv_eq]
          exact (encodable seg member).decodable
        rw [obj, body, size_eq, rcvSide_received (ikcpInput_encode rest readable).rcvSide]
        intro seg member
        rcases foldl_inputKcp_mem _ member with old | ⟨fresh, push⟩
        · exact streaming.plain seg old
        · obtain ⟨said, isSaid, rfl⟩ := List.mem_map.mp fresh
          have ok := encodable said isSaid
          rw [ok.decodable.wire] at push
          exact ⟨congrArg WireSeg.frg ok.wire |>.trans ok.frg, ok.filled push⟩
      · rw [← arrived, shape] at isData
        exact absurd isData (by simp [opcodeDisconnect, opcodeData])

end Local

structure BothStream (conv : UInt32) (own other : Node Local Nat) : Prop where
  ownStreams : Streaming conv own.config.state
  otherStreams : Streaming conv other.config.state
  ownKeeps : Keeps Terms.any own.config
  otherKeeps : Keeps Terms.any other.config

theorem streams_move {conv : UInt32} {own other own' : Node Local Nat} {label : Label Event Call}
    (both : BothStream conv own other) (move : network.Move own other label own') :
    BothStream conv own' other := by
  obtain ⟨acts, keeps⟩ := keeps_step both.ownKeeps (Terms.any_allows own.config label) move.stepped
  have carried := move.allowed
  have begins : Streaming conv (begun label own.config.state) := by
    cases label with
    | event e => exact streaming_entry e both.ownStreams both.otherStreams.sent carried
    | _ => exact both.ownStreams
  exact ⟨acts_invariant streaming_act acts begins, both.otherStreams, keeps, both.otherKeeps⟩

theorem streaming_start {conv : UInt32} {c : Config Local} (started : Started conv c) :
    Streaming conv c.state := by
  obtain ⟨l, rfl, shape⟩ := started.cases
  rcases shape with ⟨_, _, _, rfl⟩ | ⟨_, _, _, rfl⟩ <;>
    exact ⟨served_init conv, fun _ member => (List.not_mem_nil member).elim,
      fun _ member => (List.not_mem_nil member).elim⟩

theorem run_streams (h : Handshake) {q : Duplex Local Nat} (run : network.Run h.pair q) :
    BothStream h.conv q.first q.second := by
  have client : Started h.conv h.pair.first.config := .client h.server h.clientNow h.clientStreambufs
  have server : Started h.conv h.pair.second.config :=
    .server h.client h.serverNow h.serverStreambufs
  apply Peering.invariant (J := BothStream h.conv) _ streams_move _ run
  · exact fun both => ⟨both.otherStreams, both.ownStreams, both.otherKeeps, both.ownKeeps⟩
  · exact ⟨streaming_start client, streaming_start server, client.keeps _, server.keeps _⟩

/-- Every check of a `read_some` of either side reads exactly if the first
segment of its queue fits the buffer. -/
theorem readSome_progress (h : Handshake) {q : Duplex Local Nat} (run : network.Run h.pair q)
    {own other own' : Node Local Nat}
    (side : (own, other) = (q.first, q.second) ∨ (own, other) = (q.second, q.first))
    {e : Event} (move : network.Move own other (.event e) own') (polls : Polls own.config.state e)
    {handler size : Nat} (readOp : own.config.state.conn.readOp = some (.readSome handler size)) :
    ReadsSome (entry e own.config.state) own'.config.state handler size ↔
      FirstFits (entry e own.config.state).conn.obj size := by
  have both := run_streams h run
  have streaming : Streaming h.conv (entry e own.config.state) := by
    rcases side with same | same
    · cases same
      exact streaming_entry e both.ownStreams both.otherStreams.sent move.allowed
    · cases same
      exact streaming_entry e both.otherStreams both.ownStreams.sent move.allowed
  exact pollRead_readSome streaming.plain (polls_state polls readOp move.stepped)

/-! ## Runs on fixed labels -/

instance (own other : Node Local Nat) (label : Label Event Call) :
    Decidable (network.allows own other label) :=
  inferInstanceAs (Decidable (Carries _ _))

/-- The client writes two bytes, which the server hears and is to read into a
buffer of this size. -/
def readOfTwo (size : Nat) : List (Bool × Label Event Call) :=
  let datagram := opcodeData :: encodeSegs [{ ikcpSegmentNew 0 [1, 2] with
    conv := 7, cmd := ikcpCmdPush, wnd := 256 }]
  [(true, .call (.asyncWrite [1, 2])), (true, .event (.update 0)),
    (false, .event (.onReceive datagram 27 0)), (false, .call (.asyncReadSome size))]

/-- The server waits for its check with a segment of two bytes in the queue. -/
structure AwaitsCheck (n : Node Local Nat) (size : Nat) : Prop where
  idle : n.config.isIdle = true
  posted : n.config.state.env.posted[0]? = some (.checkReadOp 0)
  readOp : n.config.state.conn.readOp = some (.readSome 0 size)
  queue : n.config.state.conn.obj.rcvQueue.head?.map (fun seg => seg.data.length) = some 2

instance (n : Node Local Nat) (size : Nat) : Decidable (AwaitsCheck n size) :=
  decidable_of_iff (n.config.isIdle = true ∧ n.config.state.env.posted[0]? = some (.checkReadOp 0) ∧
      n.config.state.conn.readOp = some (.readSome 0 size) ∧
      n.config.state.conn.obj.rcvQueue.head?.map (fun seg => seg.data.length) = some 2)
    ⟨fun ⟨idle, posted, readOp, queue⟩ => ⟨idle, posted, readOp, queue⟩,
      fun ⟨idle, posted, readOp, queue⟩ => ⟨idle, posted, readOp, queue⟩⟩

theorem AwaitsCheck.checks {own : Node Local Nat} {size : Nat} (awaits : AwaitsCheck own size)
    (other : Node Local Nat) : Polls own.config.state (.posted 0) ∧
      ∃ own', network.Move own other (.event (.posted 0)) own' := by
  refine ⟨Or.inl ⟨0, 0, rfl, awaits.posted⟩, ⟨?_, countHeard own (.event (.posted 0))⟩, trivial, ?_, rfl⟩
  · exact .enter [] (runEvent (.posted 0) own.config.state)
  · have idle := (idle_of_isIdle awaits.idle).eq
    rw [idle]
    rfl

theorem AwaitsCheck.firstFits_iff {own : Node Local Nat} {size : Nat} (awaits : AwaitsCheck own size) :
    FirstFits (entry (.posted 0) own.config.state).conn.obj size ↔ 2 ≤ narrow size := by
  have same : (entry (.posted 0) own.config.state).conn = own.config.state.conn := by
    unfold entry
    dsimp only
    rw [awaits.posted]
  obtain ⟨seg, head, length⟩ := Option.map_eq_some_iff.mp awaits.queue
  rw [same, FirstFits, head]
  simp [length]

theorem readSome_progress_eight : ∃ q own', network.Run localPair.pair q ∧
    network.Move q.second q.first (.event (.posted 0)) own' ∧
    ReadsSome (entry (.posted 0) q.second.config.state) own'.config.state 0 8 := by
  obtain ⟨q, run, checked⟩ := Peering.exec_checked network localPair.pair (readOfTwo 8)
    (fun q => decide (AwaitsCheck q.second 8)) (by decide)
  have awaits : AwaitsCheck q.second 8 := of_decide_eq_true checked
  obtain ⟨polls, own', move⟩ := awaits.checks q.first
  have fits := awaits.firstFits_iff.mpr (by decide)
  exact ⟨q, own', run, move,
    (readSome_progress localPair run (Or.inr rfl) move polls awaits.readOp).mpr fits⟩

/-- A buffer of one byte never gets any of the two. -/
theorem readSome_progress_small :
    ¬ ∀ (q : Duplex Local Nat) (own' : Node Local Nat) (e : Event) (handler size : Nat),
      network.Run localPair.pair q → network.Move q.second q.first (.event e) own' →
      Polls q.second.config.state e → 0 < size →
      q.second.config.state.conn.readOp = some (.readSome handler size) →
      ReadsSome (entry e q.second.config.state) own'.config.state handler size := by
  intro claimed
  obtain ⟨q, run, checked⟩ := Peering.exec_checked network localPair.pair (readOfTwo 1)
    (fun q => decide (AwaitsCheck q.second 1)) (by decide)
  have awaits : AwaitsCheck q.second 1 := of_decide_eq_true checked
  obtain ⟨polls, own', move⟩ := awaits.checks q.first
  have streaming := streaming_entry (.posted 0) (run_streams localPair run).otherStreams
    (run_streams localPair run).ownStreams.sent move.allowed
  have reads := claimed q own' _ 0 1 run move polls Nat.zero_lt_one awaits.readOp
  have fits := (pollRead_readSome streaming.plain
    (polls_state polls awaits.readOp move.stepped)).mp reads
  exact absurd (awaits.firstFits_iff.mp fits) (by decide)

end AsioKcp
