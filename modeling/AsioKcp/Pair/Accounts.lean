import AsioKcp.Connection.Sessions
import AsioKcp.Pair.Integrity
import AsioKcp.Pair.Orderly

/-! # What the other side has read when it hears the disconnect

Over a network that keeps the order, the disconnect arrives behind everything that
the closing side had numbered.  The rest of what its writes were accepted for is
what the flush of `close` left in `snd_queue`; and what has arrived lies in the
queues of the other side, if it has not been read. -/
set_option autoImplicit false

namespace AsioKcp

open AsioKcp.Ikcp AsioKcp.Callback AsioKcp.Machine AsioKcp.Window

/-! ## The start -/

theorem outlook_start (closer : Bool) {conv : UInt32} {l : Local}
    (obj : l.conn.obj = initKcpContext conv) (delivered : l.conn.delivered = [])
    (accepted : l.conn.accepted = [])
    (readOp : l.conn.readOp = none) (said : l.conn.disconnectSent = false)
    (sent : l.env.sent = []) :
    Outlook closer conv .start 0 [] .start none [] [] [] l := by
  have linked : Linked .start .start [] [] := ⟨way_start, way_start⟩
  refine ⟨⟨⟨?_, ?_, ?_⟩, fun _ => delivered.symm, fun _ => accepted.symm, ?_, ?_, nofun⟩, ?_, ?_,
    linked⟩
  · rw [obj]
    exact ledger_start conv
  · rw [obj]
    exact fun _ member => (List.not_mem_nil member).elim
  · rw [obj]
    rfl
  · rw [readOp]
    exact fun _ _ => nofun
  · exact ⟨fun _ => said, fun _ => rfl⟩
  · exact Nat.zero_le _
  · rw [sent]
    exact .nil

theorem paired_start (closer : Bool) (h : Handshake) :
    Paired closer h.conv none none (h.pair.side closer) (h.pair.side !closer) := by
  have client : Started h.conv h.pair.first.config := .client h.server h.clientNow h.clientStreambufs
  have server : Started h.conv h.pair.second.config :=
    .server h.client h.serverNow h.serverStreambufs
  have paired : Paired closer h.conv none none h.pair.first h.pair.second :=
    ⟨.start, .start, [], [], [], [], [], [], outlook_start closer rfl rfl rfl rfl rfl rfl,
      outlook_start closer rfl rfl rfl rfl rfl rfl, client.keeps _, server.keeps _⟩
  cases closer with
  | false => exact paired
  | true => exact paired.symm

/-! ## What has arrived -/

theorem payload_numbered {conv : UInt32} {out : List (List UInt8)} {segs : List IkcpSeg}
    {ns : List Nat} (buf : segs.map IkcpSeg.core = ns.map (numbered conv out)) :
    payload segs = (ns.map fun i => out.getD i []).flatten := by
  have data : segs.map IkcpSeg.data = ns.map fun i => out.getD i [] := by
    have cores := congrArg (List.map SegCore.data) buf
    rw [List.map_map, List.map_map] at cores
    exact cores
  rw [payload, List.flatMap_def, data]

theorem take_range_flatten {out : List (List UInt8)} (k : Nat) : ∀ {next : Nat},
    next + k ≤ out.length → (out.take next).flatten ++
      ((List.range' next k).map fun i => out.getD i []).flatten = (out.take (next + k)).flatten := by
  induction k with
  | zero =>
      intro next _
      exact List.append_nil _
  | succ k ih =>
      intro next inside
      rw [List.range'_succ, List.map_cons, List.flatten_cons, ← List.append_assoc,
        ← take_succ_flatten (by omega), ih (by omega), Nat.add_assoc, Nat.add_comm 1]

/-- A receiver that has exactly the numbers below `due` holds them in order. -/
theorem held_below {r : Receiver} (ordered : r.Ordered 256) {due : Nat}
    (exactly : ∀ i, r.Has i ↔ i < due) :
    r.next ≤ due ∧ r.held = List.range' r.next (due - r.next) := by
  have low : r.next ≤ due := by
    by_contra beyond
    have has := (exactly due).mp (Or.inl (by omega))
    exact Nat.lt_irrefl _ has
  refine ⟨low, ?_⟩
  have members : ∀ i, i ∈ r.held ↔ i ∈ List.range' r.next (due - r.next) := by
    intro i
    rw [List.mem_range'_1]
    constructor
    · intro isHeld
      have below := (exactly i).mp (Or.inr isHeld)
      have above := (ordered.span i isHeld).1
      omega
    · rintro ⟨above, below⟩
      rcases (exactly i).mpr (by omega) with taken | isHeld
      · omega
      · exact isHeld
  have sorted := ordered.sorted
  have increasing : (List.range' r.next (due - r.next)).Pairwise (· < ·) := List.pairwise_lt_range'
  have permuted := (List.perm_ext_iff_of_nodup (sorted.imp Nat.ne_of_lt)
    (increasing.imp Nat.ne_of_lt)).mpr members
  exact permuted.eq_of_pairwise (fun a b _ _ less more => absurd less (Nat.lt_asymm more))
    sorted increasing

/-- So what it has been sent is what has been read and what lies in its queues. -/
theorem received_below {conv : UInt32} {out : List (List UInt8)} {s : Standing} {got : List UInt8}
    {kcp : Ikcpcb} (receiving : Receiving conv out s.tally.next s.tally.held got kcp)
    (ordered : s.receiver.Ordered 256) {due : Nat} (inside : due ≤ out.length)
    (exactly : ∀ i, s.receiver.Has i ↔ i < due) :
    got ++ payload kcp.received = (out.take due).flatten := by
  obtain ⟨low, held⟩ := held_below ordered exactly
  change s.tally.next ≤ due at low
  change s.tally.held = List.range' s.tally.next (due - s.tally.next) at held
  have buf := payload_numbered receiving.buf
  rw [Ikcpcb.received, payload_append, ← List.append_assoc, receiving.queue, buf, held,
    take_range_flatten _ (by omega)]
  congr 2
  omega

/-- When the disconnect is the next to arrive, everything that was due is there. -/
theorem arrived_below {closer : Bool} {conv : UInt32} {farewell : Farewell}
    {bye' : Option Farewell} {own other : Node Local Nat}
    (paired : Paired closer conv (some farewell) bye' own other)
    (isCloser : own.config.state.conn.isserver = closer)
    (isReader : other.config.state.conn.isserver ≠ closer) {data : List UInt8} {size : Nat}
    (next : InOrder own.config.state.env.sent other.note (some (data, size)))
    (isDisconnect : data.getD 0 0 = opcodeDisconnect) :
    size = 33 ∧ own.config.state.closed ∧
      own.config.state.conn.accepted = other.config.state.conn.delivered ++
        payload other.config.state.conn.obj.received ++ farewell.left := by
  obtain ⟨s, p, got, accepted, got', accepted', groups, groups', outlook, outlook', _⟩ := paired
  obtain ⟨d, isNext, ⟨stale, rfl⟩, rfl⟩ := next
  obtain ⟨inside, rfl⟩ := List.getElem?_eq_some_iff.mp isNext
  have flight := outlook.flight
  rw [List.drop_eq_getElem_cons inside] at flight
  obtain ⟨notes, others, speaks, _, rfl⟩ := List.forall₂_cons_left_iff.mp flight
  obtain ⟨closed, low, whole⟩ := outlook.account.parted farewell rfl
  have sends := outlook.linked.sends
  cases speaks with
  | data bytes _ shape _ =>
      rw [shape] at isDisconnect
      exact absurd isDisconnect (show ¬ opcodeData = opcodeDisconnect by decide)
  | disconnect n said shape same push out due =>
      cases same
      have complete : ∀ i, p.receiver.Has i ↔ i < farewell.due := by
        intro i
        have here := sends.complete (due.trans out.symm) i
        rw [due] at here
        exact here
      have all := received_below outlook'.account.stands.ledger.receiving
        outlook'.linked.hears.ends.receiver low complete
      refine ⟨congrArg List.length shape, closed, ?_⟩
      rw [← outlook.account.writes isCloser, whole, ← all, outlook'.account.reads isReader]

/-! ## The step that hears it -/

/-- The first state in which a failed poll of both operations gives control away. -/
structure Aborted (ec : ErrorCode) (l s : Local) : Prop where
  readOp : s.conn.readOp = none
  state : s.conn.state = l.conn.state
  obj : s.conn.obj = l.conn.obj
  delivered : s.conn.delivered = l.conn.delivered
  completed : ∀ op, l.conn.readOp = some op → ⟨op.handler, ec, 0⟩ ∈ s.env.invoked

theorem checkReadOp_aborted {ec : ErrorCode} (failed : ec ≠ .success) (l : Local) :
    Aborted ec l (checkReadOp ec l).state := by
  cases readOp : l.conn.readOp with
  | none =>
      rw [checkReadOp_none readOp]
      cases writeOp : l.conn.writeOp with
      | none =>
          rw [checkWriteOp_none writeOp]
          exact ⟨readOp, rfl, rfl, rfl, by rw [readOp]; exact fun _ => nofun⟩
      | some handler =>
          rw [checkWriteOp_ready writeOp (Or.inl failed)]
          exact ⟨readOp, rfl, rfl, rfl, by rw [readOp]; exact fun _ => nofun⟩
  | some op =>
      have polled : pollRead ec op l = (.done, l.takeRead.record ⟨op.handler, ec, 0⟩) :=
        if_pos failed
      rw [checkReadOp_some readOp, polled]
      refine ⟨rfl, rfl, rfl, rfl, fun op' same => ?_⟩
      rw [readOp] at same
      cases same
      exact List.mem_append_right _ List.mem_cons_self

theorem runEvent_disconnect {e : Event} {l : Local} {data : List UInt8} {size : Nat}
    (hears : heard l.conn e = some (data, size)) (long : ¬ size < 24)
    (isDisconnect : data.getD 0 0 = opcodeDisconnect) :
    ∃ rest, runEvent e l = (close .eof (entry e l)).bind rest := by
  have notData : ¬ data.getD 0 0 = opcodeData := by
    rw [isDisconnect]
    decide
  obtain ⟨queued, t, rest, passed, runs⟩ := event_heard hears
  refine ⟨rest, ?_⟩
  rw [runs, passed, onReceive_eq, if_neg long, if_neg notData, if_pos isDisconnect]

theorem entry_opens {e : Event} {l : Local} {data : List UInt8} {size : Nat}
    (hears : heard l.conn e = some (data, size)) (long : ¬ size < 24) (opened : ¬ l.closed) :
    (entry e l).conn.state = .opened := by
  have touched : (if l.conn.state = .idle then .opened else l.conn.state) = .opened := by
    unfold Local.closed at opened
    cases state : l.conn.state with
    | idle => rfl
    | opened => rfl
    | closed => exact absurd state opened
  obtain ⟨queued, t, _, passed, _⟩ := event_heard hears
  rw [passed, Local.received, if_neg long]
  dsimp only
  split <;> exact touched

/-- An open side that hears the disconnect ends its read with eof; nothing more
is read, and what lies in its queues stays there. -/
structure Ended (l s : Local) : Prop where
  closed : s.closed
  readOp : s.conn.readOp = none
  delivered : s.conn.delivered = l.conn.delivered
  unread : s.conn.obj.received = l.conn.obj.received
  completed : ∀ op, l.conn.readOp = some op → ⟨op.handler, .eof, 0⟩ ∈ s.env.invoked

theorem ended_of_disconnect {e : Event} {c c' : Config Local} {data : List UInt8} {size : Nat}
    (hears : heard c.state.conn e = some (data, size)) (long : ¬ size < 24)
    (isDisconnect : data.getD 0 0 = opcodeDisconnect) (opened : ¬ c.state.closed)
    (stepped : connectionSystem.step c (.event e) = some c') : Ended c.state c'.state := by
  obtain ⟨_, rfl⟩ := step_event stepped
  obtain ⟨rest, runs⟩ := runEvent_disconnect hears long isDisconnect
  have notData : data.getD 0 0 ≠ opcodeData := by
    rw [isDisconnect]
    decide
  have obj := (entry_heard hears).2
  rw [if_pos (Or.inr notData)] at obj
  have streams := entry_streams e c.state
  have state : (runEvent e c.state).state =
      (checkReadOp .eof (entry e c.state).beginClose).state := by
    rw [runs, close_opened .eof (entry_opens hears long opened)]
    exact (congrArg Prog.state (Prog.bind_assoc _ _ _)).trans (Prog.state_bind (fun _ _ => rfl) _)
  have failed : ErrorCode.eof ≠ .success := by decide
  have aborted := checkReadOp_aborted failed (entry e c.state).beginClose
  have begun : (entry e c.state).beginClose.conn.readOp = c.state.conn.readOp ∧
      (entry e c.state).beginClose.conn.delivered = c.state.conn.delivered ∧
      (entry e c.state).beginClose.conn.obj.received = c.state.conn.obj.received ∧
      (entry e c.state).beginClose.conn.state = .closed := by
    rw [Local.beginClose, flush_eq]
    refine ⟨streams.readOp, streams.delivered, ?_, rfl⟩
    exact (rcvSide_received (ikcpFlush_sides _).1).trans (congrArg Ikcpcb.received obj)
  obtain ⟨readOp, delivered, unread, closed⟩ := begun
  rw [enter_state]
  change Ended c.state (runEvent e c.state).state
  rw [state]
  exact ⟨aborted.state.trans closed, aborted.readOp, aborted.delivered.trans delivered,
    (congrArg Ikcpcb.received aborted.obj).trans unread, fun op pending =>
      aborted.completed op (readOp.trans pending)⟩

/-! ## Afterwards -/

/-- A closed side is given no more to write, and reads no more once its read has
ended. -/
structure Rests (l l' : Local) : Prop where
  closed : l'.closed
  accepted : l'.conn.accepted = l.conn.accepted
  reads : l.conn.readOp = none → l'.conn.readOp = none ∧ l'.conn.delivered = l.conn.delivered

theorem Rests.refl {l : Local} (closed : l.closed) : Rests l l :=
  ⟨closed, rfl, fun none => ⟨none, rfl⟩⟩

theorem Rests.trans {l l' l'' : Local} (first : Rests l l') (second : Rests l' l'') :
    Rests l l'' where
  closed := second.closed
  accepted := second.accepted.trans first.accepted
  reads := by
    intro none
    obtain ⟨none', delivered⟩ := first.reads none
    obtain ⟨none'', delivered'⟩ := second.reads none'
    exact ⟨none'', delivered'.trans delivered⟩

theorem rests_act {T : Terms} {l l' : Local} (act : Act T l l') (closed : l.closed) :
    Rests l l' := by
  have same : Rests l l := .refl closed
  cases act with
  | refuseRead _ => exact ⟨closed, rfl, same.reads⟩
  | readSome _ _ _ opened => exact absurd closed opened
  | read _ _ _ _ opened => exact absurd closed opened
  | refuseWrite _ => exact ⟨closed, rfl, same.reads⟩
  | messageSize _ _ _ opened _ => exact absurd closed opened
  | write _ _ _ opened _ => exact absurd closed opened
  | writePending _ _ _ opened _ => exact absurd closed opened
  | streambuf _ _ => exact ⟨closed, rfl, same.reads⟩
  | pollRead ec op pending _ _ =>
      obtain ⟨bytes, taken, polled⟩ := pollRead_stream ec op l
      refine ⟨(pollRead_control ec op l).1.trans closed, polled.accepted, fun none => ?_⟩
      rw [none] at pending
      cases pending
  | pollWrite _ _ _ _ _ _ => exact ⟨closed, rfl, same.reads⟩
  | beginClose opened =>
      rw [Local.closed, opened] at closed
      cases closed
  | disconnect _ _ =>
      unfold Local.disconnect
      dsimp only
      split <;> exact ⟨closed, rfl, same.reads⟩
  | armReceive opened => exact absurd closed opened

section Pair
variable {closer : Bool} {conv : UInt32} {bye : Option Farewell}
  {own other own' other' : Node Local Nat} {label : Label Event Call}

theorem rests_move (move : (orderly closer).Move own other label own')
    (keeps : Keeps (orderlyTerms closer) own.config) (closed : own.config.state.closed) :
    Rests own.config.state own'.config.state := by
  have begins : Rests own.config.state (begun label own.config.state) := by
    cases label with
    | event e =>
        have streams := entry_streams e own.config.state
        exact ⟨(entry_control e _).closed.mpr closed, streams.accepted, fun none =>
          ⟨streams.readOp.trans none, streams.delivered⟩⟩
    | _ => exact .refl closed
  exact acts_invariant (J := Rests own.config.state) (fun act rests =>
    rests.trans (rests_act act rests.closed)) (orderly_acts move keeps).1 begins

theorem role_move (move : (orderly closer).Move own other label own')
    (keeps : Keeps (orderlyTerms closer) own.config) :
    own'.config.state.conn.isserver = own.config.state.conn.isserver := by
  have begins : (begun label own.config.state).conn.isserver = own.config.state.conn.isserver := by
    cases label with
    | event e => exact (entry_constructed e _).1
    | _ => rfl
  exact acts_invariant (J := fun l => l.conn.isserver = own.config.state.conn.isserver)
    (fun act same => (congrArg (fun identity => identity.2.1) (act_onward act).identity).trans same)
    (orderly_acts move keeps).1 begins

/-- The pair as the closing side and the reading one. -/
structure Parties (closer : Bool) (conv : UInt32) (bye : Option Farewell)
    (own other : Node Local Nat) : Prop where
  paired : ∃ bye', Paired closer conv bye bye' own other
  ownKeeps : Keeps (orderlyTerms closer) own.config
  otherKeeps : Keeps (orderlyTerms closer) other.config
  isCloser : own.config.state.conn.isserver = closer
  isReader : other.config.state.conn.isserver ≠ closer

theorem parties_start (closer : Bool) (h : Handshake) :
    Parties closer h.conv none (h.pair.side closer) (h.pair.side !closer) := by
  have paired := paired_start closer h
  obtain ⟨_, _, _, _, _, _, _, _, _, _, keeps, keeps'⟩ := id paired
  refine ⟨⟨none, paired⟩, keeps, keeps', ?_, ?_⟩ <;> cases closer <;> first | rfl | exact nofun

theorem Parties.ownMove (parties : Parties closer conv bye own other)
    (move : (orderly closer).Move own other label own') :
    ∃ bye₁, Parties closer conv bye₁ own' other ∧ (bye₁ = bye ∨ bye = none ∧
      ∃ due, bye₁ = some ⟨due, payload own'.config.state.conn.obj.sndQueue⟩) := by
  obtain ⟨bye', paired⟩ := parties.paired
  obtain ⟨bye₁, paired₁, parting⟩ := paired_move paired move
  exact ⟨bye₁, ⟨⟨bye', paired₁⟩, (orderly_acts move parties.ownKeeps).2, parties.otherKeeps,
    (role_move move parties.ownKeeps).trans parties.isCloser, parties.isReader⟩, parting⟩

theorem Parties.otherMove (parties : Parties closer conv bye own other)
    (move : (orderly closer).Move other own label other') : Parties closer conv bye own other' := by
  obtain ⟨bye', paired⟩ := parties.paired
  obtain ⟨bye₁, paired₁, _⟩ := paired_move paired.symm move
  refine ⟨⟨bye₁, paired₁.symm⟩, parties.ownKeeps, (orderly_acts move parties.otherKeeps).2,
    parties.isCloser, ?_⟩
  rw [role_move move parties.otherKeeps]
  exact parties.isReader

/-- Before the disconnect. -/
theorem run_parties (h : Handshake) {q : Duplex Local Nat} (run : (orderly closer).Run h.pair q) :
    ∃ bye, Parties closer h.conv bye (q.side closer) (q.side !closer) := by
  refine Peering.directed closer (J := fun own other => ∃ bye, Parties closer h.conv bye own other)
    ?_ ?_ ⟨none, parties_start closer h⟩ run
  · rintro own other own' label ⟨bye, parties⟩ move
    obtain ⟨bye₁, parties₁, _⟩ := parties.ownMove move
    exact ⟨bye₁, parties₁⟩
  · rintro own other other' label ⟨bye, parties⟩ move
    exact ⟨bye, parties.otherMove move⟩

/-- After it the farewell stands. -/
theorem run_farewell {farewell : Farewell} {p q : Duplex Local Nat}
    (start : Parties closer conv (some farewell) (p.side closer) (p.side !closer))
    (run : (orderly closer).Run p q) :
    Parties closer conv (some farewell) (q.side closer) (q.side !closer) := by
  refine Peering.directed closer (J := Parties closer conv (some farewell)) ?_ ?_ start run
  · intro own other own' label parties move
    obtain ⟨bye₁, parties₁, rfl | ⟨none, _⟩⟩ := parties.ownMove move
    · exact parties₁
    · cases none
  · exact fun parties move => parties.otherMove move

/-- From then on nothing more is accepted or read. -/
theorem run_rests {p q : Duplex Local Nat}
    (ownKeeps : Keeps (orderlyTerms closer) (p.side closer).config)
    (otherKeeps : Keeps (orderlyTerms closer) (p.side !closer).config)
    (ownClosed : (p.side closer).config.state.closed)
    (otherClosed : (p.side !closer).config.state.closed) (run : (orderly closer).Run p q) :
    Rests (p.side closer).config.state (q.side closer).config.state ∧
      Rests (p.side !closer).config.state (q.side !closer).config.state := by
  have along := Peering.directed closer (J := fun own other =>
    (Rests (p.side closer).config.state own.config.state ∧
      Rests (p.side !closer).config.state other.config.state) ∧
    Keeps (orderlyTerms closer) own.config ∧ Keeps (orderlyTerms closer) other.config)
    (fun {own other own' label} holds move => ?_) (fun {own other other' label} holds move => ?_)
    ⟨⟨.refl ownClosed, .refl otherClosed⟩, ownKeeps, otherKeeps⟩ run
  · exact along.1
  · obtain ⟨⟨own, other⟩, keeps, keeps'⟩ := holds
    exact ⟨⟨own.trans (rests_move move keeps own.closed), other⟩, (orderly_acts move keeps).2,
      keeps'⟩
  · obtain ⟨⟨own, other⟩, keeps, keeps'⟩ := holds
    exact ⟨⟨own, other.trans (rests_move move keeps' other.closed)⟩, keeps,
      (orderly_acts move keeps').2⟩

/-- In one step the side that `closer` names sends its disconnect. -/
structure Disconnects (closer : Bool) (q q' : Duplex Local Nat) : Prop where
  step : ∃ label, (orderly closer).Turn closer label q q'
  before : (q.side closer).config.state.conn.disconnectSent = false
  after : (q'.side closer).config.state.conn.disconnectSent = true

/-- In one step the other side, which is open, hears a disconnect. -/
structure HearsDisconnect (closer : Bool) (r r' : Duplex Local Nat) : Prop where
  step : ∃ e data size, (orderly closer).Turn (!closer) (.event e) r r' ∧
    heard (r.side !closer).config.state.conn e = some (data, size) ∧
    data.getD 0 0 = opcodeDisconnect
  opened : ¬ (r.side !closer).config.state.closed

end Pair

/-- The bytes that the writes were accepted for are those that have been read, those
that lay unread when the disconnect came, and those that the flush of `close` left
in `snd_queue`. -/
theorem close_accounts (h : Handshake) (closer : Bool) {q q' r r' t : Duplex Local Nat}
    (before : (orderly closer).Run h.pair q) (closes : Disconnects closer q q')
    (between : (orderly closer).Run q' r) (hears : HearsDisconnect closer r r')
    (after : (orderly closer).Run r' t) :
    Ended (r.side !closer).config.state (r'.side !closer).config.state ∧
      (t.side closer).config.state.conn.accepted =
        (t.side !closer).config.state.conn.delivered ++
          payload (r'.side !closer).config.state.conn.obj.received ++
          payload (q'.side closer).config.state.conn.obj.sndQueue := by
  obtain ⟨bye, parties⟩ := run_parties h before
  obtain ⟨bye', paired⟩ := parties.paired
  obtain ⟨label, turn⟩ := closes.step
  -- The farewell is said in this step.
  obtain ⟨bye₁, parties₁, parting⟩ := parties.ownMove turn.move
  have unsaid : bye = none := by
    obtain ⟨_, _, _, _, _, _, _, _, outlook, _⟩ := paired
    exact outlook.account.stays.mpr closes.before
  have said : bye₁ ≠ none := by
    obtain ⟨_, paired₁⟩ := parties₁.paired
    obtain ⟨_, _, _, _, _, _, _, _, outlook, _⟩ := paired₁
    intro none
    have still := outlook.account.stays.mp none
    rw [closes.after] at still
    cases still
  obtain ⟨due, rfl⟩ := (parting.resolve_left fun same => said (same.trans unsaid)).2
  rw [← turn.rest] at parties₁
  have partiesR := run_farewell parties₁ between
  obtain ⟨byeR, pairedR⟩ := partiesR.paired
  obtain ⟨e, data, size, hearing, isHeard, isDisconnect⟩ := hears.step
  obtain ⟨move, rest⟩ := hearing
  rw [Bool.not_not] at move rest
  have inOrder := move.allowed.1
  change InOrder _ _ (heard _ e) at inOrder
  rw [isHeard] at inOrder
  obtain ⟨length, closed, accounts⟩ := arrived_below pairedR partiesR.isCloser partiesR.isReader
    inOrder isDisconnect
  have ended := ended_of_disconnect isHeard (by omega) isDisconnect hears.opened move.stepped
  have partiesR' := partiesR.otherMove move
  rw [← rest] at partiesR'
  obtain ⟨own, other⟩ := run_rests partiesR'.ownKeeps partiesR'.otherKeeps
    (by rw [rest]; exact closed) ended.closed after
  refine ⟨ended, ?_⟩
  rw [own.accepted, (other.reads ended.readOp).2, ended.delivered, ended.unread, rest]
  exact accounts

/-! ## Runs on fixed labels -/

/-- Where the bytes of a client that closes are when a read of the server has
ended with `ec`. -/
structure Outcome where
  accepted : List UInt8
  delivered : List UInt8
  unread : List UInt8
  left : List UInt8
  ec : ErrorCode

/-- A run of `localPair` in which the client closes, the server hears of it, and
the server goes on to `t`. -/
structure ClosesWith (outcome : Outcome) (q q' r r' t : Duplex Local Nat) : Prop where
  before : (orderly false).Run localPair.pair q
  closes : Disconnects false q q'
  between : (orderly false).Run q' r
  hears : HearsDisconnect false r r'
  after : (orderly false).Run r' t
  left : payload q'.first.config.state.conn.obj.sndQueue = outcome.left
  unread : payload r'.second.config.state.conn.obj.received = outcome.unread
  accepted : t.first.config.state.conn.accepted = outcome.accepted
  delivered : t.second.config.state.conn.delivered = outcome.delivered
  failed : ∃ c ∈ t.second.config.state.env.invoked, c.ec = outcome.ec

/-- The disconnect of a client whose `close` waits for the result of the send. -/
def farewellStep : Bool × Label Event Call := (true, .answer true)

def hearingStep : Bool × Label Event Call :=
  (false, .event (.onReceive (opcodeDisconnect :: List.replicate 32 0) 33 0))

theorem closes_with (outcome : Outcome) (writing arriving ending : List (Bool × Label Event Call))
    (unsaid : ((orderly false).exec localPair.pair writing).map
      (fun q => !q.first.config.state.conn.disconnectSent) = some true)
    (said : ((orderly false).exec localPair.pair (writing ++ [farewellStep])).map
      (fun q => q.first.config.state.conn.disconnectSent &&
        payload q.first.config.state.conn.obj.sndQueue == outcome.left) = some true)
    (opened : ((orderly false).exec localPair.pair (writing ++ [farewellStep] ++ arriving)).map
      (fun r => !decide r.second.config.state.closed) = some true)
    (heardIt : ((orderly false).exec localPair.pair
      (writing ++ [farewellStep] ++ arriving ++ [hearingStep])).map
      (fun r => payload r.second.config.state.conn.obj.received == outcome.unread) = some true)
    (ends : ((orderly false).exec localPair.pair
      (writing ++ [farewellStep] ++ arriving ++ [hearingStep] ++ ending)).map
      (fun t => t.first.config.state.conn.accepted == outcome.accepted &&
        t.second.config.state.conn.delivered == outcome.delivered &&
        t.second.config.state.env.invoked.any fun c => c.ec == outcome.ec) = some true) :
    ∃ q q' r r' t, ClosesWith outcome q q' r r' t := by
  obtain ⟨q, reached, unsaid⟩ := Option.map_eq_some_iff.mp unsaid
  obtain ⟨q', reached', closing, said⟩ :=
    (orderly false).exec_turn reached true (.answer true) _ said
  obtain ⟨r, toR, between, opened⟩ := (orderly false).exec_more reached' arriving _ opened
  obtain ⟨r', toR', hearing, unread⟩ := (orderly false).exec_turn toR false
    (.event (.onReceive (opcodeDisconnect :: List.replicate 32 0) 33 0)) _ heardIt
  obtain ⟨t, _, after, checked⟩ := (orderly false).exec_more toR' ending _ ends
  rw [Bool.and_eq_true] at said
  rw [Bool.and_eq_true, Bool.and_eq_true, List.any_eq_true] at checked
  obtain ⟨⟨accepted, delivered⟩, c, member, failed⟩ := checked
  refine ⟨q, q', r, r', t, (orderly false).run_of_exec writing reached,
    ⟨⟨_, closing⟩, (Bool.not_eq_true' _).mp unsaid, said.1⟩, between,
    ⟨⟨_, _, _, hearing, rfl, rfl⟩, ?_⟩, after, eq_of_beq said.2, eq_of_beq unread,
    eq_of_beq accepted, eq_of_beq delivered, c, member, eq_of_beq failed⟩
  exact of_decide_eq_false ((Bool.not_eq_true' _).mp opened)

def pushOf (sn : UInt32) (byte : UInt8) : List UInt8 :=
  opcodeData :: encodeSegs [{ ikcpSegmentNew 0 [byte] with
    conv := 7, cmd := ikcpCmdPush, wnd := 256, sn }]

/-- One byte is written, sent and read, another flushed by `close` and not read. -/
theorem close_accounts_byte : ∃ q q' r r' t,
    ClosesWith ⟨[42, 43], [42], [43], [], .success⟩ q q' r r' t ∧
      Ended r.second.config.state r'.second.config.state ∧
      t.first.config.state.conn.accepted = t.second.config.state.conn.delivered ++
        payload r'.second.config.state.conn.obj.received ++
        payload q'.first.config.state.conn.obj.sndQueue := by
  obtain ⟨q, q', r, r', t, run⟩ := closes_with ⟨[42, 43], [42], [43], [], .success⟩
    [(true, .call (.asyncWrite [42])), (true, .event (.update 0)),
      (false, .call (.asyncReadSome 8)), (false, .event (.posted 0)),
      (false, .event (.onReceive (pushOf 0 42) 26 0)), (false, .back),
      (true, .call (.asyncWrite [43])), (true, .call (.close .operationAborted))]
    [(false, .event (.onReceive (pushOf 1 43) 26 0))] []
    (by decide) (by decide) (by decide) (by decide) (by decide)
  exact ⟨q, q', r, r', t, run,
    close_accounts localPair false run.before run.closes run.between run.hears run.after⟩

/-- A byte that no update has sent before `close` stays in `snd_queue`, and one
that lies unread at the server stays there: its read ends without them. -/
theorem close_loses :
    (∃ q q' r r' t, ClosesWith ⟨[42], [], [], [42], .eof⟩ q q' r r' t) ∧
      ∃ q q' r r' t, ClosesWith ⟨[42], [], [42], [], .operationAborted⟩ q q' r r' t := by
  constructor
  · exact closes_with ⟨[42], [], [], [42], .eof⟩
      [(true, .call (.asyncWrite [42])), (true, .call (.close .operationAborted))]
      [(false, .call (.asyncReadSome 8)), (false, .event (.posted 0))] []
      (by decide) (by decide) (by decide) (by decide) (by decide)
  · exact closes_with ⟨[42], [], [42], [], .operationAborted⟩
      [(true, .call (.asyncWrite [42])), (true, .event (.update 0)),
        (true, .call (.close .operationAborted))]
      [(false, .event (.onReceive (pushOf 0 42) 26 0))]
      [(false, .answer true), (false, .call (.asyncReadSome 8)), (false, .event (.posted 0))]
      (by decide) (by decide) (by decide) (by decide) (by decide)

end AsioKcp
