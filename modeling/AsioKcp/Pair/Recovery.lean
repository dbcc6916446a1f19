import AsioKcp.Pair.Exchange
import AsioKcp.Pair.Reading

/-! # Nothing is ever stuck

However many datagrams a network has lost, repeated or reordered, the two control
blocks can still deliver everything: reads make room, updates at the right times
send the oldest segment again or ask for the window, and what answers it takes the
segment off. -/
set_option autoImplicit false

namespace AsioKcp

open AsioKcp.Ikcp AsioKcp.Machine AsioKcp.Progress

/-- The steps of two parties of which neither sends anything more. -/
def Goes : Party × Party → Party × Party → Prop := Steps (Party.Moves fun _ _ => False)

/-- A party with nothing left to send or to be acknowledged, and nothing left to read. -/
structure Party.Drained (own : Party) : Prop where
  sends : backlog own.kcp = 0
  reads : own.kcp.received = []

theorem goes_accepted {p q : Party × Party} (goes : Goes p q) :
    q.1.accepted = p.1.accepted ∧ q.2.accepted = p.2.accepted := by
  have kept : ∀ {own other own' : Party}, own.Moves (fun _ _ => False) other own' →
      own'.accepted = own.accepted := by
    intro own other own' move
    cases move with
    | send _ sends => exact sends.elim
    | _ => rfl
  induction goes with
  | refl => exact ⟨rfl, rfl⟩
  | tail _ step ih =>
      cases step with
      | first move => exact ⟨(kept move).trans ih.1, ih.2⟩
      | second move => exact ⟨ih.1, (kept move).trans ih.2⟩

section Party
variable {conv : UInt32} {p t : Tally} {l : Party}

/-! ## Reading -/

/-- The first segment is a whole message. -/
theorem Register.complete (register : Register conv p t l) (some : l.kcp.rcvQueue ≠ []) :
    Complete l.kcp := by
  obtain ⟨seg, rest, queue⟩ := List.exists_cons_of_ne_nil some
  have frg : seg.frg = 0 := register.whole seg (by rw [Ikcpcb.received, queue]; simp)
  unfold Complete ikcpPeeksize
  rw [queue]
  dsimp only
  rw [if_pos frg]
  exact Int.natCast_nonneg _

/-- What reading until nothing is left makes of a party. -/
structure ReadsAll (conv : UInt32) (p t : Tally) (l l' : Party) (t' : Tally) : Prop where
  register : Register conv p t' l'
  later : t.Later t'
  out : t'.out = t.out
  live : t'.live = t.live
  empty : l'.kcp.rcvQueue = []
  sndSide : l'.kcp.sndSide = l.kcp.sndSide
  telling : Telling l.kcp → Telling l'.kcp

theorem reads_all (other : Party) (peerFew : p.out.length < 2 ^ 31) (n : Nat) :
    ∀ {l : Party} {t : Tally}, Register conv p t l → l.kcp.received.length = n →
      ∃ l' t', Goes (l, other) (l', other) ∧ ReadsAll conv p t l l' t' := by
  induction n using Nat.strong_induction_on with
  | _ n ih =>
      intro l t register length
      by_cases empty : l.kcp.rcvQueue = []
      · exact ⟨l, t, .refl, register, .refl t, rfl, rfl, empty, rfl, id⟩
      · have complete := register.complete empty
        obtain ⟨t₁, later, out, live, after⟩ := register.recv peerFew l.kcp.message.length
        have taken : (l.recv l.kcp.message.length).kcp = l.kcp.taken :=
          congrArg (fun r => r.2.2) (ikcpRecv_taken complete (Int.le_refl _))
        have fewer := (taken_received complete).2
        rw [← taken, length] at fewer
        obtain ⟨l', t', goes, all⟩ := ih _ fewer after rfl
        refine ⟨l', t', (Steps.first (.recv _)).trans goes, all.register, later.trans all.later,
          all.out.trans out, all.live.trans live, all.empty, ?_, fun telling => ?_⟩
        · exact all.sndSide.trans (ikcpRecv_sndSide _ _).1
        · exact all.telling (telling.recv _)

/-- With an empty queue the next segment has not come in. -/
theorem Register.next_not_held (register : Register conv p t l) (empty : l.kcp.rcvQueue = []) :
    t.next ∉ t.held := by
  intro isHeld
  have incoming := register.incoming
  have nxt := register.ledger.receiving.nxt
  obtain ⟨seg, member, sn, _⟩ := segment_of_number register.ledger.receiving.buf isHeld
  have here : Serial.offset l.kcp.rcvNxt seg.sn = 0 := by
    rw [sn, ← nxt, Serial.offset_self]
  have sorted := incoming.lined.sorted
  obtain ⟨first, rest, front⟩ := List.exists_cons_of_ne_nil (List.ne_nil_of_mem member)
  rw [front] at member sorted
  rcases List.mem_cons.mp member with rfl | later
  · have free : l.kcp.nrcvQue < l.kcp.rcvWnd := by
      rw [incoming.free_iff, empty, show l.kcp.rcvWnd = 256 from register.ledger.suited.rcvWnd]
      decide
    exact incoming.settled ⟨_, rest, front, sn.trans nxt.symm, free⟩
  · have := List.rel_of_pairwise_cons sorted later
    omega

/-- A party that has read everything waits for no segment below the oldest live one. -/
theorem caught_up {own other : Party} (register : Register conv p t own)
    (peer : Register conv t p other) (empty : other.kcp.rcvQueue = []) : t.una ≤ p.next := by
  by_contra behind
  have least : t.una ≤ t.out.length := register.ledger.sending.head_le_length
  rcases register.ledger.covers p.next (by omega) with (old | isHeld) | isLive
  · omega
  · exact peer.next_not_held empty isHeld
  · have := register.ledger.sending.head_le _ isLive
    unfold Tally.una at behind
    omega

/-! ## Updates -/

/-- At some time from `due` on an update of the party flushes. -/
theorem update_after (l : Party) (due : UInt32) :
    ∃ now ready, l.clock ≤ now ∧ updateReady l.kcp (UInt32.ofNat now) = some ready ∧
      itimediff ready.current due ≥ 0 := by
  obtain ⟨time, ready, isReady, late⟩ := flushes_after l.kcp due
  obtain ⟨now, later, same⟩ := clock_reaches l.clock time
  obtain ⟨tsFlush, updated, shape⟩ := updateReady_retimed isReady
  have current : ready.current = time := by rw [shape]
  exact ⟨now, ready, later, by rw [same]; exact isReady, by rw [current]; exact late⟩

/-- Any segment of the flush reaches the network, in a datagram that is true. -/
theorem Register.offers (register : Register conv p t l) {now : Nat} {ready : Ikcpcb}
    (isReady : updateReady l.kcp (UInt32.ofNat now) = some ready) {seg : IkcpSeg}
    (sent : seg ∈ flushSegs ready) :
    ∃ moved group, Register conv p (t.number moved) (l.update now) ∧ seg ∈ group ∧
      encodeSegs group ∈ (l.update now).sent ∧
      ∀ other ∈ group, other ∈ flushSegs ready ∧ Told conv (t.number moved) other := by
  obtain ⟨moved, after, told⟩ := register.flush isReady
  obtain ⟨group, inside, all, output⟩ := datagram_of_flushSegs (updateReady_updated isReady) sent
  refine ⟨moved, group, after, inside, List.mem_append_right _ ?_, fun other also =>
    ⟨all other also, told other (all other also)⟩⟩
  rw [ikcpUpdate_eq, isReady]
  exact output

theorem later_number (t : Tally) (moved : List (List UInt8)) : t.Later (t.number moved) :=
  ⟨List.prefix_append _ _, fun _ => id⟩

theorem update_backlog (l : Party) (now : Nat) : backlog (l.update now).kcp = backlog l.kcp :=
  ikcpUpdate_backlog _ _

theorem input_backlog (l : Party) (bytes : List UInt8) :
    backlog (l.input bytes).kcp ≤ backlog l.kcp :=
  ikcpInput_backlog_le _ _ _

end Party

/-! ## The rounds -/

section Rounds
variable {conv : UInt32} {p t : Tally} {own other : Party}

theorem Register.known (peer : Register conv t p other) (i : Nat) (has : p.has i) :
    i < t.out.length :=
  peer.ledger.receiving.has_below has

/-- A live segment that an ack takes off is no longer in the backlog. -/
theorem input_acked {t' : Tally} {bytes : List UInt8} {i : Nat} (register : Register conv p t own)
    (after : Register conv p t' (own.input bytes)) (fewer : t'.live.Sublist t.live)
    (live : i ∈ t.live) (gone : i ∉ t'.live) : backlog (own.input bytes).kcp < backlog own.kcp := by
  have queue : (own.input bytes).kcp.sndQueue = own.kcp.sndQueue := (ikcpInput_acked _ _ _).sndQueue
  have less : t'.live.length < t.live.length := by
    refine Nat.lt_of_le_of_ne fewer.length_le fun same => gone ?_
    rwa [fewer.eq_of_length same]
  rw [backlog, backlog, queue, after.ledger.sending.sndBuf_length,
    register.ledger.sending.sndBuf_length]
  omega

/-- The oldest live segment is sent, arrives, is acknowledged and taken off. -/
theorem takes_off (register : Register conv p t own) (peer : Register conv t p other)
    (some : t.live ≠ []) : ∃ own' other', Goes (own, other) (own', other') ∧
      Registers conv own' other' ∧ backlog own'.kcp < backlog own.kcp ∧
      backlog other'.kcp ≤ backlog other.kcp := by
  obtain ⟨i, rest, live⟩ := List.exists_cons_of_ne_nil some
  have peerFew := register.few
  -- The other party makes room.
  obtain ⟨other₁, p₁, reads, all⟩ := reads_all own (by omega) _ peer rfl
  have register₁ := register.peer_later all.later
  have caught : i ≤ p₁.next := by
    have una := caught_up register₁ all.register all.empty
    rwa [Tally.una, live] at una
  -- The oldest segment goes out.
  have buf := register.ledger.sending.buf
  rw [live, List.map_cons] at buf
  obtain ⟨seg, tail, front, core, _⟩ := List.map_eq_cons_iff.mp buf
  obtain ⟨now, ready, clock, isReady, due⟩ := update_after own seg.resendts
  obtain ⟨tsFlush, updated, shape⟩ := updateReady_retimed isReady
  have readyBuf : ready.sndBuf = seg :: tail := by rw [shape, ← front]
  obtain ⟨sent, isSent, sentCore⟩ := flushSegs_head readyBuf due
  obtain ⟨moved, group, register₂, inside, output, told⟩ := register₁.offers isReady isSent
  have peer₂ := all.register.peer_later (later_number t moved)
  -- It arrives.
  have few₂ := register₂.few
  obtain ⟨p₃, takes, peer₃⟩ :=
    peer₂.input (by omega) register₂.known fun seg member => (told seg member).2
  have register₃ := register₂.peer_later takes.hears.later
  have below : i < t.out.length :=
    register.ledger.sending.below i (by rw [live]; exact List.mem_cons_self ..)
  have named : (onWire sent).core = numbered other₁.kcp.conv (t.number moved).out i := by
    rw [show other₁.kcp.conv = conv from all.register.ledger.suited.conv_eq]
    exact onWire_core (sentCore.trans (core.trans (numbered_append below moved).symm))
  obtain ⟨stamp, owed, same⟩ := takes.push _ (List.mem_map_of_mem inside) i named (by omega) (by
    change i < (t.out ++ moved).length
    rw [List.length_append]
    omega)
  -- The ack goes back.
  obtain ⟨now', ready', clock', isReady', _⟩ := update_after (other₁.input (encodeSegs group)) 0
  obtain ⟨tsFlush', updated', shape'⟩ := updateReady_retimed isReady'
  have owed' : stamp ∈ ready'.acklist := by
    rw [shape']
    exact owed
  obtain ⟨ack, isAck, cmd, sn⟩ := flushSegs_ack owed'
  obtain ⟨moved', group', peer₄, inside', output', told'⟩ := peer₃.offers isReady' isAck
  have register₄ := register₃.peer_later (later_number p₃ moved')
  have few₄ := peer₄.few
  obtain ⟨t₅, takes', register₅⟩ :=
    register₄.input (by omega) peer₄.known fun seg member => (told' seg member).2
  have isLive : i ∈ (t.number moved).live :=
    List.mem_append_left _ (by rw [live]; exact List.mem_cons_self ..)
  have wire : (onWire ack).cmd = ikcpCmdAck :=
    (told' ack inside').2.decodable.wire.trans cmd
  have gone : i ∉ t₅.live :=
    takes'.ack _ (List.mem_map_of_mem inside') i (register₂.ledger.sending.below i isLive) wire
      (sn.trans same)
  refine ⟨_, _, ?_, ⟨t₅, _, register₅, peer₄.peer_later takes'.hears.later⟩, ?_, ?_⟩
  · exact (((reads.swap.trans (.first (.update now clock))).trans (.second (.input _ output))).trans
      (.second (.update now' clock'))).trans (.first (.input _ output'))
  · have acked := input_acked register₄ register₅ takes'.hears.live isLive gone
    rwa [update_backlog] at acked
  · rw [update_backlog]
    have notMore := input_backlog other₁ (encodeSegs group)
    rwa [backlog_congr all.sndSide] at notMore

/-- With an open window an update numbers a segment if none is live. -/
theorem numbers_more (register : Register conv p t own) (opened : own.kcp.rmtWnd ≠ 0)
    (some : 0 < backlog own.kcp) : ∃ own' t', Goes (own, other) (own', other) ∧
      Register conv p t' own' ∧ t.Later t' ∧ t'.live ≠ [] ∧ backlog own'.kcp = backlog own.kcp := by
  by_cases none : t.live = []
  · obtain ⟨now, ready, clock, isReady, _⟩ := update_after own 0
    obtain ⟨tsFlush, updated, shape⟩ := updateReady_retimed isReady
    obtain ⟨moved, after, _⟩ := register.flush isReady
    have sending := register.ledger.sending
    have waiting : ready.sndQueue ≠ [] := by
      have length := sending.sndBuf_length
      rw [none, List.length_nil] at length
      have queue : ready.sndQueue = own.kcp.sndQueue := by rw [shape]
      rw [backlog, length] at some
      rw [queue]
      exact List.ne_nil_of_length_pos (by omega)
    have ready_sending : Ikcp.Sending conv t.out [] ready := by
      rw [none] at sending
      exact sending.congr (by rw [shape]) (by rw [shape]) (by rw [shape]) (by rw [shape])
        (by rw [shape]; rfl)
    have suited : Suited conv ready.params := by
      rw [shape]
      exact register.ledger.suited
    have numbered := ikcpFlush_sndBuf (updateReady_updated isReady) suited ready_sending
      (by rw [shape]; exact opened) waiting
    have kcp : (own.update now).kcp = (ikcpFlush ready).1 := by
      unfold Party.update
      rw [ikcpUpdate_eq, isReady]
    refine ⟨_, _, Steps.first (.update now clock), after, later_number t moved, ?_,
      update_backlog own now⟩
    intro empty
    have length := after.ledger.sending.sndBuf_length
    rw [empty, kcp] at length
    exact numbered (List.eq_nil_of_length_eq_zero length)
  · exact ⟨own, t, .refl, register, .refl t, none, rfl⟩

/-- A closed window is asked about. -/
theorem starts_probing (register : Register conv p t own) (closed : own.kcp.rmtWnd = 0) :
    ∃ own' t', Goes (own, other) (own', other) ∧ Register conv p t' own' ∧ t.Later t' ∧
      own'.kcp.rmtWnd = 0 ∧ own'.kcp.probeWait ≠ 0 ∧ backlog own'.kcp = backlog own.kcp := by
  by_cases started : own.kcp.probeWait = 0
  · obtain ⟨now, ready, clock, isReady, _⟩ := update_after own 0
    obtain ⟨tsFlush, updated, shape⟩ := updateReady_retimed isReady
    obtain ⟨moved, after, _⟩ := register.flush isReady
    have flushed := ikcpFlush_after (updateReady_updated isReady)
    have kcp : (own.update now).kcp = (ikcpFlush ready).1 := by
      unfold Party.update
      rw [ikcpUpdate_eq, isReady]
    have still : ready.rmtWnd = 0 := by
      rw [shape]
      exact closed
    have wait : (windowProbe ready).1 = ikcpProbeInit := by
      have fresh : ready.probeWait = 0 := by
        rw [shape]
        exact started
      rw [windowProbe, if_pos still, if_pos fresh]
    refine ⟨_, _, Steps.first (.update now clock), after, later_number t moved, ?_, ?_,
      update_backlog own now⟩
    · rw [kcp, flushed.rmtWnd, still]
    · rw [kcp, flushed.probeWait, wait]
      decide
  · exact ⟨own, t, .refl, register, .refl t, closed, started, rfl⟩

/-- The answer to a window probe opens the window. -/
theorem opens (register : Register conv p t own) (peer : Register conv t p other) :
    ∃ own' other' t' p', Goes (own, other) (own', other') ∧ Register conv p' t' own' ∧
      Register conv t' p' other' ∧ own'.kcp.rmtWnd ≠ 0 ∧ backlog own'.kcp ≤ backlog own.kcp ∧
      backlog other'.kcp ≤ backlog other.kcp := by
  by_cases closed : own.kcp.rmtWnd = 0
  · obtain ⟨own₁, t₁, starts, register₁, later₁, still, started, same₁⟩ :=
      @starts_probing conv p t own other register closed
    have peer₁ := peer.peer_later later₁
    -- The probe goes out and arrives.
    obtain ⟨now, ready, clock, isReady, due⟩ := update_after own₁ own₁.kcp.tsProbe
    obtain ⟨tsFlush, updated, shape⟩ := updateReady_retimed isReady
    have closed' : ready.rmtWnd = 0 := by rw [shape]; exact still
    have started' : ready.probeWait ≠ 0 := by rw [shape]; exact started
    have due' : itimediff ready.current ready.tsProbe ≥ 0 := by rw [shape] at due ⊢; exact due
    obtain ⟨ask, isAsk, cmd⟩ := flushSegs_asks closed' started' due'
    obtain ⟨moved, group, register₂, inside, output, told⟩ := register₁.offers isReady isAsk
    have peer₂ := peer₁.peer_later (later_number t₁ moved)
    have few₂ := register₂.few
    obtain ⟨p₃, takes, peer₃⟩ :=
      peer₂.input (by omega) register₂.known fun seg member => (told seg member).2
    have register₃ := register₂.peer_later takes.hears.later
    have telling : Telling (other.input (encodeSegs group)).kcp := by
      have readable : ∀ seg ∈ group, Decodable other.kcp.conv seg := by
        intro seg member
        rw [show other.kcp.conv = conv from peer.ledger.suited.conv_eq]
        exact (told seg member).2.decodable
      have probe := ikcpInput_encode_probe (List.ne_nil_of_mem inside) readable
      have asked : Telling ((group.map onWire).foldl inputKcp other.kcp) :=
        foldl_inputKcp_telling _ (Or.inl
          ⟨_, List.mem_map_of_mem inside, (readable ask inside).wire.trans cmd⟩)
      unfold Telling at asked ⊢
      rw [← probe] at asked
      exact asked
    -- The other party makes room and tells.
    obtain ⟨other₄, p₄, reads, all⟩ := reads_all (own₁.update now) (by omega) _ peer₃ rfl
    have register₄ := register₃.peer_later all.later
    obtain ⟨now', ready', clock', isReady', _⟩ := update_after other₄ 0
    obtain ⟨tsFlush', updated', shape'⟩ := updateReady_retimed isReady'
    have telling' : Telling ready' := by
      rw [shape']
      exact all.telling telling
    obtain ⟨tell, isTell, _⟩ := flushSegs_tells telling'
    obtain ⟨moved', group', peer₅, inside', output', told'⟩ := all.register.offers isReady' isTell
    have register₅ := register₄.peer_later (later_number p₄ moved')
    have few₅ := peer₅.few
    obtain ⟨t₆, takes', register₆⟩ :=
      register₅.input (by omega) peer₅.known fun seg member => (told' seg member).2
    have unused : ikcpWndUnused ready' = 256 := by
      have none : ready'.nrcvQue = 0 := by
        have count := all.register.ledger.receiving.count
        rw [all.empty] at count
        rw [shape']
        exact count
      have wide : ready'.rcvWnd = 256 := by
        rw [shape']
        exact all.register.ledger.suited.rcvWnd
      rw [ikcpWndUnused, none, wide]
      decide
    have windows : ∀ seg ∈ group'.map onWire, seg.wnd = 256 := by
      intro seg member
      obtain ⟨sent, isSent, rfl⟩ := List.mem_map.mp member
      have wnd := (flushSegs_cases (told' sent isSent).1).2.2
      change sent.wnd.toUInt16.toUInt32 = 256
      rw [wnd, unused]
      rfl
    have open₆ : ((own₁.update now).input (encodeSegs group')).kcp.rmtWnd = 256 := by
      have readable : ∀ seg ∈ group', Decodable (own₁.update now).kcp.conv seg := by
        intro seg member
        rw [show (own₁.update now).kcp.conv = conv from register₅.ledger.suited.conv_eq]
        exact (told' seg member).2.decodable
      have alike := ikcpInput_encode [] readable
      rw [List.append_nil] at alike
      have some : group'.map onWire ≠ [] := by simpa using List.ne_nil_of_mem inside'
      exact alike.rmtWnd.trans (foldl_inputKcp_rmtWnd _ windows (Or.inr some))
    refine ⟨_, _, t₆, _, ?_, register₆, peer₅.peer_later takes'.hears.later, ?_, ?_, ?_⟩
    · exact ((((starts.trans (.first (.update now clock))).trans (.second (.input _ output))).trans
        reads.swap).trans (.second (.update now' clock'))).trans (.first (.input _ output'))
    · rw [open₆]
      decide
    · have notMore := input_backlog (own₁.update now) (encodeSegs group')
      rwa [update_backlog, same₁] at notMore
    · rw [update_backlog, backlog_congr all.sndSide]
      exact input_backlog other (encodeSegs group)
  · exact ⟨own, other, t, p, .refl, register, peer, closed, Nat.le_refl _, Nat.le_refl _⟩

end Rounds

/-! ## The end -/

section End
variable {conv : UInt32} {own other : Party}

/-- From any state with something to send, less of it can be left. -/
theorem comes_closer (own other : Party) (registers : Registers conv own other)
    (some : 0 < backlog own.kcp) : ∃ own' other', Goes (own, other) (own', other') ∧
      Registers conv own' other' ∧ backlog own'.kcp < backlog own.kcp ∧
      backlog other'.kcp ≤ backlog other.kcp := by
  obtain ⟨t, p, register, peer⟩ := registers
  obtain ⟨own₁, other₁, t₁, p₁, first, register₁, peer₁, opened, less₁, notMore₁⟩ :=
    opens register peer
  by_cases done : backlog own₁.kcp = 0
  · exact ⟨own₁, other₁, first, ⟨t₁, p₁, register₁, peer₁⟩, by omega, notMore₁⟩
  · obtain ⟨own₂, t₂, second, register₂, later, live, same₂⟩ :=
      @numbers_more conv p₁ t₁ own₁ other₁ register₁ opened (by omega)
    obtain ⟨own₃, other₃, third, registers₃, less₃, notMore₃⟩ :=
      takes_off register₂ (peer₁.peer_later later) live
    exact ⟨own₃, other₃, (first.trans second).trans third, registers₃, by omega, by omega⟩

/-- Once every number has moved on, `rcv_buf` is empty. -/
theorem Register.nothing_held {p t : Tally} (register : Register conv p t own)
    (few : p.out.length < 2 ^ 31) (caught : p.out.length ≤ t.next) : own.kcp.rcvBuf = [] := by
  have receiving := register.ledger.receiving
  have none : t.held = [] := by
    rw [List.eq_nil_iff_forall_not_mem]
    intro i isHeld
    obtain ⟨seg, member, sn, _⟩ := segment_of_number receiving.buf isHeld
    have within := register.incoming.lined.span seg member
    rw [show own.kcp.rcvWnd = 256 from register.ledger.suited.rcvWnd, Serial.offset_eq, sn,
      receiving.nxt, UInt32.toNat_ofNat', UInt32.toNat_ofNat'] at within
    have wide : (256 : UInt32).toNat = 256 := rfl
    have below := receiving.below i isHeld
    have moved := receiving.le
    omega
  have buf := receiving.buf
  rw [none] at buf
  exact List.map_eq_nil_iff.mp buf

/-- Once nothing is left to send and `rcv_queue` has been read, the reads have got
the stream, and nothing is left on the way. -/
theorem delivered {p t : Tally} (register : Register conv p t own) (peer : Register conv t p other)
    (nothing : backlog own.kcp = 0) (empty : other.kcp.rcvQueue = []) :
    other.got = own.accepted ∧ other.kcp.received = [] := by
  have few := register.few
  rw [backlog] at nothing
  have live : t.live = [] := by
    apply List.eq_nil_of_length_eq_zero
    rw [← register.ledger.sending.sndBuf_length]
    omega
  have caught := caught_up register peer empty
  rw [Tally.una, live] at caught
  have stream := peer.ledger.receiving.queue
  rw [empty, payload_nil, List.append_nil, List.take_of_length_le caught] at stream
  have waiting : own.kcp.sndQueue = [] := List.eq_nil_of_length_eq_zero (by omega)
  constructor
  · rw [stream, register.ledger.accepted_eq, waiting, payload_nil, List.append_nil]
  · rw [Ikcpcb.received, empty, peer.nothing_held (by omega) caught, List.append_nil]

/-- Both parties can still deliver everything that they have accepted. -/
theorem recovers {p : Party × Party} (registers : Registers conv p.1 p.2) :
    ∃ q, Goes p q ∧ q.1.got = p.2.accepted ∧ q.2.got = p.1.accepted ∧
      q.1.Drained ∧ q.2.Drained := by
  obtain ⟨⟨own, other⟩, works, registers₁, none, none'⟩ :=
    both_reach_zero (I := Registers conv) (fun l => backlog l.kcp)
      (fun registers => registers.symm) comes_closer p registers
  obtain ⟨t, s, register, peer⟩ := registers₁
  have few := register.few
  have peerFew := peer.few
  obtain ⟨own₂, t₂, reads, all⟩ := reads_all other (by omega) _ register rfl
  have peer₂ := peer.peer_later all.later
  obtain ⟨other₃, s₃, reads', all'⟩ := reads_all own₂ (by rw [all.out]; omega) _ peer₂ rfl
  have register₃ := all.register.peer_later all'.later
  have goes : Goes p (own₂, other₃) := (works.trans reads).trans reads'.swap
  have nothing : backlog own₂.kcp = 0 := by rw [backlog_congr all.sndSide]; exact none
  have nothing' : backlog other₃.kcp = 0 := by rw [backlog_congr all'.sndSide]; exact none'
  obtain ⟨same, same'⟩ := goes_accepted goes
  obtain ⟨got, reads₁⟩ := delivered all'.register register₃ nothing' all.empty
  obtain ⟨got', reads₂⟩ := delivered register₃ all'.register nothing all'.empty
  exact ⟨_, goes, got.trans same', got'.trans same, ⟨nothing, reads₁⟩, ⟨nothing', reads₂⟩⟩

end End

/-- From every state of an exchange over a network that loses, repeats and reorders
datagrams, in which no send is refused, all that either side has accepted can still be
delivered without another send. -/
theorem exchange_recovers (conv : UInt32) {q : Party × Party}
    (run : Steps (Party.Moves Party.Sendable) (Party.start conv, Party.start conv) q) :
    ∃ r, Goes q r ∧ r.1.got = q.2.accepted ∧ r.2.got = q.1.accepted ∧
      r.1.Drained ∧ r.2.Drained :=
  recovers (run_registers run)

/-- A byte is in flight, and another one is still queued. -/
theorem exchange_recovers_two : ∃ q r, backlog q.1.kcp = 2 ∧ Goes q r ∧
    r.2.got = [42, 43] ∧ r.1.Drained ∧ r.2.Drained := by
  let asks := ((Party.start 7).send [42]).update 0
  have run : Steps (Party.Moves Party.Sendable) (Party.start 7, Party.start 7)
      (asks.send [43], Party.start 7) :=
    ((Steps.first (.send [42] (by decide))).trans (.first (.update 0 (by decide)))).trans
      (.first (.send [43] (by decide)))
  obtain ⟨r, goes, _, got, drained⟩ := exchange_recovers 7 run
  exact ⟨_, r, by decide, goes, got, drained⟩

/-! ## The control blocks of two connections -/

/-- The payloads of the data datagrams among those sent. -/
def dataPayloads (sent : List Datagram) : List (List UInt8) :=
  sent.filterMap fun d =>
    match d.bytes with
    | opcode :: bytes => if opcode = opcodeData then some bytes else none
    | [] => none

theorem mem_dataPayloads {sent : List Datagram} {bytes : List UInt8}
    (member : bytes ∈ dataPayloads sent) : ∃ d ∈ sent, d.bytes = opcodeData :: bytes := by
  obtain ⟨d, isSent, found⟩ := List.mem_filterMap.mp member
  refine ⟨d, isSent, ?_⟩
  cases shape : d.bytes with
  | nil => simp [shape] at found
  | cons opcode rest =>
      rw [shape] at found
      dsimp only at found
      split at found
      · rename_i isData
        rw [isData, Option.some.inj found]
      · cases found

/-- The KCP part of a connection, at any time of its clock. -/
def Local.party (l : Local) (clock : Nat) : Party where
  kcp := l.conn.obj
  clock := clock
  sent := dataPayloads l.env.sent
  got := l.conn.delivered
  accepted := l.conn.accepted

theorem network_of_lossy {limit : Nat → Prop} {p q : Duplex Local Nat}
    (run : (lossy limit).Run p q) : network.Run p q := by
  induction run with
  | refl => exact .refl
  | first label _ move ih => exact .first label ih ⟨move.allowed.2.2.1, move.stepped, move.note⟩
  | second label _ move ih => exact .second label ih ⟨move.allowed.2.2.1, move.stepped, move.note⟩

/-- What lasts on a control block holds on both sides. -/
theorem network_lasting {K : Ikcpcb → Prop} (lasting : Lasting K) (h : Handshake)
    (initially : K (initKcpContext h.conv)) {q : Duplex Local Nat} (run : network.Run h.pair q) :
    K q.first.config.state.conn.obj ∧ K q.second.config.state.conn.obj := by
  have client : Started h.conv h.pair.first.config := .client h.server h.clientNow h.clientStreambufs
  have server : Started h.conv h.pair.second.config :=
    .server h.client h.serverNow h.serverStreambufs
  have both := Peering.invariant (P := network) (J := fun own other =>
      (K own.config.state.conn.obj ∧ Keeps Terms.any own.config) ∧
        (K other.config.state.conn.obj ∧ Keeps Terms.any other.config))
    (fun both => ⟨both.2, both.1⟩)
    (fun {own other own' label} both move => by
      obtain ⟨acts, keeps⟩ :=
        keeps_step both.1.2 (Terms.any_allows own.config label) move.stepped
      refine ⟨⟨acts_invariant (J := fun l => K l.conn.obj) (lasting_act lasting) acts ?_, keeps⟩, both.2⟩
      cases label with
      | event e => exact lasting_entry lasting e both.1.1
      | _ => exact both.1.1)
    ⟨⟨initially, client.keeps _⟩, ⟨initially, server.keeps _⟩⟩ run
  exact ⟨both.1.1, both.2.1⟩

/-- From every state of a connection pair over such a network the two control blocks,
reading, polled and given each other's datagrams, can still deliver all that the
writes have been accepted for. -/
theorem pair_recovers (h : Handshake) {q : Duplex Local Nat}
    (run : (lossy (· < 2 ^ 32)).Run h.pair q) (clock clock' : Nat)
    (few : (q.first.config.state.party clock).segments + 256 ≤ 2 ^ 31)
    (few' : (q.second.config.state.party clock').segments + 256 ≤ 2 ^ 31) :
    ∃ r, Goes (q.first.config.state.party clock, q.second.config.state.party clock') r ∧
      r.1.got = q.second.config.state.conn.accepted ∧
      r.2.got = q.first.config.state.conn.accepted ∧ r.1.Drained ∧ r.2.Drained := by
  obtain ⟨t, p, books⟩ := run_pairBooks h run
  have streams := run_streams h (network_of_lossy run)
  have incoming := network_lasting incoming_lasting h (incoming_init h.conv) (network_of_lossy run)
  have register : ∀ {t p : Tally} {l : Local} (clock : Nat), Books h.conv p t l → Countable t →
      Incoming l.conn.obj → (∀ seg ∈ l.conn.obj.received, Plain seg) →
      (l.party clock).segments + 256 ≤ 2 ^ 31 → Register h.conv p t (l.party clock) := by
    intro t p l clock books countable incoming plain few
    refine ⟨books.ledger, incoming, fun seg member => (plain seg member).frg, ?_, ?_⟩
    · have nxt : (l.party clock).kcp.sndNxt = UInt32.ofNat t.out.length :=
        books.ledger.sending.nxt
      rw [Party.segments, nxt, UInt32.toNat_ofNat', Nat.mod_eq_of_lt countable] at few
      exact few
    · intro bytes member
      obtain ⟨d, isSent, shape⟩ := mem_dataPayloads member
      exact books.sent d isSent bytes shape
  exact recovers ⟨t, p,
    register clock books.own_books books.own_count incoming.1 streams.ownStreams.plain few,
    register clock' books.other_books books.other_count incoming.2 streams.otherStreams.plain few'⟩

/-- A byte that the client has written and not sent yet. -/
theorem pair_recovers_byte : ∃ q, (lossy (· < 2 ^ 32)).Run localPair.pair q ∧
    ∃ r, Goes (q.first.config.state.party 0, q.second.config.state.party 0) r ∧
      r.2.got = q.first.config.state.conn.accepted ∧
      q.first.config.state.conn.accepted = [42] := by
  obtain ⟨q, run, checked⟩ := Peering.exec_checked (lossy (· < 2 ^ 32)) localPair.pair
    [(true, .call (.asyncWrite [42]))]
    (fun q => q.first.config.state.conn.accepted == [42] &&
      (decide ((q.first.config.state.party 0).segments + 256 ≤ 2 ^ 31) &&
        decide ((q.second.config.state.party 0).segments + 256 ≤ 2 ^ 31))) (by decide)
  obtain ⟨accepted, few⟩ := Bool.and_eq_true_iff.mp checked
  obtain ⟨few, few'⟩ := Bool.and_eq_true_iff.mp few
  obtain ⟨r, goes, _, got, _⟩ :=
    pair_recovers localPair run 0 0 (of_decide_eq_true few) (of_decide_eq_true few')
  exact ⟨q, run, r, goes, got, eq_of_beq accepted⟩

end AsioKcp
