import AsioKcp.Ikcp.Trips
import AsioKcp.Pair.Exchange

/-! # The round-trip estimators of an exchange

Two clocks that never go back, and a network that delivers, repeats, delays and drops
as it likes: every sample that `ikcp_update_ack` gets is a time that has passed. -/
set_option autoImplicit false

namespace AsioKcp

open AsioKcp.Ikcp AsioKcp.Progress AsioKcp.Smoothing

/-- A party beside another one whose clock shows `clock'`. -/
structure Timely (conv : UInt32) (clock' : Nat) (own : Party) : Prop where
  served : Served conv own.kcp
  kept : Timekept own.clock clock' own.kcp
  sent : ∀ bytes ∈ own.sent, ∃ group, bytes = encodeSegs group ∧
    ∀ seg ∈ group, Timed conv own.clock clock' seg
  estimates : ∃ samples : List Int, (∀ x ∈ samples, 0 ≤ x ∧ x ≤ own.clock) ∧
    (own.clock < 2 ^ 28 → Measures samples (initKcpContext conv) own.kcp)

section Timely
variable {conv : UInt32} {clock' : Nat} {own : Party}

theorem timely_start (conv : UInt32) : Timely conv 0 (Party.start conv) where
  served := served_init conv
  kept := ⟨rfl, rfl, rfl, fun _ member => (List.not_mem_nil member).elim,
    fun _ => Estimate.unset_within (Int.le_refl 0)⟩
  sent := fun _ member => (List.not_mem_nil member).elim
  estimates := ⟨[], fun _ member => (List.not_mem_nil member).elim, fun _ => .of_clockwork rfl⟩

theorem Timely.peer_later {later : Nat} (timely : Timely conv clock' own) (more : clock' ≤ later) :
    Timely conv later own where
  served := timely.served
  kept := timely.kept.mono more
  sent := by
    intro bytes member
    obtain ⟨group, shape, timed⟩ := timely.sent bytes member
    exact ⟨group, shape, fun seg inside => (timed seg inside).mono (Nat.le_refl _) more⟩
  estimates := timely.estimates

/-- A step of the control block at the same time. -/
theorem Timely.counts (timely : Timely conv clock' own) {kcp : Ikcpcb} {got accepted : List UInt8}
    {trips : List Int} (served : Served conv kcp) (small : ∀ x ∈ trips, 0 ≤ x ∧ x ≤ own.clock)
    (counts : Counts own.clock clock' trips own.kcp kcp) :
    Timely conv clock' { own with kcp := kcp, got := got, accepted := accepted } where
  served := served
  kept := counts.kept
  sent := timely.sent
  estimates := by
    obtain ⟨samples, all, measures⟩ := timely.estimates
    refine ⟨samples ++ trips, fun x member => ?_, fun short => ?_⟩
    · exact (List.mem_append.mp member).elim (all x) (small x)
    · exact (measures short).append (counts.measures short)

theorem Timely.send (timely : Timely conv clock' own) (buffer : List UInt8) :
    Timely conv clock' (own.send buffer) := by
  apply timely.counts ((served_lasting conv).send buffer buffer.length timely.served)
    (fun _ member => (List.not_mem_nil member).elim)
  apply timely.kept.counts (ikcpSend_params _ _ _) (ikcpSend_clockwork _ _ _)
  intro stamp member
  rwa [(ikcpSend_onlyQueues _ _ _).acklist] at member

theorem Timely.recv (timely : Timely conv clock' own) (len : Nat) :
    Timely conv clock' (own.recv len) := by
  apply timely.counts ((served_lasting conv).recv len timely.served)
    (fun _ member => (List.not_mem_nil member).elim)
  apply timely.kept.counts (ikcpRecv_params _ _) (ikcpRecv_clockwork _ _)
  intro stamp member
  rwa [(ikcpRecv_sndSide own.kcp len).2] at member

theorem Timely.datagram (timely : Timely conv clock' own) {group : List IkcpSeg}
    (timed : ∀ seg ∈ group, Timed conv clock' own.clock seg) :
    Counts own.clock clock' (trips own.clock group) own.kcp (own.input (encodeSegs group)).kcp := by
  apply timely.kept.datagram
  rwa [show own.kcp.conv = conv from timely.served.2.suited.conv_eq]

theorem Timely.input (timely : Timely conv clock' own) {group : List IkcpSeg}
    (timed : ∀ seg ∈ group, Timed conv clock' own.clock seg) :
    Timely conv clock' (own.input (encodeSegs group)) :=
  timely.counts ((served_lasting conv).input _ _ timely.served) (trips_small timed)
    (timely.datagram timed)

/-- The datagrams of a flush at the time `now`. -/
theorem flush_timed {now : Nat} {ready : Ikcpcb} (served : Served conv ready)
    (current : ready.current = UInt32.ofNat now)
    (stamps : ∀ stamp ∈ ready.acklist, stamp.2.toNat ≤ clock') :
    ∀ bytes ∈ (ikcpFlush ready).2, ∃ group, bytes = encodeSegs group ∧
      ∀ seg ∈ group, Timed conv now clock' seg := by
  obtain ⟨groups, datagrams, flatten, packed⟩ := flush_groups served
  intro bytes member
  rw [datagrams] at member
  obtain ⟨group, isGroup, rfl⟩ := List.mem_map.mp member
  refine ⟨group, rfl, fun seg inside => ?_⟩
  have flushed : seg ∈ flushSegs ready := by
    have all := List.mem_flatten.mpr ⟨group, isGroup, inside⟩
    rw [flatten] at all
    split at all
    · exact (List.not_mem_nil all).elim
    · exact all
  obtain ⟨push, ack⟩ := flushSegs_times served.2 flushed
  refine ⟨((packed group isGroup).2.1 seg inside).decodable, fun isPush => ?_, fun isAck => ?_⟩
  · rw [push isPush, current, UInt32.toNat_ofNat']
    exact Nat.mod_le _ _
  · obtain ⟨stamp, owed, ts⟩ := ack isAck
    rw [ts]
    exact stamps stamp owed

theorem Timely.update (timely : Timely conv clock' own) {now : Nat} (later : own.clock ≤ now) :
    Timely conv clock' (own.update now) := by
  have served := (served_lasting conv).update (UInt32.ofNat now) timely.served
  have before : ∀ bytes ∈ own.sent, ∃ group, bytes = encodeSegs group ∧
      ∀ seg ∈ group, Timed conv now clock' seg := by
    intro bytes member
    obtain ⟨group, shape, timed⟩ := timely.sent bytes member
    exact ⟨group, shape, fun seg inside => (timed seg inside).mono later (Nat.le_refl _)⟩
  -- The estimator is left alone, and counts the same samples at a later time.
  have estimates : ∀ {kcp : Ikcpcb}, kcp.estimate = own.kcp.estimate → kcp.rxRto = own.kcp.rxRto →
      ∃ samples : List Int, (∀ x ∈ samples, 0 ≤ x ∧ x ≤ now) ∧
        (now < 2 ^ 28 → Measures samples (initKcpContext conv) kcp) := by
    intro kcp estimate rto
    obtain ⟨samples, all, measures⟩ := timely.estimates
    refine ⟨samples, fun x member => ?_, fun small => ?_⟩
    · have passed := all x member
      omega
    · have counted := (measures (by omega)).append (.of_same estimate rto)
      rwa [List.append_nil] at counted
  obtain ⟨tsFlush, updated, flushes | idles⟩ := ikcpUpdate_retimed own.kcp (UInt32.ofNat now)
  · have kept := timely.kept.retimed later tsFlush updated
    have ready := (served_lasting conv).retimed (UInt32.ofNat now) tsFlush updated timely.served
    generalize same : { own.kcp with
      current := UInt32.ofNat now, tsFlush := tsFlush, updated := updated } = kcp at *
    have clockwork := ikcpFlush_clockwork kcp
    have estimate : kcp.estimate = own.kcp.estimate := by
      rw [← same]
      rfl
    have rto : kcp.rxRto = own.kcp.rxRto := by rw [← same]
    have flushed : Counts now clock' [] kcp (ikcpFlush kcp).1 := by
      apply kept.counts (ikcpFlush_params kcp) clockwork
      intro stamp member
      by_cases fresh : kcp.updated = 0
      · rwa [ikcpFlush, if_pos fresh] at member
      · rw [(ikcpFlush_after fresh).acklist] at member
        exact (List.not_mem_nil member).elim
    unfold Party.update
    rw [flushes] at served ⊢
    refine ⟨served, flushed.kept, fun bytes member => ?_, ?_⟩
    · rcases List.mem_append.mp member with old | new
      · exact before bytes old
      · exact flush_timed ready kept.current kept.stamps bytes new
    · exact estimates ((Measures.of_clockwork clockwork).estimate.trans estimate)
        ((congrArg Clockwork.rto clockwork).trans rto)
  · unfold Party.update
    rw [idles] at served ⊢
    refine ⟨served, timely.kept.retimed later tsFlush updated, ?_, estimates rfl rfl⟩
    dsimp only
    rw [List.append_nil]
    exact before

end Timely

theorem timely_move {conv : UInt32} {own other own' : Party}
    {sends : Party → List UInt8 → Prop}
    (both : Timely conv other.clock own ∧ Timely conv own.clock other)
    (move : own.Moves sends other own') :
    Timely conv other.clock own' ∧ Timely conv own'.clock other := by
  obtain ⟨timely, peer⟩ := both
  cases move with
  | send buffer => exact ⟨timely.send buffer, peer⟩
  | recv len => exact ⟨timely.recv len, peer⟩
  | input bytes sent =>
      obtain ⟨group, rfl, timed⟩ := peer.sent bytes sent
      exact ⟨timely.input timed, peer⟩
  | update now later => exact ⟨timely.update later, peer.peer_later later⟩

/-- In every state of an exchange whose clock is below `2 ^ 28` milliseconds, the estimator
in machine words is the one over the integers, after samples that are all times that
have passed: it stays within the clock, `rx_rto` is its timeout, and the next datagram
adds the round trips of its acks. -/
theorem exchange_estimates (conv : UInt32) {q : Party × Party}
    (run : Steps (Party.Moves fun _ _ => True) (Party.start conv, Party.start conv) q)
    (small : q.1.clock < 2 ^ 28) :
    (∃ samples : List Int, (∀ x ∈ samples, 0 ≤ x ∧ x ≤ q.1.clock) ∧
      Measures samples (initKcpContext conv) q.1.kcp) ∧
    q.1.kcp.estimate.Within q.1.clock ∧
    ∀ bytes ∈ q.2.sent, ∃ group, bytes = encodeSegs group ∧
      (∀ x ∈ trips q.1.clock group, 0 ≤ x ∧ x ≤ q.1.clock) ∧
      Measures (trips q.1.clock group) q.1.kcp (q.1.input bytes).kcp := by
  have both := run.invariant
    (I := fun own other => Timely conv other.clock own ∧ Timely conv own.clock other)
    (fun both => ⟨both.2, both.1⟩) timely_move ⟨timely_start conv, timely_start conv⟩
  obtain ⟨timely, peer⟩ := both
  obtain ⟨samples, all, measures⟩ := timely.estimates
  refine ⟨⟨samples, all, measures small⟩, timely.kept.within small, fun bytes sent => ?_⟩
  obtain ⟨group, shape, timed⟩ := peer.sent bytes sent
  exact ⟨group, shape, trips_small timed, by rw [shape]; exact (timely.datagram timed).measures small⟩

/-- A byte that is acked after five milliseconds. -/
theorem exchange_estimates_five : ∃ q,
    Steps (Party.Moves fun _ _ => True) (Party.start 7, Party.start 7) q ∧ q.1.clock = 5 ∧
      q.1.kcp.estimate.Within 5 ∧ q.1.kcp.estimate.mean = 5 ∧ q.1.kcp.rxRto = 15 := by
  let asks := ((Party.start 7).send [42]).update 0
  let answers := ((Party.start 7).input (asks.sent.headD [])).update 0
  let counted := (asks.update 5).input (answers.sent.headD [])
  have sent : Steps (Party.Moves fun _ _ => True) (Party.start 7, Party.start 7) (asks, Party.start 7) :=
    (Steps.first (.send [42] trivial)).trans
      (.first (.update 0 (by decide)))
  have answered : Steps (Party.Moves fun _ _ => True) (asks, Party.start 7) (asks, answers) :=
    (Steps.second (.input (asks.sent.headD []) (by decide))).trans (.second (.update 0 (by decide)))
  have heard : Steps (Party.Moves fun _ _ => True) (asks, answers) (counted, answers) :=
    (Steps.first (.update 5 (by decide))).trans
      (.first (.input (answers.sent.headD []) (by decide)))
  have run := (sent.trans answered).trans heard
  have within := (exchange_estimates 7 run (by decide)).2.1
  exact ⟨(counted, answers), run, rfl, within, by decide, by decide⟩

end AsioKcp
