import AsioKcp.Acceptor.Accepts
import AsioKcp.Acceptor.Served
import AsioKcp.Connection.Handlers

/-! # Every connection is registered and served, or closed -/
set_option autoImplicit false

namespace AsioKcp

open AsioKcp.Ikcp AsioKcp.Callback AsioKcp.Machine AsioKcp.Bytes

structure Placed (a : Acceptor) : Prop where
  placed : ∀ c, c < a.created → ((a.conns c).endpoint, c) ∈ a.connections ∨
    (a.conns c).state = .closed
  erased : ∀ e ∈ a.erasures, e.connection < a.created ∧
    (a.conns e.connection).state = .closed ∧ ∀ handler ∈ e.pending, a.env.Failed handler

theorem placed_later {a b : Acceptor} (later : Later a b) (placed : Placed a) : Placed b := by
  have erasures : b.erasures = a.erasures := by rw [later.shape]
  refine ⟨fun c made => ?_, fun e member => ?_⟩
  · rw [Connection.endpoint_of_identity (later.identity c), later.connections]
    exact (placed.placed c (later.created ▸ made)).imp_right (later.closed c)
  · obtain ⟨made, closed, failed⟩ := placed.erased e (erasures ▸ member)
    exact ⟨later.created ▸ made, later.closed _ closed,
      fun handler pending => failed_grows later.env (failed handler pending)⟩

theorem placed_frame {a b : Acceptor} (placed : Placed a) (conns : b.conns = a.conns)
    (created : b.created = a.created) (connections : b.connections = a.connections)
    (erasures : b.erasures = a.erasures) (invoked : b.env.invoked = a.env.invoked) : Placed b := by
  refine ⟨?_, ?_⟩
  · rw [conns, created, connections]
    exact placed.placed
  · rw [erasures, created, conns]
    unfold Env.Failed
    rw [invoked]
    exact placed.erased

/-- The connection whose entry is erased has been closed, and told its handlers. -/
theorem placed_erase {T : Terms} {J : Acceptor → Prop} {a b : Acceptor} {endpoint : Endpoint}
    {c : Nat} (strict : T.strict) (erasing : Erasing T J a b endpoint c) (placed : Placed b)
    (busy : (a.conns c).state ≠ .idle) : Placed (b.erase endpoint c (a.conns c).slots) := by
  have closed : (b.conns c).state = .closed := erasing.closed busy
  refine ⟨fun d made => ?_, fun e member => ?_⟩
  · rcases placed.placed d made with entry | closed'
    · by_cases same : (b.conns d).endpoint = endpoint
      · have one : d = c := erasing.sound.registry.entry_unique (same ▸ entry) erasing.entry
        rw [one]
        exact Or.inr closed
      · exact Or.inl (List.mem_filter.mpr ⟨entry, decide_eq_true same⟩)
    · exact Or.inr closed'
  · rcases List.mem_append.mp member with old | new
    · exact placed.erased e old
    · rw [List.mem_singleton.mp new]
      exact ⟨erasing.sound.registry.made _ erasing.entry, closed, erasing.failed strict busy⟩

theorem placed_opened {a : Acceptor} (placed : Placed a) (conv : UInt32) (endpoint : Endpoint)
    (clock : Int) : Placed ((a.create conv endpoint clock).answered a.created) := by
  have old : ∀ c, c < a.created → (a.create conv endpoint clock).conns c = a.conns c :=
    fun c made => Function.update_of_ne (Nat.ne_of_lt made) _ _
  have created : Placed (a.create conv endpoint clock) := by
    refine ⟨fun c made => ?_, fun e member => ?_⟩
    · rcases Nat.lt_succ_iff_lt_or_eq.mp made with before | rfl
      · rw [old c before]
        exact (placed.placed c before).imp_left (List.mem_append_left _)
      · refine Or.inl (List.mem_append_right _ ?_)
        simp [Acceptor.create, Connection.make]
    · obtain ⟨made, closed, failed⟩ := placed.erased e member
      refine ⟨Nat.lt_succ_of_lt made, ?_, failed⟩
      rw [old _ made]
      exact closed
  exact placed_frame created rfl rfl rfl rfl rfl

/-- A datagram that a connection takes in neither moves nor closes it. -/
theorem placed_received {a : Acceptor} (placed : Placed a) {c : Nat} {l : Local}
    (endpoint : l.conn.endpoint = (a.conns c).endpoint)
    (closed : l.closed ↔ ((Acceptor.view c).get a).closed) (env : l.env = a.env) :
    Placed ((Acceptor.view c).put a l) := by
  have same : ∀ d, (((Acceptor.view c).put a l).conns d).endpoint = (a.conns d).endpoint ∧
      ((a.conns d).state = .closed → (((Acceptor.view c).put a l).conns d).state = .closed) := by
    intro d
    simp only [Acceptor.view]
    by_cases here : d = c
    · subst here
      rw [Function.update_self]
      exact ⟨endpoint, closed.mpr⟩
    · rw [Function.update_of_ne here]
      exact ⟨rfl, id⟩
  refine ⟨fun d made => ?_, fun e member => ?_⟩
  · rw [(same d).1]
    exact (placed.placed d made).imp_right (same d).2
  · obtain ⟨made, isClosed, failed⟩ := placed.erased e member
    refine ⟨made, (same _).2 isClosed, ?_⟩
    change ∀ handler ∈ e.pending, l.env.Failed handler
    rw [env]
    exact failed

/-- No registered connection that was never opened is older than the timeout. -/
def InTime (now : Int) (a : Acceptor) : Prop :=
  ∀ entry ∈ a.connections, (a.conns entry.2).state = .idle →
    now - (a.conns entry.2).nowTick ≤ timeoutDuration

theorem inTime_later {now : Int} {a b : Acceptor} (later : Later a b) (inTime : InTime now a) :
    InTime now b := by
  intro entry member idle
  have tick : (b.conns entry.2).nowTick = (a.conns entry.2).nowTick :=
    congrArg (fun identity => identity.2.2.2.2) (later.identity entry.2)
  rw [tick]
  exact inTime entry (later.connections ▸ member) ((later.idle _).mp idle)

instance (now : Int) (a : Acceptor) : Decidable (InTime now a) :=
  inferInstanceAs (Decidable (∀ entry ∈ a.connections, _ → _))

/-- No handler throws, no close is given the success code, nothing fails that the
service coroutines run, and no tick finds a connection that was never opened and is
older than the timeout. -/
structure Attended (c : Config Acceptor) (label : Label AcceptorEvent AcceptorCall) : Prop
    extends Contained c label where
  strict : label ≠ .unwind
  closes : ∀ i, label ≠ .call (.connection i (.close .success))
  inTime : ∀ order now, label = .event (.timer order now) → InTime now c.state

instance (c : Config Acceptor) (label : Label AcceptorEvent AcceptorCall) :
    Decidable (Attended c label) :=
  match label with
  | .unwind => isFalse fun attended => attended.strict rfl
  | .call (.connection i (.close ec)) => decidable_of_iff (ec ≠ .success)
      ⟨fun error => ⟨⟨nofun, nofun, nofun⟩, nofun, fun _ same => by cases same; exact error rfl, nofun⟩,
        fun attended same => attended.closes i (by rw [same])⟩
  | .event (.timer order now) => decidable_of_iff (InTime now c.state)
      ⟨fun inTime => ⟨⟨nofun, nofun, nofun⟩, nofun, nofun,
        fun _ _ same => by cases same; exact inTime⟩, fun attended => attended.inTime order now rfl⟩
  | .event (.receive ec datagram sender clock) => decidable_of_iff
      (Contained c (.event (.receive ec datagram sender clock)))
      ⟨fun contained => ⟨contained, nofun, nofun, nofun⟩, fun attended => attended.toContained⟩
  | .answer sent => decidable_of_iff (Contained c (.answer sent))
      ⟨fun contained => ⟨contained, nofun, nofun, nofun⟩, fun attended => attended.toContained⟩
  | .event (.posted _) | .call .asyncAccept | .call (.connection _ (.asyncReadSome _)) |
    .call (.connection _ (.asyncRead _ _)) | .call (.connection _ (.asyncWrite _)) |
    .call (.connection _ (.streambuf _ _)) | .back | .raise | .caught =>
      isTrue ⟨⟨nofun, nofun, nofun⟩, nofun, nofun, nofun⟩

theorem attended_serves (c : Config Acceptor) (label : Label AcceptorEvent AcceptorCall)
    (attended : Attended c label) : Terms.orderly.Serves False c label :=
  ⟨fun unwinds => absurd unwinds attended.strict, fun _ _ h => (h.elim id And.left).elim,
    fun i _ isCall same => attended.closes i (isCall.trans (by rw [same]))⟩

theorem placed_event {a : Acceptor} (e : AcceptorEvent)
    (inTime : ∀ order now, e = .timer order now → InTime now a)
    (bottom : a.Bottom Terms.orderly Placed) :
    (runAcceptorEvent e a).Meets (Terms.orderly.accepting False fun _ => True)
      (fun _ => Acceptor.Bottom Terms.orderly Placed) (Acceptor.Bottom Terms.orderly Placed) a := by
  obtain ⟨sound, outside⟩ := bottom
  have kept : Kept Terms.orderly Placed := kept_of_later placed_later
  have same : ∀ b b' : Acceptor, Placed b → b'.conns = b.conns → b'.created = b.created →
      b'.connections = b.connections → b'.erasures = b.erasures →
      b'.env.invoked = b.env.invoked → Placed b' :=
    fun b b' placed => placed_frame placed
  cases e with
  | receive ec datagram sender clock =>
      have filled : Placed (a.fill datagram) := same a _ sound.holds rfl rfl rfl rfl rfl
      refine meets_mono (fun _ _ h => h) (fun _ h => h.elim)
        (acceptorReceive_meets kept (fun _ _ => trivial) ec datagram sender clock sound
          filled ?_ ?_ ?_ ?_ ?_ outside a)
      · exact fun c _ _ _ => same _ _ filled rfl rfl rfl rfl rfl
      · intro b c _ erasing _ busy _
        have erased : Placed (b.erase sender c ((a.fill datagram).conns c).slots) :=
          placed_erase trivial erasing erasing.sound.holds busy
        exact erased
      · exact fun b _ sound' _ _ => placed_opened sound'.holds _ _ _
      · intro c _
        have frame := received_frame ((Acceptor.view c).get (a.fill datagram))
          (a.fill datagram).buffer (receivedSize datagram) (a.fill datagram).now
        have control := received_control ((Acceptor.view c).get (a.fill datagram))
          (a.fill datagram).buffer (receivedSize datagram) (a.fill datagram).now
        exact placed_received filled frame.2.2.1 control.closed frame.2.2.2
      · exact fun b c _ holds _ => same b _ holds rfl rfl rfl rfl rfl
  | timer order now =>
      have tickKept : Kept Terms.orderly fun b => Placed b ∧ InTime now b :=
        kept.and (kept_of_later inTime_later)
      have soundTick : a.Sound Terms.orderly fun b => Placed b ∧ InTime now b :=
        ⟨sound.settled, sound.registry, sound.holds, inTime order now rfl⟩
      refine meets_mono (fun _ b h => ⟨⟨h.1.settled, h.1.registry, h.1.holds.1⟩, h.2⟩)
        (fun _ h => h.elim)
        (doUpdate_meets tickKept (fun _ _ => trivial) now soundTick ?_ ?_ ?_ ?_ outside a)
      · exact ⟨same a _ sound.holds rfl rfl rfl rfl rfl, inTime order now rfl⟩
      · intro b c holds
        have later := (Later.refl b).put (update_onward ((Acceptor.view c).get b) now)
        exact ⟨placed_later later holds.1, inTime_later later holds.2⟩
      · intro b b' endpoint c before erasing late
        have busy : (b.conns c).state ≠ .idle := by
          intro idle
          have young := before.2 (endpoint, c) erasing.registered idle
          exact absurd (late idle) (Int.not_lt.mpr young)
        refine ⟨placed_erase trivial erasing erasing.sound.holds.1 busy, ?_⟩
        exact fun entry member => erasing.sound.holds.2 entry (List.mem_of_mem_filter member)
      · exact fun b holds _ => ⟨same b _ holds.1 rfl rfl rfl rfl rfl, holds.2⟩
  | posted i => exact runAcceptorPosted_meets kept (fun _ _ => trivial) i sound outside a

/-- What the registry owes to the connections that accept handlers hold. -/
structure NoOrphans (a : Acceptor) : Prop where
  placed : ∀ c, c < a.created → ((a.conns c).endpoint, c) ∈ a.connections ∨
    ((a.conns c).state = .closed ∧ (a.conns c).readOp = none ∧ (a.conns c).writeOp = none)
  erased : ∀ e ∈ a.erasures, (a.conns e.connection).state = .closed ∧
    (a.conns e.connection).readOp = none ∧ (a.conns e.connection).writeOp = none ∧
    ∀ handler ∈ e.pending, a.env.Failed handler
  single : ∀ c d, c < a.created → d < a.created →
    (a.conns c).endpoint = (a.conns d).endpoint → (a.conns c).state ≠ .closed →
    (a.conns d).state ≠ .closed → c = d

theorem noOrphans_of_placed {a : Acceptor} (sound : a.Sound Terms.orderly Placed) :
    NoOrphans a := by
  have emptied : ∀ c, (a.conns c).state = .closed →
      (a.conns c).readOp = none ∧ (a.conns c).writeOp = none :=
    fun c closed => (sound.settled c).2.1 trivial closed
  refine ⟨fun c made => ?_, fun e member => ?_, fun c d madeC madeD same openC openD => ?_⟩
  · exact (sound.holds.placed c made).imp_right fun closed => ⟨closed, emptied c closed⟩
  · obtain ⟨_, closed, failed⟩ := sound.holds.erased e member
    exact ⟨closed, (emptied _ closed).1, (emptied _ closed).2, failed⟩
  · have entryC := (sound.holds.placed c madeC).resolve_right openC
    have entryD := (sound.holds.placed d madeD).resolve_right openD
    exact sound.registry.entry_unique (same ▸ entryC) entryD

/-- Between events no connection is orphaned: each is registered, and then ticked and
given its datagrams, or it is closed.  So it is in every run whose ticks find no
connection that was never opened and is older than the timeout, if the service
coroutines go on and no handler throws. -/
theorem no_orphans {magic : List UInt8} {now : Int} {streambufs : Nat → StreamBuf}
    {c : Config Acceptor}
    (run : acceptorSystem.Steps Attended (acceptorStart magic now streambufs) c) (idle : c.Idle) :
    NoOrphans c.state ∧ Serving c.state ∧ ServesRegistered c := by
  have kept : Kept Terms.orderly Placed := kept_of_later placed_later
  have start : Placed (.make magic now streambufs) :=
    ⟨fun _ made => absurd made (Nat.not_lt_zero _), fun _ member => absurd member List.not_mem_nil⟩
  have keeps := (acceptor_run kept (fun _ _ => trivial) attended_serves
    (fun c e attended bottom => placed_event e
      (fun order now same => attended.inTime order now (congrArg _ same)) bottom)
    (start_meets kept (fun _ _ => trivial) start) trivial run).1
  have contained := run.mono fun _ _ attended => attended.toContained
  exact ⟨noOrphans_of_placed (meets_bottom keeps idle).1, (contained_run contained).2,
    servesRegistered_run contained⟩

/-- One connection is closed by its user and erased by the next tick, the other stays. -/
def closedAndErased : List (Label AcceptorEvent AcceptorCall) :=
  [.call .asyncAccept, .call .asyncAccept, .event (.receive .success hello loopback 0), .back,
    .event (.receive .success hello neighbour 0), .back,
    .event (.receive .success keepalive loopback 1), .call (.connection 0 (.asyncReadSome 8)),
    .call (.connection 0 (.close .eof)), .back, .answer true,
    .event (.timer [(loopback, 0), (neighbour, 1)] 5)]

theorem no_orphans_erased : ∃ c,
    acceptorSystem.Steps Attended (acceptorStart [] 0 noStreambufs) c ∧
    c.state.erasures.map Erasure.connection = [0] ∧ c.state.connections = [(neighbour, 1)] ∧
    NoOrphans c.state ∧ ServesRegistered c := by
  obtain ⟨c, run, checked⟩ := runIf_checked acceptorSystem Attended
    (acceptorStart [] 0 noStreambufs) closedAndErased
    (fun c => c.isIdle && decide (c.state.erasures.map Erasure.connection = [0] ∧
      c.state.connections = [(neighbour, 1)])) (by decide)
  obtain ⟨isIdle, shape⟩ := Bool.and_eq_true_iff.mp checked
  obtain ⟨erased, left⟩ := of_decide_eq_true shape
  obtain ⟨safe, _, served⟩ := no_orphans run (idle_of_isIdle isIdle)
  exact ⟨c, run, erased, left, safe, served⟩

/-- A connection that its peer never used times out: it is erased, but not closed. -/
theorem idle_timeout_orphans : ¬ ∀ c,
    acceptorSystem.Steps (fun _ label => label ≠ .unwind ∧ label ≠ .raise)
      (acceptorStart [] 0 noStreambufs) c → c.Idle → NoOrphans c.state := by
  intro claim
  obtain ⟨c, ran, checked⟩ := run_checked acceptorSystem (acceptorStart [] 0 noStreambufs)
    [.call .asyncAccept, .event (.receive .success hello loopback 0), .back,
      .event (.timer [(loopback, 0)] 40000)]
    (fun c => c.isIdle && c.state.erasures.any fun e => (c.state.conns e.connection).idle)
    (by decide)
  simp only [Bool.and_eq_true, List.any_eq_true] at checked
  obtain ⟨idle, e, member, unopened⟩ := checked
  have safe := claim c (steps_of_run acceptorSystem
    (fun label => label ≠ .unwind ∧ label ≠ .raise) _ (by simp) ran) (idle_of_isIdle idle)
  have state : (c.state.conns e.connection).state = .idle := of_decide_eq_true unopened
  rw [(safe.erased e member).1] at state
  cases state

end AsioKcp
