import AsioKcp.Acceptor.Accepts
import AsioKcp.Acceptor.Acts
import AsioKcp.Connection.Intake

/-! # What every session of an acceptor keeps

An acceptor does nothing to a connection that the connection's own events do not do
to it as well.  So what a connection keeps alone, it keeps among all the others. -/
set_option autoImplicit false

namespace AsioKcp

open AsioKcp.Ikcp AsioKcp.Callback AsioKcp.Machine Relation

/-- What holds of a connection that is just made, and in all that is done to it later. -/
structure Lifelong (T : Terms) (J : Connection → Prop) : Prop where
  made : ∀ (this : Nat) (conv : UInt32) (endpoint : Endpoint) (clock : Int),
    J (.make this conv endpoint true clock)
  act : ∀ {l l' : Local}, Act T l l' → J l.conn → J l'.conn
  update : ∀ (l : Local) (now : Int), J l.conn → J (l.update now).conn
  receive : ∀ (l : Local) (data : List UInt8) (size : Nat) (t : Int), size ≤ 2048 → J l.conn →
    J (l.received data size t).conn

/-- It holds of all connections that have been made. -/
def Acceptor.All (a : Acceptor) (J : Connection → Prop) : Prop := ∀ c, c < a.created → J (a.conns c)

section Lifelong
variable {T : Terms} {opens : Acceptor → UInt32 → Endpoint → Prop} {J : Connection → Prop}
  {a b : Acceptor}

theorem put_all {c : Nat} {l : Local} (all : a.All J) (holds : J l.conn) :
    ((Acceptor.view c).put a l).All J := by
  intro d inside
  simp only [Acceptor.view]
  by_cases same : d = c
  · subst same
    rw [Function.update_self]
    exact holds
  · rw [Function.update_of_ne same]
    exact all d inside

theorem Lifelong.acts (lifelong : Lifelong T J) (step : AcceptorAct T opens a b)
    (all : a.All J) : b.All J := by
  cases step with
  | user act =>
      cases act with
      | act c inside act => exact put_all all (lifelong.act act (all c inside))
      | aside _ conns created _ _ =>
          intro c inside
          rw [conns]
          exact all c (created ▸ inside)
  | update c now inside => exact put_all all (lifelong.update _ now (all c inside))
  | erase endpoint c pending => exact all
  | answer c inside => exact all
  | create conv endpoint clock _ =>
      intro c inside
      simp only [Acceptor.create]
      by_cases fresh : c = a.created
      · subst fresh
        rw [Function.update_self]
        exact lifelong.made _ conv endpoint clock
      · rw [Function.update_of_ne fresh]
        exact all c (Nat.lt_of_le_of_ne (Nat.le_of_lt_succ inside) fresh)

theorem Lifelong.along (lifelong : Lifelong T J) (acts : ReflTransGen (AcceptorAct T opens) a b)
    (all : a.All J) : b.All J := by
  induction acts with
  | refl => exact all
  | tail _ act ih => exact lifelong.acts act ih

theorem receivedSize_le (datagram : List UInt8) : receivedSize datagram ≤ 2048 :=
  Nat.min_le_right _ _

theorem Lifelong.begins (lifelong : Lifelong T J) {label : Label AcceptorEvent AcceptorCall}
    (begins : Begins a label b) (all : a.All J) : b.All J := by
  cases begins with
  | silent _ => exact all
  | @arrival ec datagram sender clock _ arrival =>
      cases arrival with
      | ignored _ => exact all
      | passed c _ inside _ =>
          have received := lifelong.receive ((Acceptor.view c).get (a.fill datagram))
            (a.fill datagram).buffer (receivedSize datagram) (a.fill datagram).now
            (receivedSize_le datagram) (all c inside)
          exact put_all (a := a.fill datagram) all received

/-- What a connection keeps alone holds of all sessions, in every run. -/
theorem Lifelong.run (lifelong : Lifelong Terms.any J) {magic : List UInt8} {now : Int}
    {streambufs : Nat → StreamBuf} {c : Config Acceptor}
    (run : acceptorSystem.Steps (fun _ _ => True) (acceptorStart magic now streambufs) c) :
    c.state.All J := by
  suffices inv : Acting Terms.any (fun _ _ _ => True) c ∧ c.state.All J from inv.2
  induction run with
  | refl => exact ⟨acting_start _ _ magic now streambufs, fun d inside => absurd inside (Nat.not_lt_zero d)⟩
  | @tail d e label _ _ stepped ih =>
      obtain ⟨acting, all⟩ := ih
      have anything : Opens (fun _ _ _ => True) d.state label :=
        ⟨fun _ _ _ _ _ _ _ => trivial, fun _ _ _ _ _ _ _ _ _ _ => trivial⟩
      obtain ⟨b, begins, acts, acting'⟩ :=
        acting_step acting (Terms.any_serves d label) (fun _ => anything) stepped
      exact ⟨acting', lifelong.along acts (lifelong.begins begins all)⟩

end Lifelong

/-! ## The control blocks -/

/-- What every operation on a control block keeps, from its configuration on. -/
theorem lasting_lifelong {K : Ikcpcb → Prop} (lasting : Lasting K)
    (initially : ∀ conv, K (initKcpContext conv)) : Lifelong Terms.any fun c => K c.obj where
  made := fun _ conv _ _ => initially conv
  act := fun act holds => lasting_act lasting act holds
  update := fun _ now holds => lasting_entry lasting (.update now) holds
  receive := fun _ data size t _ holds => lasting_entry lasting (.onReceive data size t) holds

theorem window_lasting : Lasting fun kcp => kcp.rcvWnd = 256 where
  send := fun buffer len holds => (congrArg Params.rcvWnd (ikcpSend_params _ buffer len)).trans holds
  recv := fun len holds => (congrArg Params.rcvWnd (ikcpRecv_params _ len)).trans holds
  input := fun data size holds => (congrArg Params.rcvWnd (ikcpInput_params _ data size)).trans holds
  retimed := fun _ _ _ holds => holds
  flush := fun holds => (congrArg Params.rcvWnd (ikcpFlush_params _)).trans holds

/-- No segment on the receive side is longer than the buffer of `do_receive` lets it be. -/
theorem short_lifelong :
    Lifelong Terms.any fun c => ∀ seg ∈ c.obj.received, seg.data.length ≤ 2023 where
  made := fun _ _ _ _ _ member => (List.not_mem_nil member).elim
  act := fun act short seg member => short seg (act_received act seg member)
  update := by
    intro l now short
    exact short_entry (.update now) (fun _ _ => nofun) short
  receive := by
    intro l data size t fits short
    refine short_entry (.onReceive data size t) (fun _ _ hears => ?_) short
    cases hears
    exact fits

/-- Whatever arrives from whatever endpoints, and whatever the users do with their
connections: the receive side of every session that the acceptor has made is bounded. -/
theorem sessions_bounded {magic : List UInt8} {now : Int} {streambufs : Nat → StreamBuf}
    {c : Config Acceptor}
    (run : acceptorSystem.Steps (fun _ _ => True) (acceptorStart magic now streambufs) c) :
    c.state.All fun conn => Intake 2023 conn.obj := by
  have incoming := (lasting_lifelong incoming_lasting incoming_init).run run
  have wide := (lasting_lifelong window_lasting fun _ => rfl).run run
  have short := short_lifelong.run run
  exact fun d inside => intake_of_incoming (incoming d inside) (wide d inside) (short d inside)

/-- A segment that arrives at a session before its predecessors. -/
theorem sessions_bounded_gap : ∃ c,
    acceptorSystem.Steps (fun _ _ => True) (acceptorStart [] 0 noStreambufs) c ∧
      c.state.created = 1 ∧ (c.state.conns 0).obj.rcvBuf.length = 1 ∧
      c.state.All fun conn => Intake 2023 conn.obj := by
  obtain ⟨c, ran, checked⟩ := run_checked acceptorSystem (acceptorStart [] 0 noStreambufs)
    [.call .asyncAccept, .event (.receive .success hello loopback 0), .back,
      .event (.receive .success gapDatagram loopback 0)]
    (fun c => c.state.created == 1 && (c.state.conns 0).obj.rcvBuf.length == 1) (by decide)
  have run := steps_of_run acceptorSystem (fun _ => True) _ (fun _ _ => trivial) ran
  obtain ⟨created, held⟩ := Bool.and_eq_true_iff.mp checked
  exact ⟨c, run, eq_of_beq created, eq_of_beq held, sessions_bounded run⟩

end AsioKcp
