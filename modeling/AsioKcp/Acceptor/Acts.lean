import AsioKcp.Acceptor.Runs

/-! # What an acceptor can do

Between two points where it gives control away the acceptor changes its own
members, and its connections only as their own code does.  So every run of it is a
sequence of `AcceptorAct`s, and each begins a step where the datagram of that step,
if it is for a connection, has arrived there. -/
set_option autoImplicit false

namespace AsioKcp

open AsioKcp.Ikcp AsioKcp.Callback AsioKcp.Machine Relation

/-- One act of a connection, or a change that leaves all connections alone. -/
inductive UserAct (T : Terms) : Acceptor → Acceptor → Prop
  | act {a : Acceptor} {l : Local} (c : Nat) : c < a.created → Act T ((Acceptor.view c).get a) l →
      UserAct T a ((Acceptor.view c).put a l)
  | aside {a b : Acceptor} : b.connections = a.connections → b.conns = a.conns →
      b.created = a.created → b.env.sent = a.env.sent → a.env.Grows b.env → UserAct T a b

/-- The acceptor itself updates connections, answers handshakes and keeps the
table of connections; `opens` says which it may create. -/
inductive AcceptorAct (T : Terms) (opens : Acceptor → UInt32 → Endpoint → Prop) :
    Acceptor → Acceptor → Prop
  | user {a b : Acceptor} : UserAct T a b → AcceptorAct T opens a b
  | update {a : Acceptor} (c : Nat) (now : Int) : c < a.created →
      AcceptorAct T opens a ((Acceptor.view c).put a (((Acceptor.view c).get a).update now))
  | erase {a : Acceptor} (endpoint : Endpoint) (c : Nat) (pending : List Nat) :
      AcceptorAct T opens a (a.erase endpoint c pending)
  | answer {a : Acceptor} (c : Nat) : c < a.created → AcceptorAct T opens a (a.answered c)
  | create {a : Acceptor} (conv : UInt32) (endpoint : Endpoint) (clock : Int) :
      opens a conv endpoint → AcceptorAct T opens a (a.create conv endpoint clock)

/-- The state in which the acceptor has put the datagram that it receives. -/
inductive Arrival (a : Acceptor) (ec : ErrorCode) (datagram : List UInt8) (sender : Endpoint) :
    Acceptor → Prop
  | passed (c : Nat) : a.Passing ec datagram sender c → c < a.created →
      (a.conns c).endpoint = sender → Arrival a ec datagram sender
        ((Acceptor.view c).put (a.fill datagram) ((a.fill datagram).deliver c (receivedSize datagram)))
  | ignored : (∀ c, ¬ a.Passing ec datagram sender c) → Arrival a ec datagram sender a

/-- The state in which the code of a step begins. -/
inductive Begins (a : Acceptor) : Label AcceptorEvent AcceptorCall → Acceptor → Prop
  | arrival {ec : ErrorCode} {datagram : List UInt8} {sender : Endpoint} {clock : Int}
      {b : Acceptor} : Arrival a ec datagram sender b →
      Begins a (.event (.receive ec datagram sender clock)) b
  | silent {label : Label AcceptorEvent AcceptorCall} :
      (∀ ec datagram sender clock, label ≠ .event (.receive ec datagram sender clock)) →
      Begins a label a

/-! ## The contract -/

/-- A predicate that the acts of connections keep, and all that leaves them alone. -/
def Steady (T : Terms) (J : Acceptor → Prop) : Prop := ∀ {a b}, UserAct T a b → J a → J b

/-- The contract of the acceptor that says what it does, and not only what it keeps. -/
def Terms.acting (T : Terms) (opens : Acceptor → UInt32 → Endpoint → Prop) :
    Contract Acceptor where
  relies P := ∃ phases J, Steady T J ∧ ∀ a, P a ↔ a.phased T phases ∧ J a
  passes _ := ¬ T.strict
  answers _ b := T.reliable → b = true
  guarantee := ReflTransGen (AcceptorAct T opens)
  refl _ := .refl
  trans := ReflTransGen.trans

section Contract
variable {T : Terms} {opens : Acceptor → UInt32 → Endpoint → Prop} {J J' : Acceptor → Prop} {c : Nat}

theorem Steady.and (steady : Steady T J) (steady' : Steady T J') : Steady T fun a => J a ∧ J' a :=
  fun act holds => ⟨steady act holds.1, steady' act holds.2⟩

/-- The acts of one connection, as acts of its acceptor. -/
theorem acts_inside {a : Acceptor} (inside : c < a.created) {l : Local}
    (acts : Acts T ((Acceptor.view c).get a) l) :
    ReflTransGen (UserAct T) a ((Acceptor.view c).put a l) := by
  induction acts with
  | refl => rw [(Acceptor.view c).put_get]
  | @tail l l' _ act ih =>
      have made : c < ((Acceptor.view c).put a l).created := inside
      apply ih.tail
      rw [← (Acceptor.view c).put_put a l l']
      apply UserAct.act c made
      rw [(Acceptor.view c).get_put]
      exact act

theorem Steady.along (steady : Steady T J) {a b : Acceptor} (acts : ReflTransGen (UserAct T) a b)
    (holds : J a) : J b := by
  induction acts with
  | refl => exact holds
  | tail _ act ih => exact steady act ih

theorem acting_of_user {a b : Acceptor} (acts : ReflTransGen (UserAct T) a b) :
    ReflTransGen (AcceptorAct T opens) a b := by
  induction acts with
  | refl => exact .refl
  | tail _ act ih => exact ih.tail (.user act)

/-- A predicate on one connection that acts keep. -/
theorem steady_view {Jc : Local → Prop} (stable : Stable T Jc) (c : Nat) :
    Steady T fun a => Jc ((Acceptor.view c).get a) := by
  intro a b step holds
  cases step with
  | @act l d inside act =>
      by_cases same : d = c
      · subst same
        rw [(Acceptor.view d).get_put]
        exact stable.act act holds
      · rw [view_other (Ne.symm same)]
        exact stable.env (act_onward act).env holds
  | aside _ conns _ _ grows =>
      have moved := stable.env grows holds
      simpa only [Acceptor.view, conns] using moved

variable (opens) in
/-- The code of connection `c`, beside the others and what is steady. -/
theorem acting_lifts (steady : Steady T J) (made : ∀ a, J a → c < a.created)
    (phases : Nat → Phase) :
    Lifts (Acceptor.view c) (T.contract False) (T.acting opens)
      (fun a => (∀ d, d ≠ c → (phases d).Holds T ((Acceptor.view d).get a)) ∧ J a) where
  stable := by
    intro a l framed acts
    refine ⟨fun d other => ?_, steady.along (acts_inside (made a framed.2) acts) framed.2⟩
    rw [view_other other]
    exact phase_env (framed.1 d other)
  relies := by
    rintro P ⟨phase, Jc, stable, shape⟩
    refine ⟨Function.update phases c phase, fun a => Jc ((Acceptor.view c).get a) ∧ J a,
      Steady.and (steady_view stable c) steady, fun a => ?_⟩
    dsimp only
    rw [shape]
    constructor
    · rintro ⟨⟨here, jc⟩, others, j⟩
      refine ⟨fun d => ?_, jc, j⟩
      by_cases same : d = c
      · subst same
        rw [Function.update_self]
        exact here
      · rw [Function.update_of_ne same]
        exact others d same
    · rintro ⟨all, jc, j⟩
      have here := all c
      rw [Function.update_self] at here
      refine ⟨⟨here, jc⟩, fun d other => ?_, j⟩
      have there := all d
      rwa [Function.update_of_ne other] at there
  passes := fun a _ passes => ⟨passes, id⟩
  answers := fun a b _ answered must => answered (must.resolve_right id)
  guarantee := fun a l framed acts => acting_of_user (acts_inside (made a framed.2) acts)

end Contract

/-! ## What holds between events -/

/-- Connections that have not been made have nothing pending. -/
def Acceptor.Unmade (a : Acceptor) : Prop :=
  ∀ c, a.created ≤ c → (a.conns c).readOp = none ∧ (a.conns c).writeOp = none

structure Acceptor.Standing (T : Terms) (a : Acceptor) : Prop where
  settled : a.Settled T
  registry : a.Registry
  unmade : a.Unmade

section Standing
variable {T : Terms} {opens : Acceptor → UInt32 → Endpoint → Prop}

theorem put_unmade {a : Acceptor} (unmade : a.Unmade) {c : Nat} (inside : c < a.created)
    (l : Local) : ((Acceptor.view c).put a l).Unmade := by
  intro d fresh
  have other : d ≠ c := (Nat.lt_of_lt_of_le inside fresh).ne'
  simp only [Acceptor.view, Function.update_of_ne other]
  exact unmade d fresh

theorem put_registry {a : Acceptor} (registry : a.Registry) {c : Nat} {l : Local}
    (endpoint : l.conn.endpoint = (a.conns c).endpoint) : ((Acceptor.view c).put a l).Registry := by
  refine ⟨registry.unique, registry.made, fun entry member => ?_⟩
  have own := registry.own entry member
  simp only [Acceptor.view]
  by_cases same : entry.2 = c
  · rw [same] at own ⊢
    rw [Function.update_self, endpoint]
    exact own
  · rw [Function.update_of_ne same]
    exact own

/-- The table of connections, as user code leaves it. -/
structure Acceptor.Table (a : Acceptor) (entries : List (Endpoint × Nat)) (count : Nat) : Prop where
  registry : a.Registry
  unmade : a.Unmade
  entries : a.connections = entries
  count : a.created = count

theorem steady_table (entries : List (Endpoint × Nat)) (count : Nat) :
    Steady T fun a => a.Table entries count := by
  intro a b step table
  cases step with
  | act c inside act =>
      exact ⟨put_registry table.registry (act_onward act).endpoint,
        put_unmade table.unmade inside _, table.entries, table.count⟩
  | aside connections conns created _ _ =>
      have registry := table.registry
      have unmade := table.unmade
      refine ⟨⟨?_, ?_, ?_⟩, ?_, connections.trans table.entries, created.trans table.count⟩
      · rw [connections]
        exact registry.unique
      · rw [connections, created]
        exact registry.made
      · rw [connections, conns]
        exact registry.own
      · unfold Acceptor.Unmade
        rw [created, conns]
        exact unmade

theorem relies_standing : (T.acting opens).relies (Acceptor.Standing T) := by
  refine ⟨fun _ => .settled, fun a => a.Registry ∧ a.Unmade, fun {a b} step holds => ?_, fun a => ?_⟩
  · have table := steady_table (T := T) a.connections a.created step ⟨holds.1, holds.2, rfl, rfl⟩
    exact ⟨table.registry, table.unmade⟩
  · constructor
    · exact fun standing => ⟨standing.settled, standing.registry, standing.unmade⟩
    · exact fun ⟨settled, registry, unmade⟩ => ⟨settled, registry, unmade⟩

/-- A change of the acceptor's members that leaves its table alone. -/
theorem standing_aside {a b : Acceptor} (standing : a.Standing T)
    (connections : b.connections = a.connections) (conns : b.conns = a.conns)
    (created : b.created = a.created) : b.Standing T := by
  obtain ⟨settled, registry, unmade⟩ := standing
  refine ⟨fun c => ?_, ⟨?_, ?_, ?_⟩, ?_⟩
  · have held := settled c
    exact phase_of_control held (by simp only [Acceptor.view, conns])
      (by simp only [Acceptor.view, conns]) fun _ _ => by simp only [Acceptor.view, conns, and_self]
  · rw [connections]
    exact registry.unique
  · rw [connections, created]
    exact registry.made
  · rw [connections, conns]
    exact registry.own
  · unfold Acceptor.Unmade
    rw [created, conns]
    exact unmade

/-- What the code of one connection leaves, when the acceptor runs it between events. -/
structure Beside (T : Terms) (a : Acceptor) (P : Prop) (b : Acceptor) : Prop where
  standing : b.Standing T
  holds : P
  connections : b.connections = a.connections

variable (opens) in
theorem connection_acting {α : Type} {m : Comp Local α} {Q : α → Local → Prop}
    {E : Local → Prop} {c : Nat} {a : Acceptor} {start : Local} (standing : a.Standing T)
    (inside : c < a.created) (endpoint : start.conn.endpoint = (a.conns c).endpoint)
    (returns : ∀ r l, Q r l → Phase.settled.Holds T l) (throws : ∀ l, E l → Phase.settled.Holds T l)
    (meets : (m ((Acceptor.view c).get a)).Meets (T.contract False) Q E start) :
    (onConnection c m a).Meets (T.acting opens)
      (fun r b => Beside T a (Q r ((Acceptor.view c).get b)) b)
      (fun b => Beside T a (E ((Acceptor.view c).get b)) b)
      ((Acceptor.view c).put a start) := by
  have lifts := acting_lifts opens (steady_table (T := T) a.connections a.created)
    (fun b table => by rw [table.count]; exact inside) fun _ => .settled
  have begins : ((Acceptor.view c).put a start).Table a.connections a.created :=
    ⟨put_registry standing.registry endpoint, put_unmade standing.unmade inside _, rfl, rfl⟩
  have all : ∀ b : Acceptor, Phase.settled.Holds T ((Acceptor.view c).get b) →
      (∀ d, d ≠ c → Phase.settled.Holds T ((Acceptor.view d).get b)) → b.Settled T := by
    intro b here others d
    by_cases same : d = c
    · subst same
      exact here
    · exact others d same
  refine meets_mono ?_ ?_ (meets_zoom lifts ⟨fun d other => ?_, begins⟩ meets)
  · rintro r b ⟨q, others, table⟩
    exact ⟨⟨all b (returns r _ q) others, table.registry, table.unmade⟩, q, table.entries⟩
  · rintro b ⟨e, others, table⟩
    exact ⟨⟨all b (throws _ e) others, table.registry, table.unmade⟩, e, table.entries⟩
  · rw [view_other other]
    exact phase_env (standing.settled d)

end Standing

/-! ## The functions of the acceptor -/

section Functions
variable {T : Terms} {opens : Acceptor → UInt32 → Endpoint → Prop} {a : Acceptor}

/-- Before its first act the code changes members beside the connections. -/
theorem aside_acting {α : Type} {Q : α → Acceptor → Prop} {E : Acceptor → Prop} {b : Acceptor}
    {p : Prog Acceptor α} (connections : b.connections = a.connections)
    (conns : b.conns = a.conns) (created : b.created = a.created) (sent : b.env.sent = a.env.sent)
    (grows : a.env.Grows b.env) (meets : p.Meets (T.acting opens) Q E b) :
    p.Meets (T.acting opens) Q E a :=
  meets_from (C := T.acting opens)
    (.single (.user (.aside connections conns created sent grows))) meets

/-- The same before it returns. -/
theorem aside_returns {b : Acceptor} (standing : b.Standing T)
    (connections : b.connections = a.connections) (conns : b.conns = a.conns)
    (created : b.created = a.created) (env : b.env = a.env) :
    (Prog.ret b () : Prog Acceptor Unit).Meets (T.acting opens) (fun _ => Acceptor.Standing T)
      (Acceptor.Standing T) a :=
  ⟨.single (.user (.aside connections conns created (by rw [env]) (env ▸ Env.Grows.refl _))),
    standing⟩

theorem answer_acting (standing : a.Standing T) {c : Nat} (inside : c < a.created) :
    (answer c a).Meets (T.acting opens) (fun _ => Acceptor.Standing T) (Acceptor.Standing T) a := by
  have answered : (a.answered c).Standing T := standing_aside standing rfl rfl rfl
  have act : ReflTransGen (AcceptorAct T opens) a (a.answered c) := .single (.answer c inside)
  rw [answer_eq]
  split
  · exact ⟨act, answered⟩
  · exact ⟨act, _, relies_standing, answered, fun b standing => ⟨⟨.refl, standing⟩,
      fun _ => ⟨.refl, standing⟩⟩⟩

theorem create_standing (standing : a.Standing T) (conv : UInt32) {endpoint : Endpoint}
    (clock : Int) (absent : a.find endpoint = none) : (a.create conv endpoint clock).Standing T := by
  refine ⟨create_settled standing.settled conv endpoint clock,
    standing.registry.create conv clock absent, fun c fresh => ?_⟩
  have other : c ≠ a.created := Nat.ne_of_gt fresh
  simp only [Acceptor.create, Function.update_of_ne other]
  exact standing.unmade c (Nat.le_of_lt fresh)

theorem erase_standing (standing : a.Standing T) (endpoint : Endpoint) (c : Nat)
    (pending : List Nat) : (a.erase endpoint c pending).Standing T :=
  ⟨standing.settled, standing.registry.erase endpoint c pending, standing.unmade⟩

theorem handshark_acting (standing : a.Standing T) (conv : UInt32) (endpoint : Endpoint)
    (clock : Int) (first : a.find endpoint = none → opens a conv endpoint)
    (again : ∀ c, a.find endpoint = some c → (a.conns c).state ≠ .idle →
      ∀ b, opens b conv endpoint) :
    (handshark conv endpoint clock a).Meets (T.acting opens) (fun _ => Acceptor.Standing T)
      (Acceptor.Standing T) a := by
  have creates : ∀ b : Acceptor, b.Standing T → b.find endpoint = none → opens b conv endpoint →
      (answer b.created (b.create conv endpoint clock)).Meets (T.acting opens)
        (fun _ => Acceptor.Standing T) (Acceptor.Standing T) b := by
    intro b standing absent opened
    have created := create_standing standing conv clock absent
    exact meets_from (C := T.acting opens) (.single (.create conv endpoint clock opened))
      (answer_acting created (Nat.lt_succ_self b.created))
  simp only [handshark, Comp.bind_apply, Comp.get_apply, Prog.bind_ret]
  cases found : a.find endpoint with
  | none => exact creates a standing found (first found)
  | some c =>
      have inside : c < a.created := standing.registry.made _ (find_mem found)
      by_cases idle : (a.conns c).state = .idle
      · have isIdle : (a.conns c).idle = true := decide_eq_true idle
        simp only [isIdle, if_true]
        exact answer_acting standing inside
      · have isIdle : (a.conns c).idle = false := decide_eq_false idle
        have error : T.strict → ErrorCode.operationAborted ≠ .success := by simp
        have closes := connection_acting opens standing inside rfl
          (fun _ _ done => CloseDone.settled done) (fun _ thrown => thrown.1)
          (close_meets .operationAborted error (standing.settled c))
        rw [(Acceptor.view c).put_get] at closes
        simp only [isIdle, Bool.false_eq_true, if_false, Comp.bind_apply]
        refine meets_bind _ (meets_mono ?_ (fun b thrown => thrown.standing) closes)
        rintro _ b done
        have erased := erase_standing done.standing endpoint c (a.conns c).slots
        have erases : ReflTransGen (AcceptorAct T opens) b
            (b.erase endpoint c (a.conns c).slots) := .single (.erase endpoint c _)
        exact meets_from (C := T.acting opens) erases
          (creates _ erased (erase_find b endpoint c _) (again c found idle _))

variable (opens) in
theorem updateConnections_acting (now : Int) (order : List (Endpoint × Nat)) {a : Acceptor}
    (standing : a.Standing T) (entries : order ⊆ a.connections)
    (once : (order.map Prod.fst).Nodup) :
    (updateConnections now order a).Meets (T.acting opens) (fun _ => Acceptor.Standing T)
      (Acceptor.Standing T) a := by
  induction order generalizing a with
  | nil => exact ⟨.refl, standing⟩
  | cons entry rest ih =>
      obtain ⟨endpoint, c⟩ := entry
      have registered : (endpoint, c) ∈ a.connections := entries List.mem_cons_self
      have inside : c < a.created := standing.registry.made _ registered
      obtain ⟨fresh, rest_once⟩ := List.nodup_cons.mp once
      have rest_entries : rest ⊆ a.connections := fun e member =>
        entries (List.mem_cons_of_mem _ member)
      have updated : Phase.settled.Holds T (((Acceptor.view c).get a).update now) :=
        entry_settled (.tick now) (standing.settled c)
      have ticked := connection_acting opens standing inside
        (update_onward _ now).endpoint (fun _ _ done => TickDone.settled done)
        (fun _ thrown => thrown.1) (tick_meets now updated)
      simp only [updateConnections, Comp.bind_apply, Comp.get_apply, Prog.bind_ret]
      refine meets_from (C := T.acting opens) (.single (.update c now inside)) (meets_bind _
        (meets_mono ?_ (fun b thrown => thrown.standing) ticked))
      rintro expired b done
      have kept : rest ⊆ b.connections := done.connections ▸ rest_entries
      cases expired with
      | false => exact ih done.standing kept rest_once
      | true =>
          have erased := erase_standing done.standing endpoint c (a.conns c).slots
          refine meets_from (C := T.acting opens) (.single (.erase endpoint c _))
            (ih erased (fun e member => ?_) rest_once)
          refine List.mem_filter.mpr ⟨kept member, decide_eq_true ?_⟩
          rintro rfl
          exact fresh (List.mem_map.mpr ⟨e, member, rfl⟩)

/-- The end of a service coroutine. -/
theorem service_acting {m : Comp Acceptor Unit} {stop : Acceptor → Acceptor} {P : Acceptor → Prop}
    (stands : ∀ b, P b → b.Standing T)
    (stops : ∀ b, (stop b).connections = b.connections ∧ (stop b).conns = b.conns ∧
      (stop b).created = b.created ∧ (stop b).env = b.env) {start : Acceptor}
    (meets : (m a).Meets (T.acting opens) (fun _ => P) P start) :
    ((do
      Comp.tryCatch m (Comp.modify stop)
      Comp.modify fun b => b.serve false : Comp Acceptor Unit) a).Meets (T.acting opens)
      (fun _ => Acceptor.Standing T) (Acceptor.Standing T) start := by
  have ends : ∀ b : Acceptor, b.Standing T → (Prog.ret (b.serve false) () : Prog Acceptor Unit).Meets
      (T.acting opens) (fun _ => Acceptor.Standing T) (Acceptor.Standing T) b :=
    fun b standing => aside_returns (standing_aside standing rfl rfl rfl) rfl rfl rfl rfl
  refine meets_bind _ (meets_tryCatch _ (meets_mono (fun _ b held => ends b (stands b held)) ?_ meets))
  intro b held
  obtain ⟨connections, conns, created, env⟩ := stops b
  have stopped : (stop b).Standing T := standing_aside (stands b held) connections conns created
  refine ⟨.single (.user (.aside connections conns created (by rw [env])
    (env ▸ Env.Grows.refl _))), ?_⟩
  exact ends _ stopped

theorem doUpdate_acting (standing : a.Standing T) (order : List (Endpoint × Nat)) (now : Int) :
    (doUpdate order now a).Meets (T.acting opens) (fun _ => Acceptor.Standing T)
      (Acceptor.Standing T) a := by
  simp only [doUpdate, Comp.bind_apply, Comp.get_apply, Prog.bind_ret, Comp.ite_apply]
  split
  · rename_i runs
    have started : Acceptor.Standing T { a with now := now, serving := true } :=
      standing_aside standing rfl rfl rfl
    have once : (order.map Prod.fst).Nodup :=
      (runs.2.map Prod.fst).nodup_iff.mpr standing.registry.unique
    have updates := updateConnections_acting opens now order started
      (show order ⊆ a.connections from runs.2.subset) once
    refine aside_acting (b := { a with now := now, serving := true }) rfl rfl rfl rfl
      (Env.Grows.refl _) (service_acting (fun _ held => held) ?_ updates)
    exact fun _ => ⟨rfl, rfl, rfl, rfl⟩
  · exact ⟨.refl, standing⟩

/-- What `do_receive` does once the datagram has arrived. -/
theorem acceptorReceive_acting (standing : a.Standing T) (ec : ErrorCode) (datagram : List UInt8)
    (sender : Endpoint) (clock : Int) {b : Acceptor} (arrival : Arrival a ec datagram sender b)
    (first : a.Greeting ec datagram → a.find sender = none →
      opens (a.fill datagram) (a.greetingConv datagram) sender)
    (again : a.Greeting ec datagram → ∀ c, a.find sender = some c → (a.conns c).state ≠ .idle →
      ∀ b, opens b (a.greetingConv datagram) sender) :
    (acceptorReceive ec datagram sender clock a).Meets (T.acting opens)
      (fun _ => Acceptor.Standing T) (Acceptor.Standing T) b := by
  have filled : (a.fill datagram).Standing T := standing_aside standing rfl rfl rfl
  simp only [acceptorReceive, Comp.bind_apply, Comp.get_apply, Prog.bind_ret, Comp.ite_apply,
    Comp.pure_apply, Comp.modify_apply]
  cases arrival with
  | passed c passing inside _ =>
      obtain ⟨⟨receiving, success⟩, valid, other, found⟩ := passing
      have started : ((a.fill datagram).serve true).Standing T := standing_aside filled rfl rfl rfl
      have lookup : (a.fill datagram).find sender = some c := found
      have settled := settled_entry started.settled c
        (.onReceive (a.fill datagram).buffer (receivedSize datagram) (a.fill datagram).now)
      have endpoint := (received_frame ((Acceptor.view c).get (a.fill datagram))
        (a.fill datagram).buffer (receivedSize datagram) (a.fill datagram).now).2.2.1
      have passed := connection_acting opens started inside endpoint
        (fun _ _ held => held) (fun _ thrown => thrown.1)
        (onReceive_meets _ (receivedSize datagram) _ settled)
      rw [if_neg (by simp [receiving, success]), if_neg (UInt8.not_le.mpr valid), if_neg other,
        lookup]
      have passes := meets_mono (fun _ b held => Beside.standing held)
        (fun b held => Beside.standing held) passed
      refine aside_acting (b := (Acceptor.view c).put ((a.fill datagram).serve true)
        ((a.fill datagram).deliver c (receivedSize datagram))) rfl rfl rfl rfl (Env.Grows.refl _)
        (service_acting (fun _ held => held) ?_ passes)
      exact fun _ => ⟨rfl, rfl, rfl, rfl⟩
  | ignored absent =>
      have ignores : (Prog.ret (a.fill datagram) () : Prog Acceptor Unit).Meets (T.acting opens)
          (fun _ => Acceptor.Standing T) (Acceptor.Standing T) a :=
        aside_returns filled rfl rfl rfl rfl
      split
      · exact ⟨.refl, standing⟩
      · rename_i runs
        have receiving : a.receiving = true ∧ ec = .success := by
          obtain ⟨running, valid⟩ := not_or.mp runs
          exact ⟨Bool.eq_true_of_not_eq_false running, Decidable.not_not.mp valid⟩
        split
        · exact ignores
        · rename_i valid
          split
          · rename_i greets
            split
            · rename_i matched
              have greeting : a.Greeting ec datagram := ⟨receiving, greets, matched⟩
              have answers := handshark_acting filled (a.greetingConv datagram) sender clock
                (first greeting) (again greeting)
              refine aside_acting (b := a.fill datagram) rfl rfl rfl rfl (Env.Grows.refl _)
                (meets_tryCatch _ (meets_mono (fun _ _ held => held) (fun b held => ?_) answers))
              exact ⟨.refl, held⟩
            · exact ignores
          · rename_i other
            cases found : (a.fill datagram).find sender with
            | none => exact ignores
            | some c =>
                exact absurd ⟨receiving, UInt8.not_le.mp valid, other, found⟩ (absent c)

theorem runAcceptorPosted_acting (standing : a.Standing T) (i : Nat) :
    (runAcceptorPosted i a).Meets (T.acting opens) (fun _ => Acceptor.Standing T)
      (Acceptor.Standing T) a := by
  simp only [runAcceptorPosted, Comp.bind_apply, Comp.get_apply, Prog.bind_ret]
  cases found : a.env.posted[i]? with
  | none => exact ⟨.refl, standing⟩
  | some task =>
      have taken : Acceptor.Standing T { a with
          env := { a.env with posted := a.env.posted.eraseIdx i } } :=
        standing_aside standing rfl rfl rfl
      refine aside_acting (b := { a with env := { a.env with posted := a.env.posted.eraseIdx i } })
        rfl rfl rfl rfl ⟨List.prefix_refl _, List.prefix_refl _, le_refl _, le_refl _⟩ ?_
      cases task with
      | completion c =>
          have recorded : Acceptor.Standing T { a with env := { a.env with
              posted := a.env.posted.eraseIdx i, invoked := a.env.invoked ++ [c] } } :=
            standing_aside standing rfl rfl rfl
          refine ⟨.single (.user (.aside rfl rfl rfl rfl ⟨List.prefix_refl _,
            List.prefix_append _ _, le_refl _, le_refl _⟩)), _, relies_standing, recorded, ?_⟩
          exact fun b standing => ⟨⟨.refl, standing⟩, fun _ => ⟨.refl, standing⟩⟩
      | checkReadOp c =>
          by_cases inside : c < a.created
          · have polled := connection_acting opens taken inside rfl (fun _ _ held => held)
              (fun _ thrown => thrown.1) (checkReadOp_settled (taken.settled c))
            rw [(Acceptor.view c).put_get] at polled
            exact meets_mono (fun _ b held => held.standing) (fun b held => held.standing) polled
          · -- nobody polls a connection that has not been made
            obtain ⟨readOp, writeOp⟩ := standing.unmade c (Nat.not_lt.mp inside)
            have quiet : checkReadOp .success ((Acceptor.view c).get
                { a with env := { a.env with posted := a.env.posted.eraseIdx i } }) = .ret _ () :=
              (checkReadOp_none readOp).trans (checkWriteOp_none writeOp)
            change (onConnection c (checkReadOp .success) _).Meets _ _ _ _
            rw [onConnection, Comp.zoom_apply, quiet, Prog.zoom, (Acceptor.view c).put_get]
            exact ⟨.refl, taken⟩

theorem runAcceptorEvent_acting (standing : a.Standing T) (e : AcceptorEvent) {b : Acceptor}
    (begins : Begins a (.event e) b)
    (first : ∀ ec datagram sender clock, e = .receive ec datagram sender clock →
      a.Greeting ec datagram → a.find sender = none →
      opens (a.fill datagram) (a.greetingConv datagram) sender)
    (again : ∀ ec datagram sender clock, e = .receive ec datagram sender clock →
      a.Greeting ec datagram → ∀ c, a.find sender = some c → (a.conns c).state ≠ .idle →
      ∀ b, opens b (a.greetingConv datagram) sender) :
    (runAcceptorEvent e a).Meets (T.acting opens) (fun _ => Acceptor.Standing T)
      (Acceptor.Standing T) b := by
  cases begins with
  | @arrival ec datagram sender clock _ arrival =>
      exact acceptorReceive_acting standing ec datagram sender clock arrival
        (first ec datagram sender clock rfl) (again ec datagram sender clock rfl)
  | silent other =>
      cases e with
      | receive ec datagram sender clock => exact absurd rfl (other ec datagram sender clock)
      | timer order now => exact doUpdate_acting standing order now
      | posted i => exact runAcceptorPosted_acting standing i

/-- A call of the user. -/
theorem runAcceptorCall_acting (k : AcceptorCall)
    (allowed : ∀ c call, k = .connection c call → T.calls call ((Acceptor.view c).get a))
    {P : Acceptor → Prop} (member : (T.acting opens).relies P) (holds : P a) :
    (runAcceptorCall k a).Meets (T.acting opens) (fun _ => P) P a := by
  obtain ⟨phases, J, steady, shape⟩ := member
  obtain ⟨phased, j⟩ := (shape a).mp holds
  -- what leaves the connections alone keeps the predicate
  have beside : ∀ {b d : Acceptor}, d.connections = b.connections → d.conns = b.conns →
      d.created = b.created → d.env.sent = b.env.sent → b.env.Grows d.env →
      b.phased T phases ∧ J b → (Prog.ret d () : Prog Acceptor Unit).Meets (T.acting opens)
        (fun _ => P) P b := by
    intro b d connections conns created sent grows held
    have act : UserAct T b d := .aside connections conns created sent grows
    refine ⟨.single (.user act), (shape d).mpr ⟨fun c => ?_, steady act held.2⟩⟩
    exact phase_of_control (held.1 c) (by simp only [Acceptor.view, conns])
      (by simp only [Acceptor.view, conns]) fun _ _ => by simp only [Acceptor.view, conns, and_self]
  cases k with
  | asyncAccept =>
      exact beside rfl rfl rfl rfl
        ⟨List.prefix_refl _, List.prefix_refl _, le_refl _, Nat.le_succ _⟩ ⟨phased, j⟩
  | connection c call =>
      simp only [runAcceptorCall, Comp.bind_apply, Comp.get_apply, Prog.bind_ret, Comp.ite_apply,
        Comp.pure_apply]
      split
      · rename_i inside
        have within : Steady T fun b => J b ∧ b.created = a.created := by
          intro b d act held
          refine ⟨steady act held.1, ?_⟩
          cases act with
          | act _ _ _ => exact held.2
          | aside _ _ created _ _ => exact created.trans held.2
        have lifts := acting_lifts opens within (c := c)
          (fun b held => by rw [held.2]; exact inside) phases
        have act : UserAct T a (a.serve false) := .aside rfl rfl rfl rfl (Env.Grows.refl _)
        have begins : (∀ d, d ≠ c → (phases d).Holds T
            ((Acceptor.view d).get ((Acceptor.view c).put (a.serve false)
              ((Acceptor.view c).get (a.serve false))))) ∧
            J ((Acceptor.view c).put (a.serve false) ((Acceptor.view c).get (a.serve false))) ∧
            ((Acceptor.view c).put (a.serve false)
              ((Acceptor.view c).get (a.serve false))).created = a.created := by
          rw [(Acceptor.view c).put_get]
          exact ⟨fun d _ => phased d, steady act j, rfl⟩
        have ran := meets_zoom lifts begins
          (runCall_phase (phases c) call (allowed c call rfl) (phased c))
        rw [(Acceptor.view c).put_get] at ran
        have back : ∀ b : Acceptor, (phases c).Holds T ((Acceptor.view c).get b) ∧
            (∀ d, d ≠ c → (phases d).Holds T ((Acceptor.view d).get b)) ∧ J b ∧
              b.created = a.created → b.phased T phases ∧ J b := by
          rintro b ⟨here, others, jb, _⟩
          refine ⟨fun d => ?_, jb⟩
          by_cases same : d = c
          · subst same
            exact here
          · exact others d same
        simp only [asUser, Comp.bind_apply, Comp.get_apply, Prog.bind_ret, Comp.modify_apply]
        refine aside_acting (b := a.serve false) rfl rfl rfl rfl (Env.Grows.refl _)
          (meets_bind _ (meets_tryCatch _ (meets_mono ?_ ?_ ran)))
        · exact fun _ b held => beside (b := b) rfl rfl rfl rfl (Env.Grows.refl _) (back b held)
        · intro b held
          have after := beside (b := b) (d := b.serve a.serving) rfl rfl rfl rfl (Env.Grows.refl _)
            (back b held)
          exact ⟨after.1, after.2⟩
      · exact ⟨.refl, holds⟩

end Functions

/-! ## Runs -/

section Runs
variable {T : Terms} {opens : Acceptor → UInt32 → Endpoint → Prop}

/-- A configuration of the acceptor whose code takes only acts. -/
def Acting (T : Terms) (opens : Acceptor → UInt32 → Endpoint → Prop) (c : Config Acceptor) : Prop :=
  c.Meets (T.acting opens) (Acceptor.Standing T)

/-- Which connections a step may come to create. -/
structure Opens (opens : Acceptor → UInt32 → Endpoint → Prop) (a : Acceptor)
    (label : Label AcceptorEvent AcceptorCall) : Prop where
  first : ∀ ec datagram sender clock, label = .event (.receive ec datagram sender clock) →
    a.Greeting ec datagram → a.find sender = none →
    opens (a.fill datagram) (a.greetingConv datagram) sender
  again : ∀ ec datagram sender clock, label = .event (.receive ec datagram sender clock) →
    a.Greeting ec datagram → ∀ c, a.find sender = some c → (a.conns c).state ≠ .idle →
    ∀ b, opens b (a.greetingConv datagram) sender

theorem begins_exists {a : Acceptor} (label : Label AcceptorEvent AcceptorCall)
    (registry : ∀ e, label = .event e → a.Registry) : ∃ b, Begins a label b := by
  by_cases receives : ∃ ec datagram sender clock, label = .event (.receive ec datagram sender clock)
  · obtain ⟨ec, datagram, sender, clock, rfl⟩ := receives
    have registry := registry _ rfl
    by_cases passing : ∃ c, a.Passing ec datagram sender c
    · obtain ⟨c, passing⟩ := passing
      have entry := find_mem passing.2.2.2
      exact ⟨_, .arrival (.passed c passing (registry.made _ entry) (registry.own _ entry))⟩
    · exact ⟨a, .arrival (.ignored fun c passes => passing ⟨c, passes⟩)⟩
  · exact ⟨a, .silent fun ec datagram sender clock same =>
      receives ⟨ec, datagram, sender, clock, same⟩⟩

/-- A step of the acceptor is the arrival of its datagram, if it has one, and acts. -/
theorem acting_step {c c' : Config Acceptor} {label : Label AcceptorEvent AcceptorCall}
    (acting : Acting T opens c) (serves : T.Serves False c label)
    (opened : c.state.Registry → Opens opens c.state label)
    (stepped : acceptorSystem.step c label = some c') :
    ∃ b, Begins c.state label b ∧ ReflTransGen (AcceptorAct T opens) b c'.state ∧
      Acting T opens c' := by
  have registry : ∀ e, label = .event e → c.state.Registry := by
    rintro e rfl
    exact (meets_bottom acting (step_event stepped).1).registry
  obtain ⟨b, begins⟩ := begins_exists label registry
  refine ⟨b, begins, step_meets acceptorSystem b ?_ acting stepped ?_ ?_ ?_⟩
  · exact ⟨fun unwinds => (serves.passes unwinds).1,
      fun b isAnswer must => serves.answers b isAnswer (Or.inl must)⟩
  · intro other
    cases begins with
    | arrival _ => exact absurd rfl (other _)
    | silent _ => rfl
  · rintro e rfl standing
    have opened := opened standing.registry
    refine ⟨relies_standing, runAcceptorEvent_acting standing e begins ?_ ?_⟩
    · rintro ec datagram sender clock rfl
      exact opened.first ec datagram sender clock rfl
    · rintro ec datagram sender clock rfl
      exact opened.again ec datagram sender clock rfl
  · rintro k P rfl member holds
    exact runAcceptorCall_acting k (fun i call same => serves.calls i call (congrArg _ same))
      member holds

theorem acting_start (T : Terms) (opens : Acceptor → UInt32 → Endpoint → Prop) (magic : List UInt8)
    (now : Int) (streambufs : Nat → StreamBuf) :
    Acting T opens (acceptorStart magic now streambufs) :=
  idle_meets relies_standing ⟨start_settled T magic now streambufs,
    ⟨List.nodup_nil, fun _ member => absurd member List.not_mem_nil,
      fun _ member => absurd member List.not_mem_nil⟩, fun _ _ => ⟨rfl, rfl⟩⟩

end Runs

end AsioKcp
