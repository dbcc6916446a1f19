import AsioKcp.Connection.Framing
import AsioKcp.Hosting.System
import AsioKcp.Pair.Integrity

/-! # The streams of one client among many

What the acceptor does to the session of the guest is what the code of a lone
connection does to it, and what it does to the others changes neither that
connection nor what has been sent to the guest.  So the books of a pair hold for
the two, in the middle of all other traffic. -/
set_option autoImplicit false

namespace AsioKcp

open AsioKcp.Ikcp AsioKcp.Callback AsioKcp.Machine Relation

/-! ## What is sent to one endpoint -/

section Mail
variable {endpoint : Endpoint} {sent more : List Datagram}

theorem mailTo_own (own : ∀ d ∈ more, d.dest = endpoint) :
    mailTo endpoint (sent ++ more) = mailTo endpoint sent ++ more := by
  rw [mailTo, List.filter_append]
  congr 1
  exact List.filter_eq_self.mpr fun d member => decide_eq_true (own d member)

theorem mailTo_other (other : ∀ d ∈ more, d.dest ≠ endpoint) :
    mailTo endpoint (sent ++ more) = mailTo endpoint sent := by
  have none : more.filter (fun d => d.dest = endpoint) = [] :=
    List.filter_eq_nil_iff.mpr fun d member => by simpa using other d member
  rw [mailTo, List.filter_append, none, List.append_nil]
  rfl

theorem dataDatagrams_dest (dest : Endpoint) (datagrams : List (List UInt8)) :
    ∀ d ∈ dataDatagrams dest datagrams, d.dest = dest :=
  fun d member => (unanswering_data dest datagrams d member).1

end Mail

/-- The connection, with what has been sent to the endpoint alone. -/
def Local.toward (l : Local) (endpoint : Endpoint) : Local :=
  { l with env := { l.env with sent := mailTo endpoint l.env.sent } }

/-- The user of the guest's session is that of a pair; the others are free. -/
def Handshake.terms (h : Handshake) : Terms where
  strict := False
  reliable := False
  calls k l := l.conn.endpoint = h.client → k.Proper (· < 2 ^ 32) l
  closes := False.elim

section Toward
variable {h : Handshake} {l l' : Local}

theorem pollRead_toward (ec : ErrorCode) (op : ReadOperation) (l : Local) (endpoint : Endpoint) :
    (pollRead ec op l).2.toward endpoint = (pollRead ec op (l.toward endpoint)).2 := by
  unfold pollRead
  split_ifs with failed
  · rfl
  · cases op with
    | readSome handler size =>
        dsimp only [Local.toward]
        split_ifs <;> rfl
    | read handler buffer need =>
        have drained : (l.toward endpoint).drained buffer = l.drained buffer := rfl
        dsimp only
        rw [drained]
        by_cases full : (l.drained buffer).2.2.2 = true
        · rw [if_pos full, if_pos full]
          rfl
        · rw [if_neg full, if_neg full]
          by_cases enough : (l.drained buffer).2.1.data.length ≥ need
          · rw [if_pos enough, if_pos enough]
            rfl
          · rw [if_neg enough, if_neg enough]
            rfl

/-- An act of the guest's session is one of a pair. -/
theorem act_toward (act : Act h.terms l l') (own : l.conn.endpoint = h.client) :
    Act pairTerms (l.toward h.client) (l'.toward h.client) := by
  have proper : ∀ {k : Call}, h.terms.calls k l → pairTerms.calls k (l.toward h.client) := by
    intro k allowed
    have proper := allowed own
    cases k <;> exact proper
  cases act with
  | refuseRead refused => exact .refuseRead (l := l.toward h.client) refused
  | readSome size allowed free opened =>
      exact .readSome (l := l.toward h.client) size (proper allowed) free opened
  | read buffer need allowed free opened =>
      exact .read (l := l.toward h.client) buffer need (proper allowed) free opened
  | refuseWrite refused => exact .refuseWrite (l := l.toward h.client) refused
  | messageSize buffer allowed free opened refused =>
      exact .messageSize (l := l.toward h.client) buffer (proper allowed) free opened refused
  | write buffer allowed free opened ok =>
      exact .write (l := l.toward h.client) buffer (proper allowed) free opened ok
  | writePending buffer allowed free opened ok =>
      exact .writePending (l := l.toward h.client) buffer (proper allowed) free opened ok
  | streambuf id content => exact .streambuf (l := l.toward h.client) id content
  | pollRead ec op pending closed opened =>
      rw [pollRead_toward]
      exact .pollRead (l := l.toward h.client) ec op pending closed opened
  | pollWrite ec handler pending ready closed opened =>
      exact .pollWrite (l := l.toward h.client) ec handler pending ready closed opened
  | beginClose opened =>
      have begun : l.beginClose.toward h.client = (l.toward h.client).beginClose := by
        simp only [Local.beginClose, flush_eq, Local.toward]
        rw [mailTo_own (own ▸ dataDatagrams_dest _ _)]
      rw [begun]
      exact .beginClose (l := l.toward h.client) opened
  | disconnect closed unsent =>
      have ended : l.disconnect.toward h.client = (l.toward h.client).disconnect := by
        have mine : ∀ d ∈ [(⟨l.conn.endpoint, opcodeDisconnect :: List.replicate 32 0⟩ : Datagram)],
            d.dest = h.client := by simp [own]
        simp only [Local.disconnect, Local.toward, Env.send]
        rw [mailTo_own mine]
        rfl
      rw [ended]
      exact .disconnect (l := l.toward h.client) closed unsent
  | armReceive opened => exact .armReceive (l := l.toward h.client) opened

theorem update_toward (own : l.conn.endpoint = h.client) (now : Int) :
    (l.update now).toward h.client = (l.toward h.client).update now := by
  rw [update_eq, update_eq]
  simp only [Local.toward]
  rw [mailTo_own (own ▸ dataDatagrams_dest _ _)]

theorem received_toward (l : Local) (data : List UInt8) (size : Nat) (t : Int)
    (endpoint : Endpoint) :
    (l.received data size t).toward endpoint = (l.toward endpoint).received data size t := by
  unfold Local.received
  by_cases short : size < 24
  · rw [if_pos short, if_pos short]
  · rw [if_neg short, if_neg short]
    by_cases push : data.getD 0 0 = opcodeData
    · simp only [if_pos push]
      rfl
    · simp only [if_neg push]
      rfl

/-- What another connection does, nobody sees at the endpoint. -/
theorem mailTo_onward {endpoint : Endpoint} (onward : Onward l l')
    (other : l.conn.endpoint ≠ endpoint) :
    mailTo endpoint l'.env.sent = mailTo endpoint l.env.sent := by
  obtain ⟨more, sent, dest⟩ := onward.sent
  rw [sent]
  apply mailTo_other
  intro d member
  rw [(dest d member).1]
  exact other

end Toward

/-! ## The guest's session -/

/-- The connection of the guest: the only one with its endpoint, or one that its
handshake would make, if there is none. -/
inductive Acceptor.Session (a : Acceptor) (h : Handshake) : Connection → Prop
  | awaited (this : Nat) (clock : Int) :
      (∀ c, c < a.created → (a.conns c).endpoint ≠ h.client) →
      a.Session h (.make this h.conv h.client true clock)
  | met (c : Nat) : c < a.created → (a.conns c).endpoint = h.client →
      (∀ d, d < a.created → (a.conns d).endpoint = h.client → d = c) → a.Session h (a.conns c)

/-- It with what has been sent to the guest. -/
def Acceptor.seen (a : Acceptor) (h : Handshake) (conn : Connection) : Local :=
  Local.toward ⟨conn, a.env⟩ h.client

/-- A handshake of the guest makes the first connection of its endpoint. -/
def Handshake.opens (h : Handshake) (a : Acceptor) (conv : UInt32) (endpoint : Endpoint) : Prop :=
  endpoint = h.client → conv = h.conv ∧ ∀ c, c < a.created → (a.conns c).endpoint ≠ h.client

/-- The session of the guest in the middle of a step. -/
def Hosted (h : Handshake) (p start : Tally) (n : Nat) (a : Acceptor) : Prop :=
  ∃ conn, a.Session h conn ∧ Midway h.conv p start n (a.seen h conn)

section Hosted
variable {h : Handshake} {p start : Tally} {n : Nat} {a b : Acceptor}

theorem Acceptor.Session.congr {conn : Connection} (session : a.Session h conn)
    (conns : b.conns = a.conns) (created : b.created = a.created) : b.Session h conn := by
  cases session with
  | awaited this clock none =>
      refine .awaited this clock fun c inside => ?_
      rw [conns]
      exact none c (created ▸ inside)
  | met c inside own unique =>
      rw [← conns] at own ⊢
      refine .met c (created ▸ inside) own fun d made same => ?_
      rw [conns] at same
      exact unique d (created ▸ made) same

/-- Nothing happens to the connections, or to what has been sent to the guest. -/
theorem Hosted.congr (hosted : Hosted h p start n a) (conns : b.conns = a.conns)
    (created : b.created = a.created)
    (mail : mailTo h.client b.env.sent = mailTo h.client a.env.sent) : Hosted h p start n b := by
  obtain ⟨conn, session, kept⟩ := hosted
  exact ⟨conn, session.congr conns created, kept.of_same rfl rfl rfl mail (Or.inl rfl)⟩

/-- Another connection goes on. -/
theorem Hosted.other (hosted : Hosted h p start n a) {c : Nat} {l : Local}
    (other : (a.conns c).endpoint ≠ h.client) (same : l.conn.endpoint = (a.conns c).endpoint)
    (mail : mailTo h.client l.env.sent = mailTo h.client a.env.sent) :
    Hosted h p start n ((Acceptor.view c).put a l) := by
  have endpoint : ∀ d, (((Acceptor.view c).put a l).conns d).endpoint = (a.conns d).endpoint := by
    intro d
    simp only [Acceptor.view]
    by_cases here : d = c
    · subst here
      rw [Function.update_self]
      exact same
    · rw [Function.update_of_ne here]
  obtain ⟨conn, session, kept⟩ := hosted
  cases session with
  | awaited this clock none =>
      refine ⟨_, .awaited this clock fun d inside => ?_, kept.of_same rfl rfl rfl mail (Or.inl rfl)⟩
      rw [endpoint]
      exact none d inside
  | met d inside own unique =>
      have apart : d ≠ c := by
        rintro rfl
        exact other own
      have same : ((Acceptor.view c).put a l).conns d = a.conns d := Function.update_of_ne apart _ _
      refine ⟨_, .met d inside ((endpoint d).trans own) fun e made same => ?_, ?_⟩
      · rw [endpoint] at same
        exact unique e made same
      · rw [same]
        exact kept.of_same rfl rfl rfl mail (Or.inl rfl)

/-- The session of the guest goes on. -/
theorem Hosted.own (hosted : Hosted h p start n a) {c : Nat} {l : Local} (inside : c < a.created)
    (own : (a.conns c).endpoint = h.client) (endpoint : l.conn.endpoint = (a.conns c).endpoint)
    (moves : Midway h.conv p start n (((Acceptor.view c).get a).toward h.client) →
      Midway h.conv p start n (l.toward h.client)) :
    Hosted h p start n ((Acceptor.view c).put a l) := by
  obtain ⟨conn, session, kept⟩ := hosted
  cases session with
  | awaited _ _ none => exact absurd own (none c inside)
  | met d _ _ unique =>
      obtain rfl := unique c inside own
      have here : ((Acceptor.view c).put a l).conns c = l.conn := Function.update_self _ _ _
      refine ⟨_, .met c inside ?_ fun e made same => ?_, ?_⟩
      · rw [here]
        exact endpoint.trans own
      · by_contra apart
        have there : ((Acceptor.view c).put a l).conns e = a.conns e :=
          Function.update_of_ne apart _ _
        rw [there] at same
        exact apart (unique e made same)
      · rw [here]
        exact moves kept

/-- An answer to a handshake is no datagram of data. -/
theorem Hosted.answered (hosted : Hosted h p start n a) (c : Nat) :
    Hosted h p start n (a.answered c) := by
  obtain ⟨conn, session, t, later, within, books⟩ := hosted
  have silent : ∀ d ∈ mailTo h.client (a.answered c).env.sent,
      d ∈ mailTo h.client a.env.sent ∨ d.bytes.head? ≠ some opcodeData := by
    intro d member
    obtain ⟨member, own⟩ := List.mem_filter.mp member
    rcases List.mem_append.mp member with old | new
    · exact Or.inl (List.mem_filter.mpr ⟨old, own⟩)
    · rw [List.mem_singleton.mp new]
      exact Or.inr (show some opcodeHandsharkResponse ≠ some opcodeData by decide)
  refine ⟨conn, session.congr rfl rfl, t, later, within, books.ledger,
    fun d member bytes shape => ?_, books.fits⟩
  rcases silent d member with old | other
  · exact books.sent d old bytes shape
  · rw [shape] at other
    exact absurd rfl other

/-- A new connection is the one that the guest has been waiting for, or another's. -/
theorem Hosted.create (hosted : Hosted h p start n a) {conv : UInt32} {endpoint : Endpoint}
    (clock : Int) (opened : h.opens a conv endpoint) :
    Hosted h p start n (a.create conv endpoint clock) := by
  have fresh : (a.create conv endpoint clock).conns a.created =
      .make a.created conv endpoint true clock := Function.update_self _ _ _
  have older : ∀ d, d < a.created → (a.create conv endpoint clock).conns d = a.conns d :=
    fun d inside => Function.update_of_ne inside.ne _ _
  obtain ⟨conn, session, kept⟩ := hosted
  by_cases guest : endpoint = h.client
  · obtain ⟨rfl, none⟩ := opened guest
    cases session with
    | met c inside own _ => exact absurd own (none c inside)
    | awaited this clock' _ =>
        refine ⟨_, .met a.created (Nat.lt_succ_self _) ?_ fun d made same => ?_, ?_⟩
        · rw [fresh]
          exact guest
        · by_contra apart
          have inside : d < a.created := Nat.lt_of_le_of_ne (Nat.le_of_lt_succ made) apart
          rw [older d inside] at same
          exact none d inside same
        · rw [fresh, guest]
          exact kept.of_same rfl rfl rfl rfl (Or.inl rfl)
  · have apart : ∀ d, d < a.created + 1 →
        ((a.create conv endpoint clock).conns d).endpoint = h.client → d < a.created := by
      intro d made same
      by_contra beyond
      have last : d = a.created := by omega
      rw [last, fresh] at same
      exact guest same
    cases session with
    | awaited this clock' none =>
        refine ⟨_, .awaited this clock' fun d made same => ?_, kept⟩
        have inside := apart d made same
        rw [older d inside] at same
        exact none d inside same
    | met c inside own unique =>
        refine ⟨_, .met c (Nat.lt_succ_of_lt inside) ?_ fun d made same => ?_, ?_⟩
        · rw [older c inside]
          exact own
        · have inside := apart d made same
          rw [older d inside] at same
          exact unique d inside same
        · rw [older c inside]
          exact kept

/-- One act of the acceptor. -/
theorem hosted_act (few : n < 2 ^ 31) (peerFew : p.out.length < 2 ^ 31)
    (act : AcceptorAct h.terms h.opens a b) (hosted : Hosted h p start n a) :
    Hosted h p start n b := by
  cases act with
  | user act =>
      cases act with
      | @act l c inside act =>
          by_cases own : (a.conns c).endpoint = h.client
          · exact hosted.own inside own (act_onward act).endpoint
              (midway_act few peerFew (act_toward act own))
          · exact hosted.other own (act_onward act).endpoint (mailTo_onward (act_onward act) own)
      | aside _ conns created sent _ => exact hosted.congr conns created (by rw [sent])
  | update c now inside =>
      have onward := update_onward ((Acceptor.view c).get a) now
      by_cases own : (a.conns c).endpoint = h.client
      · refine hosted.own inside own onward.endpoint fun kept => ?_
        rw [update_toward own, update_eq]
        exact kept.flushed rfl rfl rfl fun within ledger =>
          ledger_updateEffect (l := ((Acceptor.view c).get a).toward h.client) few within ledger now
      · exact hosted.other own onward.endpoint (mailTo_onward onward own)
  | erase endpoint c pending => exact hosted.congr rfl rfl rfl
  | answer c _ => exact hosted.answered c
  | create conv endpoint clock opened => exact hosted.create clock opened

theorem hosted_acts (few : n < 2 ^ 31) (peerFew : p.out.length < 2 ^ 31)
    (acts : ReflTransGen (AcceptorAct h.terms h.opens) a b) (hosted : Hosted h p start n a) :
    Hosted h p start n b := by
  induction acts with
  | refl => exact hosted
  | tail _ act ih => exact hosted_act few peerFew act ih

end Hosted

/-! ## The books -/

/-- The session and the guest keep books against each other. -/
structure HostingBooks (h : Handshake) (t p : Tally) (q : Hosting) : Prop where
  session : ∃ conn, q.acceptor.state.Session h conn ∧
    Books h.conv p t (q.acceptor.state.seen h conn)
  guest : Books h.conv t p q.guest.state
  count : Countable t
  guest_count : Countable p
  acting : Acting h.terms h.opens q.acceptor
  keeps : Keeps pairTerms q.guest

section Books
variable {h : Handshake} {t p : Tally} {q : Hosting}

theorem Handshake.Modest.session (modest : h.Modest q) {conn : Connection}
    (session : q.acceptor.state.Session h conn) : Few (q.acceptor.state.seen h conn) := by
  cases session with
  | awaited this clock _ => exact show (0 : UInt32).toNat < 2 ^ 31 by decide
  | met c inside own _ => exact modest.1 c inside own

theorem HostingBooks.few (books : HostingBooks h t p q) (modest : h.Modest q) :
    t.out.length < 2 ^ 31 ∧ p.out.length < 2 ^ 31 := by
  obtain ⟨conn, session, own⟩ := books.session
  exact ⟨few_of_countable own books.count (modest.session session),
    few_of_countable books.guest books.guest_count modest.2⟩

theorem host_serves {label : Label AcceptorEvent AcceptorCall} (allowed : h.Host q label) :
    h.terms.Serves False q.acceptor label where
  passes := fun _ => ⟨id, fun guarded => guarded.1⟩
  answers := fun _ _ must => (must.elim id fun guarded => guarded.1).elim
  calls := by
    rintro c k rfl own
    exact allowed own

/-- The handshake of the guest makes its first connection, or none. -/
theorem host_opens {label : Label AcceptorEvent AcceptorCall} (registry : q.acceptor.state.Registry)
    (allowed : h.Host q label) : Opens h.opens q.acceptor.state label where
  first := by
    rintro ec datagram sender clock rfl greeting absent guest
    obtain ⟨conv, expects⟩ := (allowed greeting.1.2 guest).1 greeting
    refine ⟨conv, fun c inside own => ?_⟩
    exact find_none absent (List.mem_map.mpr ⟨_, (expects c inside own).2, guest.symm⟩)
  again := by
    rintro ec datagram sender clock rfl greeting c found opened b guest
    obtain ⟨_, expects⟩ := (allowed greeting.1.2 guest).1 greeting
    have entry := find_mem found
    have own := registry.own _ entry
    exact absurd (expects c (registry.made _ entry) (own.trans guest)).1 opened

/-- The state in which a step of the acceptor begins: a datagram of the guest has
arrived at its session, or one of another endpoint elsewhere. -/
theorem hosted_begins {label : Label AcceptorEvent AcceptorCall} {b : Acceptor}
    (books : HostingBooks h t p q) (modest : h.Modest q) (allowed : h.Host q label)
    (fits : ∀ d ∈ q.guest.state.env.sent, d.bytes.length ≤ 2048)
    (begins : Begins q.acceptor.state label b) : Hosted h p t t.out.length b := by
  obtain ⟨few, peerFew⟩ := books.few modest
  obtain ⟨conn, session, own⟩ := books.session
  have within : t.Within t.out.length := ⟨own.ledger.sending.head_le_length, Or.inl (Nat.le_refl _)⟩
  have hosted : Hosted h p t t.out.length q.acceptor.state :=
    ⟨conn, session, t, .refl t, within, own⟩
  cases begins with
  | silent _ => exact hosted
  | @arrival ec datagram sender clock _ arrival =>
      cases arrival with
      | ignored _ => exact hosted
      | passed c passing inside isSender =>
          have filled : Hosted h p t t.out.length (q.acceptor.state.fill datagram) :=
            hosted.congr rfl rfl rfl
          have frame := received_frame ((Acceptor.view c).get (q.acceptor.state.fill datagram))
            (q.acceptor.state.fill datagram).buffer (receivedSize datagram)
            (q.acceptor.state.fill datagram).now
          by_cases guest : sender = h.client
          · have ungreeting : ¬ q.acceptor.state.Greeting ec datagram :=
              fun greeting => passing.2.2.1 greeting.2.1
            obtain ⟨d, isSent, rfl⟩ := (allowed passing.1.2 guest).2 ungreeting
            have short := fits d isSent
            have size : receivedSize d.bytes = d.bytes.length := Nat.min_eq_left short
            have front : d.bytes <+: (q.acceptor.state.fill d.bytes).buffer := by
              simp only [Acceptor.fill]
              rw [List.take_of_length_le short]
              exact List.prefix_append _ _
            refine filled.own inside (isSender.trans guest) frame.2.2.1 fun _ => ?_
            cases session with
            | awaited _ _ none => exact absurd (isSender.trans guest) (none c inside)
            | met e _ _ unique =>
                obtain rfl := unique c inside (isSender.trans guest)
                change Midway h.conv p t t.out.length (Local.toward (Local.received
                  ((Acceptor.view c).get (q.acceptor.state.fill d.bytes))
                  (q.acceptor.state.fill d.bytes).buffer (receivedSize d.bytes)
                  (q.acceptor.state.fill d.bytes).now) h.client)
                rw [received_toward]
                exact midway_entry few peerFew
                  (fun i has => books.guest.ledger.receiving.has_below has) books.guest.sent
                  (.onReceive (q.acceptor.state.fill d.bytes).buffer (receivedSize d.bytes)
                    (q.acceptor.state.fill d.bytes).now)
                  ⟨d, isSent, front, size⟩ own
          · refine filled.other (fun same => guest (isSender.symm.trans same)) frame.2.2.1 ?_
            exact congrArg (fun env => mailTo h.client env.sent) frame.2.2.2

/-- One step of the acceptor. -/
theorem hostingBooks_host {label : Label AcceptorEvent AcceptorCall} {c : Config Acceptor}
    (books : HostingBooks h t p q) (modest : h.Modest q) (allowed : h.Host q label)
    (fits : ∀ d ∈ q.guest.state.env.sent, d.bytes.length ≤ 2048)
    (stepped : acceptorSystem.step q.acceptor label = some c) :
    ∃ t', HostingBooks h t' p ⟨c, q.guest⟩ := by
  obtain ⟨few, peerFew⟩ := books.few modest
  obtain ⟨b, begins, acts, acting⟩ := acting_step books.acting (host_serves allowed)
    (fun registry => host_opens registry allowed) stepped
  obtain ⟨conn, session, t', later, ⟨low, high⟩, own⟩ :=
    hosted_acts few peerFew acts (hosted_begins books modest allowed fits begins)
  refine ⟨t', ⟨conn, session, own⟩, ?_, ?_, books.guest_count, acting, books.keeps⟩
  · exact ⟨books.guest.ledger.peer_later later, books.guest.sent, books.guest.fits⟩
  · unfold Countable
    omega

/-- One step of the guest. -/
theorem hostingBooks_guest {label : Label Event Call} {c : Config Local}
    (books : HostingBooks h t p q) (modest : h.Modest q) (allowed : h.Guest q label)
    (stepped : connectionSystem.step q.guest label = some c) :
    ∃ p', HostingBooks h t p' ⟨q.acceptor, c⟩ := by
  obtain ⟨few, peerFew⟩ := books.few modest
  obtain ⟨carried, proper⟩ := allowed
  obtain ⟨conn, session, own⟩ := books.session
  have known : ∀ i, t.has i → i < p.out.length :=
    fun i has => own.ledger.receiving.has_below has
  have allows : pairTerms.Allows q.guest label := by
    refine ⟨fun _ => id, fun _ _ => False.elim, fun k isCall => ?_⟩
    rw [isCall] at proper
    exact proper
  obtain ⟨acts, keeps⟩ := keeps_step books.keeps allows stepped
  have within : p.Within p.out.length :=
    ⟨books.guest.ledger.sending.head_le_length, Or.inl (Nat.le_refl _)⟩
  have begins : Midway h.conv t p p.out.length (begun label q.guest.state) := by
    cases label with
    | event e => exact midway_entry peerFew few known own.sent e carried books.guest
    | _ => exact ⟨p, .refl p, within, books.guest⟩
  obtain ⟨p', later, ⟨low, high⟩, after⟩ :=
    acts_invariant (midway_act peerFew few) acts begins
  refine ⟨p', ⟨conn, session, ?_, own.sent, own.fits⟩, after, books.count, ?_, books.acting, keeps⟩
  · exact own.ledger.peer_later later
  · unfold Countable
    omega

end Books

/-! ## Runs -/

section Runs
variable {h : Handshake} {magic : List UInt8} {q : Hosting}

/-- The guest runs as a connection of its own. -/
theorem hosting_guest {p : Hosting} (run : Hosting.Run h p q) :
    connectionSystem.Steps (fun _ _ => True) p.guest q.guest := by
  induction run with
  | refl => exact .refl
  | host label _ _ _ _ ih => exact ih
  | guest label _ _ _ stepped ih => exact .tail label ih trivial stepped

/-- What the guest sends fits the buffer of `do_receive`. -/
theorem guest_fits (run : Hosting.Run h (h.hosting magic) q) :
    ∀ d ∈ q.guest.state.env.sent, d.bytes.length ≤ 2048 := by
  intro d member
  have emitted := run_emits (served_lasting h.conv) flush_carried
    (.client h.server h.clientNow h.clientStreambufs) (served_init h.conv) (hosting_guest run) d member
  rcases emitted with ⟨bytes, shape, group, rfl, _, _, short⟩ | shape
  · rw [shape, List.length_cons]
    omega
  · rw [shape]
    decide

theorem run_hostingBooks (run : Hosting.Run h (h.hosting magic) q) :
    ∃ t p, HostingBooks h t p q := by
  induction run with
  | refl =>
      have nobody : ∀ c, c < (h.hosting magic).acceptor.state.created →
          ((h.hosting magic).acceptor.state.conns c).endpoint ≠ h.client :=
        fun c inside => absurd inside (Nat.not_lt_zero c)
      exact ⟨.start, .start, ⟨_, .awaited 0 0 nobody, books_start rfl rfl rfl rfl rfl⟩,
        books_start rfl rfl rfl rfl rfl, by unfold Countable; decide, by unfold Countable; decide,
        acting_start _ _ magic h.serverNow h.serverStreambufs,
        (Started.client h.server h.clientNow h.clientStreambufs).keeps pairTerms⟩
  | host label before modest allowed stepped ih =>
      obtain ⟨t, p, books⟩ := ih
      obtain ⟨t', after⟩ := hostingBooks_host books modest allowed (guest_fits before) stepped
      exact ⟨t', p, after⟩
  | guest label _ modest allowed stepped ih =>
      obtain ⟨t, p, books⟩ := ih
      obtain ⟨p', after⟩ := hostingBooks_guest books modest allowed stepped
      exact ⟨t, p', after⟩

/-- What the guest and the acceptor have of each other. -/
structure Hosting.Whole (h : Handshake) (q : Hosting) : Prop where
  one : ∀ c d, c < q.acceptor.state.created → d < q.acceptor.state.created →
    (q.acceptor.state.conns c).endpoint = h.client →
    (q.acceptor.state.conns d).endpoint = h.client → c = d
  conv : ∀ c, c < q.acceptor.state.created → (q.acceptor.state.conns c).endpoint = h.client →
    (q.acceptor.state.conns c).obj.conv = h.conv
  intact : ∀ c, c < q.acceptor.state.created → (q.acceptor.state.conns c).endpoint = h.client →
    Intact q.guest.state.conn (q.acceptor.state.conns c) ∧
      Intact (q.acceptor.state.conns c) q.guest.state.conn
  unheard : (∀ c, c < q.acceptor.state.created → (q.acceptor.state.conns c).endpoint ≠ h.client) →
    q.guest.state.conn.delivered = []

/-- Whatever arrives from the other endpoints and whatever their users do: the
acceptor has one connection of the guest at most, and both streams between that
and the guest are whole. -/
theorem guest_streams (run : Hosting.Run h (h.hosting magic) q) : q.Whole h := by
  obtain ⟨t, p, books⟩ := run_hostingBooks run
  obtain ⟨conn, session, own⟩ := books.session
  have outward := intact_of_books books.guest own
  have inward := intact_of_books own books.guest
  cases session with
  | awaited this clock none =>
      exact {
        one := fun c _ inside _ same _ => absurd same (none c inside)
        conv := fun c inside same => absurd same (none c inside)
        intact := fun c inside same => absurd same (none c inside)
        unheard := fun _ => List.prefix_nil.mp inward.ordered }
  | met c inside mine unique =>
      have conv : (q.acceptor.state.conns c).obj.conv = h.conv := own.ledger.suited.conv_eq
      exact {
        one := fun d e made made' same same' => (unique d made same).trans (unique e made' same').symm
        conv := by
          intro d made same
          obtain rfl := unique d made same
          exact conv
        intact := by
          intro d made same
          obtain rfl := unique d made same
          exact ⟨outward, inward⟩
        unheard := fun none => absurd mine (none c inside) }

end Runs

/-- A neighbour has shaken hands before the guest, whose byte arrives between two
datagrams of the neighbour. -/
def neighbourFirst : List HostingLabel :=
  let datagram := opcodeData :: encodeSegs [{ ikcpSegmentNew 0 [42] with
    conv := 7, cmd := ikcpCmdPush, wnd := 256 }]
  [.host (.call .asyncAccept), .host (.call .asyncAccept),
    .host (.event (.receive .success hello neighbour 0)), .host .back,
    .host (.event (.receive .success hello loopback 0)), .host .back,
    .guest (.call (.asyncWrite [42])), .guest (.event (.update 0)),
    .host (.event (.receive .success gapDatagram neighbour 0)),
    .host (.event (.receive .success datagram loopback 0)),
    .host (.event (.receive .success (opcodeDisconnect :: List.replicate 32 0) neighbour 0)),
    .host (.answer true),
    .host (.call (.connection 1 (.asyncReadSome 8))), .host (.event (.posted 0)), .host .back]

theorem guest_streams_byte : ∃ q, Hosting.Run localPair (localPair.hosting []) q ∧
    (q.acceptor.state.conns 1).delivered = [42] ∧ q.Whole localPair := by
  obtain ⟨q, run, delivered⟩ := hosting_checked localPair (localPair.hosting []) neighbourFirst
    (fun q => (q.acceptor.state.conns 1).delivered == [42]) (by decide)
  exact ⟨q, run, eq_of_beq delivered, guest_streams run⟩

end AsioKcp
