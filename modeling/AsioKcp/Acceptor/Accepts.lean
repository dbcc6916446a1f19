import AsioKcp.Acceptor.Runs

/-! # The accept handlers

Handshakes of remote peers take the operations that `async_accept` queues. -/
set_option autoImplicit false

namespace AsioKcp

open AsioKcp.Ikcp AsioKcp.Callback AsioKcp.Machine AsioKcp.Bytes

theorem Terms.any_serves (c : Config Acceptor) (label : Label AcceptorEvent AcceptorCall) :
    Terms.any.Serves False c label :=
  ⟨fun _ => ⟨id, fun h => h.1⟩, fun _ _ h => (h.elim id And.left).elim, fun _ _ _ => trivial⟩

/-! ## The queue of accept operations -/

/-- `front` is never called on an empty queue, and the accept handlers run so far
are those of the first calls of `async_accept`, in order and each once. -/
structure AcceptsInOrder (a : Acceptor) : Prop where
  nonempty : a.emptyFront = false
  order : a.acceptCalls = a.accepts.map Prod.fst ++ a.acceptOps
  once : a.acceptCalls.Nodup

def QueueSafe (a : Acceptor) : Prop :=
  AcceptsInOrder a ∧ ∀ handler ∈ a.acceptCalls, handler < a.env.nextHandler

theorem queueSafe_frame {a b : Acceptor} (safe : QueueSafe a) (empty : b.emptyFront = a.emptyFront)
    (calls : b.acceptCalls = a.acceptCalls) (accepts : b.accepts = a.accepts)
    (ops : b.acceptOps = a.acceptOps) (next : a.env.nextHandler ≤ b.env.nextHandler) :
    QueueSafe b := by
  obtain ⟨⟨nonempty, order, once⟩, fresh⟩ := safe
  refine ⟨⟨empty.trans nonempty, ?_, calls ▸ once⟩, fun handler member => ?_⟩
  · rw [calls, accepts, ops, order]
  · exact Nat.lt_of_lt_of_le (fresh handler (calls ▸ member)) next

theorem queueSafe_push {a : Acceptor} (safe : QueueSafe a) : QueueSafe a.push := by
  obtain ⟨⟨nonempty, order, once⟩, fresh⟩ := safe
  refine ⟨⟨nonempty, ?_, ?_⟩, fun handler member => ?_⟩
  · simp [Acceptor.push, order]
  · refine List.nodup_append.mpr ⟨once, List.nodup_singleton _, ?_⟩
    intro handler member other same equal
    rw [List.mem_singleton.mp same] at equal
    exact Nat.ne_of_lt (fresh handler member) equal
  · rcases List.mem_append.mp member with old | new
    · exact Nat.lt_succ_of_lt (fresh handler old)
    · rw [List.mem_singleton.mp new]
      exact Nat.lt_succ_self _

theorem queueSafe_kept {T : Terms} : Kept T QueueSafe where
  act := fun act safe => queueSafe_frame safe rfl rfl rfl rfl (act_onward act).env.nextHandler
  push := queueSafe_push
  queue := fun grows _ safe => queueSafe_frame safe rfl rfl rfl rfl grows.nextHandler
  serve := fun _ safe => queueSafe_frame safe rfl rfl rfl rfl (le_refl _)

/-- The front of a queue that is not empty moves to the completed accepts. -/
theorem queueSafe_answered {a : Acceptor} (safe : QueueSafe a) (pending : a.acceptOps ≠ [])
    (c : Nat) : QueueSafe (a.answered c) := by
  obtain ⟨⟨nonempty, order, once⟩, fresh⟩ := safe
  cases ops : a.acceptOps with
  | nil => exact absurd ops pending
  | cons op rest =>
      refine ⟨⟨?_, ?_, once⟩, fresh⟩
      · simp [Acceptor.answered, nonempty, ops]
      · simp [Acceptor.answered, order, ops]

/-- An accept is pending when a handshake arrives. -/
def AcceptPending (c : Config Acceptor) (label : Label AcceptorEvent AcceptorCall) : Prop :=
  ∀ ec datagram sender clock, label = .event (.receive ec datagram sender clock) →
    c.state.Greeting ec datagram → c.state.acceptOps ≠ []

instance (c : Config Acceptor) (label : Label AcceptorEvent AcceptorCall) :
    Decidable (AcceptPending c label) :=
  match label with
  | .event (.receive ec datagram _ _) => decidable_of_iff
      (c.state.Greeting ec datagram → c.state.acceptOps ≠ [])
      ⟨fun pending _ _ _ _ same => by cases same; exact pending, fun all => all _ _ _ _ rfl⟩
  | .event (.timer _ _) | .event (.posted _) | .call _ | .answer _ | .back | .raise | .caught
  | .unwind => isTrue nofun

theorem queueSafe_event {a : Acceptor} (e : AcceptorEvent)
    (pending : ∀ ec datagram sender clock, e = .receive ec datagram sender clock →
      a.Greeting ec datagram → a.acceptOps ≠ [])
    (bottom : a.Bottom Terms.any QueueSafe) :
    (runAcceptorEvent e a).Meets (Terms.any.accepting False QueueSafe)
      (fun _ => Acceptor.Bottom Terms.any QueueSafe) (Acceptor.Bottom Terms.any QueueSafe) a := by
  obtain ⟨sound, outside⟩ := bottom
  have frame : ∀ b b' : Acceptor, QueueSafe b → b'.emptyFront = b.emptyFront →
      b'.acceptCalls = b.acceptCalls → b'.accepts = b.accepts → b'.acceptOps = b.acceptOps →
      b'.env.nextHandler = b.env.nextHandler → QueueSafe b' :=
    fun b b' safe empty calls accepts ops next =>
      queueSafe_frame safe empty calls accepts ops (le_of_eq next.symm)
  cases e with
  | receive ec datagram sender clock =>
      have filled : QueueSafe (a.fill datagram) := frame a _ sound.holds rfl rfl rfl rfl rfl
      refine meets_mono (fun _ _ h => h) (fun _ h => h.elim)
        (acceptorReceive_meets queueSafe_kept (fun _ h => h) ec datagram sender clock sound
          filled ?_ ?_ ?_ ?_ ?_ outside a)
      · intro c greeting _ _
        exact queueSafe_answered filled (pending ec datagram sender clock rfl greeting) c
      · exact fun b c _ erasing _ _ _ => frame b _ erasing.sound.holds rfl rfl rfl rfl rfl
      · intro b greeting sound' ops _
        have created : QueueSafe (b.create (a.greetingConv datagram) sender clock) :=
          frame b _ sound'.holds rfl rfl rfl rfl rfl
        refine queueSafe_answered created ?_ _
        exact ops.ne_nil (pending ec datagram sender clock rfl greeting)
      · intro c _
        refine frame a _ sound.holds rfl rfl rfl rfl ?_
        exact congrArg Env.nextHandler (received_frame _ _ _ _).2.2.2
      · exact fun b c _ holds _ => frame b _ holds rfl rfl rfl rfl rfl
  | timer order now =>
      refine meets_mono (fun _ _ h => h) (fun _ h => h.elim)
        (doUpdate_meets queueSafe_kept (fun _ h => h) now sound
          (frame a _ sound.holds rfl rfl rfl rfl rfl) ?_ ?_ ?_ outside a)
      · exact fun b c safe => queueSafe_frame safe rfl rfl rfl rfl
          (update_onward ((Acceptor.view c).get b) now).env.nextHandler
      · exact fun _ b _ _ _ erasing _ => frame b _ erasing.sound.holds rfl rfl rfl rfl rfl
      · exact fun b holds _ => frame b _ holds rfl rfl rfl rfl rfl
  | posted i => exact runAcceptorPosted_meets queueSafe_kept (fun _ h => h) i sound outside a

/-- Along every run in which an accept is pending whenever a handshake arrives, the
queue is never empty when its front is taken, and is served in order. -/
theorem accepts_in_order {magic : List UInt8} {now : Int} {streambufs : Nat → StreamBuf}
    {c : Config Acceptor}
    (run : acceptorSystem.Steps AcceptPending (acceptorStart magic now streambufs) c) :
    AcceptsInOrder c.state := by
  have start : QueueSafe (.make magic now streambufs) :=
    ⟨⟨rfl, rfl, List.nodup_nil⟩, fun _ member => absurd member List.not_mem_nil⟩
  exact (acceptor_run queueSafe_kept (fun _ h => h) (fun c label _ => Terms.any_serves c label)
    (fun c e pending bottom => queueSafe_event e
      (fun ec datagram sender clock same => pending ec datagram sender clock (congrArg _ same))
      bottom)
    (start_meets queueSafe_kept (fun _ h => h) start) start run).2.1

/-- A handshake of conv 7, for an acceptor without magic. -/
def hello : List UInt8 := opcodeHandshark :: le32 7

/-- Two accepts wait when the first of two clients shakes hands; a third is made
from its handler. -/
theorem accepts_in_order_two : ∃ c,
    acceptorSystem.Steps AcceptPending (acceptorStart [] 0 noStreambufs) c ∧
      c.state.accepts = [(0, 0), (1, 1)] ∧ c.state.acceptOps = [2] ∧ AcceptsInOrder c.state := by
  obtain ⟨c, run, checked⟩ := runIf_checked acceptorSystem AcceptPending
    (acceptorStart [] 0 noStreambufs)
    [.call .asyncAccept, .call .asyncAccept, .event (.receive .success hello loopback 0),
      .call .asyncAccept, .back, .event (.receive .success hello neighbour 0)]
    (fun c => decide (c.state.accepts = [(0, 0), (1, 1)] ∧ c.state.acceptOps = [2])) (by decide)
  obtain ⟨accepts, waiting⟩ := of_decide_eq_true checked
  exact ⟨c, run, accepts, waiting, accepts_in_order run⟩

/-- A handshake before the first `async_accept` takes the front of an empty queue. -/
theorem early_handshake_empty_front : ¬ ∀ c,
    acceptorSystem.Steps (fun _ _ => True) (acceptorStart [] 0 noStreambufs) c →
    AcceptsInOrder c.state := by
  intro claim
  obtain ⟨c, ran, empty⟩ := run_checked acceptorSystem (acceptorStart [] 0 noStreambufs)
    [.event (.receive .success hello loopback 0)] (fun c => c.state.emptyFront) (by decide)
  have safe := claim c (steps_of_run acceptorSystem (fun _ => True) _ (fun _ _ => trivial) ran)
  rw [safe.nonempty] at empty
  cases empty

/-! ## The connections given to accept handlers -/

/-- No connection is given to two accept handlers, and each registered one has
been given to one. -/
structure AcceptedOnce (a : Acceptor) : Prop where
  once : (a.accepts.map Prod.snd).Nodup
  made : ∀ c ∈ a.accepts.map Prod.snd, c < a.created
  registered : ∀ entry ∈ a.connections, entry.2 ∈ a.accepts.map Prod.snd

theorem acceptedOnce_frame {a b : Acceptor} (once : AcceptedOnce a)
    (accepts : b.accepts = a.accepts) (created : b.created = a.created)
    (connections : b.connections ⊆ a.connections) : AcceptedOnce b := by
  refine ⟨accepts ▸ once.once, fun c member => ?_, fun entry member => ?_⟩
  · rw [created]
    exact once.made c (accepts ▸ member)
  · rw [accepts]
    exact once.registered entry (connections member)

theorem acceptedOnce_kept {T : Terms} : Kept T AcceptedOnce where
  act := fun _ once => acceptedOnce_frame once rfl rfl (List.Subset.refl _)
  push := fun once => acceptedOnce_frame once rfl rfl (List.Subset.refl _)
  queue := fun _ _ once => acceptedOnce_frame once rfl rfl (List.Subset.refl _)
  serve := fun _ once => acceptedOnce_frame once rfl rfl (List.Subset.refl _)

/-- A connection that is made for a handshake goes to one accept handler. -/
theorem acceptedOnce_opened {a : Acceptor} (once : AcceptedOnce a) (pending : a.acceptOps ≠ [])
    (conv : UInt32) (endpoint : Endpoint) (clock : Int) :
    AcceptedOnce ((a.create conv endpoint clock).answered a.created) := by
  cases ops : a.acceptOps with
  | nil => exact absurd ops pending
  | cons op rest =>
      have accepts : ((a.create conv endpoint clock).answered a.created).accepts =
          a.accepts ++ [(op, a.created)] := by
        simp [Acceptor.answered, Acceptor.create, ops]
      have connections : ((a.create conv endpoint clock).answered a.created).connections =
          a.connections ++ [(endpoint, a.created)] := rfl
      refine ⟨?_, fun c member => ?_, fun entry member => ?_⟩
      · rw [accepts, List.map_append, List.nodup_append]
        refine ⟨once.once, List.nodup_singleton _, ?_⟩
        intro c old d new equal
        rw [List.mem_singleton.mp new] at equal
        exact Nat.ne_of_lt (once.made c old) equal
      · rw [accepts, List.map_append] at member
        rcases List.mem_append.mp member with old | new
        · exact Nat.lt_succ_of_lt (once.made c old)
        · rw [List.mem_singleton.mp new]
          exact Nat.lt_succ_self _
      · rw [accepts, List.map_append]
        rw [connections] at member
        rcases List.mem_append.mp member with old | new
        · exact List.mem_append_left _ (once.registered entry old)
        · rw [List.mem_singleton.mp new]
          simp

/-- A handshake finds an accept pending and its endpoint without an idle connection. -/
def FreshHandshake (c : Config Acceptor) (label : Label AcceptorEvent AcceptorCall) : Prop :=
  ∀ ec datagram sender clock, label = .event (.receive ec datagram sender clock) →
    c.state.Greeting ec datagram → c.state.acceptOps ≠ [] ∧
      ∀ i, c.state.find sender = some i → (c.state.conns i).state ≠ .idle

instance (c : Config Acceptor) (label : Label AcceptorEvent AcceptorCall) :
    Decidable (FreshHandshake c label) :=
  match label with
  | .event (.receive ec datagram sender _) => decidable_of_iff
      (c.state.Greeting ec datagram → c.state.acceptOps ≠ [] ∧
        ∀ i ∈ c.state.find sender, (c.state.conns i).state ≠ .idle)
      ⟨fun fresh _ _ _ _ same => by cases same; exact fresh, fun all => all _ _ _ _ rfl⟩
  | .event (.timer _ _) | .event (.posted _) | .call _ | .answer _ | .back | .raise | .caught
  | .unwind => isTrue nofun

theorem acceptedOnce_event {a : Acceptor} (e : AcceptorEvent)
    (new : ∀ ec datagram sender clock, e = .receive ec datagram sender clock →
      a.Greeting ec datagram → a.acceptOps ≠ [] ∧
        ∀ i, a.find sender = some i → (a.conns i).state ≠ .idle)
    (bottom : a.Bottom Terms.any AcceptedOnce) :
    (runAcceptorEvent e a).Meets (Terms.any.accepting False AcceptedOnce)
      (fun _ => Acceptor.Bottom Terms.any AcceptedOnce)
      (Acceptor.Bottom Terms.any AcceptedOnce) a := by
  obtain ⟨sound, outside⟩ := bottom
  have frame : ∀ b b' : Acceptor, AcceptedOnce b → b'.accepts = b.accepts →
      b'.created = b.created → b'.connections = b.connections → AcceptedOnce b' :=
    fun b b' once accepts created same => acceptedOnce_frame once accepts created (by rw [same]; simp)
  have erased : ∀ (b : Acceptor) endpoint c pending, AcceptedOnce b →
      AcceptedOnce (b.erase endpoint c pending) :=
    fun b endpoint c pending once => acceptedOnce_frame once rfl rfl List.filter_sublist.subset
  cases e with
  | receive ec datagram sender clock =>
      have filled : AcceptedOnce (a.fill datagram) := frame a _ sound.holds rfl rfl rfl
      refine meets_mono (fun _ _ h => h) (fun _ h => h.elim)
        (acceptorReceive_meets acceptedOnce_kept (fun _ h => h) ec datagram sender clock sound
          filled ?_ ?_ ?_ ?_ ?_ outside a)
      · intro c greeting found idle
        exact absurd idle ((new ec datagram sender clock rfl greeting).2 c found)
      · exact fun b c _ erasing _ _ _ => erased b _ c _ erasing.sound.holds
      · intro b greeting sound' ops _
        have pending := (new ec datagram sender clock rfl greeting).1
        exact acceptedOnce_opened sound'.holds (ops.ne_nil pending) _ _ _
      · exact fun c _ => frame a _ sound.holds rfl rfl rfl
      · exact fun b c _ holds _ => frame b _ holds rfl rfl rfl
  | timer order now =>
      refine meets_mono (fun _ _ h => h) (fun _ h => h.elim)
        (doUpdate_meets acceptedOnce_kept (fun _ h => h) now sound
          (frame a _ sound.holds rfl rfl rfl) ?_ ?_ ?_ outside a)
      · exact fun b c once => frame b _ once rfl rfl rfl
      · exact fun _ b _ c _ erasing _ => erased b _ c _ erasing.sound.holds
      · exact fun b holds _ => frame b _ holds rfl rfl rfl
  | posted i => exact runAcceptorPosted_meets acceptedOnce_kept (fun _ h => h) i sound outside a

theorem acceptedOnce_run {magic : List UInt8} {now : Int} {streambufs : Nat → StreamBuf}
    {c : Config Acceptor}
    (run : acceptorSystem.Steps FreshHandshake (acceptorStart magic now streambufs) c) :
    AcceptedOnce c.state := by
  have start : AcceptedOnce (.make magic now streambufs) :=
    ⟨List.nodup_nil, fun _ member => absurd member List.not_mem_nil,
      fun _ member => absurd member List.not_mem_nil⟩
  exact (acceptor_run acceptedOnce_kept (fun _ h => h)
    (fun c label _ => Terms.any_serves c label)
    (fun c e fresh bottom => acceptedOnce_event e
      (fun ec datagram sender clock same => fresh ec datagram sender clock (congrArg _ same))
      bottom)
    (start_meets acceptedOnce_kept (fun _ h => h) start) start run).2

/-- A handshake that repeats on an idle connection gives it to the next handler. -/
theorem repeated_handshake {c d : Config Acceptor} {datagram : List UInt8} {sender : Endpoint}
    {clock : Int} {ec : ErrorCode} {i : Nat} (greeting : c.state.Greeting ec datagram)
    (pending : c.state.acceptOps ≠ []) (found : c.state.find sender = some i)
    (idle : (c.state.conns i).state = .idle)
    (stepped : acceptorSystem.step c (.event (.receive ec datagram sender clock)) = some d) :
    ∃ op rest, c.state.acceptOps = op :: rest ∧ d.state.acceptOps = rest ∧
      d.state.accepts = c.state.accepts ++ [(op, i)] := by
  obtain ⟨_, rfl⟩ := step_event stepped
  cases ops : c.state.acceptOps with
  | nil => exact absurd ops pending
  | cons op rest =>
      have isIdle : (c.state.conns i).idle = true := decide_eq_true idle
      have same : (c.state.fill datagram).find sender = some i := found
      have filledOps : (c.state.fill datagram).acceptOps ≠ [] := pending
      have reached : (Config.enter [] (acceptorSystem.event (.receive ec datagram sender clock)
          c.state)).state = (c.state.fill datagram).answered i := by
        change (Config.enter [] (acceptorReceive ec datagram sender clock c.state)).state = _
        rw [acceptorReceive_greeting greeting, enter_state]
        simp only [handshark, Comp.bind_apply, Comp.get_apply, Prog.bind_ret, same]
        change ((if (c.state.conns i).idle = true then answer i else _ : Comp Acceptor Unit)
          (c.state.fill datagram) |>.tryCatch (pure ())).state = _
        rw [if_pos isIdle, answer_eq, if_neg filledOps]
        rfl
      refine ⟨op, rest, rfl, ?_, ?_⟩
      · rw [reached]
        simp [Acceptor.answered, Acceptor.fill, ops]
      · rw [reached]
        simp [Acceptor.answered, Acceptor.fill, ops]

/-- As long as handshakes are fresh no connection is accepted twice; the first one
that meets an idle connection has it accepted again. -/
theorem accepted_once {magic : List UInt8} {now : Int} {streambufs : Nat → StreamBuf}
    {c : Config Acceptor}
    (run : acceptorSystem.Steps FreshHandshake (acceptorStart magic now streambufs) c) :
    (c.state.accepts.map Prod.snd).Nodup ∧
    ∀ (ec : ErrorCode) (datagram : List UInt8) (sender : Endpoint) (clock : Int) (i : Nat)
      (d : Config Acceptor), c.state.Greeting ec datagram → c.state.acceptOps ≠ [] →
      c.state.find sender = some i → (c.state.conns i).state = .idle →
      acceptorSystem.step c (.event (.receive ec datagram sender clock)) = some d →
      ¬ (d.state.accepts.map Prod.snd).Nodup ∧ d.state.acceptOps ≠ c.state.acceptOps := by
  have once := acceptedOnce_run run
  refine ⟨once.once, fun ec datagram sender clock i d greeting pending found idle stepped => ?_⟩
  obtain ⟨op, rest, before, after, accepts⟩ :=
    repeated_handshake greeting pending found idle stepped
  have given := once.registered (sender, i) (find_mem found)
  refine ⟨fun nodup => ?_, ?_⟩
  · rw [accepts, List.map_append, List.nodup_append] at nodup
    exact nodup.2.2 i given i (by simp) rfl
  · rw [before, after]
    exact fun same => absurd (congrArg List.length same) (by simp)

/-- Two clients shake hands; the first uses its connection, and shakes hands again. -/
def threeHandshakes : List (Label AcceptorEvent AcceptorCall) :=
  [.call .asyncAccept, .call .asyncAccept, .call .asyncAccept,
    .event (.receive .success hello loopback 0), .back,
    .event (.receive .success hello neighbour 0), .back,
    .event (.receive .success keepalive loopback 0),
    .event (.receive .success hello loopback 0), .answer true]

theorem accepted_once_three : ∃ c,
    acceptorSystem.Steps FreshHandshake (acceptorStart [] 0 noStreambufs) c ∧
      c.state.accepts = [(0, 0), (1, 1), (2, 2)] ∧ (c.state.accepts.map Prod.snd).Nodup := by
  obtain ⟨c, run, checked⟩ := runIf_checked acceptorSystem FreshHandshake
    (acceptorStart [] 0 noStreambufs) threeHandshakes
    (fun c => decide (c.state.accepts = [(0, 0), (1, 1), (2, 2)])) (by decide)
  exact ⟨c, run, of_decide_eq_true checked, (accepted_once run).1⟩

/-- The duplicate of a handshake that has been answered takes the second accept. -/
theorem duplicate_handshake_accepted_twice : ¬ ∀ c,
    acceptorSystem.Steps (fun _ _ => True) (acceptorStart [] 0 noStreambufs) c →
    (c.state.accepts.map Prod.snd).Nodup := by
  intro claim
  obtain ⟨c, ran, twice⟩ := run_checked acceptorSystem (acceptorStart [] 0 noStreambufs)
    [.call .asyncAccept, .call .asyncAccept, .event (.receive .success hello loopback 0), .back,
      .event (.receive .success hello loopback 1)]
    (fun c => c.state.accepts == [(0, 0), (1, 0)]) (by decide)
  have once := claim c (steps_of_run acceptorSystem (fun _ => True) _ (fun _ _ => trivial) ran)
  rw [beq_iff_eq.mp twice] at once
  exact absurd once (by decide)

end AsioKcp
