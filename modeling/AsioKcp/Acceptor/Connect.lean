import AsioKcp.Acceptor.Accepts

/-! # `async_connect` and its answer

The client sends one request from its endpoint and takes the first datagram that
the acceptor hands to its socket for that endpoint. -/
set_option autoImplicit false

namespace AsioKcp

open AsioKcp.Ikcp AsioKcp.Callback AsioKcp.Machine AsioKcp.Bytes

/-- The request of `async_connect`. -/
def connectRequest (magic : List UInt8) (conv : UInt32) : List UInt8 :=
  opcodeHandshark :: magic ++ le32 conv

/-- What `async_connect` makes of the datagram it receives into its 16 bytes. -/
def connectResult (datagram : List UInt8) : Except ErrorCode UInt32 :=
  let data := datagram.take 16 ++ List.replicate (16 - datagram.length) 0
  if data.getD 0 0 ≠ opcodeHandsharkResponse then .error .invalidHandsharkResponse
  else .ok (read32 (data.drop 1))

theorem connectResult_response (conv : UInt32) :
    connectResult (opcodeHandsharkResponse :: le32 conv) = .ok conv := by
  have read := read32_le32_append conv (List.replicate 11 0)
  simp only [connectResult, le32, List.take, List.length_cons, List.length_nil, List.cons_append,
    List.nil_append, List.getD_cons_zero, ne_eq, not_true_eq_false, if_false, List.drop_succ_cons,
    List.drop_zero]
  exact congrArg Except.ok read

theorem connectResult_other {datagram : List UInt8}
    (other : datagram.head? ≠ some opcodeHandsharkResponse) :
    connectResult datagram = .error .invalidHandsharkResponse := by
  cases datagram with
  | nil => rfl
  | cons opcode rest =>
      have differs : opcode ≠ opcodeHandsharkResponse := by simpa using other
      simp [connectResult, differs]

/-! ## What is handed to the socket for one endpoint -/

/-- The datagrams for `endpoint` since `past`. -/
def Acceptor.replies (past : List Datagram) (endpoint : Endpoint) (a : Acceptor) :
    List Datagram :=
  (a.env.sent.drop past.length).filter fun d => d.dest = endpoint

/-- Nothing that a client at `endpoint` receives first is an answer. -/
structure Misanswered (past : List Datagram) (endpoint : Endpoint) (a : Acceptor) : Prop where
  grown : past <+: a.env.sent
  first : ∀ d, (a.replies past endpoint).head? = some d →
    d.bytes.head? ≠ some opcodeHandsharkResponse

section Replies
variable {past : List Datagram} {endpoint : Endpoint}

theorem replies_append {a b : Acceptor} (grown : past <+: a.env.sent) {more : List Datagram}
    (sent : b.env.sent = a.env.sent ++ more) :
    b.replies past endpoint =
      a.replies past endpoint ++ more.filter fun d => d.dest = endpoint := by
  rw [Acceptor.replies, sent, List.drop_append_of_le_length grown.length_le, List.filter_append,
    Acceptor.replies]

/-- Datagrams that are no answers, for whatever endpoint. -/
theorem misanswered_append {a b : Acceptor} (mis : Misanswered past endpoint a)
    {more : List Datagram} (sent : b.env.sent = a.env.sent ++ more)
    (other : a.replies past endpoint = [] → ∀ d ∈ more, d.dest = endpoint →
      d.bytes.head? ≠ some opcodeHandsharkResponse) : Misanswered past endpoint b := by
  refine ⟨mis.grown.trans (sent ▸ List.prefix_append _ _), fun d head => ?_⟩
  rw [replies_append mis.grown sent] at head
  cases replies : a.replies past endpoint with
  | nil =>
      rw [replies, List.nil_append] at head
      have member := List.mem_of_head? head
      exact other replies d (List.mem_of_mem_filter member)
        (of_decide_eq_true (List.mem_filter.mp member).2)
  | cons first rest =>
      rw [replies] at head
      exact mis.first d (by rw [replies]; exact head)

theorem misanswered_onward {a : Acceptor} {c : Nat} {l : Local}
    (onward : Onward ((Acceptor.view c).get a) l) (mis : Misanswered past endpoint a) :
    Misanswered past endpoint ((Acceptor.view c).put a l) := by
  obtain ⟨more, sent, unanswering⟩ := onward.sent
  exact misanswered_append mis sent fun _ d member _ => (unanswering d member).2

theorem misanswered_silent {a b : Acceptor} (mis : Misanswered past endpoint a)
    (sent : b.env.sent = a.env.sent) : Misanswered past endpoint b :=
  misanswered_append mis (by rw [sent, List.append_nil]) (by simp)

theorem misanswered_kept {T : Terms} : Kept T (Misanswered past endpoint) where
  act := fun act mis => misanswered_onward (act_onward act) mis
  push := fun mis => misanswered_silent mis rfl
  queue := fun _ sent mis => misanswered_silent mis sent
  serve := fun _ mis => misanswered_silent mis rfl

/-- The answer of `handshark` goes to another endpoint, or comes too late. -/
theorem misanswered_answered {a : Acceptor} {c : Nat} (mis : Misanswered past endpoint a)
    (late : (a.conns c).endpoint = endpoint → a.replies past endpoint ≠ []) :
    Misanswered past endpoint (a.answered c) := by
  refine misanswered_append (b := a.answered c) mis rfl fun none d member dest => ?_
  rw [List.mem_singleton.mp member] at dest
  exact absurd none (late dest)

theorem replies_nonempty {a b : Acceptor} (grown : past <+: a.env.sent)
    (later : a.env.sent <+: b.env.sent) (some : a.replies past endpoint ≠ []) :
    b.replies past endpoint ≠ [] := by
  obtain ⟨more, sent⟩ := later
  rw [replies_append grown sent.symm]
  exact List.append_ne_nil_of_left_ne_nil some _

/-- While the handshake of `endpoint` is handled, its entry is erased only after
something else has been sent to it. -/
structure Overtaken (past : List Datagram) (endpoint : Endpoint) (a : Acceptor) : Prop where
  mis : Misanswered past endpoint a
  erased : a.find endpoint = none → a.replies past endpoint ≠ []

theorem overtaken_later {a b : Acceptor} (taken : Overtaken past endpoint a)
    (mis : Misanswered past endpoint b) (sent : a.env.sent <+: b.env.sent)
    (connections : b.connections = a.connections) : Overtaken past endpoint b := by
  refine ⟨mis, fun absent => replies_nonempty taken.mis.grown sent (taken.erased ?_)⟩
  rw [Acceptor.find, ← connections]
  exact absent

theorem overtaken_kept {T : Terms} : Kept T (Overtaken past endpoint) where
  act := fun act taken => overtaken_later taken (misanswered_kept.act act taken.mis)
    (act_onward act).env.sent rfl
  push := fun taken => overtaken_later taken (misanswered_kept (T := T).push taken.mis)
    (List.prefix_refl _) rfl
  queue := fun grows sent taken => overtaken_later taken (misanswered_kept (T := T).queue grows sent taken.mis)
    grows.sent rfl
  serve := fun serving taken => overtaken_later taken (misanswered_kept (T := T).serve serving taken.mis)
    (List.prefix_refl _) rfl

/-- Something else has been sent to `endpoint`, or will be before the answer. -/
def Preempted (past : List Datagram) (endpoint : Endpoint) (a : Acceptor) : Prop :=
  a.replies past endpoint ≠ [] ∨
    ∃ i, a.find endpoint = some i ∧ (a.conns i).state = .opened

theorem overtaken_receive {a : Acceptor} {ec : ErrorCode} {datagram : List UInt8} {clock : Int}
    (greeting : a.Greeting ec datagram) (preempted : Preempted past endpoint a)
    (sound : a.Sound Terms.any (Misanswered past endpoint)) (outside : a.serving = false) :
    (acceptorReceive ec datagram endpoint clock a).Meets
      (Terms.any.accepting False (Misanswered past endpoint))
      (fun _ b => b.Sound Terms.any (Overtaken past endpoint) ∧ b.serving = false)
      (fun _ => False) a := by
  have taken : Overtaken past endpoint a := by
    refine ⟨sound.holds, fun absent => preempted.resolve_right ?_⟩
    rintro ⟨i, found, _⟩
    rw [absent] at found
    cases found
  have filled : Overtaken past endpoint (a.fill datagram) :=
    overtaken_later taken (misanswered_silent taken.mis rfl) (List.prefix_refl _) rfl
  refine acceptorReceive_meets overtaken_kept (fun _ taken => taken.mis) ec datagram endpoint clock
    ⟨sound.settled, sound.registry, taken⟩ filled ?_ ?_ ?_ ?_ ?_ outside a
  · intro c _ found idle
    have some : (a.fill datagram).replies past endpoint ≠ [] := by
      refine preempted.resolve_right ?_
      rintro ⟨i, found', opened⟩
      rw [found] at found'
      cases found'
      rw [idle] at opened
      cases opened
    exact overtaken_later (b := (a.fill datagram).answered c) filled
      (misanswered_answered filled.mis fun _ => some) (List.prefix_append _ _) rfl
  · intro b c _ erasing found _ dismissed
    have grown : a.env.sent <+: b.env.sent := erasing.env.sent
    have mis : Misanswered past endpoint b := erasing.sound.holds.mis
    have some : b.replies past endpoint ≠ [] := by
      rcases preempted with some | ⟨i, found', opened⟩
      · exact replies_nonempty taken.mis.grown grown some
      · rw [found] at found'
        cases found'
        obtain ⟨d, member, dest⟩ := dismissed opened
        have own := sound.registry.own _ (find_mem found)
        have inside : d ∈ b.replies past endpoint :=
          List.mem_filter.mpr ⟨List.drop_subset_drop_left _ taken.mis.grown.length_le member,
            decide_eq_true (dest.trans own)⟩
        exact List.ne_nil_of_mem inside
    exact ⟨misanswered_silent mis rfl, fun _ => some⟩
  · intro b _ sound' _ absent
    have some := sound'.holds.erased absent
    have created : Misanswered past endpoint
        (b.create (a.greetingConv datagram) endpoint clock) :=
      misanswered_silent sound'.holds.mis rfl
    refine ⟨misanswered_answered created fun _ => some, fun _ => ?_⟩
    exact replies_nonempty created.grown (List.prefix_append _ _) some
  · exact fun c passing => absurd greeting.2.1 passing.2.2.1
  · exact fun b c passing => absurd greeting.2.1 passing.2.2.1

theorem misanswered_event {a : Acceptor} (e : AcceptorEvent)
    (preempted : ∀ ec datagram clock, e = .receive ec datagram endpoint clock →
      a.Greeting ec datagram → Preempted past endpoint a)
    (bottom : a.Bottom Terms.any (Misanswered past endpoint)) :
    (runAcceptorEvent e a).Meets (Terms.any.accepting False (Misanswered past endpoint))
      (fun _ => Acceptor.Bottom Terms.any (Misanswered past endpoint))
      (Acceptor.Bottom Terms.any (Misanswered past endpoint)) a := by
  obtain ⟨sound, outside⟩ := bottom
  cases e with
  | receive ec datagram sender clock =>
      by_cases own : sender = endpoint ∧ a.Greeting ec datagram
      · obtain ⟨rfl, greeting⟩ := own
        exact meets_mono (fun _ b h => ⟨⟨h.1.settled, h.1.registry, h.1.holds.mis⟩, h.2⟩)
          (fun _ h => h.elim)
          (overtaken_receive greeting (preempted ec datagram clock rfl greeting) sound outside)
      · have other : a.Greeting ec datagram → sender ≠ endpoint :=
          fun greeting same => own ⟨same, greeting⟩
        have filled : Misanswered past endpoint (a.fill datagram) :=
          misanswered_silent sound.holds rfl
        refine meets_mono (fun _ _ h => h) (fun _ h => h.elim)
          (acceptorReceive_meets misanswered_kept (fun _ h => h) ec datagram sender clock sound
            filled ?_ ?_ ?_ ?_ ?_ outside a)
        · intro c greeting found _
          have registered : (a.conns c).endpoint = sender := sound.registry.own _ (find_mem found)
          exact misanswered_answered filled fun same =>
            absurd (registered.symm.trans same) (other greeting)
        · exact fun b _ _ erasing _ _ _ => misanswered_silent erasing.sound.holds rfl
        · intro b greeting sound' _ _
          have created : Misanswered past endpoint
              (b.create (a.greetingConv datagram) sender clock) :=
            misanswered_silent sound'.holds rfl
          refine misanswered_answered created fun same => ?_
          simp only [Acceptor.create, Function.update_self, Connection.make] at same
          exact absurd same (other greeting)
        · intro c _
          have env := (received_frame ((Acceptor.view c).get (a.fill datagram))
            (a.fill datagram).buffer (receivedSize datagram) (a.fill datagram).now).2.2.2
          exact misanswered_silent filled (congrArg Env.sent env)
        · exact fun b _ _ mis _ => misanswered_silent mis rfl
  | timer order now =>
      refine meets_mono (fun _ _ h => h) (fun _ h => h.elim)
        (doUpdate_meets misanswered_kept (fun _ h => h) now sound
          (misanswered_silent sound.holds rfl) ?_ ?_ ?_ outside a)
      · exact fun b c mis => misanswered_onward (update_onward _ now) mis
      · exact fun _ b _ _ _ erasing _ => misanswered_silent erasing.sound.holds rfl
      · exact fun b mis _ => misanswered_silent mis rfl
  | posted i => exact runAcceptorPosted_meets misanswered_kept (fun _ h => h) i sound outside a

end Replies

/-! ## The request of a client -/

theorem request_length (magic : List UInt8) (conv : UInt32) :
    (connectRequest magic conv).length = 1 + magic.length + 4 := by
  simp [connectRequest]
  omega

/-- The acceptor takes the request for a handshake if its magic fits the buffer. -/
theorem request_greets_iff (a : Acceptor) (conv : UInt32) :
    a.Greeting .success (connectRequest a.magic conv) ↔
      a.receiving = true ∧ a.magic.length ≤ 2043 := by
  have size := request_length a.magic conv
  constructor
  · rintro ⟨⟨receiving, _⟩, _, length, _⟩
    refine ⟨receiving, ?_⟩
    have total : min (connectRequest a.magic conv).length 2048 = 1 + a.magic.length + 4 := length
    omega
  · rintro ⟨receiving, fits⟩
    have whole : (connectRequest a.magic conv).take 2048 = connectRequest a.magic conv :=
      List.take_of_length_le (by omega)
    refine ⟨⟨receiving, rfl⟩, ?_, ?_, ?_⟩
    · simp only [Acceptor.fill, whole]
      rfl
    · change min (connectRequest a.magic conv).length 2048 = 1 + a.magic.length + 4
      omega
    · simp only [Acceptor.fill, whole]
      simp [connectRequest]

/-- The client at `endpoint` takes an answer, which names the conv of the connection
that is registered for it. -/
def Agrees (past : List Datagram) (endpoint : Endpoint) (a : Acceptor) : Prop :=
  ∃ d conv c, (a.replies past endpoint).head? = some d ∧ connectResult d.bytes = .ok conv ∧
    a.find endpoint = some c ∧ (a.conns c).conv = conv

theorem misanswered_disagrees {past : List Datagram} {endpoint : Endpoint} {a : Acceptor}
    (mis : Misanswered past endpoint a) : ¬ Agrees past endpoint a := by
  rintro ⟨d, conv, c, head, result, _, _⟩
  rw [connectResult_other (mis.first d head)] at result
  cases result

/-- Where no open connection is in its way, `handshark` answers at once. -/
theorem handshark_answers {a : Acceptor} (sound : a.Sound Terms.any fun _ => True) (conv : UInt32)
    {endpoint : Endpoint} (clock : Int)
    (unopened : ∀ i, a.find endpoint = some i → (a.conns i).state ≠ .opened) :
    ∃ b c, handshark conv endpoint clock a = answer c b ∧ b.find endpoint = some c ∧
      (b.conns c).endpoint = endpoint ∧ b.env = a.env ∧ b.acceptOps = a.acceptOps ∧
      b.serving = a.serving ∧ b.Sound Terms.any fun _ => True := by
  have opens : ∀ b : Acceptor, b.Sound Terms.any (fun _ => True) → b.find endpoint = none →
      (b.create conv endpoint clock).find endpoint = some b.created ∧
      ((b.create conv endpoint clock).conns b.created).endpoint = endpoint ∧
      (b.create conv endpoint clock).Sound Terms.any fun _ => True := by
    intro b sound absent
    refine ⟨?_, by simp [Acceptor.create, Connection.make],
      create_settled sound.settled conv endpoint clock, sound.registry.create conv clock absent,
      trivial⟩
    have absent' : b.connections.lookup endpoint = none := absent
    simp [Acceptor.find, Acceptor.create, List.lookup_append, absent']
  simp only [handshark, Comp.bind_apply, Comp.get_apply, Prog.bind_ret]
  cases found : a.find endpoint with
  | none =>
      obtain ⟨finds, own, made⟩ := opens a sound found
      exact ⟨_, _, rfl, finds, own, rfl, rfl, rfl, made⟩
  | some c =>
      cases state : (a.conns c).state with
      | idle =>
          have isIdle : (a.conns c).idle = true := decide_eq_true state
          simp only [isIdle, if_true]
          exact ⟨a, c, rfl, found, sound.registry.own _ (find_mem found), rfl, rfl, rfl, sound⟩
      | opened => exact absurd state (unopened c found)
      | closed =>
          have isIdle : (a.conns c).idle = false := by simp [Connection.idle, state]
          have other : ((Acceptor.view c).get a).conn.state ≠ .opened := by
            change (a.conns c).state ≠ .opened
            simp [state]
          have erased : (a.erase endpoint c (a.conns c).slots).Sound Terms.any fun _ => True :=
            ⟨sound.settled, sound.registry.erase _ _ _, trivial⟩
          obtain ⟨finds, own, made⟩ := opens _ erased (erase_find ..)
          refine ⟨_, _, ?_, finds, own, rfl, rfl, rfl, made⟩
          simp only [isIdle, Bool.false_eq_true, if_false, onConnection, Comp.bind_apply,
            Comp.zoom_apply, close_not_opened _ other, Prog.zoom, (Acceptor.view c).put_get,
            Prog.bind_ret, Comp.modify_apply, Comp.get_apply]

/-- Every run keeps what the constructor sets. -/
theorem magic_run {magic : List UInt8} {now : Int} {streambufs : Nat → StreamBuf}
    {ok : Config Acceptor → Label AcceptorEvent AcceptorCall → Prop} {c : Config Acceptor}
    (run : acceptorSystem.Steps ok (acceptorStart magic now streambufs) c) :
    c.Meets (Terms.any.accepting False fun _ => True)
      (Acceptor.Bottom Terms.any fun a => a.magic = magic) := by
  have kept : Kept Terms.any fun a : Acceptor => a.magic = magic :=
    kept_of_later fun later same => by rw [later.shape]; exact same
  refine (acceptor_run kept (fun _ _ => trivial) (fun c label _ => Terms.any_serves c label)
    (fun c e _ bottom => ?_) (start_meets kept (fun _ _ => trivial) rfl) trivial run).1
  obtain ⟨sound, outside⟩ := bottom
  cases e with
  | receive ec datagram sender clock =>
      refine meets_mono (fun _ _ h => h) (fun _ h => h.elim)
        (acceptorReceive_meets kept (fun _ _ => trivial) ec datagram sender clock sound
          sound.holds ?_ ?_ ?_ ?_ ?_ outside c.state)
      · exact fun _ _ _ _ => sound.holds
      · exact fun _ _ _ erasing _ _ _ => erasing.sound.holds
      · exact fun _ _ sound' _ _ => sound'.holds
      · exact fun _ _ => sound.holds
      · exact fun _ _ _ holds _ => holds
  | timer order now =>
      refine meets_mono (fun _ _ h => h) (fun _ h => h.elim)
        (doUpdate_meets kept (fun _ _ => trivial) now sound sound.holds ?_ ?_ ?_ outside c.state)
      · exact fun _ _ holds => holds
      · exact fun _ _ _ _ _ erasing _ => erasing.sound.holds
      · exact fun _ holds _ => holds
  | posted i => exact runAcceptorPosted_meets kept (fun _ _ => trivial) i sound outside c.state

/-! ## The answer -/

/-- No event: the handling of the last one goes on. -/
def Handling (_ : Config Acceptor) (label : Label AcceptorEvent AcceptorCall) : Prop :=
  ∀ e, label ≠ .event e

/-- No handshake of this endpoint arrives. -/
def NoHandshake (endpoint : Endpoint) (c : Config Acceptor)
    (label : Label AcceptorEvent AcceptorCall) : Prop :=
  ∀ ec datagram clock, label = .event (.receive ec datagram endpoint clock) →
    ¬ c.state.Greeting ec datagram

section Answer
variable {endpoint : Endpoint} {c d e : Config Acceptor} {datagram : List UInt8} {clock : Int}

/-- The answer is the first datagram since the handshake arrived, and stays it. -/
theorem agrees_of_answered {past : List Datagram} (bottom : c.state.Bottom Terms.any fun _ => True)
    (grown : past <+: c.state.env.sent) (silent : c.state.replies past endpoint = [])
    (greeting : c.state.Greeting .success datagram)
    (unopened : ∀ i, c.state.find endpoint = some i → (c.state.conns i).state ≠ .opened)
    (arrives : acceptorSystem.step c (.event (.receive .success datagram endpoint clock)) = some d)
    (handled : acceptorSystem.Steps Handling d e) (idle : e.Idle) :
    Agrees past endpoint e.state := by
  obtain ⟨sound, outside⟩ := bottom
  obtain ⟨b, i, answers, finds, own, env, ops, serving, sound'⟩ := handshark_answers
    (fill_sound sound datagram trivial) (c.state.greetingConv datagram) clock unopened
  have entered : d = .enter [] ((answer i b).tryCatch (pure ())) := by
    obtain ⟨_, rfl⟩ := step_event arrives
    change Config.enter [] (acceptorReceive .success datagram endpoint clock c.state) = _
    rw [acceptorReceive_greeting greeting, answers]
  have kept : Kept Terms.any (Later (b.answered i)) := later_kept _ _
  have walked : ((answer i b).tryCatch (pure ())).Meets
      (Terms.any.accepting False fun _ => True)
      (fun _ => Acceptor.Bottom Terms.any (Later (b.answered i)))
      (Acceptor.Bottom Terms.any (Later (b.answered i))) b := by
    have ran := answer_meets (T := Terms.any) (I := fun _ => True) False kept
      (fun _ _ => trivial) (c := i) sound'.settled sound'.registry (Later.refl _) b
    refine meets_tryCatch _ (meets_mono ?_ ?_ ran)
    · exact fun _ x h => ⟨h.1, (h.2.trans serving).trans outside⟩
    · exact fun x h => ⟨id, h.1, (h.2.trans serving).trans outside⟩
  have base : StackMeets (Terms.any.accepting False fun _ => True)
      (Acceptor.Bottom Terms.any (Later (b.answered i)))
      (Acceptor.Bottom Terms.any (Later (b.answered i))) [] := fun _ h => h
  have meets := (enter_meets (relies_sound kept (fun _ _ => trivial) false) base walked).2
  rw [← entered] at meets
  have after := (acceptor_run kept (fun _ _ => trivial) (fun c label _ => Terms.any_serves c label)
    (fun _ event handling => absurd rfl (handling event)) meets trivial handled).1
  have later : Later (b.answered i) e.state := (meets_bottom after idle).1.holds
  obtain ⟨more, sent⟩ := later.env.sent
  have answered : (b.answered i).env.sent = c.state.env.sent ++
      [⟨endpoint, opcodeHandsharkResponse :: le32 (b.conns i).conv⟩] := by
    simp only [Acceptor.answered, Env.send, own, env]
    rfl
  have first : (b.answered i).replies past endpoint =
      [⟨endpoint, opcodeHandsharkResponse :: le32 (b.conns i).conv⟩] := by
    rw [replies_append grown answered, silent]
    simp
  refine ⟨⟨endpoint, opcodeHandsharkResponse :: le32 (b.conns i).conv⟩, (b.conns i).conv, i,
    ?_, connectResult_response _, ?_, ?_⟩
  · rw [replies_append (answered ▸ grown.trans (List.prefix_append _ _)) sent.symm, first]
    rfl
  · rw [Acceptor.find, later.connections]
    exact finds
  · exact congrArg (fun identity => identity.2.2.1) (later.identity i)

/-- Each handshake of the endpoint comes after something else that is sent to it. -/
def Forestalled (past : List Datagram) (endpoint : Endpoint) (c : Config Acceptor)
    (label : Label AcceptorEvent AcceptorCall) : Prop :=
  ∀ ec datagram clock, label = .event (.receive ec datagram endpoint clock) →
    c.state.Greeting ec datagram → Preempted past endpoint c.state

theorem misanswered_run {past : List Datagram} {b : Config Acceptor}
    (bottom : b.state.Bottom Terms.any fun _ => True) (between : b.Idle)
    (mis : Misanswered past endpoint b.state)
    (run : acceptorSystem.Steps (Forestalled past endpoint) b c) :
    Misanswered past endpoint c.state := by
  have begins : b.Meets (Terms.any.accepting False (Misanswered past endpoint))
      (Acceptor.Bottom Terms.any (Misanswered past endpoint)) := by
    rw [between.eq]
    exact idle_meets (relies_sound misanswered_kept (fun _ h => h) false)
      ⟨⟨bottom.1.settled, bottom.1.registry, mis⟩, bottom.2⟩
  exact (acceptor_run misanswered_kept (fun _ h => h) (fun c label _ => Terms.any_serves c label)
    (fun c e forestalled bottom => misanswered_event e
      (fun ec datagram clock same => forestalled ec datagram clock (congrArg _ same)) bottom)
    begins mis run).2

/-- What a client at `endpoint` receives first is an answer that was under way before it
connected. -/
def StaleAnswer (past : List Datagram) (endpoint : Endpoint) (a : Acceptor) : Prop :=
  ∃ d, (a.replies past endpoint).head? = some d ∧
    d.bytes.head? = some opcodeHandsharkResponse

/-- The request of a client at `endpoint` is under way from `b` to `c`, and handled
from there to `e`; of what the acceptor has sent, `past` has arrived before the client
connects.  The answer names the conv of the connection then registered if the acceptor
still receives, the magic fits its buffer, the endpoint has no open connection when the
request arrives, and nothing else is or has been under way to it; and only if, unless
an old answer is. -/
theorem connect_agrees_iff {magic : List UInt8} {now : Int} {streambufs : Nat → StreamBuf}
    {b : Config Acceptor} {conv : UInt32}
    (reached : acceptorSystem.Steps (fun _ _ => True) (acceptorStart magic now streambufs) b)
    (between : b.Idle) {past : List Datagram} (arrived : past <+: b.state.env.sent)
    (flight : acceptorSystem.Steps (NoHandshake endpoint) b c)
    (_pending : c.state.acceptOps ≠ [])
    (arrives : acceptorSystem.step c
      (.event (.receive .success (connectRequest magic conv) endpoint clock)) = some d)
    (handled : acceptorSystem.Steps Handling d e) (idle : e.Idle) :
    ((c.state.receiving = true ∧ magic.length ≤ 2043 ∧
        (∀ i, c.state.find endpoint = some i → (c.state.conns i).state ≠ .opened) ∧
        c.state.replies past endpoint = []) → Agrees past endpoint e.state) ∧
    (Agrees past endpoint e.state → (c.state.receiving = true ∧ magic.length ≤ 2043 ∧
        (∀ i, c.state.find endpoint = some i → (c.state.conns i).state ≠ .opened) ∧
        c.state.replies past endpoint = []) ∨ StaleAnswer past endpoint b.state) := by
  have bottomB := meets_bottom (magic_run reached) between
  have flown : acceptorSystem.Steps (fun _ _ => True) b c := flight.mono fun _ _ _ => trivial
  have bottomC := meets_bottom (magic_run (reached.trans flown)) (step_event arrives).1
  have settledB : b.state.Bottom Terms.any fun _ => True :=
    ⟨⟨bottomB.1.settled, bottomB.1.registry, trivial⟩, bottomB.2⟩
  have settledC : c.state.Bottom Terms.any fun _ => True :=
    ⟨⟨bottomC.1.settled, bottomC.1.registry, trivial⟩, bottomC.2⟩
  have greets := request_greets_iff c.state conv
  rw [bottomC.1.holds] at greets
  have quiet : ∀ past, acceptorSystem.Steps (Forestalled past endpoint) b c := fun past =>
    flight.mono fun _ _ none ec datagram clock isEvent greeting =>
      absurd greeting (none ec datagram clock isEvent)
  constructor
  · rintro ⟨receiving, fits, unopened, silent⟩
    have none : Misanswered b.state.env.sent endpoint b.state :=
      ⟨List.prefix_refl _, fun d head => by simp [Acceptor.replies] at head⟩
    have grown := (misanswered_run settledB between none (quiet _)).grown
    exact agrees_of_answered settledC (arrived.trans grown) silent
      (greets.mpr ⟨receiving, fits⟩) unopened arrives handled idle
  · intro agrees
    by_contra fails
    obtain ⟨fails, fresh⟩ := not_or.mp fails
    have mis : Misanswered past endpoint b.state :=
      ⟨arrived, fun d head answer => fresh ⟨d, head, answer⟩⟩
    refine misanswered_disagrees (misanswered_run settledB between mis
      (.trans (.tail _ (quiet past) ?_ arrives)
        (handled.mono fun _ _ handling _ _ _ isEvent => absurd isEvent (handling _)))) agrees
    intro ec datagram clock isEvent greeting
    cases isEvent
    by_contra calm
    obtain ⟨silent, unopened⟩ := not_or.mp calm
    refine fails ⟨(greets.mp greeting).1, (greets.mp greeting).2, fun i found opened => ?_,
      not_not.mp silent⟩
    exact unopened ⟨i, found, opened⟩

end Answer

/-- The first client of an acceptor is answered. -/
theorem connect_agrees_hello : ∃ e,
    acceptorSystem.run (acceptorStart [] 0 noStreambufs) [.call .asyncAccept,
      .event (.receive .success (connectRequest [] 7) loopback 0), .back] = some e ∧
      Agrees [] loopback e.state := by
  have first : acceptorSystem.step (acceptorStart [] 0 noStreambufs) (.call .asyncAccept) =
      some (.idle (Acceptor.make [] 0 noStreambufs).push) := rfl
  obtain ⟨d, arrived, _⟩ := run_checked acceptorSystem (.idle (Acceptor.make [] 0 noStreambufs).push)
    [.event (.receive .success (connectRequest [] 7) loopback 0)] (fun _ => true) (by decide)
  obtain ⟨e, ran, idle⟩ := run_checked acceptorSystem (.idle (Acceptor.make [] 0 noStreambufs).push)
    ([.event (.receive .success (connectRequest [] 7) loopback 0)] ++ [.back])
    (fun e => e.isIdle) (by decide)
  have arrives : acceptorSystem.step (.idle (Acceptor.make [] 0 noStreambufs).push)
      (.event (.receive .success (connectRequest [] 7) loopback 0)) = some d := by
    simpa [System.run, Option.bind_eq_some_iff] using arrived
  have handled : acceptorSystem.Steps Handling d e := by
    rw [run_append acceptorSystem _ _ arrived] at ran
    have stepped : acceptorSystem.step d .back = some e := by
      simpa [System.run, Option.bind_eq_some_iff] using ran
    exact .tail _ .refl (by simp [Handling]) stepped
  refine ⟨e, by rw [System.run, first]; exact ran, ?_⟩
  refine (connect_agrees_iff (.tail _ .refl trivial first) ⟨rfl, rfl⟩ (List.prefix_refl _) .refl ?_
    arrives handled (idle_of_isIdle idle)).1 ⟨rfl, by decide, ?_, rfl⟩
  · exact List.cons_ne_nil _ _
  · intro i found
    cases found

/-- The first conversation of an endpoint, opened by its client. -/
def conversation : List (Label AcceptorEvent AcceptorCall) :=
  [.call .asyncAccept, .call .asyncAccept, .event (.receive .success (connectRequest [] 7) loopback 0),
    .back, .event (.receive .success keepalive loopback 1)]

/-- A client that comes back to an open connection receives its disconnect first. -/
theorem reconnect_receives_disconnect : ¬ ∀ b d e,
    acceptorSystem.Steps (fun _ label => label ≠ .answer false)
      (acceptorStart [] 0 noStreambufs) b → b.Idle → b.state.acceptOps ≠ [] →
    acceptorSystem.step b (.event (.receive .success (connectRequest [] 8) loopback 2)) = some d →
    acceptorSystem.Steps Handling d e → e.Idle → Agrees b.state.env.sent loopback e.state := by
  intro claim
  obtain ⟨b, before, checked⟩ := run_checked acceptorSystem (acceptorStart [] 0 noStreambufs)
    conversation (fun b => b.isIdle && b.state.acceptOps == [1] &&
      b.state.env.sent == [⟨loopback, opcodeHandsharkResponse :: le32 7⟩]) (by decide)
  obtain ⟨d, arrived, _⟩ := run_checked acceptorSystem (acceptorStart [] 0 noStreambufs)
    (conversation ++ [.event (.receive .success (connectRequest [] 8) loopback 2)])
    (fun _ => true) (by decide)
  obtain ⟨e, after, last⟩ := run_checked acceptorSystem (acceptorStart [] 0 noStreambufs)
    ((conversation ++ [.event (.receive .success (connectRequest [] 8) loopback 2)]) ++
      [.answer true, .back])
    (fun e => e.isIdle && (e.state.replies [⟨loopback, opcodeHandsharkResponse :: le32 7⟩]
      loopback).head? == some ⟨loopback, opcodeDisconnect :: List.replicate 32 0⟩) (by decide)
  simp only [Bool.and_eq_true, beq_iff_eq] at checked last
  obtain ⟨⟨idleB, ops⟩, sent⟩ := checked
  rw [run_append acceptorSystem _ _ arrived] at after
  rw [run_append acceptorSystem _ _ before] at arrived
  have arrives : acceptorSystem.step b
      (.event (.receive .success (connectRequest [] 8) loopback 2)) = some d := by
    simpa [System.run, Option.bind_eq_some_iff] using arrived
  obtain ⟨reply, conv, i, head, result, _⟩ := claim b d e
    (steps_of_run acceptorSystem (fun label => label ≠ .answer false) _ (by simp [conversation])
      before) (idle_of_isIdle idleB) (by rw [ops]; simp) arrives
    (steps_of_run acceptorSystem (fun label => ∀ e, label ≠ .event e) _ (by simp) after)
    (idle_of_isIdle last.1)
  rw [sent, last.2] at head
  cases head
  simp [connectResult, opcodeDisconnect, opcodeHandsharkResponse] at result

end AsioKcp
