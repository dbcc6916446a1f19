import AsioKcp.Acceptor.Connect

/-! # The handshake as a code

The acceptor decodes exactly the requests that `async_connect` encodes.
`async_connect` looks at the first byte of an answer only. -/
set_option autoImplicit false

namespace AsioKcp

open AsioKcp.Ikcp AsioKcp.Callback AsioKcp.Machine AsioKcp.Bytes

/-- The datagram that `handshark` sends. -/
def handsharkResponse (conv : UInt32) : List UInt8 := opcodeHandsharkResponse :: le32 conv

/-- What `async_connect` returns for the first datagram that it receives. -/
def asyncConnect (endpoint : Endpoint) (now : Int) (streambufs : Nat → StreamBuf)
    (datagram : List UInt8) : Except ErrorCode (Config Local) :=
  (connectResult datagram).map fun conv => clientStart conv endpoint now streambufs

/-! ## Requests -/

/-- A datagram that fits the buffer stands at its front. -/
theorem fill_front (a : Acceptor) {datagram : List UInt8} (fits : datagram.length ≤ 2048) :
    ∃ stale, (a.fill datagram).buffer = datagram ++ stale := by
  have whole := List.take_of_length_le fits
  exact ⟨a.buffer.drop datagram.length, congrArg (· ++ a.buffer.drop datagram.length) whole⟩

theorem greetingConv_front {a : Acceptor} {first : UInt8} {rest stale : List UInt8}
    (front : (a.fill (first :: rest)).buffer = first :: rest ++ stale) :
    a.greetingConv (first :: rest) = read32 ((rest ++ stale).drop a.magic.length) := by
  rw [Acceptor.greetingConv, front, Nat.add_comm, List.cons_append, List.drop_succ_cons]

theorem greeting_request {a : Acceptor} {datagram : List UInt8} (short : a.magic.length ≤ 2042)
    (greeting : a.Greeting .success datagram) :
    datagram = connectRequest a.magic (a.greetingConv datagram) := by
  obtain ⟨_, opcode, size, magic⟩ := greeting
  have bytes : min datagram.length 2048 = 1 + a.magic.length + 4 := size
  have length : datagram.length = 1 + a.magic.length + 4 := by omega
  obtain ⟨stale, front⟩ := @fill_front a datagram (by omega)
  rw [front] at opcode magic
  cases datagram with
  | nil => simp at length
  | cons first rest =>
      rw [List.length_cons] at length
      have within : a.magic.length ≤ rest.length := by omega
      have four : (rest.drop a.magic.length).length = 4 := by
        rw [List.length_drop]
        omega
      have conv : a.greetingConv (first :: rest) = read32 (rest.drop a.magic.length) := by
        rw [greetingConv_front front, List.drop_append_of_le_length within,
          read32_append (Nat.le_of_eq four.symm)]
      have same : (rest ++ stale).take a.magic.length = a.magic := magic
      rw [List.take_append_of_le_length within] at same
      have isFirst : first = opcodeHandshark := opcode
      have split := List.take_append_drop a.magic.length rest
      rw [same] at split
      rw [conv, connectRequest, le32_read32 four, isFirst, List.cons_append, split]

theorem request_conv {a : Acceptor} {conv : UInt32} (short : a.magic.length ≤ 2042) :
    a.greetingConv (connectRequest a.magic conv) = conv := by
  have size := request_length a.magic conv
  obtain ⟨stale, front⟩ := @fill_front a (connectRequest a.magic conv) (by omega)
  rw [connectRequest, List.cons_append] at front ⊢
  rw [greetingConv_front front, List.append_assoc, List.drop_left, read32_le32_append]

/-- The acceptor decodes what `async_connect` encodes, and nothing else. -/
theorem greeting_iff {a : Acceptor} (short : a.magic.length ≤ 2042) (receiving : a.receiving = true)
    (datagram : List UInt8) (conv : UInt32) :
    a.Greeting .success datagram ∧ a.greetingConv datagram = conv ↔
      datagram = connectRequest a.magic conv := by
  constructor
  · rintro ⟨greeting, rfl⟩
    exact greeting_request short greeting
  · rintro rfl
    exact ⟨(request_greets_iff a conv).mpr ⟨receiving, by omega⟩, request_conv short⟩

/-! ## Connections are created by handshakes only -/

theorem created_event {n : Nat} {a : Acceptor} (e : AcceptorEvent)
    (other : ∀ ec datagram sender clock, e = .receive ec datagram sender clock →
      ¬ a.Greeting ec datagram)
    (bottom : a.Bottom Terms.any fun a => a.created = n) :
    (runAcceptorEvent e a).Meets (Terms.any.accepting False fun a => a.created = n)
      (fun _ => Acceptor.Bottom Terms.any fun a => a.created = n)
      (Acceptor.Bottom Terms.any fun a => a.created = n) a := by
  have kept : Kept Terms.any fun a : Acceptor => a.created = n :=
    kept_of_later fun later same => by rw [later.shape]; exact same
  obtain ⟨sound, outside⟩ := bottom
  cases e with
  | receive ec datagram sender clock =>
      have absent := other ec datagram sender clock rfl
      refine meets_mono (fun _ _ h => h) (fun _ h => h.elim)
        (acceptorReceive_meets kept (fun _ h => h) ec datagram sender clock sound sound.holds
          ?_ ?_ ?_ ?_ ?_ outside a)
      · exact fun _ greeting => absurd greeting absent
      · exact fun _ _ greeting => absurd greeting absent
      · exact fun _ greeting => absurd greeting absent
      · exact fun _ _ => sound.holds
      · exact fun _ _ _ holds _ => holds
  | timer order now =>
      refine meets_mono (fun _ _ h => h) (fun _ h => h.elim)
        (doUpdate_meets kept (fun _ h => h) now sound sound.holds ?_ ?_ ?_ outside a)
      · exact fun _ _ holds => holds
      · exact fun _ _ _ _ _ erasing _ => erasing.sound.holds
      · exact fun _ holds _ => holds
  | posted i => exact runAcceptorPosted_meets kept (fun _ h => h) i sound outside a

/-- What is no handshake adds no connection, whatever handlers do meanwhile. -/
theorem created_run {magic : List UInt8} {now : Int} {streambufs : Nat → StreamBuf}
    {c d : Config Acceptor}
    (reached : acceptorSystem.Steps (fun _ _ => True) (acceptorStart magic now streambufs) c)
    (idle : c.Idle)
    (run : acceptorSystem.Steps (fun c label => ∀ ec datagram sender clock,
      label = .event (.receive ec datagram sender clock) → ¬ c.state.Greeting ec datagram) c d) :
    d.state.created = c.state.created := by
  have kept : Kept Terms.any fun a : Acceptor => a.created = c.state.created :=
    kept_of_later fun later same => by rw [later.shape]; exact same
  have bottom := meets_bottom (magic_run reached) idle
  have begins : c.Meets (Terms.any.accepting False fun a => a.created = c.state.created)
      (Acceptor.Bottom Terms.any fun a => a.created = c.state.created) := by
    rw [idle.eq]
    exact idle_meets (relies_sound kept (fun _ h => h) false)
      ⟨⟨bottom.1.settled, bottom.1.registry, rfl⟩, bottom.2⟩
  exact (acceptor_run kept (fun _ h => h) (fun c label _ => Terms.any_serves c label)
    (fun c e other bottom => created_event e (fun ec datagram sender clock same =>
      other ec datagram sender clock (congrArg _ same)) bottom) begins rfl run).2

/-! ## Answers -/

theorem connectResult_five {datagram : List UInt8} {conv : UInt32}
    (length : datagram.head? = some opcodeHandsharkResponse → datagram.length = 5) :
    connectResult datagram = .ok conv ↔ datagram = handsharkResponse conv := by
  constructor
  · intro accepted
    by_cases answer : datagram.head? = some opcodeHandsharkResponse
    · cases datagram with
      | nil => cases answer
      | cons first rest =>
          have isFirst : first = opcodeHandsharkResponse := Option.some.inj answer
          have four : rest.length = 4 := by
            have five := length answer
            rw [List.length_cons] at five
            omega
          subst isFirst
          rw [← le32_read32 four] at accepted ⊢
          have decoded := connectResult_response (read32 rest)
          rw [decoded] at accepted
          rw [Except.ok.inj accepted]
          rfl
    · rw [connectResult_other answer] at accepted
      cases accepted
  · rintro rfl
    exact connectResult_response conv

/-- Any datagram that begins with the opcode is taken for an answer. -/
theorem connectResult_opcode {datagram : List UInt8}
    (answer : datagram.head? = some opcodeHandsharkResponse) :
    ∃ conv, connectResult datagram = .ok conv := by
  cases datagram with
  | nil => cases answer
  | cons first rest =>
      have isFirst : first = opcodeHandsharkResponse := Option.some.inj answer
      refine ⟨_, if_neg ?_⟩
      simp [isFirst]

/-- Both sides take exactly what the other side sends, for a datagram that reaches
an acceptor or is the first that a client receives. -/
structure ExactHandshake (c : Config Acceptor) (datagram : List UInt8) : Prop where
  recovers : ∀ conv, c.state.Greeting .success datagram ∧ c.state.greetingConv datagram = conv ↔
    datagram = connectRequest c.state.magic conv
  starts : ∀ conv, datagram = connectRequest c.state.magic conv → ∀ sender clock,
    acceptorReceive .success datagram sender clock c.state =
      (handshark conv sender clock (c.state.fill datagram)).tryCatch (pure ())
  rejects : (∀ conv, datagram ≠ connectRequest c.state.magic conv) → ∀ sender clock d e,
    acceptorSystem.step c (.event (.receive .success datagram sender clock)) = some d →
    acceptorSystem.Steps Handling d e → e.state.created = c.state.created
  connects : ∀ endpoint now streambufs client,
    asyncConnect endpoint now streambufs datagram = .ok client ↔
      ∃ conv, datagram = handsharkResponse conv ∧ client = clientStart conv endpoint now streambufs

theorem asyncConnect_iff {endpoint : Endpoint} {now : Int} {streambufs : Nat → StreamBuf}
    {datagram : List UInt8} {client : Config Local} :
    asyncConnect endpoint now streambufs datagram = .ok client ↔
      ∃ conv, connectResult datagram = .ok conv ∧
        client = clientStart conv endpoint now streambufs := by
  unfold asyncConnect
  cases connectResult datagram with
  | error ec =>
      constructor
      · rintro ⟨⟩
      · rintro ⟨_, ⟨⟩, _⟩
  | ok conv =>
      constructor
      · intro returned
        exact ⟨conv, rfl, (Except.ok.inj returned).symm⟩
      · rintro ⟨_, ⟨⟩, rfl⟩
        rfl

/-- The handshake is exact but for the length of an answer. -/
theorem exact_handshake_iff {magic : List UInt8} {now : Int} {streambufs : Nat → StreamBuf}
    {c : Config Acceptor} (short : magic.length ≤ 2042)
    (reached : acceptorSystem.Steps (fun _ _ => True) (acceptorStart magic now streambufs) c)
    (idle : c.Idle) (receiving : c.state.receiving = true) (datagram : List UInt8) :
    ExactHandshake c datagram ↔
      (datagram.head? = some opcodeHandsharkResponse → datagram.length = 5) := by
  have isMagic : c.state.magic = magic := (meets_bottom (magic_run reached) idle).1.holds
  have recovers := greeting_iff (by rw [isMagic]; exact short) receiving datagram
  constructor
  · intro exact answer
    obtain ⟨conv, accepted⟩ := connectResult_opcode answer
    obtain ⟨_, response, _⟩ := (exact.connects ⟨.v4 0, 0⟩ 0 streambufs _).mp
      (asyncConnect_iff.mpr ⟨conv, accepted, rfl⟩)
    rw [response]
    rfl
  · intro length
    refine ⟨recovers, ?_, ?_, ?_⟩
    · intro conv request sender clock
      obtain ⟨greeting, decoded⟩ := (recovers conv).mpr request
      rw [acceptorReceive_greeting greeting, decoded]
    · intro other sender clock d e arrives handled
      have absent : ¬ c.state.Greeting .success datagram := fun greeting =>
        other _ ((recovers _).mp ⟨greeting, rfl⟩)
      refine created_run reached idle (.trans (.tail _ .refl ?_ arrives)
        (handled.mono fun _ _ handling _ _ _ _ isEvent => absurd isEvent (handling _)))
      rintro ec received sender clock ⟨⟩
      exact absent
    · intro endpoint now streambufs client
      rw [asyncConnect_iff]
      simp only [connectResult_five length]

theorem exact_handshake_iff_hello :
    ExactHandshake (acceptorStart [] 0 noStreambufs) (connectRequest [] 7) ↔
      ((connectRequest [] 7).head? = some opcodeHandsharkResponse →
        (connectRequest [] 7).length = 5) :=
  exact_handshake_iff (by decide) .refl ⟨rfl, rfl⟩ rfl _

/-- One byte makes a connection of a client. -/
theorem one_byte_connects : ¬ ∀ (magic : List UInt8) (c : Config Acceptor) (datagram : List UInt8),
    magic.length ≤ 2042 →
    acceptorSystem.Steps (fun _ _ => True) (acceptorStart magic 0 noStreambufs) c → c.Idle →
    c.state.receiving = true → ExactHandshake c datagram := by
  intro claimed
  have exact := claimed [] _ [opcodeHandsharkResponse] (by decide) .refl ⟨rfl, rfl⟩ rfl
  obtain ⟨conv, accepted⟩ := @connectResult_opcode [opcodeHandsharkResponse] rfl
  obtain ⟨_, response, _⟩ := (exact.connects loopback 0 noStreambufs _).mp
    (asyncConnect_iff.mpr ⟨conv, accepted, rfl⟩)
  have length := congrArg List.length response
  exact absurd length (by simp [handsharkResponse])

end AsioKcp
