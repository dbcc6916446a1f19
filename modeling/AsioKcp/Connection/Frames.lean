import AsioKcp.Connection.Acts

/-! # What acts leave alone

No act renames a connection, opens it or counts as a datagram received, and no
datagram that an act sends is a response to a handshake. -/
set_option autoImplicit false

namespace AsioKcp

open AsioKcp.Ikcp AsioKcp.Callback AsioKcp.Machine

/-- The fields that only the constructor sets, and the time of the last receive. -/
def Connection.identity (c : Connection) : Nat × Bool × UInt32 × Endpoint × Int :=
  (c.this, c.isserver, c.conv, c.endpoint, c.nowTick)

/-- Datagrams of a connection at `dest`, none of them a response to a handshake. -/
def Unanswering (dest : Endpoint) (datagrams : List Datagram) : Prop :=
  ∀ d ∈ datagrams, d.dest = dest ∧ d.bytes.head? ≠ some opcodeHandsharkResponse

structure Onward (l l' : Local) : Prop where
  identity : l'.conn.identity = l.conn.identity
  idle : l'.conn.state = .idle ↔ l.conn.state = .idle
  closed : l.closed → l'.closed
  env : l.env.Grows l'.env
  sent : ∃ datagrams, l'.env.sent = l.env.sent ++ datagrams ∧
    Unanswering l.conn.endpoint datagrams

theorem Env.Grows.refl (env : Env) : env.Grows env :=
  ⟨List.prefix_refl _, List.prefix_refl _, le_refl _, le_refl _⟩

theorem Env.Grows.trans {env env' env'' : Env} (first : env.Grows env') (second : env'.Grows env'') :
    env.Grows env'' :=
  ⟨first.sent.trans second.sent, first.invoked.trans second.invoked,
    first.refused.trans second.refused, first.nextHandler.trans second.nextHandler⟩

theorem unanswering_nil (dest : Endpoint) : Unanswering dest [] := by
  simp [Unanswering]

theorem unanswering_data (dest : Endpoint) (datagrams : List (List UInt8)) :
    Unanswering dest (dataDatagrams dest datagrams) := by
  intro d member
  obtain ⟨bytes, _, rfl⟩ := List.mem_map.mp member
  refine ⟨rfl, ?_⟩
  simp [opcodeData, opcodeHandsharkResponse]

/-- A step that sends nothing. -/
theorem onward_silent {l l' : Local} (identity : l'.conn.identity = l.conn.identity)
    (state : l'.conn.state = l.conn.state) (env : l.env.Grows l'.env)
    (sent : l'.env.sent = l.env.sent) : Onward l l' where
  identity := identity
  idle := by rw [state]
  closed := by
    rw [Local.closed, Local.closed, state]
    exact id
  env := env
  sent := ⟨[], by rw [sent, List.append_nil], unanswering_nil _⟩

theorem Onward.endpoint {l l' : Local} (onward : Onward l l') :
    l'.conn.endpoint = l.conn.endpoint :=
  congrArg (fun identity => identity.2.2.2.1) onward.identity

theorem pollRead_onward (ec : ErrorCode) (op : ReadOperation) (l : Local) :
    Onward l (pollRead ec op l).2 := by
  have recorded : ∀ c : Completion, l.env.Grows { l.env with invoked := l.env.invoked ++ [c] } :=
    fun c => ⟨List.prefix_refl _, List.prefix_append _ _, le_refl _, le_refl _⟩
  have refl := Env.Grows.refl l.env
  unfold pollRead
  split_ifs with failed
  · exact onward_silent rfl rfl (recorded _) rfl
  · cases op with
    | readSome handler size =>
        dsimp only
        split_ifs
        · exact onward_silent rfl rfl (recorded _) rfl
        · exact onward_silent rfl rfl refl rfl
    | read handler buffer need =>
        dsimp only
        split_ifs
        · exact onward_silent rfl rfl
            ⟨List.prefix_refl _, List.prefix_refl _, Nat.le_succ _, le_refl _⟩ rfl
        · exact onward_silent rfl rfl
            ⟨List.prefix_refl _, List.prefix_append _ _, le_refl _, le_refl _⟩ rfl
        · exact onward_silent rfl rfl
            ⟨List.prefix_refl _, List.prefix_refl _, le_refl _, le_refl _⟩ rfl

theorem act_onward {T : Terms} {l l' : Local} (act : Act T l l') : Onward l l' := by
  have posts : ∀ posted, l.env.Grows { l.env with
      nextHandler := l.env.nextHandler + 1, posted := posted } :=
    fun posted => ⟨List.prefix_refl _, List.prefix_refl _, le_refl _, Nat.le_succ _⟩
  cases act with
  | refuseRead _ => exact onward_silent rfl rfl (posts _) rfl
  | readSome _ _ _ _ => exact onward_silent rfl rfl (posts _) rfl
  | read _ _ _ _ _ => exact onward_silent rfl rfl (posts _) rfl
  | refuseWrite _ => exact onward_silent rfl rfl (posts _) rfl
  | messageSize _ _ _ _ _ => exact onward_silent rfl rfl (posts _) rfl
  | write _ _ _ _ _ => exact onward_silent rfl rfl (posts _) rfl
  | writePending _ _ _ _ _ => exact onward_silent rfl rfl (posts _) rfl
  | streambuf _ _ =>
      exact onward_silent rfl rfl
        ⟨List.prefix_refl _, List.prefix_refl _, le_refl _, le_refl _⟩ rfl
  | pollRead ec op _ _ _ => exact pollRead_onward ec op l
  | pollWrite _ _ _ _ _ _ =>
      exact onward_silent rfl rfl
        ⟨List.prefix_refl _, List.prefix_append _ _, le_refl _, le_refl _⟩ rfl
  | beginClose opened =>
      rw [Local.beginClose, flush_eq]
      refine ⟨rfl, ?_, fun _ => rfl, ?_, _, rfl, unanswering_data _ _⟩
      · simp [opened]
      · exact ⟨List.prefix_append _ _, List.prefix_refl _, le_refl _, le_refl _⟩
  | disconnect closed _ =>
      have same : l.disconnect.conn.identity = l.conn.identity ∧
          l.disconnect.conn.state = l.conn.state := by
        unfold Local.disconnect
        dsimp only
        split <;> exact ⟨rfl, rfl⟩
      refine ⟨same.1, by rw [same.2], fun _ => same.2.trans closed, ?_, _, rfl, ?_⟩
      · exact ⟨List.prefix_append _ _, List.prefix_refl _, le_refl _, le_refl _⟩
      · intro d member
        rw [List.mem_singleton.mp member]
        exact ⟨rfl, by simp [opcodeDisconnect, opcodeHandsharkResponse]⟩
  | armReceive _ => exact onward_silent rfl rfl (Env.Grows.refl _) rfl

end AsioKcp
