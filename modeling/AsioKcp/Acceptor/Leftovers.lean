import AsioKcp.Acceptor.System
import AsioKcp.Connection.Entries
import AsioKcp.Connection.Runs
import AsioKcp.Ikcp.Extent
import AsioKcp.Lib.Similar

/-! # The bytes that earlier datagrams left in the buffer

A datagram overwrites the front of the buffer of `do_receive`.  What stands behind
it is compared with nothing, copied nowhere and decides nothing: two acceptors
that differ in their buffers take the same steps, whatever happens to them. -/
set_option autoImplicit false

namespace AsioKcp

open AsioKcp.Ikcp AsioKcp.Callback AsioKcp.Machine AsioKcp.Bytes

/-- The acceptors are the same beside their buffers, and beside the history mark
`serving`, which the code does not have. -/
def SameButBuffer (a a' : Acceptor) : Prop :=
  ∃ buffer serving, a' = { a with buffer := buffer, serving := serving }

theorem view_sees (c : Nat) : (Acceptor.view c).Sees SameButBuffer where
  get := by
    rintro a _ ⟨buffer, serving, rfl⟩
    rfl
  put := by
    rintro a _ l ⟨buffer, serving, rfl⟩
    exact ⟨buffer, serving, rfl⟩

theorem onConnection_respects {α : Type} (c : Nat) (m : Comp Local α) :
    (onConnection c m).Respects SameButBuffer := respects_zoom (view_sees c) m

/-! ## What `on_receive` reads -/

theorem onReceive_agree {data data' : List UInt8} {size : Nat} (agree : Agree size data data')
    (t : Int) : onReceive data size t = onReceive data' size t := by
  funext l
  rw [onReceive_eq, onReceive_eq]
  by_cases short : size < 24
  · rw [if_pos short, if_pos short]
  · have opcode : data.getD 0 0 = data'.getD 0 0 := agree.getD (by omega)
    have received : l.received data size t = l.received data' size t := by
      rw [Local.received, Local.received, opcode, ikcpInput_agree l.conn.obj (agree.drop 1)]
    rw [if_neg short, if_neg short, opcode, received]

/-! ## The code of the acceptor -/

/-- A change that does not depend on what the relation leaves out. -/
theorem respects_change {f : Acceptor → Acceptor} (blind : ∀ a buffer serving, ∃ buffer' serving',
    f { a with buffer := buffer, serving := serving } =
      { f a with buffer := buffer', serving := serving' }) :
    (Comp.modify f).Respects SameButBuffer := by
  refine respects_modify ?_
  rintro a _ ⟨buffer, serving, rfl⟩
  exact blind a buffer serving

theorem respects_look {β : Type} {f : Acceptor → Comp Acceptor β}
    (blind : ∀ (a : Acceptor) buffer serving,
      f { a with buffer := buffer, serving := serving } = f a)
    (rest : ∀ a, (f a).Respects SameButBuffer) : (Comp.get >>= f).Respects SameButBuffer := by
  refine respects_read ?_ rest
  rintro a _ ⟨buffer, serving, rfl⟩
  exact (blind a buffer serving).symm

theorem answer_respects (c : Nat) : (answer c).Respects SameButBuffer := by
  refine respects_look (fun _ _ _ => rfl) fun a =>
    respects_bind (onConnection_respects c _) fun _ => ?_
  cases a.acceptOps with
  | nil => exact respects_change fun _ b s => ⟨b, s, rfl⟩
  | cons op rest => exact respects_bind (respects_change fun _ b s => ⟨b, s, rfl⟩) fun _ => respects_invoke

theorem create_respects (conv : UInt32) (endpoint : Endpoint) (clock : Int) :
    (Comp.modify fun a : Acceptor => a.create conv endpoint clock).Respects SameButBuffer :=
  respects_change fun _ b s => ⟨b, s, rfl⟩

theorem erase_respects (endpoint : Endpoint) (c : Nat) (pending : List Nat) :
    (Comp.modify fun a : Acceptor => a.erase endpoint c pending).Respects SameButBuffer :=
  respects_change fun _ b s => ⟨b, s, rfl⟩

theorem serve_respects (serving : Bool) :
    (Comp.modify fun a : Acceptor => a.serve serving).Respects SameButBuffer :=
  respects_change fun _ b _ => ⟨b, serving, rfl⟩

theorem handshark_respects (conv : UInt32) (endpoint : Endpoint) (clock : Int) :
    (handshark conv endpoint clock).Respects SameButBuffer := by
  refine respects_look (fun _ _ _ => rfl) fun a => ?_
  cases a.find endpoint with
  | none => exact respects_bind (create_respects conv endpoint clock) fun _ => answer_respects _
  | some c =>
      dsimp only
      split
      · exact answer_respects c
      · refine respects_bind (onConnection_respects c _) fun _ =>
          respects_bind (erase_respects endpoint c _) fun _ => ?_
        exact respects_look (fun _ _ _ => rfl) fun b =>
          respects_bind (create_respects conv endpoint clock) fun _ => answer_respects _

theorem updateConnections_respects (now : Int) (entries : List (Endpoint × Nat)) :
    (updateConnections now entries).Respects SameButBuffer := by
  induction entries with
  | nil => exact respects_pure ()
  | cons entry rest ih =>
      refine respects_look (fun _ _ _ => rfl) fun a =>
        respects_bind (onConnection_respects entry.2 _) fun expired => ?_
      dsimp only
      split
      · exact respects_bind (erase_respects entry.1 entry.2 _) fun _ => ih
      · exact ih

theorem doUpdate_respects (order : List (Endpoint × Nat)) (now : Int) :
    (doUpdate order now).Respects SameButBuffer := by
  refine respects_look (fun _ _ _ => rfl) fun a => ?_
  split
  · refine respects_bind (respects_change fun _ b _ => ⟨b, true, rfl⟩) fun _ => ?_
    exact respects_bind (respects_tryCatch (updateConnections_respects now order)
      (respects_change fun _ b s => ⟨b, s, rfl⟩)) fun _ => serve_respects false
  · exact respects_pure ()

/-- What `do_receive` does once `n` bytes stand in the buffer. -/
def afterFill (n : Nat) (sender : Endpoint) (clock : Int) (a : Acceptor) : Comp Acceptor Unit :=
  let opcode := a.buffer.getD 0 0
  if opcode ≥ opcodeMax then pure ()
  else if opcode = opcodeHandshark then
    if a.greeted n then
      Comp.tryCatch (handshark (read32 (a.buffer.drop (1 + a.magic.length))) sender clock) (pure ())
    else pure ()
  else match a.find sender with
    | some c => do
        Comp.modify fun a => a.serve true
        Comp.tryCatch (onConnection c (onReceive a.buffer n a.now))
          (Comp.modify fun a => { a with receiving := false })
        Comp.modify fun a => a.serve false
    | none => pure ()

theorem acceptorReceive_eq (ec : ErrorCode) (datagram : List UInt8) (sender : Endpoint)
    (clock : Int) (a : Acceptor) :
    acceptorReceive ec datagram sender clock a =
      if a.receiving = false ∨ ec ≠ .success then .ret a ()
      else afterFill (min datagram.length 2048) sender clock (a.fill datagram)
        (a.fill datagram) := by
  unfold acceptorReceive
  by_cases stopped : a.receiving = false ∨ ec ≠ .success
  · simp only [Comp.bind_apply, Comp.get_apply, Prog.bind_ret, if_pos stopped, Comp.pure_apply]
  · simp only [Comp.bind_apply, Comp.get_apply, Prog.bind_ret, if_neg stopped, Comp.modify_apply]
    rfl

theorem afterFill_respects (n : Nat) (sender : Endpoint) (clock : Int) (a : Acceptor) :
    (afterFill n sender clock a).Respects SameButBuffer := by
  unfold afterFill
  dsimp only
  split
  · exact respects_pure ()
  · split
    · split
      · exact respects_tryCatch (handshark_respects _ sender clock) (respects_pure ())
      · exact respects_pure ()
    · split
      · refine respects_bind (serve_respects true) fun _ => respects_bind
          (respects_tryCatch (onConnection_respects _ _) ?_) fun _ => serve_respects false
        exact respects_change fun _ b s => ⟨b, s, rfl⟩
      · exact respects_pure ()

/-- Of a datagram that is not empty, only its own bytes count. -/
theorem afterFill_agree {n : Nat} (some : 0 < n) (sender : Endpoint) (clock : Int) {a : Acceptor}
    {buffer : List UInt8} (agree : Agree n a.buffer buffer) (serving : Bool) :
    afterFill n sender clock { a with buffer := buffer, serving := serving } =
      afterFill n sender clock a := by
  have opcode : buffer.getD 0 0 = a.buffer.getD 0 0 := (agree.getD some).symm
  have magic : n = 1 + a.magic.length + 4 →
      (buffer.drop 1).take a.magic.length = (a.buffer.drop 1).take a.magic.length :=
    fun size => ((agree.drop 1).mono (by omega) : Agree a.magic.length _ _).symm
  have conv : n = 1 + a.magic.length + 4 →
      read32 (buffer.drop (1 + a.magic.length)) = read32 (a.buffer.drop (1 + a.magic.length)) :=
    fun size => ((agree.drop (1 + a.magic.length)).read32 (by omega)).symm
  have greeted : Acceptor.greeted { a with buffer := buffer, serving := serving } n ↔
      a.greeted n := by
    refine and_congr_right fun size => ?_
    dsimp only
    rw [magic size]
  have received : onReceive buffer n a.now = onReceive a.buffer n a.now :=
    (onReceive_agree agree a.now).symm
  unfold afterFill
  dsimp only
  rw [opcode]
  refine if_congr Iff.rfl rfl (if_congr Iff.rfl ?_ ?_)
  · by_cases met : a.greeted n
    · rw [if_pos (greeted.mpr met), if_pos met, conv met.1]
    · rw [if_neg fun meets => met (greeted.mp meets), if_neg met]
  · rw [received]
    rfl

/-- An empty datagram has no effect, whatever the buffer holds. -/
theorem afterFill_empty (sender : Endpoint) (clock : Int) (a b : Acceptor) :
    ∃ serving, afterFill 0 sender clock a b = .ret { b with serving := serving } () := by
  have unmet : ¬ a.greeted 0 := by
    rintro ⟨size, -⟩
    omega
  unfold afterFill
  rw [if_neg unmet, Comp.ite_apply, Comp.ite_apply]
  split
  · exact ⟨b.serving, rfl⟩
  · split
    · exact ⟨b.serving, rfl⟩
    · cases a.find sender with
      | none => exact ⟨b.serving, rfl⟩
      | some c =>
          refine ⟨false, ?_⟩
          have ignored : onConnection c (onReceive a.buffer 0 a.now) (b.serve true) =
              .ret (b.serve true) () := by
            rw [onConnection, Comp.zoom_apply, onReceive_eq, if_pos (by omega), Prog.zoom,
              (Acceptor.view c).put_get]
          simp only [Comp.bind_apply, Comp.modify_apply, Prog.bind_ret, Comp.tryCatch_apply,
            ignored, Prog.tryCatch]
          rfl

/-- The datagram itself stands in both buffers. -/
theorem fill_agree (a : Acceptor) (datagram buffer : List UInt8) (serving : Bool) :
    Agree (min datagram.length 2048) (a.fill datagram).buffer
      (Acceptor.fill { a with buffer := buffer, serving := serving } datagram).buffer := by
  have front : ∀ rest : List UInt8,
      (datagram.take 2048 ++ rest).take (min datagram.length 2048) = datagram.take 2048 := by
    intro rest
    rw [Nat.min_comm, ← List.length_take]
    exact List.take_left
  exact (front _).trans (front _).symm

theorem acceptorReceive_respects (ec : ErrorCode) (datagram : List UInt8) (sender : Endpoint)
    (clock : Int) : (acceptorReceive ec datagram sender clock).Respects SameButBuffer := by
  rintro a _ ⟨buffer, serving, rfl⟩
  have filled := fill_agree a datagram buffer serving
  have related : SameButBuffer (a.fill datagram)
      (Acceptor.fill { a with buffer := buffer, serving := serving } datagram) :=
    ⟨datagram.take 2048 ++ buffer.drop datagram.length, serving, rfl⟩
  rw [acceptorReceive_eq, acceptorReceive_eq]
  by_cases stopped : a.receiving = false ∨ ec ≠ .success
  · rw [if_pos stopped, if_pos stopped]
    exact ⟨⟨buffer, serving, rfl⟩, rfl⟩
  · rw [if_neg stopped, if_neg stopped]
    by_cases empty : datagram = []
    · subst empty
      obtain ⟨s, first⟩ := afterFill_empty sender clock (a.fill []) (a.fill [])
      obtain ⟨s', second⟩ := afterFill_empty sender clock
        (Acceptor.fill { a with buffer := buffer, serving := serving } [])
        (Acceptor.fill { a with buffer := buffer, serving := serving } [])
      change Prog.Similar _ (afterFill 0 sender clock _ _) (afterFill 0 sender clock _ _)
      rw [first, second]
      exact ⟨⟨buffer, s', rfl⟩, rfl⟩
    · have some : 0 < min datagram.length 2048 := by
        have := List.length_pos_iff.mpr empty
        omega
      have same : afterFill (min datagram.length 2048) sender clock
          (Acceptor.fill { a with buffer := buffer, serving := serving } datagram) =
            afterFill (min datagram.length 2048) sender clock (a.fill datagram) :=
        afterFill_agree some sender clock filled serving
      rw [same]
      exact afterFill_respects _ sender clock (a.fill datagram) _ _ related

/-! ## The users, the timer and the executor -/

/-- What a call restores at its end is the history mark. -/
theorem asUser_respects {m : Comp Acceptor Unit} (called : m.Respects SameButBuffer) :
    (asUser m).Respects SameButBuffer := by
  intro a a' related
  have restored : ∀ serving serving' b b', SameButBuffer b b' →
      SameButBuffer (b.serve serving) (b'.serve serving') := by
    rintro serving serving' b _ ⟨buffer, _, rfl⟩
    exact ⟨buffer, serving', rfl⟩
  have unwound : ∀ b b', SameButBuffer b b' → Prog.Similar SameButBuffer
      (.throw (b.serve a.serving) : Prog Acceptor Unit) (.throw (b'.serve a'.serving)) :=
    restored a.serving a'.serving
  have returned : ∀ (_ : Unit) b b', SameButBuffer b b' → Prog.Similar SameButBuffer
      (.ret (b.serve a.serving) ()) (.ret (b'.serve a'.serving) ()) :=
    fun _ b b' later => ⟨restored a.serving a'.serving b b' later, rfl⟩
  have began := called _ _ (restored false false a a' related)
  exact similar_bind returned (similar_tryCatch unwound began)

theorem runAcceptorCall_respects (k : AcceptorCall) :
    (runAcceptorCall k).Respects SameButBuffer := by
  cases k with
  | asyncAccept => exact respects_change fun _ b s => ⟨b, s, rfl⟩
  | connection c k =>
      refine respects_look (fun _ _ _ => rfl) fun a => ?_
      split
      · exact asUser_respects (onConnection_respects c _)
      · exact respects_pure ()

theorem runAcceptorPosted_respects (i : Nat) : (runAcceptorPosted i).Respects SameButBuffer := by
  refine respects_look (fun _ _ _ => rfl) fun a => ?_
  cases a.env.posted[i]? with
  | none => exact respects_pure ()
  | some task =>
      refine respects_bind (respects_change fun _ b s => ⟨b, s, rfl⟩) fun _ => ?_
      cases task with
      | completion c =>
          exact respects_bind (respects_change fun _ b s => ⟨b, s, rfl⟩) fun _ => respects_invoke
      | checkReadOp c => exact onConnection_respects c _

theorem runAcceptorEvent_respects (e : AcceptorEvent) :
    (runAcceptorEvent e).Respects SameButBuffer := by
  cases e with
  | receive ec datagram sender clock => exact acceptorReceive_respects ec datagram sender clock
  | timer order now => exact doUpdate_respects order now
  | posted i => exact runAcceptorPosted_respects i

/-- What stands in the buffer when a datagram arrives is never seen: not while the
datagram is handled, nor in anything that happens later. -/
theorem leftovers_unseen (a : Acceptor) (buffer buffer' : List UInt8) (ec : ErrorCode)
    (datagram : List UInt8) (sender : Endpoint) (clock : Int)
    (labels : List (Label AcceptorEvent AcceptorCall)) {d : Config Acceptor}
    (ran : acceptorSystem.run (.idle { a with buffer := buffer })
      (.event (.receive ec datagram sender clock) :: labels) = some d) :
    ∃ d', acceptorSystem.run (.idle { a with buffer := buffer' })
        (.event (.receive ec datagram sender clock) :: labels) = some d' ∧
      SameButBuffer d.state d'.state ∧ (d.Idle ↔ d'.Idle) := by
  have same : SameButBuffer { a with buffer := buffer } { a with buffer := buffer' } :=
    ⟨buffer', a.serving, rfl⟩
  obtain ⟨d', ran', similar⟩ := run_similar runAcceptorEvent_respects runAcceptorCall_respects
    _ (idle_similar same) ran
  exact ⟨d', ran', similar.state, similar.idle_iff⟩

/-- The empty datagram, after one that began with the opcode of a handshake. -/
theorem leftovers_unseen_empty :
    ∃ d', acceptorSystem.run
        (.idle { Acceptor.make [] 0 noStreambufs with
          buffer := opcodeHandshark :: List.replicate 2047 0 })
        [.event (.receive .success [] loopback 3)] = some d' ∧
      SameButBuffer (Acceptor.make [] 0 noStreambufs) d'.state ∧ d'.Idle := by
  obtain ⟨d', ran', same, idle⟩ := leftovers_unseen (Acceptor.make [] 0 noStreambufs)
    (List.replicate 2048 0) (opcodeHandshark :: List.replicate 2047 0) .success [] loopback 3 [] rfl
  exact ⟨d', ran', same, idle.mp ⟨rfl, rfl⟩⟩

end AsioKcp
