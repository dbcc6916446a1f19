import AsioKcp.Connection.Streams
import AsioKcp.Ikcp.Messages

/-! # What a check does with a pending read

`check_read_op` polls the read and then the write operation.  The loop of
`read_op` ends at the first result of `ikcp_recv` that is not positive, and an
empty message has that result too. -/
set_option autoImplicit false

namespace AsioKcp

open AsioKcp.Ikcp AsioKcp.Callback AsioKcp.Machine

/-- The read of `read_op` into the 2048 bytes it has prepared gives this message. -/
def readable (message : List UInt8) : Bool := 0 < message.length && message.length ≤ 2048

/-- The loop takes out every complete message: at most an empty one, which it
removes as well, is left for its last round. -/
def Unobstructed (kcp : Ikcpcb) : Prop :=
  kcp.messages.dropWhile readable = [] ∨ kcp.messages.dropWhile readable = [[]]

/-- What the loop leaves in the control block and in the stream buffer. -/
structure Drained (kcp : Ikcpcb) (buffer : StreamBuf)
    (result : Ikcpcb × StreamBuf × List UInt8 × Bool) : Prop where
  data : result.2.1.data = buffer.data ++ (kcp.messages.takeWhile readable).flatten
  threw : result.2.2.2 = false
  left : Complete result.1 ↔ ¬ Unobstructed kcp

theorem drain_messages (fuel : Nat) : ∀ {kcp : Ikcpcb} {buffer : StreamBuf},
    kcp.received.length < fuel →
    buffer.data.length + (payload kcp.received).length + 2048 ≤ buffer.maxSize →
    Drained kcp buffer (drain fuel kcp buffer) := by
  induction fuel with
  | zero => exact fun enough => absurd enough (Nat.not_lt_zero _)
  | succ fuel ih =>
      intro kcp buffer enough roomy
      have room : ¬ buffer.data.length + 2048 > buffer.maxSize := by omega
      rw [drain, if_neg room]
      by_cases complete : Complete kcp
      · have messages := messages_complete complete
        obtain ⟨received, shorter⟩ := taken_received complete
        by_cases large : 2048 < kcp.message.length
        · have stays : readable kcp.message = false := by
            simp [readable]
            omega
          rw [ikcpRecv_large complete (by simpa [bufferRoom] using large)]
          refine ⟨?_, rfl, ?_⟩
          · rw [messages, List.takeWhile_cons_of_neg (by simp [stays])]
            exact (List.append_nil _).symm
          · have some : kcp.message ≠ [] := by
              intro empty
              simp [empty] at large
            simp [Unobstructed, messages, stays, complete, some]
        · rw [ikcpRecv_taken complete (by omega)]
          dsimp only
          by_cases empty : kcp.message = []
          · have stays : readable kcp.message = false := by
              simp [readable, empty]
            rw [if_neg (by simp [empty])]
            refine ⟨?_, rfl, ?_⟩
            · rw [messages, List.takeWhile_cons_of_neg (by simp [stays])]
              exact (List.append_nil _).symm
            · have left : kcp.messages.dropWhile readable = [] :: kcp.taken.messages := by
                rw [messages, List.dropWhile_cons_of_neg (by simp [stays]), empty]
              simp [Unobstructed, left, messages_eq_nil_iff]
          · have positive : 0 < kcp.message.length := List.length_pos_iff.mpr empty
            have goes : readable kcp.message = true := by
              simp [readable]
              omega
            have lengths := congrArg List.length received
            rw [List.length_append] at lengths
            rw [if_pos (by omega)]
            have rest := @ih kcp.taken { buffer with data := buffer.data ++ kcp.message } (by omega)
              (by simp only [List.length_append]; omega)
            refine ⟨?_, rest.threw, ?_⟩
            · rw [messages, List.takeWhile_cons_of_pos goes, List.flatten_cons, ← List.append_assoc]
              exact rest.data
            · rw [Unobstructed, messages, List.dropWhile_cons_of_pos goes]
              exact rest.left
      · obtain ⟨code, negative, read⟩ := ikcpRecv_incomplete complete 2048
        rw [read]
        dsimp only
        rw [if_neg (by omega)]
        have none := messages_incomplete complete
        refine ⟨by simp [none], rfl, ?_⟩
        simp [Unobstructed, none, complete]

/-! ## The state after a check -/

/-- Nothing that follows the poll of a read in its event touches what it has done. -/
structure Settled (l l' : Local) : Prop where
  readOp : l'.conn.readOp = l.conn.readOp
  obj : l'.conn.obj = l.conn.obj
  delivered : l'.conn.delivered = l.conn.delivered
  streambufs : l'.env.streambufs = l.env.streambufs

theorem rearms_settled {rest : Comp Local Unit} (rearms : Rearms rest) (l : Local) :
    Settled l (rest l).state := by
  rcases rearms with rfl | rfl
  · exact ⟨rfl, rfl, rfl, rfl⟩
  · simp only [doReceive, Comp.bind_apply, Comp.get_apply, Prog.bind_ret, Comp.ite_apply]
    split <;> exact ⟨rfl, rfl, rfl, rfl⟩

theorem checkWriteOp_settled {rest : Comp Local Unit} (rearms : Rearms rest) (l : Local) :
    Settled l ((checkWriteOp .success l).bind fun _ => rest).state := by
  cases writeOp : l.conn.writeOp with
  | none =>
      rw [checkWriteOp_none writeOp]
      exact rearms_settled rearms l
  | some handler =>
      by_cases ready : writeReady .success l
      · rw [checkWriteOp_ready writeOp ready]
        exact ⟨rfl, rfl, rfl, rfl⟩
      · rw [checkWriteOp_pending ready]
        exact rearms_settled rearms l

/-- A check ends, as far as the read is concerned, with its poll. -/
theorem polls_state {c c' : Config Local} {e : Event} {op : ReadOperation}
    (polls : Polls c.state e) (readOp : c.state.conn.readOp = some op)
    (stepped : connectionSystem.step c (.event e) = some c') :
    match pollRead .success op (entry e c.state) with
    | (.pending, l) => Settled l c'.state
    | (_, l) => c'.state = l := by
  obtain ⟨_, rfl⟩ := step_event stepped
  obtain ⟨first, rest, continues, rearms, same⟩ := runEvent_continues e c.state
  have pending : (entry e c.state).conn.readOp = some op := by
    rw [(entry_control e c.state).readOp]
    exact readOp
  have isPoll : first = checkReadOp .success := by
    cases continues with
    | poll _ => rfl
    | idle quiet => exact absurd polls quiet
    | handler quiet => exact absurd polls quiet
    | close _ quiet _ => exact absurd polls quiet
  rw [enter_state]
  change match pollRead .success op (entry e c.state) with
    | (.pending, l) => Settled l (runEvent e c.state).state
    | (_, l) => (runEvent e c.state).state = l
  rw [same, isPoll, checkReadOp_some pending]
  rcases pollRead .success op (entry e c.state) with ⟨outcome, l⟩
  cases outcome with
  | pending => exact checkWriteOp_settled rearms l
  | refused => rfl
  | done => rfl

/-! ## Reads into a buffer of the caller -/

/-- A segment as `ikcp_send` makes it in streaming mode: a message of its own. -/
structure Plain (seg : IkcpSeg) : Prop where
  frg : seg.frg = 0
  filled : seg.data ≠ []

/-- The first segment of the queue is not longer than the narrowed buffer size. -/
def FirstFits (kcp : Ikcpcb) (size : Nat) : Prop :=
  ∀ seg, kcp.rcvQueue.head? = some seg → (seg.data.length : Int) ≤ narrow size

/-- A check that polls in the state `l` completes the read with `bytes`. -/
structure Completes (l l' : Local) (handler size : Nat) (bytes : List UInt8) : Prop where
  some : 1 ≤ bytes.length
  fits : bytes.length ≤ size
  done : l'.conn.readOp = none
  invoked : l'.env.invoked = l.env.invoked ++ [⟨handler, .success, bytes.length⟩]
  delivered : l'.conn.delivered = l.conn.delivered ++ bytes
  removed : ∃ left moved, payload l.conn.obj.rcvQueue = bytes ++ left ∧
    payload l'.conn.obj.rcvQueue = left ++ payload moved ∧
    l.conn.obj.rcvBuf = moved ++ l'.conn.obj.rcvBuf

/-- While a byte is in the queue the check completes the read, and a read that is
left pending has none to wait for. -/
def ReadsSome (l l' : Local) (handler size : Nat) : Prop :=
  (payload l.conn.obj.rcvQueue ≠ [] → ∃ bytes, Completes l l' handler size bytes) ∧
    (l'.conn.readOp ≠ none → payload l'.conn.obj.rcvQueue = [])

section ReadSome
variable {l l' : Local} {handler size : Nat}

theorem plain_complete {kcp : Ikcpcb} {seg : IkcpSeg} {rest : List IkcpSeg}
    (queue : kcp.rcvQueue = seg :: rest) (plain : Plain seg) :
    Complete kcp ∧ firstMessage kcp.rcvQueue = [seg] ∧ kcp.message = seg.data := by
  have first : firstMessage kcp.rcvQueue = [seg] := by
    rw [queue, firstMessage, if_pos plain.frg]
  refine ⟨?_, first, ?_⟩
  · rw [Complete, ikcpPeeksize, queue]
    dsimp only
    rw [if_pos plain.frg]
    exact Int.natCast_nonneg _
  · rw [Ikcpcb.message, first, payload_cons, payload_nil, List.append_nil]

/-- A peek hands out the bytes and leaves them in the queue. -/
theorem peek_keeps {kcp kcp' : Ikcpcb} {bytes left : List UInt8} {moved moved' : List IkcpSeg}
    (buf : kcp.rcvBuf = moved ++ kcp'.rcvBuf) (queue : kcp'.rcvQueue = kcp.rcvQueue ++ moved)
    (front : payload kcp.rcvQueue = bytes ++ left)
    (after : payload kcp'.rcvQueue = left ++ payload moved')
    (buf' : kcp.rcvBuf = moved' ++ kcp'.rcvBuf) : bytes = [] := by
  have same : moved = moved' := List.append_cancel_right (buf.symm.trans buf')
  rw [queue, payload_append, front, same] at after
  have lengths := congrArg List.length after
  simp only [List.length_append] at lengths
  exact List.eq_nil_of_length_eq_zero (by omega)

/-- The poll of a read into a buffer, on a queue of segments in streaming mode. -/
theorem pollRead_readSome (plain : ∀ seg ∈ l.conn.obj.received, Plain seg)
    (after : match pollRead .success (.readSome handler size) l with
      | (.pending, t) => Settled t l'
      | (_, t) => l' = t) :
    ReadsSome l l' handler size ↔ FirstFits l.conn.obj size := by
  simp only [pollRead, ne_eq, not_true_eq_false, if_false] at after
  cases queue : l.conn.obj.rcvQueue with
  | nil =>
      obtain ⟨code, negative, read⟩ :=
        ikcpRecv_incomplete (not_complete_of_empty queue) (narrow size)
      rw [read, if_neg (by simp; omega)] at after
      have settled : Settled (l.setObj l.conn.obj) l' := after
      have none : payload l.conn.obj.rcvQueue = [] := by rw [queue, payload_nil]
      have still : l'.conn.obj = l.conn.obj := settled.obj
      refine iff_of_true ⟨fun some => absurd none some, fun _ => ?_⟩ ?_
      · rw [still, none]
      · intro seg head
        rw [queue] at head
        cases head
  | cons seg rest =>
      have isPlain : Plain seg := plain seg (by simp [Ikcpcb.received, queue])
      obtain ⟨complete, first, message⟩ := plain_complete queue isPlain
      have positive : 0 < seg.data.length := List.length_pos_iff.mpr isPlain.filled
      have some : payload l.conn.obj.rcvQueue ≠ [] := by simp [queue, isPlain.filled]
      have head : FirstFits l.conn.obj size ↔ (seg.data.length : Int) ≤ narrow size := by
        simp [FirstFits, queue]
      rw [head]
      by_cases room : seg.data.length ≤ bufferRoom (narrow size)
      · obtain ⟨obj, moved, read, buf, left⟩ := ikcpRecv_fits complete (by rw [message]; exact room)
        rw [message] at read
        rw [read, if_pos (by simp; omega)] at after
        have done : l' = (l.takeRead.deliver obj seg.data).record
            ⟨handler, .success, seg.data.length⟩ := after
        by_cases negative : narrow size < 0
        · rw [if_pos negative] at left
          refine iff_of_false (fun reads => ?_) (by omega)
          obtain ⟨bytes, completes⟩ := reads.1 some
          obtain ⟨rest', moved', front, behind, buf'⟩ := completes.removed
          rw [done] at behind buf'
          have none : bytes = [] := peek_keeps buf left front behind buf'
          have positive' := completes.some
          rw [none] at positive'
          exact absurd positive' (by decide)
        · have fits : (seg.data.length : Int) ≤ narrow size := by
            rwa [bufferRoom, if_neg negative] at room
          have sized := narrow_le (Int.not_lt.mp negative)
          have behind : payload obj.rcvQueue = payload rest ++ payload moved := by
            rw [left, if_neg negative, payload_append, first, queue]
            rfl
          have completes : Completes l l' handler size seg.data := by
            rw [done]
            exact ⟨positive, by omega, rfl, rfl, rfl, payload rest, moved,
              by rw [queue, payload_cons], behind, buf⟩
          refine iff_of_true ⟨fun _ => ⟨seg.data, completes⟩, fun pending => ?_⟩ fits
          rw [done] at pending
          exact absurd rfl pending
      · rw [ikcpRecv_large complete (by rw [message]; exact Int.not_le.mp room),
          if_neg (by simp)] at after
        have settled : Settled (l.setObj l.conn.obj) l' := after
        refine iff_of_false (fun reads => ?_) (fun fits => room ?_)
        · obtain ⟨bytes, completes⟩ := reads.1 some
          have grown := completes.delivered
          rw [show l'.conn.delivered = l.conn.delivered from settled.delivered] at grown
          have none : bytes = [] := List.self_eq_append_right.mp grown
          have positive' := completes.some
          rw [none] at positive'
          exact absurd positive' (by decide)
        · rw [bufferRoom, if_neg (by omega)]
          exact fits

/-! ## No read adds a segment -/

theorem pollRead_received (ec : ErrorCode) (op : ReadOperation) (l : Local) :
    ∀ seg ∈ (pollRead ec op l).2.conn.obj.received, seg ∈ l.conn.obj.received := by
  have drained : ∀ fuel buffer, ∀ seg ∈ (drain fuel l.conn.obj buffer).1.received,
      seg ∈ l.conn.obj.received := fun fuel buffer =>
    @drain_invariant (fun _ obj => ∀ seg ∈ obj.received, seg ∈ l.conn.obj.received)
      (fun _ _ _ _ before seg member => before seg (ikcpRecv_mem member)) fuel [] l.conn.obj buffer
      fun _ => id
  unfold pollRead
  split_ifs with failed
  · exact fun _ => id
  · cases op with
    | readSome handler size =>
        dsimp only
        split_ifs <;> exact fun _ => ikcpRecv_mem
    | read handler buffer need =>
        dsimp only
        split_ifs <;> exact drained _ _

theorem act_received {T : Terms} (act : Act T l l') :
    ∀ seg ∈ l'.conn.obj.received, seg ∈ l.conn.obj.received := by
  have sent : ∀ (buffer : List UInt8), (l.sendResult buffer).2.received = l.conn.obj.received :=
    fun buffer => rcvSide_received (ikcpSend_rcvSide _ _ _)
  cases act with
  | messageSize buffer _ _ _ _ =>
      rw [← sent buffer]
      exact fun _ => id
  | write buffer _ _ _ _ =>
      rw [← sent buffer]
      exact fun _ => id
  | writePending buffer _ _ _ _ =>
      rw [← sent buffer]
      exact fun _ => id
  | pollRead ec op _ _ _ => exact pollRead_received ec op l
  | beginClose _ =>
      rw [Local.beginClose, flush_eq, rcvSide_received (ikcpFlush_sides _).1]
      exact fun _ => id
  | disconnect _ _ =>
      have same : l.disconnect.conn.obj = l.conn.obj := by
        unfold Local.disconnect
        dsimp only
        split <;> rfl
      rw [same]
      exact fun _ => id
  | _ => exact fun _ => id

end ReadSome

/-! ## Reads into a stream buffer -/

/-- The stream buffer has room for all that the receive side holds, as one
without a limit on its size always has. -/
def Roomy (l : Local) (buffer : Nat) : Prop :=
  (l.env.streambufs buffer).data.length + (payload l.conn.obj.received).length + 2048 ≤
    (l.env.streambufs buffer).maxSize

instance (l : Local) (buffer : Nat) : Decidable (Roomy l buffer) := inferInstanceAs (Decidable (_ ≤ _))

/-- After a check that polls in the state `l`, the read is complete with the bytes
it needs, or it is pending with every complete message in its stream buffer. -/
def Satisfied (l l' : Local) (handler buffer need : Nat) : Prop :=
  (l'.conn.readOp = none ∧ l'.env.invoked = l.env.invoked ++ [⟨handler, .success, need⟩] ∧
    need ≤ (l'.env.streambufs buffer).data.length) ∨
  (l'.conn.readOp = some (.read handler buffer need) ∧ ¬ Complete l'.conn.obj ∧
    (l'.env.streambufs buffer).data =
      (l.env.streambufs buffer).data ++ l.conn.obj.messages.flatten ∧
    (l'.env.streambufs buffer).data.length < need)

/-- The bytes before the first message that ends the loop are enough, or there
is no such message. -/
def Reaches (l : Local) (buffer need : Nat) : Prop :=
  need ≤ (l.env.streambufs buffer).data.length +
      (l.conn.obj.messages.takeWhile readable).flatten.length ∨ Unobstructed l.conn.obj

theorem unobstructed_flatten {kcp : Ikcpcb} (free : Unobstructed kcp) :
    (kcp.messages.takeWhile readable).flatten = kcp.messages.flatten := by
  conv_rhs => rw [← List.takeWhile_append_dropWhile (p := readable) (l := kcp.messages)]
  rcases free with none | empty
  · rw [none, List.append_nil]
  · rw [empty, List.flatten_append]
    exact (List.append_nil _).symm

/-- The poll of a read into a stream buffer that has room. -/
theorem pollRead_read {l : Local} {handler buffer need : Nat} (roomy : Roomy l buffer)
    (l' : Local) (after : match pollRead .success (.read handler buffer need) l with
      | (.pending, t) => Settled t l'
      | (_, t) => l' = t) (readOp : l.conn.readOp = some (.read handler buffer need)) :
    Satisfied l l' handler buffer need ↔ Reaches l buffer need := by
  have fuel : l.conn.obj.received.length < drainFuel l.conn.obj := by
    rw [Ikcpcb.received, List.length_append, drainFuel]
    omega
  obtain ⟨data, threw, left⟩ := drain_messages _ fuel roomy
  have kept : (l.drained buffer).2.2.2 = false := threw
  have content : ((l.afterDrain buffer).env.streambufs buffer).data =
      (l.env.streambufs buffer).data ++ (l.conn.obj.messages.takeWhile readable).flatten := by
    simp only [Local.afterDrain, Local.setStreambuf, Env.setStreambuf, if_true]
    exact data
  have length := congrArg List.length content
  rw [List.length_append] at length
  simp only [pollRead, ne_eq, not_true_eq_false, if_false, kept] at after
  by_cases enough : need ≤ (l.drained buffer).2.1.data.length
  · rw [if_neg (by simp), if_pos enough] at after
    have done : l' = (l.afterDrain buffer).takeRead.record ⟨handler, .success, need⟩ := after
    have sized : need ≤ ((l.afterDrain buffer).env.streambufs buffer).data.length := by
      rw [content, ← show (l.drained buffer).2.1.data = _ from data]
      exact enough
    refine iff_of_true (Or.inl ?_) (Or.inl ?_)
    · rw [done]
      exact ⟨rfl, rfl, sized⟩
    · rwa [length] at sized
  · rw [if_neg (by simp), if_neg enough] at after
    have settled : Settled (l.afterDrain buffer) l' := after
    have pending : l'.conn.readOp = some (.read handler buffer need) := settled.readOp.trans readOp
    have obj : l'.conn.obj = (l.drained buffer).1 := settled.obj
    have few : ((l.afterDrain buffer).env.streambufs buffer).data.length < need := by
      rw [content, ← show (l.drained buffer).2.1.data = _ from data]
      exact Nat.lt_of_not_le enough
    constructor
    · rintro (⟨done, _⟩ | ⟨_, incomplete, _⟩)
      · rw [pending] at done
        cases done
      · rw [obj] at incomplete
        exact Or.inr (not_not.mp (mt left.mpr incomplete))
    · rintro (reached | free)
      · omega
      · refine Or.inr ⟨pending, ?_, ?_, ?_⟩
        · rw [obj]
          exact fun complete => left.mp complete free
        · rw [settled.streambufs, content, unobstructed_flatten free]
        · rw [settled.streambufs]
          exact few

/-- Every check of a pending read, in whatever state and after whatever datagrams. -/
theorem read_satisfied {c c' : Config Local} {e : Event} (polls : Polls c.state e)
    {handler buffer need : Nat} (readOp : c.state.conn.readOp = some (.read handler buffer need))
    (roomy : Roomy (entry e c.state) buffer)
    (stepped : connectionSystem.step c (.event e) = some c') :
    Satisfied (entry e c.state) c'.state handler buffer need ↔
      Reaches (entry e c.state) buffer need := by
  apply pollRead_read roomy c'.state (polls_state polls readOp stepped)
  rw [(entry_control e c.state).readOp]
  exact readOp

def roomyStreambufs : Nat → StreamBuf := fun _ => ⟨[], 2 ^ 20⟩

/-- A client with a read of one byte into a stream buffer that has room. -/
def waitingClient : Local :=
  (clientLocal 7 loopback 0 roomyStreambufs).installRead fun h => .read h 0 1

/-- A push segment of conv 7. -/
def pushSeg (sn : UInt32) (data : List UInt8) : IkcpSeg :=
  { ikcpSegmentNew 0 data with conv := 7, cmd := ikcpCmdPush, sn := sn }

theorem waitingClient_run : connectionSystem.Steps (fun _ _ => True)
    (clientStart 7 loopback 0 roomyStreambufs) (.idle waitingClient) :=
  .tail (.call (.asyncRead 0 1)) .refl trivial rfl

def byteDatagram : List UInt8 := opcodeData :: encodeSegs [pushSeg 0 [9]]

theorem read_satisfied_byte : ∃ c', connectionSystem.step (.idle waitingClient)
      (.event (.onReceive byteDatagram 26 0)) = some c' ∧
    Satisfied (entry (.onReceive byteDatagram 26 0) waitingClient) c'.state 0 0 1 := by
  have polls : Polls waitingClient (.onReceive byteDatagram 26 0) :=
    Or.inr ⟨_, _, rfl, by decide, rfl⟩
  have reaches : Reaches (entry (.onReceive byteDatagram 26 0) waitingClient) 0 1 :=
    Or.inl (by decide)
  have roomy : Roomy (entry (.onReceive byteDatagram 26 0) waitingClient) 0 := by decide
  have satisfied := read_satisfied (c := .idle waitingClient) polls rfl roomy rfl
  exact ⟨_, rfl, satisfied.mpr reaches⟩

/-- An empty message before one of a byte. -/
def emptyFirst : List UInt8 := opcodeData :: encodeSegs [pushSeg 0 [], pushSeg 1 [9]]

/-- The loop ends at the empty message, and the byte is left in the queue. -/
theorem read_satisfied_empty :
    ¬ ∀ (c c' : Config Local) (e : Event) (handler buffer need : Nat),
      connectionSystem.Steps (fun _ _ => True) (clientStart 7 loopback 0 roomyStreambufs) c →
      Polls c.state e → c.state.conn.readOp = some (.read handler buffer need) →
      Roomy (entry e c.state) buffer → connectionSystem.step c (.event e) = some c' →
      Satisfied (entry e c.state) c'.state handler buffer need := by
  intro claimed
  have polls : Polls waitingClient (.onReceive emptyFirst 50 0) :=
    Or.inr ⟨_, _, rfl, by decide, rfl⟩
  rcases claimed _ _ _ 0 0 1 waitingClient_run polls rfl (by decide) rfl with
    ⟨done, _⟩ | ⟨_, incomplete, _⟩
  · exact absurd done (by decide)
  · exact absurd incomplete (by decide)

end AsioKcp
