import AsioKcp.Connection.Deeds
import AsioKcp.Connection.Writes
import AsioKcp.Tunnel.Code

/-! # One end of the tunnel

Whatever arrives and whatever the TCP socket does, what `kcp2tcp` has written is
the beginning of what its connection has delivered, and what its connection has
accepted is the beginning of what `tcp2kcp` has received.  A coroutine waits for
one handler, and only that coroutine waits for it. -/
set_option autoImplicit false

namespace AsioKcp

open AsioKcp.Ikcp AsioKcp.Callback AsioKcp.Machine Relation

/-- Every completion of the handler, invoked or still posted, satisfies `P`. -/
structure Replies (handler : Nat) (P : Completion → Prop) (env : Env) : Prop where
  invoked : ∀ c ∈ env.invoked, c.handler = handler → P c
  posted : ∀ c, Task.completion c ∈ env.posted → c.handler = handler → P c

/-- A handler that has not been taken has no completion. -/
def Known (env : Env) : Prop :=
  ∀ handler, env.nextHandler ≤ handler → Replies handler (fun _ => False) env

namespace Replies

variable {handler : Nat} {P Q : Completion → Prop} {env : Env}

theorem mono (weaker : ∀ c, P c → Q c) (replies : Replies handler P env) : Replies handler Q env where
  invoked := fun c member own => weaker c (replies.invoked c member own)
  posted := fun c member own => weaker c (replies.posted c member own)

theorem congr {env' : Env} (replies : Replies handler P env) (invoked : env'.invoked = env.invoked)
    (posted : env'.posted = env.posted) : Replies handler P env' where
  invoked := invoked ▸ replies.invoked
  posted := posted ▸ replies.posted

theorem record (replies : Replies handler P env) {c : Completion} (own : c.handler = handler → P c) :
    Replies handler P { env with invoked := env.invoked ++ [c] } where
  invoked := by
    intro other member
    rcases List.mem_append.mp member with before | last
    · exact replies.invoked other before
    · rw [List.mem_singleton.mp last]
      exact own
  posted := replies.posted

theorem post (replies : Replies handler P env) {c : Completion} (own : c.handler = handler → P c) :
    Replies handler P { env with posted := env.posted ++ [.completion c] } where
  invoked := replies.invoked
  posted := by
    intro other member
    rcases List.mem_append.mp member with before | last
    · exact replies.posted other before
    · cases List.mem_singleton.mp last
      exact own

theorem check (replies : Replies handler P env) (connection : Nat) :
    Replies handler P { env with posted := env.posted ++ [.checkReadOp connection] } where
  invoked := replies.invoked
  posted := by
    intro other member
    rcases List.mem_append.mp member with before | last
    · exact replies.posted other before
    · cases List.mem_singleton.mp last

theorem erase (replies : Replies handler P env) (i : Nat) :
    Replies handler P { env with posted := env.posted.eraseIdx i } where
  invoked := replies.invoked
  posted := fun c member => replies.posted c (List.mem_of_mem_eraseIdx member)

/-- A posted completion runs. -/
theorem run (replies : Replies handler P env) {i : Nat} {c : Completion}
    (found : env.posted[i]? = some (.completion c)) : Replies handler P
      { env with posted := env.posted.eraseIdx i, invoked := env.invoked ++ [c] } :=
  (replies.erase i).record (replies.posted c (List.mem_of_getElem? found))

theorem answer (replies : Replies handler P env) {c : Completion}
    (answered : env.answer handler = some c) : P c := by
  have own := List.find?_some answered
  exact replies.invoked c (List.mem_of_find?_eq_some answered) (of_decide_eq_true own)

end Replies

/-! ## What each place of a coroutine says -/

/-- A read that has been answered has moved the bytes that are to be written next. -/
def Fetched (written : List UInt8) (conn : Connection) (c : Completion) : Prop :=
  c.ec = .success → conn.delivered = written ++ conn.lastRead c.bytesTransferred

def Kcp2Tcp.Holds (written : List UInt8) (l : Local) : Kcp2Tcp → Prop
  | .spawned => l.conn.readOp = none ∧ l.conn.delivered = written
  | .reading handler => handler < l.env.nextHandler ∧
      ((l.conn.readOp = some (.readSome handler bufferSize) ∧ l.conn.delivered = written ∧
          Replies handler (fun _ => False) l.env) ∨
        (l.conn.readOp = none ∧ written <+: l.conn.delivered ∧
          Replies handler (Fetched written l.conn) l.env))
  | .writing bytes => l.conn.readOp = none ∧ l.conn.delivered = written ++ bytes
  | .closing => l.conn.readOp = none ∧ written <+: l.conn.delivered
  | .ended => l.conn.readOp = none ∧ written <+: l.conn.delivered

def Tcp2Kcp.Holds (l : Local) : Tcp2Kcp → Prop
  | .spawned => l.conn.writeOp = none ∧ backlog l.conn.obj ≤ 128
  | .reading => l.conn.writeOp = none ∧ backlog l.conn.obj ≤ 128
  | .writing handler => handler < l.env.nextHandler ∧
      ((l.conn.writeOp = some handler ∧ Replies handler (fun _ => False) l.env) ∨
        (l.conn.writeOp = none ∧
          Replies handler (fun c => c.ec = .success → backlog l.conn.obj ≤ 128) l.env))
  | .closing => l.conn.writeOp = none
  | .ended => l.conn.writeOp = none

/-- What holds of a connection that has been asked to send the bytes. -/
structure Conveys (conv : UInt32) (received : List UInt8) (l : Local) : Prop where
  params : l.conn.obj.params = (initKcpContext conv).params
  counted : Counted l.conn.obj
  known : Known l.env
  accepted : l.conn.accepted <+: received
  whole : ¬ l.closed → l.conn.accepted = received
  few : backlog l.conn.obj ≤ 135

/-- Two coroutines on one connection. -/
structure Attends (conv : UInt32) (received written : List UInt8) (kcp2tcp : Kcp2Tcp)
    (tcp2kcp : Tcp2Kcp) (l : Local) : Prop where
  reads : kcp2tcp.Holds written l
  writes : tcp2kcp.Holds l
  conveys : Conveys conv received l
  apart : ∀ handler, kcp2tcp = .reading handler → tcp2kcp ≠ .writing handler

section Deed
variable {conv : UInt32} {received written : List UInt8} {kcp2tcp : Kcp2Tcp} {tcp2kcp : Tcp2Kcp}
  {l l' : Local}

theorem Kcp2Tcp.Holds.congr (holds : kcp2tcp.Holds written l)
    (readOp : l'.conn.readOp = l.conn.readOp) (delivered : l'.conn.delivered = l.conn.delivered)
    (next : l.env.nextHandler ≤ l'.env.nextHandler) (replies : ∀ handler P,
      kcp2tcp = .reading handler → Replies handler P l.env → Replies handler P l'.env) :
    kcp2tcp.Holds written l' := by
  have fetched : ∀ c, Fetched written l.conn c → Fetched written l'.conn c := by
    intro c
    rw [Fetched, Fetched, Connection.lastRead, Connection.lastRead, delivered]
    exact id
  cases kcp2tcp with
  | reading handler =>
      obtain ⟨taken, ⟨pending, moved, silent⟩ | ⟨free, moved, answered⟩⟩ := holds
      · exact ⟨taken.trans_le next, Or.inl ⟨readOp.trans pending, delivered.trans moved,
          replies handler _ rfl silent⟩⟩
      · refine ⟨taken.trans_le next, Or.inr ⟨readOp.trans free, ?_, ?_⟩⟩
        · rw [delivered]
          exact moved
        · exact (replies handler _ rfl answered).mono fetched
  | _ =>
      unfold Kcp2Tcp.Holds at holds ⊢
      rw [readOp, delivered]
      exact holds

theorem Tcp2Kcp.Holds.congr (holds : tcp2kcp.Holds l) (writeOp : l'.conn.writeOp = l.conn.writeOp)
    (fewer : backlog l'.conn.obj ≤ backlog l.conn.obj)
    (next : l.env.nextHandler ≤ l'.env.nextHandler) (replies : ∀ handler P,
      tcp2kcp = .writing handler → Replies handler P l.env → Replies handler P l'.env) :
    tcp2kcp.Holds l' := by
  cases tcp2kcp with
  | writing handler =>
      obtain ⟨taken, ⟨pending, silent⟩ | ⟨free, answered⟩⟩ := holds
      · exact ⟨taken.trans_le next, Or.inl ⟨writeOp.trans pending, replies handler _ rfl silent⟩⟩
      · exact ⟨taken.trans_le next, Or.inr ⟨writeOp.trans free, (replies handler _ rfl answered).mono
          fun c low success => fewer.trans (low success)⟩⟩
  | spawned => exact ⟨writeOp.trans holds.1, fewer.trans holds.2⟩
  | reading => exact ⟨writeOp.trans holds.1, fewer.trans holds.2⟩
  | closing => exact writeOp.trans holds
  | ended => exact writeOp.trans holds

theorem Conveys.passes (conveys : Conveys conv received l) (passes : Passes l l') :
    Conveys conv received l' where
  params := passes.lasting (params_lasting _) conveys.params
  counted := passes.lasting counted_lasting conveys.counted
  known := by
    intro handler fresh
    rw [passes.nextHandler] at fresh
    exact (conveys.known handler fresh).congr passes.invoked passes.posted
  accepted := passes.accepted ▸ conveys.accepted
  whole := fun opened => passes.accepted.trans (conveys.whole (mt passes.closed opened))
  few := passes.backlog.trans conveys.few

theorem Attends.pass (attends : Attends conv received written kcp2tcp tcp2kcp l)
    (passes : Passes l l') : Attends conv received written kcp2tcp tcp2kcp l' where
  reads := attends.reads.congr passes.readOp passes.delivered (le_of_eq passes.nextHandler.symm)
    fun _ _ _ replies => replies.congr passes.invoked passes.posted
  writes := attends.writes.congr passes.writeOp passes.backlog (le_of_eq passes.nextHandler.symm)
    fun _ _ _ replies => replies.congr passes.invoked passes.posted
  conveys := attends.conveys.passes passes
  apart := attends.apart

/-- A poll of a `read_some_op` moves nothing, or it answers with what it has moved. -/
theorem pollRead_fetches (ec : ErrorCode) (handler size : Nat) (l : Local) {after : Local}
    (polled : (pollRead ec (.readSome handler size) l).2 = after) :
    (after.conn.readOp = l.conn.readOp ∧ after.conn.delivered = l.conn.delivered ∧
        after.env = l.env) ∨
      ∃ c, c.handler = handler ∧ after.conn.readOp = none ∧
        after.env = { l.env with invoked := l.env.invoked ++ [c] } ∧
        l.conn.delivered <+: after.conn.delivered ∧ Fetched l.conn.delivered after.conn c := by
  subst polled
  unfold pollRead
  by_cases failed : ec ≠ .success
  · rw [if_pos failed]
    exact Or.inr ⟨_, rfl, rfl, rfl, List.prefix_refl _, fun success => absurd success failed⟩
  · rw [if_neg failed]
    dsimp only
    by_cases some : (ikcpRecv l.conn.obj (narrow size)).1 > 0
    · rw [if_pos some]
      refine Or.inr ⟨_, rfl, rfl, rfl, List.prefix_append _ _, fun _ => ?_⟩
      have count := (ikcpRecv_result l.conn.obj (narrow size)).resolve_right fun failed => by omega
      have length : (ikcpRecv l.conn.obj (narrow size)).1.toNat =
          (ikcpRecv l.conn.obj (narrow size)).2.1.length := by omega
      rw [Connection.lastRead, length]
      simp [Local.record, Local.deliver, Local.takeRead]
    · rw [if_neg some]
      exact Or.inl ⟨rfl, rfl, rfl⟩

/-- Only `kcp2tcp` has a read pending. -/
theorem Kcp2Tcp.Holds.pending {op : ReadOperation} (holds : kcp2tcp.Holds written l)
    (pending : l.conn.readOp = some op) : ∃ handler, kcp2tcp = .reading handler ∧
      op = .readSome handler bufferSize ∧ handler < l.env.nextHandler ∧
      l.conn.delivered = written ∧ Replies handler (fun _ => False) l.env := by
  have busy : l.conn.readOp ≠ none := by
    rw [pending]
    exact Option.some_ne_none op
  cases kcp2tcp with
  | reading handler =>
      obtain ⟨taken, ⟨same, moved, silent⟩ | ⟨free, _⟩⟩ := holds
      · rw [pending] at same
        exact ⟨handler, rfl, Option.some_injective _ same, taken, moved, silent⟩
      · exact absurd free busy
  | _ => exact absurd holds.1 busy

/-- Only `tcp2kcp` has a write pending. -/
theorem Tcp2Kcp.Holds.pending {handler : Nat} (holds : tcp2kcp.Holds l)
    (pending : l.conn.writeOp = some handler) : tcp2kcp = .writing handler ∧
      handler < l.env.nextHandler ∧ Replies handler (fun _ => False) l.env := by
  have busy : l.conn.writeOp ≠ none := by
    rw [pending]
    exact Option.some_ne_none handler
  cases tcp2kcp with
  | writing own =>
      obtain ⟨taken, ⟨same, silent⟩ | ⟨free, _⟩⟩ := holds
      · rw [pending] at same
        cases same
        exact ⟨rfl, taken, silent⟩
      · exact absurd free busy
  | spawned => exact absurd holds.1 busy
  | reading => exact absurd holds.1 busy
  | closing => exact absurd holds busy
  | ended => exact absurd holds busy

/-- A connection that is polled, with a completion at the end of those invoked. -/
theorem Conveys.record (conveys : Conveys conv received l) {c : Completion}
    (taken : c.handler < l.env.nextHandler) (params : l'.conn.obj.params = l.conn.obj.params)
    (sndSide : l'.conn.obj.sndSide = l.conn.obj.sndSide)
    (accepted : l'.conn.accepted = l.conn.accepted) (state : l'.conn.state = l.conn.state)
    (env : l'.env = { l.env with invoked := l.env.invoked ++ [c] }) :
    Conveys conv received l' where
  params := params.trans conveys.params
  counted := conveys.counted.congr sndSide
  known := by
    rw [env]
    intro handler fresh
    have later : l.env.nextHandler ≤ handler := fresh
    exact (conveys.known handler later).record fun own => by omega
  accepted := accepted ▸ conveys.accepted
  whole := fun opened => accepted.trans (conveys.whole fun closed => opened (state.trans closed))
  few := (le_of_eq (backlog_congr sndSide)).trans conveys.few

theorem Attends.read (attends : Attends conv received written kcp2tcp tcp2kcp l) (ec : ErrorCode)
    {op : ReadOperation} (pending : l.conn.readOp = some op) :
    Attends conv received written kcp2tcp tcp2kcp (pollRead ec op l).2 := by
  obtain ⟨bytes, moved, polled⟩ := pollRead_stream ec op l
  have control := pollRead_control ec op l
  obtain ⟨handler, rfl, rfl, taken, rfl, silent⟩ := attends.reads.pending pending
  rcases pollRead_fetches ec handler bufferSize l rfl with ⟨readOp, delivered, env⟩ |
      ⟨c, rfl, free, env, grown, fetched⟩
  · have passes : Passes l (pollRead ec (.readSome handler bufferSize) l).2 := {
      readOp := readOp
      writeOp := control.2.2
      delivered := delivered
      accepted := polled.accepted
      posted := by rw [env]
      invoked := by rw [env]
      nextHandler := by rw [env]
      closed := control.1.trans
      lasting := fun lasting holds => pollRead_obj (fun len => lasting.recv len) _ _ holds
      backlog := le_of_eq (backlog_congr polled.sndSide) }
    exact attends.pass passes
  · refine ⟨⟨by rw [env]; exact taken, Or.inr ⟨free, grown, ?_⟩⟩, ?_, ?_, attends.apart⟩
    · rw [env]
      exact (silent.mono fun _ => False.elim).record fun _ => fetched
    · refine attends.writes.congr control.2.2 (le_of_eq (backlog_congr polled.sndSide))
        (by rw [env]) fun other P isWriter replies => ?_
      rw [env]
      refine replies.record fun own => ?_
      rw [← own] at isWriter
      exact absurd isWriter (attends.apart c.handler rfl)
    · exact attends.conveys.record taken polled.params polled.sndSide polled.accepted control.1 env

theorem Attends.write (attends : Attends conv received written kcp2tcp tcp2kcp l) {ec : ErrorCode}
    {handler : Nat} (pending : l.conn.writeOp = some handler) (ready : writeReady ec l) :
    Attends conv received written kcp2tcp tcp2kcp (l.takeWrite.record ⟨handler, ec, 0⟩) := by
  obtain ⟨rfl, taken, silent⟩ := attends.writes.pending pending
  have low : ec = .success → backlog l.conn.obj ≤ 128 := by
    intro success
    have few := ready.resolve_left (not_not_intro success)
    rw [waitsnd_eq attends.conveys.counted (attends.conveys.few.trans_lt (by decide))] at few
    exact_mod_cast few
  refine ⟨?_, ⟨taken, Or.inr ⟨rfl, ?_⟩⟩, ?_, attends.apart⟩
  · refine attends.reads.congr rfl rfl (le_refl _) fun other P isReader replies => ?_
    refine replies.record fun own => ?_
    rw [← own] at isReader
    exact absurd rfl (attends.apart handler isReader)
  · exact (silent.mono fun _ => False.elim).record fun _ success => low success
  · exact attends.conveys.record taken rfl rfl rfl rfl rfl

/-- The queue of the executor loses a task, and with it perhaps runs a completion. -/
theorem Attends.queue (attends : Attends conv received written kcp2tcp tcp2kcp l) {env : Env}
    (next : env.nextHandler = l.env.nextHandler)
    (replies : ∀ handler P, Replies handler P l.env → Replies handler P env) :
    Attends conv received written kcp2tcp tcp2kcp { l with env := env } where
  reads := attends.reads.congr rfl rfl (le_of_eq next.symm) fun handler P _ => replies handler P
  writes := attends.writes.congr rfl (le_refl _) (le_of_eq next.symm) fun handler P _ =>
    replies handler P
  conveys := { attends.conveys with
    known := fun handler fresh => replies handler _ (attends.conveys.known handler (next ▸ fresh)) }
  apart := attends.apart

theorem Attends.deed (attends : Attends conv received written kcp2tcp tcp2kcp l)
    (deed : Deed l l') : Attends conv received written kcp2tcp tcp2kcp l' := by
  cases deed with
  | pass passes => exact attends.pass passes
  | read ec op pending => exact attends.read ec pending
  | write ec handler pending ready => exact attends.write pending ready
  | task i connection found => exact attends.queue rfl fun _ _ replies => replies.erase i
  | completion i c found => exact attends.queue rfl fun _ _ replies => replies.run found

theorem Attends.deeds (attends : Attends conv received written kcp2tcp tcp2kcp l)
    (deeds : ReflTransGen Deed l l') : Attends conv received written kcp2tcp tcp2kcp l' := by
  induction deeds with
  | refl => exact attends
  | tail _ deed ih => exact ih.deed deed

end Deed

/-! ## What the coroutines call -/

/-- A send lengthens the queue by no more segments than its buffer fills. -/
theorem ikcpSend_added (kcp : Ikcpcb) (buffer : List UInt8) (len : Int) :
    backlog (ikcpSend kcp buffer len).2 ≤
      backlog kcp + max 1 ((buffer.length + kcp.mss.toNat - 1) / kcp.mss.toNat) := by
  have counts := sendExtend_counts kcp (buffer.take len.toNat)
  have mss : (sendExtend kcp (buffer.take len.toNat)).1.mss = kcp.mss :=
    congrArg Params.mss (sendExtend_params kcp _)
  have left := (sendExtend_spare kcp (buffer.take len.toNat)).1
  have extended : ∀ kcp' : Ikcpcb, ∀ rest : List UInt8,
      (kcp', rest) = (if kcp.stream ≠ 0 then sendExtend kcp (buffer.take len.toNat)
        else (kcp, buffer.take len.toNat)) →
      backlog kcp' = backlog kcp ∧ kcp'.mss = kcp.mss ∧ rest.length ≤ buffer.length := by
    intro kcp' rest same
    split at same
    · rw [← same] at counts mss left
      refine ⟨?_, mss, ?_⟩
      · rw [backlog, backlog, counts.1, counts.2.2.2]
      · rw [show rest = _ from left, List.length_drop, List.length_take]
        omega
    · cases same
      refine ⟨rfl, rfl, ?_⟩
      rw [List.length_take]
      omega
  unfold ikcpSend
  dsimp only
  split
  · exact Nat.le_add_right _ _
  · generalize (if kcp.stream ≠ 0 then sendExtend kcp (buffer.take len.toNat)
      else (kcp, buffer.take len.toNat)) = pair at extended
    obtain ⟨kcp', rest⟩ := pair
    obtain ⟨same, mss', fewer⟩ := extended kcp' rest rfl
    dsimp only
    rw [mss']
    have needed : (if rest.length ≤ kcp.mss.toNat then 1
        else (rest.length + kcp.mss.toNat - 1) / kcp.mss.toNat) ≤
        max 1 ((buffer.length + kcp.mss.toNat - 1) / kcp.mss.toNat) := by
      split
      · exact le_max_left _ _
      · exact le_max_of_le_right (Nat.div_le_div_right (by omega))
    generalize (if rest.length ≤ kcp.mss.toNat then 1
      else (rest.length + kcp.mss.toNat - 1) / kcp.mss.toNat) = count at needed
    rw [← same]
    split
    · exact Nat.le_add_right _ _
    · split
      · exact Nat.le_add_right _ _
      · refine Eq.trans_le ?_ (Nat.add_le_add_left needed _)
        simp only [backlog, List.length_append, sendFragments_length, Nat.add_assoc]

/-- A call has taken its handler, and has nothing to say about any other one. -/
structure Enlists (l l' : Local) : Prop where
  next : l'.env.nextHandler = l.env.nextHandler + 1
  others : ∀ handler P, handler ≠ l.env.nextHandler → Replies handler P l.env →
    Replies handler P l'.env

section Calls
variable {conv : UInt32} {received written written' : List UInt8} {kcp2tcp : Kcp2Tcp}
  {tcp2kcp : Tcp2Kcp} {l l' : Local}

theorem enlists_post (l : Local) (ec : ErrorCode) : Enlists l (l.postCompletion ec) :=
  ⟨rfl, fun _ _ other replies => (replies.post fun own => absurd own.symm other).congr rfl rfl⟩

theorem enlists_installRead (l : Local) (op : Nat → ReadOperation) : Enlists l (l.installRead op) :=
  ⟨rfl, fun _ _ _ replies => (replies.check l.conn.this).congr rfl rfl⟩

theorem enlists_installWrite (l : Local) : Enlists l l.installWrite :=
  ⟨rfl, fun _ _ _ replies => replies.congr rfl rfl⟩

theorem Enlists.known (enlists : Enlists l l') (known : Known l.env) : Known l'.env := by
  intro handler fresh
  rw [enlists.next] at fresh
  exact enlists.others handler _ (by omega) (known handler (by omega))

theorem Enlists.reads (enlists : Enlists l l') (holds : kcp2tcp.Holds written l)
    (readOp : l'.conn.readOp = l.conn.readOp) (delivered : l'.conn.delivered = l.conn.delivered) :
    kcp2tcp.Holds written l' := by
  refine holds.congr readOp delivered (by rw [enlists.next]; omega) fun handler P isReader => ?_
  subst isReader
  exact enlists.others handler P (ne_of_lt holds.1)

theorem Enlists.writes (enlists : Enlists l l') (holds : tcp2kcp.Holds l)
    (writeOp : l'.conn.writeOp = l.conn.writeOp) (obj : l'.conn.obj = l.conn.obj) :
    tcp2kcp.Holds l' := by
  refine holds.congr writeOp (le_of_eq (congrArg backlog obj)) (by rw [enlists.next]; omega)
    fun handler P isWriter => ?_
  subst isWriter
  exact enlists.others handler P (ne_of_lt holds.1)

/-- `kcp2tcp` begins to read. -/
theorem Attends.readSome (attends : Attends conv received written kcp2tcp tcp2kcp l)
    (free : l.conn.readOp = none) (moved : l.conn.delivered = written') :
    Attends conv received written' (.reading l.env.nextHandler) tcp2kcp
      (if l.conn.readOp ≠ none ∨ l.conn.closed
        then l.postCompletion (if l.conn.closed then .operationAborted else .inProgress)
        else l.installRead fun handler => .readSome handler bufferSize) := by
  have apart : ∀ handler, Kcp2Tcp.reading l.env.nextHandler = .reading handler →
      tcp2kcp ≠ .writing handler := by
    intro handler isReader isWriter
    cases isReader
    have writes := attends.writes
    rw [isWriter] at writes
    exact absurd writes.1 (Nat.lt_irrefl _)
  have unknown := attends.conveys.known l.env.nextHandler (le_refl _)
  have conveys : ∀ {after : Local}, Enlists l after → after.conn.obj = l.conn.obj →
      after.conn.accepted = l.conn.accepted → after.conn.state = l.conn.state →
      Conveys conv received after := by
    intro after enlists obj accepted state
    exact ⟨obj ▸ attends.conveys.params, obj ▸ attends.conveys.counted,
      enlists.known attends.conveys.known, accepted ▸ attends.conveys.accepted,
      fun opened => accepted.trans (attends.conveys.whole fun closed => opened (state.trans closed)),
      obj ▸ attends.conveys.few⟩
  split
  · have enlists := enlists_post l (if l.conn.closed then .operationAborted else .inProgress)
    refine ⟨⟨Nat.lt_succ_self _, Or.inr ⟨free, ?_, ?_⟩⟩, enlists.writes attends.writes rfl rfl,
      conveys enlists rfl rfl rfl, apart⟩
    · exact moved ▸ List.prefix_refl _
    · refine ((unknown.mono fun _ => False.elim).post fun _ success => ?_).congr rfl rfl
      dsimp only at success
      split at success <;> cases success
  · have enlists := enlists_installRead l fun handler => .readSome handler bufferSize
    refine ⟨⟨Nat.lt_succ_self _, Or.inl ⟨rfl, moved, ?_⟩⟩, enlists.writes attends.writes rfl rfl,
      conveys enlists rfl rfl rfl, apart⟩
    exact (unknown.check l.conn.this).congr rfl rfl

/-- A buffer of `tcp2kcp` is never refused by a connection that is open. -/
theorem Conveys.fits (conveys : Conveys conv received l) {bytes : List UInt8}
    (short : bytes.length ≤ bufferSize) : ¬ (l.sendResult bytes).1 < 0 := by
  have params := conveys.params
  have stream : l.conn.obj.stream = 1 := congrArg Params.stream params
  have mss : l.conn.obj.mss = 1176 := congrArg Params.mss params
  have length : narrow bytes.length = bytes.length := narrow_nonneg (short.trans_lt (by decide))
  have room : bytes.length ≤ capacity l.conn.obj := by
    rw [capacity, mss]
    exact short.trans (le_trans (by decide) (Nat.le_add_left _ _))
  rcases @ikcpSend_capacity l.conn.obj bytes (narrow bytes.length) (by rw [stream]; decide)
    (by rw [mss]; decide) (by rw [length]; omega) with ⟨_, result, _⟩ | ⟨large, _⟩
  · rw [Local.sendResult, result]
    decide
  · rw [length, Int.toNat_natCast, List.take_length] at large
    omega

theorem Conveys.write (conveys : Conveys conv received l) {bytes : List UInt8}
    (short : bytes.length ≤ bufferSize) (low : backlog l.conn.obj ≤ 128) (opened : ¬ l.closed)
    (enlists : Enlists (l.write bytes) l') (conn : l'.conn.obj = (l.write bytes).conn.obj)
    (accepted : l'.conn.accepted = (l.write bytes).conn.accepted) :
    Conveys conv (received ++ bytes) l' where
  params := by
    rw [conn]
    exact (ikcpSend_params _ _ _).trans conveys.params
  counted := by
    rw [conn]
    exact counted_lasting.send _ _ conveys.counted
  known := enlists.known conveys.known
  accepted := by
    rw [accepted]
    exact conveys.whole opened ▸ List.prefix_refl _
  whole := fun _ => by
    rw [accepted]
    exact congrArg (· ++ bytes) (conveys.whole opened)
  few := by
    have mss : l.conn.obj.mss.toNat = 1176 :=
      congrArg UInt32.toNat (congrArg Params.mss conveys.params)
    have added := ikcpSend_added l.conn.obj bytes (narrow bytes.length)
    have few : max 1 ((bytes.length + 1176 - 1) / 1176) ≤ 7 := by
      have limit : bytes.length ≤ 8192 := short
      omega
    rw [mss] at added
    rw [conn]
    exact (added.trans (Nat.add_le_add low few)).trans (by decide)

/-- `tcp2kcp` begins to write what it has received. -/
theorem Attends.asyncWrite (attends : Attends conv received written kcp2tcp .reading l)
    {bytes : List UInt8} (short : bytes.length ≤ bufferSize) :
    Attends conv (received ++ bytes) written kcp2tcp (.writing l.env.nextHandler)
      (asyncWrite bytes l).state := by
  obtain ⟨free, low⟩ := attends.writes
  have conveys := attends.conveys
  have unknown := conveys.known l.env.nextHandler (le_refl _)
  have apart : ∀ handler, kcp2tcp = .reading handler →
      Tcp2Kcp.writing l.env.nextHandler ≠ .writing handler := by
    rintro handler rfl isWriter
    cases isWriter
    exact absurd attends.reads.1 (Nat.lt_irrefl _)
  rw [asyncWrite_eq, Prog.state]
  by_cases closed : l.closed
  · have isClosed : l.conn.closed = true := decide_eq_true closed
    have enlists := enlists_post l .operationAborted
    rw [if_pos (Or.inr isClosed), if_pos isClosed]
    refine ⟨enlists.reads attends.reads rfl rfl, ⟨Nat.lt_succ_self _, Or.inr ⟨free, ?_⟩⟩, ?_, apart⟩
    · refine ((unknown.mono fun _ => False.elim).post fun _ success => ?_).congr rfl rfl
      cases success
    · exact ⟨conveys.params, conveys.counted, enlists.known conveys.known,
        conveys.accepted.trans (List.prefix_append _ _), fun opened => absurd closed opened,
        conveys.few⟩
  · have isOpen : ¬ (l.conn.writeOp ≠ none ∨ l.conn.closed = true) := by
      rintro (busy | isClosed)
      · exact busy free
      · exact closed (of_decide_eq_true isClosed)
    rw [if_neg isOpen, if_neg (conveys.fits short)]
    split
    · rename_i few
      have enlists := enlists_post (l.write bytes) .success
      have wrote := conveys.write short low closed enlists rfl rfl
      have counted : Counted (l.sendResult bytes).2 := wrote.counted
      have bounded : backlog (l.sendResult bytes).2 ≤ 135 := wrote.few
      have few' : backlog (l.sendResult bytes).2 ≤ 128 := by
        rw [waitsnd_eq counted (bounded.trans_lt (by decide))] at few
        exact_mod_cast few
      refine ⟨enlists.reads (attends.reads.congr rfl rfl (le_refl _) fun _ _ _ => id) rfl rfl,
        ⟨Nat.lt_succ_self _, Or.inr ⟨free, ?_⟩⟩, wrote, apart⟩
      exact ((unknown.mono fun _ => False.elim).post fun _ _ => few').congr rfl rfl
    · have enlists := enlists_installWrite (l.write bytes)
      exact ⟨enlists.reads (attends.reads.congr rfl rfl (le_refl _) fun _ _ _ => id) rfl rfl,
        ⟨Nat.lt_succ_self _, Or.inl ⟨rfl, unknown.congr rfl rfl⟩⟩,
        conveys.write short low closed enlists rfl rfl, apart⟩

end Calls

/-! ## The tunnel -/

structure Relays (conv : UInt32) (t : Tunnel) : Prop where
  taking : t.kcp.Taking Deed
  attends : Attends conv t.received t.written t.kcp2tcp t.tcp2kcp t.kcp.state

namespace Relays

variable {conv : UInt32} {t t' : Tunnel}

/-- The connection goes on by itself. -/
theorem goes {kcp : Config Local} (relays : Relays conv t) {label : Label Event Call}
    (silent : ∀ k, label ≠ .call k) (stepped : connectionSystem.step t.kcp label = some kcp) :
    Relays conv { t with kcp := kcp } := by
  obtain ⟨deeds, taking⟩ := step_taking runEvent_takes relays.taking silent stepped
  exact ⟨taking, relays.attends.deeds deeds⟩

/-- A coroutine closes the connection. -/
theorem closes (relays : Relays conv t) (called : t.call (.close .operationAborted) = some t') :
    Relays conv t' := by
  obtain ⟨kcp, stepped, rfl⟩ := Option.map_eq_some_iff.mp called
  have close : (connectionSystem.call (.close .operationAborted)).Takes Deed :=
    close_takes .operationAborted
  obtain ⟨deeds, taking⟩ := call_taking close relays.taking stepped
  exact ⟨taking, relays.attends.deeds deeds⟩

theorem catchKcp2Tcp (relays : Relays conv t) (written : List UInt8)
    (free : t.kcp.state.conn.readOp = none) (moved : written <+: t.kcp.state.conn.delivered)
    (called : { t with written := written }.catchKcp2Tcp = some t') : Relays conv t' := by
  have attends := relays.attends
  have caught : Relays conv { t with written := written, kcp2tcp := .closing } :=
    ⟨relays.taking, ⟨free, moved⟩, attends.writes, attends.conveys, fun _ => nofun⟩
  exact caught.closes called

theorem catchTcp2Kcp (relays : Relays conv t) (free : t.kcp.state.conn.writeOp = none)
    (called : t.catchTcp2Kcp = some t') : Relays conv t' := by
  have attends := relays.attends
  have caught : Relays conv { t with tcp2kcp := .closing } :=
    ⟨relays.taking, attends.reads, free, attends.conveys, fun _ _ => nofun⟩
  exact caught.closes called

/-- `kcp2tcp` has written all that has been delivered. -/
theorem readSome (relays : Relays conv t) {written : List UInt8}
    (free : t.kcp.state.conn.readOp = none) (moved : t.kcp.state.conn.delivered = written)
    (called : { t with written := written }.readSome = some t') : Relays conv t' := by
  obtain ⟨kcp, stepped, rfl⟩ := Option.map_eq_some_iff.mp called
  obtain ⟨state, taking⟩ := call_returned relays.taking
    (initiateAsyncRead_eq (fun handler => .readSome handler bufferSize) t.kcp.state) stepped
  have reads := relays.attends.readSome free moved
  rw [← state] at reads
  exact ⟨taking, reads⟩

theorem write (relays : Relays conv t) (reading : t.tcp2kcp = .reading) {bytes : List UInt8}
    (short : bytes.length ≤ bufferSize)
    (called : { t with received := t.received ++ bytes }.write bytes = some t') :
    Relays conv t' := by
  obtain ⟨kcp, stepped, rfl⟩ := Option.map_eq_some_iff.mp called
  obtain ⟨state, taking⟩ := call_returned relays.taking (asyncWrite_eq bytes t.kcp.state) stepped
  have attends := relays.attends
  rw [reading] at attends
  have writes := attends.asyncWrite short
  rw [asyncWrite_eq, Prog.state, ← state] at writes
  exact ⟨taking, writes⟩

/-- `kcp2tcp` goes on in the handler that it has waited for. -/
theorem resumeKcp2Tcp (relays : Relays conv t) (stepped : t.step .resumeKcp2Tcp = some t') :
    Relays conv t' := by
  have reads := relays.attends.reads
  simp only [Tunnel.step] at stepped
  split at stepped
  · rename_i handler isReader
    rw [isReader] at reads
    split at stepped
    · cases stepped
    · rename_i c answered
      obtain ⟨_, ⟨_, _, silent⟩ | ⟨free, moved, fetched⟩⟩ := reads
      · exact (silent.answer answered).elim
      · split at stepped
        · rename_i success
          cases stepped
          exact ⟨relays.taking, ⟨free, fetched.answer answered success⟩, relays.attends.writes,
            relays.attends.conveys, fun _ => nofun⟩
        · exact relays.catchKcp2Tcp t.written free moved stepped
  · cases stepped

theorem resumeTcp2Kcp (relays : Relays conv t) (stepped : t.step .resumeTcp2Kcp = some t') :
    Relays conv t' := by
  have writes := relays.attends.writes
  simp only [Tunnel.step] at stepped
  split at stepped
  · rename_i handler isWriter
    rw [isWriter] at writes
    split at stepped
    · cases stepped
    · rename_i c answered
      obtain ⟨_, ⟨_, silent⟩ | ⟨free, low⟩⟩ := writes
      · exact (silent.answer answered).elim
      · split at stepped
        · rename_i success
          cases stepped
          exact ⟨relays.taking, relays.attends.reads, ⟨free, low.answer answered success⟩,
            relays.attends.conveys, fun _ _ => nofun⟩
        · exact relays.catchTcp2Kcp free stepped
  · cases stepped

/-- The write to the TCP socket has ended. -/
theorem tcpWritten (relays : Relays conv t) {ec : ErrorCode} {size : Nat}
    (stepped : t.step (.tcpWritten ec size) = some t') : Relays conv t' := by
  have reads := relays.attends.reads
  simp only [Tunnel.step] at stepped
  split at stepped
  · rename_i bytes isWriter
    rw [isWriter] at reads
    obtain ⟨free, moved⟩ := reads
    split_ifs at stepped
    · exact relays.readSome free moved stepped
    · refine relays.catchKcp2Tcp _ free ?_ stepped
      rw [moved]
      exact (List.prefix_append_right_inj _).mpr (List.take_prefix _ _)
  · cases stepped

theorem tcpReceived (relays : Relays conv t) {ec : ErrorCode} {bytes : List UInt8}
    (stepped : t.step (.tcpReceived ec bytes) = some t') : Relays conv t' := by
  have writes := relays.attends.writes
  simp only [Tunnel.step] at stepped
  split_ifs at stepped with other success sized
  · exact relays.write (not_not.mp (not_or.mp other).2) sized.2 stepped
  · rw [not_not.mp (not_or.mp other).2] at writes
    exact relays.catchTcp2Kcp writes.1 stepped

/-- One step of the tunnel. -/
theorem step (relays : Relays conv t) {label : TunnelLabel} (stepped : t.step label = some t') :
    Relays conv t' := by
  have attends := relays.attends
  cases label with
  | kcp label =>
      simp only [Tunnel.step] at stepped
      split at stepped
      · cases stepped
      · cases stepped
      · rename_i silent _
        obtain ⟨kcp, goes, rfl⟩ := Option.map_eq_some_iff.mp stepped
        exact relays.goes silent goes
  | startKcp2Tcp =>
      simp only [Tunnel.step] at stepped
      split_ifs at stepped with begins
      have reads := attends.reads
      rw [begins.2] at reads
      exact relays.readSome reads.1 reads.2 stepped
  | resumeKcp2Tcp => exact relays.resumeKcp2Tcp stepped
  | tcpWritten ec size => exact relays.tcpWritten stepped
  | endKcp2Tcp threw =>
      simp only [Tunnel.step] at stepped
      split_ifs at stepped with closing
      have reads := attends.reads
      rw [closing] at reads
      cases stepped
      exact ⟨relays.taking, reads, attends.writes, attends.conveys, fun _ => nofun⟩
  | startTcp2Kcp =>
      simp only [Tunnel.step] at stepped
      split_ifs at stepped with begins
      have writes := attends.writes
      rw [begins.2] at writes
      cases stepped
      exact ⟨relays.taking, attends.reads, writes, attends.conveys, fun _ _ => nofun⟩
  | tcpReceived ec bytes => exact relays.tcpReceived stepped
  | resumeTcp2Kcp => exact relays.resumeTcp2Kcp stepped
  | endTcp2Kcp threw =>
      simp only [Tunnel.step] at stepped
      split_ifs at stepped with closing
      have writes := attends.writes
      rw [closing] at writes
      cases stepped
      exact ⟨relays.taking, attends.reads, writes, attends.conveys, fun _ _ => nofun⟩

end Relays

/-- The tunnel begins on a connection that nobody has used. -/
theorem relays_start {conv : UInt32} {c : Config Local} (started : Started conv c) :
    Relays conv (.start c) := by
  obtain ⟨l, rfl, shape⟩ := started.cases
  have unused : ∀ env : Env, env.invoked = [] → env.posted = [] → Known env := by
    intro env invoked posted handler _
    exact ⟨fun c member => by simp [invoked] at member, fun c member => by simp [posted] at member⟩
  refine ⟨idle_taking _, ?_⟩
  rcases shape with ⟨_, _, _, rfl⟩ | ⟨_, _, _, rfl⟩ <;>
    exact ⟨⟨rfl, rfl⟩, ⟨rfl, Nat.zero_le 128⟩, ⟨rfl, ⟨rfl, rfl⟩, unused _ rfl rfl,
      List.prefix_refl _, fun _ => rfl, Nat.zero_le 135⟩, fun _ => nofun⟩

theorem relays_run {conv : UInt32} {c : Config Local} (started : Started conv c) {t : Tunnel}
    (run : Tunnel.Run (.start c) t) : Relays conv t := by
  induction run with
  | refl => exact relays_start started
  | tail label _ stepped ih => exact ih.step stepped

/-- Written bytes are delivered bytes, up to those that the coroutine holds. -/
theorem Kcp2Tcp.Holds.written_prefix {kcp2tcp : Kcp2Tcp} {written : List UInt8} {l : Local}
    (holds : kcp2tcp.Holds written l) : written <+: l.conn.delivered := by
  cases kcp2tcp with
  | spawned => exact holds.2 ▸ List.prefix_refl _
  | reading handler =>
      obtain ⟨_, ⟨_, moved, _⟩ | ⟨_, moved, _⟩⟩ := holds
      · exact moved ▸ List.prefix_refl _
      · exact moved
  | writing bytes => exact holds.2 ▸ List.prefix_append _ _
  | closing => exact holds.2
  | ended => exact holds.2

/-- However fast the TCP socket is and whatever the network brings, one end of the
tunnel holds at most 135 segments that have not been acked, and reads more from the
TCP socket only while it holds at most 128.  Nothing that it has read is left out
or sent twice while its connection is open. -/
theorem tunnel_throttled {conv : UInt32} {c : Config Local} (started : Started conv c) {t : Tunnel}
    (run : Tunnel.Run (.start c) t) :
    (t.kcp.state.conn.obj.sndBuf.length + t.kcp.state.conn.obj.sndQueue.length ≤ 135 ∧
      (t.tcp2kcp = .reading →
        t.kcp.state.conn.obj.sndBuf.length + t.kcp.state.conn.obj.sndQueue.length ≤ 128)) ∧
    (t.kcp.state.conn.accepted <+: t.received ∧
      (¬ t.kcp.state.closed → t.kcp.state.conn.accepted = t.received)) ∧
    t.written <+: t.kcp.state.conn.delivered := by
  have attends := (relays_run started run).attends
  refine ⟨⟨attends.conveys.few, fun reading => ?_⟩,
    ⟨attends.conveys.accepted, attends.conveys.whole⟩, attends.reads.written_prefix⟩
  have writes := attends.writes
  rw [reading] at writes
  exact writes.2

/-- Three bytes from the TCP socket go into the connection, and the next read begins. -/
theorem tunnel_throttled_three : ∃ t, Tunnel.Run (.start (clientStart 7 loopback 0 noStreambufs)) t ∧
    t.received = [1, 2, 3] ∧ t.tcp2kcp = .reading ∧ t.kcp.state.conn.accepted <+: t.received := by
  obtain ⟨t, run, checked⟩ := tunnel_checked
    (.start (clientStart 7 loopback 0 noStreambufs))
    [.startTcp2Kcp, .tcpReceived .success [1, 2, 3], .kcp (.event (.posted 0)), .resumeTcp2Kcp,
      .kcp .back]
    (fun t => t.received == [1, 2, 3] && t.tcp2kcp == .reading) (by decide)
  obtain ⟨received, reading⟩ := Bool.and_eq_true_iff.mp checked
  exact ⟨t, run, eq_of_beq received, eq_of_beq reading,
    (tunnel_throttled (.client loopback 0 noStreambufs) run).2.1.1⟩

end AsioKcp
