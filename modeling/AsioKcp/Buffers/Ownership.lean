import AsioKcp.Buffers.Code
import AsioKcp.Lib.Places
import Mathlib.Logic.Relation

/-! # Each buffer has one owner, and keeps what its owner wrote

Buffers go round between operations and the pools of all threads.  In every state
each of them is at one place, so that what a send has written stays in its buffer
until the send completes, whoever makes or gives up buffers meanwhile. -/
set_option autoImplicit false

namespace AsioKcp.Buffers

open AsioKcp.Places Relation

/-! ## The bytes of a buffer -/

namespace StaticBuffer

@[simp] theorem maxSize_eq (b : StaticBuffer) : b.maxSize = 2048 := b.full

theorem constBuffer_write (b : StaticBuffer) (opcode : UInt8) (data : List UInt8)
    (fits : data.length + 1 < 2048) : (b.write opcode data fits).constBuffer = opcode :: data := by
  change ((opcode :: data) ++ b.data.drop (opcode :: data).length).take (1 + data.length) = _
  exact List.take_left' (by rw [List.length_cons, Nat.add_comm])

end StaticBuffer

/-- What `raw_send` of a connection records is what its buffer holds. -/
theorem send_constBuffer (env : Env) (dest : Endpoint) (b : StaticBuffer) (opcode : UInt8)
    (data : List UInt8) (fits : data.length + 1 < 2048) :
    (env.send dest opcode data).sent =
      env.sent ++ [⟨dest, (b.write opcode data fits).constBuffer⟩] := by
  rw [b.constBuffer_write]
  rfl

/-! ## The places of the buffers -/

/-- `scope` is a `unique_ptr` of a function that is running. -/
inductive Holder
  | scope
  | sending
  | receiving
  | handling
  deriving DecidableEq

inductive Place (τ : Type)
  | nowhere
  | pooled (t : τ)
  | held (h : Holder)
  deriving DecidableEq

def Place.IsHeld {τ : Type} : Place τ → Prop
  | .held _ => True
  | _ => False

section Pools
variable {α τ : Type}

/-- The pools and the heap, as `place` has them. -/
structure Pooled (place : α → Place τ) (s : Pools α τ) : Prop where
  container : ∀ t, Holds place (.pooled t) (s.container t)
  heap : ∀ a, a ∈ s.heap ↔ place a ≠ .nowhere
  bounded : ∀ t, (s.container t).length ≤ 1024

variable [DecidableEq α] {place : α → Place τ} {s : Pools α τ} {t : τ} {a fresh : α} {h : Holder}

theorem Pooled.modify (pooled : Pooled place s) (f : StaticBuffer → StaticBuffer) :
    Pooled place (s.modify a f) :=
  ⟨pooled.container, pooled.heap, pooled.bounded⟩

theorem Pooled.between (pooled : Pooled place s) (held : (place a).IsHeld) :
    Pooled (Function.update place a (.held h)) s where
  container t := (pooled.container t).aside (fun same => by rw [same] at held; exact held) nofun
  heap := by
    intro b
    rw [pooled.heap]
    by_cases same : b = a
    · subst same
      have somewhere : place b ≠ .nowhere := fun none => by rw [none] at held; exact held
      simp [somewhere]
    · rw [Function.update_of_ne same]
  bounded := pooled.bounded

variable [DecidableEq τ]

/-- `make` gives out a buffer that nobody has. -/
theorem Pooled.make (pooled : Pooled place s) (unused : fresh ∉ s.heap) :
    ¬ (place (make s t fresh).1).IsHeld ∧
      Pooled (Function.update place (make s t fresh).1 (.held h)) (make s t fresh).2 ∧
      ∀ b ≠ (make s t fresh).1, (make s t fresh).2.buffers b = s.buffers b := by
  unfold Buffers.make
  cases last : (s.container t).getLast? with
  | none =>
      have nowhere : place fresh = .nowhere := not_not.mp (mt (pooled.heap fresh).mpr unused)
      refine ⟨by rw [nowhere]; exact id, ⟨fun t' => ?_, fun b => ?_, pooled.bounded⟩,
        fun b other => Function.update_of_ne other _ _⟩
      · exact (pooled.container t').aside (by rw [nowhere]; nofun) nofun
      · change b ∈ fresh :: s.heap ↔ _
        rw [List.mem_cons, pooled.heap]
        by_cases same : b = fresh
        · simp [same]
        · simp [same]
  | some buffer =>
      have shape : s.container t = (s.container t).dropLast ++ buffer :: [] :=
        (List.dropLast_append_getLast? buffer last).symm
      have here := pooled.container t
      rw [shape] at here
      have inPool : place buffer = .pooled t := (here.mem buffer).mp (by simp)
      have left := here.leave (q := .held h) nofun
      rw [List.append_nil] at left
      refine ⟨by rw [inPool]; exact id, ⟨fun t' => ?_, fun b => ?_, fun t' => ?_⟩,
        fun b other => Function.update_of_ne other _ _⟩
      · change Holds _ _ (Function.update s.container t (s.container t).dropLast t')
        by_cases same : t' = t
        · subst same
          rw [Function.update_self]
          exact left
        · rw [Function.update_of_ne same]
          refine (pooled.container t').aside ?_ nofun
          rw [inPool]
          exact fun equal => same (Place.pooled.inj equal).symm
      · change b ∈ s.heap ↔ _
        rw [pooled.heap]
        by_cases same : b = buffer
        · simp [same, inPool]
        · rw [Function.update_of_ne same]
      · change (Function.update s.container t (s.container t).dropLast t').length ≤ 1024
        have bounded := pooled.bounded t'
        by_cases same : t' = t
        · subst same
          rw [Function.update_self, List.length_dropLast]
          omega
        · rwa [Function.update_of_ne same]

/-- What is given up goes to the pool of the thread, or to the heap. -/
theorem Pooled.deleter (pooled : Pooled place s) (held : (place a).IsHeld) :
    ∃ q, ¬ Place.IsHeld q ∧ Pooled (Function.update place a q) (deleter s t a) := by
  have away : ∀ t', place a ≠ .pooled t' := fun t' same => by rw [same] at held; exact held
  unfold Buffers.deleter
  split
  · rename_i room
    refine ⟨.pooled t, id, fun t' => ?_, fun b => ?_, fun t' => ?_⟩
    · dsimp only
      by_cases same : t' = t
      · subst same
        rw [Function.update_self]
        have here := pooled.container t'
        rw [← List.append_nil (s.container t')] at here
        exact here.enter (away t')
      · rw [Function.update_of_ne same]
        exact (pooled.container t').aside (away t') fun equal => same (Place.pooled.inj equal).symm
    · dsimp only
      rw [pooled.heap]
      by_cases same : b = a
      · subst same
        have somewhere : place b ≠ .nowhere := fun none => by rw [none] at held; exact held
        simp [somewhere]
      · rw [Function.update_of_ne same]
    · dsimp only
      have bounded := pooled.bounded t'
      by_cases same : t' = t
      · subst same
        rw [Function.update_self, List.length_append]
        exact room
      · rwa [Function.update_of_ne same]
  · refine ⟨.nowhere, id, fun t' => (pooled.container t').aside (away t') nofun, fun b => ?_,
      pooled.bounded⟩
    change b ∈ s.heap.filter (· ≠ a) ↔ _
    rw [List.mem_filter, pooled.heap]
    by_cases same : b = a
    · simp [same]
    · simp [same]

theorem Pooled.destroyContainer (pooled : Pooled place s) :
    Pooled (emptied place (.pooled t) .nowhere) (destroyContainer s t) where
  container := by
    intro t'
    change Holds _ _ (Function.update s.container t [] t')
    by_cases same : t' = t
    · subst same
      rw [Function.update_self]
      exact holds_emptied nofun
    · rw [Function.update_of_ne same]
      exact (pooled.container t').emptied (fun equal => same (Place.pooled.inj equal)) nofun
  heap := by
    intro b
    change b ∈ s.heap.filter (· ∉ s.container t) ↔ _
    rw [List.mem_filter, pooled.heap, emptied]
    have inPool := (pooled.container t).mem b
    by_cases there : place b = .pooled t
    · simp [there, inPool]
    · simp [there, inPool]
  bounded := by
    intro t'
    change (Function.update s.container t [] t').length ≤ 1024
    by_cases same : t' = t
    · subst same
      rw [Function.update_self]
      exact Nat.zero_le _
    · rw [Function.update_of_ne same]
      exact pooled.bounded t'

end Pools

/-! ## The traffic -/

namespace Traffic
variable {α τ : Type}

/-- Whose buffers are where; `own` are those of the function that is running. -/
def holding (s : Traffic α τ) (own : List α) : Holder → List α
  | .scope => own
  | .sending => s.sending.map Prod.fst
  | .receiving => s.receiving
  | .handling => s.handling

/-- Every buffer is at one place; a send in flight finds its bytes in its buffer,
and a receive the whole of its array. -/
structure Tended (place : α → Place τ) (own : List α) (s : Traffic α τ) : Prop where
  pools : Pooled place s.toPools
  holders : ∀ h, Holds place (.held h) (s.holding own h)
  intact : ∀ send ∈ s.sending, (s.buffers send.1).constBuffer = send.2
  wide : ∀ a ∈ s.receiving, (s.buffers a).size = 2048

theorem held_injective : Function.Injective (Place.held (τ := τ)) :=
  fun _ _ same => Place.held.inj same

variable {place : α → Place τ} {own : List α} {s : Traffic α τ} {a fresh : α} {t : τ}
  {bytes : List UInt8}

theorem Tended.held (tended : Tended place own s) {h : Holder} (has : a ∈ s.holding own h) :
    place a = .held h :=
  ((tended.holders h).mem a).mp has

theorem Tended.apart (tended : Tended place own s) (h h' : Holder) (other : h ≠ h')
    (has : a ∈ s.holding own h) : a ∉ s.holding own h' :=
  fun has' => other (Place.held.inj ((tended.held has).symm.trans (tended.held has')))

theorem Tended.transmit (tended : Tended place own s) (b : α) (ok : Bool) :
    Tended place own (s.transmit b ok) :=
  ⟨tended.pools, tended.holders, tended.intact, tended.wide⟩

/-- The datagrams of all `raw_send`s are those transmitted, those whose send failed
or was never made, and those in flight. -/
def Accounted (s : Traffic α τ) : Prop :=
  s.asked.Perm (s.wire ++ s.failed ++ s.sending.map Prod.snd)

theorem Accounted.transmit (ok : Bool) (holds : (s.buffers a).constBuffer = bytes)
    (asked : s.asked.Perm (bytes :: (s.wire ++ s.failed ++ s.sending.map Prod.snd))) :
    (s.transmit a ok).Accounted := by
  refine asked.trans ?_
  cases ok with
  | true =>
      change List.Perm _ (s.wire ++ [(s.buffers a).constBuffer] ++ s.failed ++ s.sending.map Prod.snd)
      rw [holds]
      simp only [List.append_assoc, List.singleton_append]
      exact List.perm_middle.symm
  | false =>
      change List.Perm _ (s.wire ++ (s.failed ++ [(s.buffers a).constBuffer]) ++ s.sending.map Prod.snd)
      rw [holds, ← List.append_assoc, List.append_assoc (s.wire ++ s.failed), List.singleton_append]
      exact List.perm_middle.symm

variable [DecidableEq α]

/-- A function may do what it likes with its own buffer. -/
theorem Tended.modify (tended : Tended place [a] s) (f : StaticBuffer → StaticBuffer) :
    Tended place [a] { s with toPools := s.toPools.modify a f } where
  pools := tended.pools.modify f
  holders := tended.holders
  intact := by
    intro send member
    have other : send.1 ≠ a := by
      rintro rfl
      exact tended.apart .scope .sending nofun (List.mem_singleton_self _)
        (List.mem_map_of_mem member)
    dsimp only [Pools.modify]
    rw [Function.update_of_ne other]
    exact tended.intact send member
  wide := by
    intro b member
    have other : b ≠ a := by
      rintro rfl
      exact tended.apart .scope .receiving nofun (List.mem_singleton_self _) member
    dsimp only [Pools.modify]
    rw [Function.update_of_ne other]
    exact tended.wide b member

/-- A buffer changes hands. -/
theorem Tended.moved {s' : Traffic α τ} {own' : List α} {h h' : Holder}
    (tended : Tended place own s) (before after : List α) (other : h' ≠ h) (pools : s'.toPools = s.toPools)
    (leaves : s.holding own h = before ++ a :: after) (left : s'.holding own' h = before ++ after)
    (enters : s'.holding own' h' = a :: s.holding own h')
    (rest : ∀ m, m ≠ h → m ≠ h' → s'.holding own' m = s.holding own m)
    (intact : ∀ send ∈ s'.sending, (s.buffers send.1).constBuffer = send.2)
    (wide : ∀ b ∈ s'.receiving, (s.buffers b).size = 2048) :
    Tended (Function.update place a (.held h')) own' s' where
  pools := by
    have was : place a = .held h := tended.held (by rw [leaves]; simp)
    rw [pools]
    exact tended.pools.between (by rw [was]; trivial)
  holders := holds_moved held_injective tended.holders other leaves left enters rest
  intact := by
    rw [pools]
    exact intact
  wide := by
    rw [pools]
    exact wide

/-- An operation that is started takes the buffer over. -/
theorem Tended.sends (tended : Tended place [a] s) (holds : (s.buffers a).constBuffer = bytes) :
    Tended (Function.update place a (.held .sending)) []
      { s with sending := (a, bytes) :: s.sending } := by
  refine tended.moved (h := .scope) [] [] nofun rfl rfl rfl rfl ?_ ?_
    tended.wide
  · intro m notScope notSending
    cases m <;> first | rfl | contradiction
  · intro send member
    rcases List.mem_cons.mp member with rfl | old
    · exact holds
    · exact tended.intact send old

theorem Tended.receives (tended : Tended place [a] s) (whole : (s.buffers a).size = 2048) :
    Tended (Function.update place a (.held .receiving)) []
      { s with receiving := a :: s.receiving } := by
  refine tended.moved (h := .scope) [] [] nofun rfl rfl rfl rfl ?_
    tended.intact ?_
  · intro m notScope notReceiving
    cases m <;> first | rfl | contradiction
  · intro b member
    rcases List.mem_cons.mp member with rfl | old
    · exact whole
    · exact tended.wide b old

theorem Tended.handles (tended : Tended place [a] s) :
    Tended (Function.update place a (.held .handling)) []
      { s with handling := a :: s.handling } := by
  refine tended.moved (h := .scope) [] [] nofun rfl rfl rfl rfl ?_
    tended.intact tended.wide
  intro m notScope notHandling
  cases m <;> first | rfl | contradiction

theorem mem_middle {ι : Type} {before after : List ι} {i j : ι} (member : j ∈ before ++ after) :
    j ∈ before ++ i :: after := by
  rw [List.mem_append] at member ⊢
  exact member.imp_right (List.mem_cons_of_mem i)

/-- And a completion handler has it back. -/
theorem Tended.sent {before after : List (α × List UInt8)} (tended : Tended place [] s)
    (pending : s.sending = before ++ (a, bytes) :: after) :
    Tended (Function.update place a (.held .scope)) [a] { s with sending := before ++ after } := by
  refine tended.moved (h := .sending) (before.map Prod.fst) (after.map Prod.fst) nofun
    rfl ?_ (List.map_append ..) rfl ?_ ?_ tended.wide
  · rw [holding, pending, List.map_append, List.map_cons]
  · intro m notSending notScope
    cases m <;> first | rfl | contradiction
  · intro send member
    apply tended.intact
    rw [pending]
    exact mem_middle member

theorem Tended.received {before after : List α} (tended : Tended place [] s)
    (pending : s.receiving = before ++ a :: after) :
    Tended (Function.update place a (.held .scope)) [a] { s with receiving := before ++ after } := by
  refine tended.moved (h := .receiving) before after nofun rfl pending rfl rfl ?_ tended.intact ?_
  · intro m notReceiving notScope
    cases m <;> first | rfl | contradiction
  · intro b member
    apply tended.wide
    rw [pending]
    exact mem_middle member

theorem Tended.handled {before after : List α} (tended : Tended place [] s)
    (running : s.handling = before ++ a :: after) :
    Tended (Function.update place a (.held .scope)) [a] { s with handling := before ++ after } := by
  refine tended.moved (h := .handling) before after nofun rfl running rfl rfl ?_ tended.intact tended.wide
  intro m notHandling notScope
  cases m <;> first | rfl | contradiction

theorem Tended.opened (tended : Tended place [a] s) :
    Tended (Function.update place a (.held .receiving)) [] (s.opened a) := by
  apply (tended.modify fun b => b.setSize b.maxSize).receives
  dsimp only [Pools.modify]
  rw [Function.update_self]
  exact StaticBuffer.maxSize_eq _

variable [DecidableEq τ]

theorem Tended.made (tended : Tended place [] s) (unused : fresh ∉ s.heap) :
    Tended (Function.update place (make s.toPools t fresh).1 (.held .scope))
      [(make s.toPools t fresh).1] { s with toPools := (make s.toPools t fresh).2 } := by
  obtain ⟨free, pools, others⟩ := tended.pools.make (t := t) (h := .scope) unused
  generalize make s.toPools t fresh = made at *
  obtain ⟨a, made⟩ := made
  dsimp only at *
  have away : ∀ h, place a ≠ .held h := fun h same => free (by rw [same]; trivial)
  have notHeld : ∀ h, a ∉ s.holding [] h := fun h has => away h (tended.held has)
  refine ⟨pools, ?_, fun send member => ?_, fun b member => ?_⟩
  · refine holds_entered (k := .scope) held_injective tended.holders away
      (show holding _ [a] .scope = a :: s.holding [] .scope from rfl) ?_
    intro h notScope
    cases h <;> first | rfl | contradiction
  · have other : send.1 ≠ a := fun same =>
      notHeld .sending (same ▸ List.mem_map_of_mem member)
    rw [others _ other]
    exact tended.intact send member
  · have other : b ≠ a := fun same => notHeld .receiving (same ▸ member)
    rw [others b other]
    exact tended.wide b member

theorem Tended.givenUp (tended : Tended place [a] s) :
    ∃ place', Tended place' [] (s.giveUp t a) := by
  have held : place a = .held .scope := tended.held (h := .scope) (List.mem_singleton_self _)
  obtain ⟨q, free, pools⟩ := tended.pools.deleter (t := t) (by rw [held]; trivial)
  have outside : ∀ h, q ≠ .held h := fun h same => free (by rw [same]; trivial)
  have buffers : (deleter s.toPools t a).buffers = s.buffers := by
    unfold deleter
    split <;> rfl
  refine ⟨_, pools, ?_, ?_, ?_⟩
  · refine holds_left (k := .scope) held_injective tended.holders
      (show s.holding [a] .scope = [] ++ a :: [] from rfl)
      (show holding _ [] .scope = [] ++ [] from rfl) ?_ outside
    intro h notScope
    cases h <;> first | rfl | contradiction
  · intro send member
    change ((deleter s.toPools t a).buffers send.1).constBuffer = send.2
    rw [buffers]
    exact tended.intact send member
  · intro b member
    change ((deleter s.toPools t a).buffers b).size = 2048
    rw [buffers]
    exact tended.wide b member

theorem Tended.written (tended : Tended place [] s) (unused : fresh ∉ s.heap) (opcode : UInt8)
    {data : List UInt8} (fits : data.length + 1 < 2048) :
    Tended (Function.update place (make s.toPools t fresh).1 (.held .scope))
        [(make s.toPools t fresh).1] (s.written t fresh opcode data fits) ∧
      ((s.written t fresh opcode data fits).buffers (make s.toPools t fresh).1).constBuffer =
        opcode :: data := by
  refine ⟨(tended.made unused).modify _, ?_⟩
  dsimp only [Traffic.written, Pools.modify]
  rw [Function.update_self, StaticBuffer.constBuffer_write]

theorem Tended.spend (tended : Tended place [] s) (unused : fresh ∉ s.heap) (opcode : UInt8)
    {data : List UInt8} (fits : data.length + 1 < 2048) (ok : Bool) :
    ∃ place', Tended place' [] (s.spend t fresh opcode data fits ok) := by
  obtain ⟨written, _⟩ := tended.written (t := t) unused opcode fits
  have asked : Tended _ _ { s.written t fresh opcode data fits with
      asked := s.asked ++ [opcode :: data] } :=
    ⟨written.pools, written.holders, written.intact, written.wide⟩
  exact (asked.transmit _ ok).givenUp

/-- What one step of any thread keeps. -/
theorem tended_step {s' : Traffic α τ} (tended : Tended place [] s) (step : Step s s') :
    ∃ place', Tended place' [] s' := by
  cases step with
  | rawSend t fresh opcode data fits _ unused _ =>
      obtain ⟨written, holds⟩ := tended.written (t := t) unused opcode fits
      have sends := written.sends holds
      exact ⟨_, sends.pools, sends.holders, sends.intact, sends.wide⟩
  | sendTo t fresh data fits ok _ unused => exact tended.spend unused opcodeDisconnect fits ok
  | expired t fresh opcode data fits _ unused => exact tended.spend unused opcode fits false
  | sent t a bytes before after ok _ pending => exact ((tended.sent pending).transmit a ok).givenUp
  | runClient t fresh _ unused => exact ⟨_, (tended.made (t := t) unused).opened⟩
  | receives a bytes fits before after pending _ =>
      exact ⟨_, ((tended.received pending).modify fun b => b.store bytes fits).handles⟩
  | receivesAgain a before after running => exact ⟨_, (tended.handled running).opened⟩
  | closed t a before after _ running => exact (tended.handled running).givenUp
  | aborted t a before after _ pending => exact (tended.received pending).givenUp
  | exit t _ =>
      exact ⟨_, tended.pools.destroyContainer, fun h => (tended.holders h).emptied nofun nofun,
        tended.intact, tended.wide⟩

/-! ## The datagrams -/

theorem accounted_spend (tended : Tended place [] s) (accounted : s.Accounted)
    (unused : fresh ∉ s.heap) (opcode : UInt8) {data : List UInt8} (fits : data.length + 1 < 2048)
    (ok : Bool) : (s.spend t fresh opcode data fits ok).Accounted := by
  obtain ⟨_, holds⟩ := tended.written (t := t) unused opcode fits
  have asked : (s.asked ++ [opcode :: data]).Perm
      ((opcode :: data) :: (s.wire ++ s.failed ++ s.sending.map Prod.snd)) :=
    List.perm_append_comm.trans (accounted.cons _)
  exact Accounted.transmit (s := { s.written t fresh opcode data fits with
    asked := s.asked ++ [opcode :: data] }) ok holds asked

theorem accounted_step {s' : Traffic α τ} (tended : Tended place [] s) (accounted : s.Accounted)
    (step : Step s s') : s'.Accounted := by
  cases step with
  | rawSend t fresh opcode data fits _ unused _ =>
      change (s.asked ++ [opcode :: data]).Perm
        (s.wire ++ s.failed ++ (opcode :: data) :: s.sending.map Prod.snd)
      refine List.perm_append_comm.trans (List.Perm.trans ?_ List.perm_middle.symm)
      exact accounted.cons _
  | sendTo t fresh data fits ok _ unused =>
      exact accounted_spend tended accounted unused opcodeDisconnect fits ok
  | expired t fresh opcode data fits _ unused =>
      exact accounted_spend tended accounted unused opcode fits false
  | sent t a bytes before after ok _ pending =>
      have holds := tended.intact (a, bytes) (by rw [pending]; simp)
      have asked : s.asked.Perm (bytes :: (s.wire ++ s.failed ++ (before ++ after).map Prod.snd)) := by
        unfold Accounted at accounted
        rw [pending, List.map_append, List.map_cons, ← List.append_assoc] at accounted
        rw [List.map_append, ← List.append_assoc]
        exact accounted.trans List.perm_middle
      exact Accounted.transmit (s := { s with sending := before ++ after }) ok holds asked
  | _ => exact accounted

end Traffic

open Traffic

theorem tended_start (α τ : Type) : Tended (fun _ => .nowhere) [] (Traffic.start α τ) where
  pools := ⟨fun _ => ⟨List.nodup_nil, by simp [Traffic.start]⟩, by simp [Traffic.start],
    fun _ => Nat.zero_le _⟩
  holders := by
    intro h
    refine ⟨?_, fun a => ?_⟩ <;> cases h <;> simp [holding, Traffic.start]
  intact := fun _ member => (List.not_mem_nil member).elim
  wide := fun _ member => (List.not_mem_nil member).elim

/-- In every interleaving of any threads each buffer has one owner, pools are bounded,
nothing is leaked or used after its deletion, and what the socket transmits are the
datagrams that `raw_send` was called for, each once and unchanged. -/
theorem buffers_owned {α τ : Type} [DecidableEq α] [DecidableEq τ] {s : Traffic α τ}
    (run : ReflTransGen Step (.start α τ) s) : (∃ place, Tended place [] s) ∧ s.Accounted := by
  induction run with
  | refl => exact ⟨⟨_, tended_start α τ⟩, .nil⟩
  | tail _ step ih =>
      obtain ⟨⟨place, tended⟩, accounted⟩ := ih
      exact ⟨tended_step tended step, accounted_step tended accounted step⟩

/-- The buffer of a first send, given up on another thread, serves a second send there. -/
theorem buffers_owned_twice : ∃ s, ReflTransGen Step (.start Nat Bool) s ∧
    s.wire = [[opcodeData, 9], [opcodeData]] ∧ s.heap = [0] ∧
    (∃ place, Tended place [] s) ∧ s.Accounted := by
  have run := (((ReflTransGen.refl (r := Step) (a := Traffic.start Nat Bool)).tail
    (.rawSend false 0 opcodeData [9] (by decide) nofun nofun (by decide))).tail
    (.sent true 0 [opcodeData, 9] [] [] true nofun rfl)).tail
    (.rawSend true 1 opcodeData [] (by decide) nofun (by decide) (by decide)) |>.tail
    (.sent true 0 [opcodeData] [] [] true nofun rfl)
  exact ⟨_, run, by decide, by decide, buffers_owned run⟩

end AsioKcp.Buffers
