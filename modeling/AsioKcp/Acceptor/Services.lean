import AsioKcp.Acceptor.Registry

/-! # The functions of the acceptor keep what the user keeps

One lemma for each function: a predicate `J` that user code keeps is kept by the
function, if it is kept at each of the function's own changes. -/
set_option autoImplicit false

namespace AsioKcp

open AsioKcp.Ikcp AsioKcp.Callback AsioKcp.Machine AsioKcp.Bytes

section Services
variable {T : Terms} {guarded : Prop} {I J : Acceptor → Prop}

/-- What holds outside of the acceptor's own changes. -/
structure Acceptor.Sound (T : Terms) (J : Acceptor → Prop) (a : Acceptor) : Prop where
  settled : a.Settled T
  registry : a.Registry
  holds : J a

theorem settled_entry {a : Acceptor} (settled : a.Settled T) (c : Nat) (e : Event) :
    Phase.settled.Holds T (entry e ((Acceptor.view c).get a)) :=
  entry_settled e (settled c)

variable (guarded) in
/-- Code of one connection that the acceptor runs between events. -/
theorem settled_connection {α : Type} {m : Comp Local α} {Q : α → Local → Prop}
    {E : Local → Prop} {c : Nat} {a : Acceptor} {start : Local}
    (kept : Kept T J) (within : ∀ a, J a → I a) (settled : a.Settled T)
    (endpoint : start.conn.endpoint = (a.conns c).endpoint) (registry : a.Registry)
    (holds : J ((Acceptor.view c).put a start))
    (returns : ∀ r l, Q r l → Phase.settled.Holds T l) (throws : ∀ l, E l → Phase.settled.Holds T l)
    (meets : (m ((Acceptor.view c).get a)).Meets (T.contract (guarded ∧ a.serving = true)) Q E
      start) (begun : Acceptor) :
    (onConnection c m a).Meets (T.accepting guarded I)
      (fun r b => b.Sound T J ∧ Q r ((Acceptor.view c).get b) ∧ b.serving = a.serving ∧
        Later ((Acceptor.view c).put a start) b)
      (fun b => b.Sound T J ∧ E ((Acceptor.view c).get b) ∧ b.serving = a.serving ∧
        Later ((Acceptor.view c).put a start) b)
      begun := by
  have begins : ((Acceptor.view c).put a start).Registry := by
    refine ⟨registry.unique, registry.made, fun entry member => ?_⟩
    have own := registry.own entry member
    simp only [Acceptor.view]
    by_cases same : entry.2 = c
    · rw [same] at own ⊢
      rw [Function.update_self, endpoint]
      exact own
    · rw [Function.update_of_ne same]
      exact own
  have walked := onConnection_meets (I := I) guarded (fun _ => .settled)
    (kept.and (later_kept T ((Acceptor.view c).put a start)))
    (fun a h => within a h.1) (fun d _ => settled d) ⟨holds, Later.refl _⟩ meets begun
  have all : ∀ b : Acceptor, Phase.settled.Holds T ((Acceptor.view c).get b) →
      (∀ d, d ≠ c → Phase.settled.Holds T ((Acceptor.view d).get b)) → b.Settled T := by
    intro b here others d
    by_cases same : d = c
    · subst same
      exact here
    · exact others d same
  refine meets_mono ?_ ?_ walked
  · rintro r b ⟨q, others, ⟨j, later⟩, serves⟩
    exact ⟨⟨all b (returns r _ q) others, begins.later later, j⟩, q, serves, later⟩
  · rintro b ⟨e, others, ⟨j, later⟩, serves⟩
    exact ⟨⟨all b (throws _ e) others, begins.later later, j⟩, e, serves, later⟩

/-! ## `do_update` -/

/-- `b` is reached from `a` by the part of the acceptor that is about to erase the
entry of connection `c`. -/
structure Erasing (T : Terms) (J : Acceptor → Prop) (a b : Acceptor) (endpoint : Endpoint)
    (c : Nat) : Prop where
  registered : (endpoint, c) ∈ a.connections
  sound : b.Sound T J
  entry : (endpoint, c) ∈ b.connections
  env : a.env.Grows b.env
  closed : (a.conns c).state ≠ .idle → (b.conns c).state = .closed
  failed : T.strict → (a.conns c).state ≠ .idle →
    ∀ handler ∈ (a.conns c).slots, b.env.Failed handler

/-- What is kept may depend on the entries that are still to be visited. -/
theorem updateConnections_meets {J : List (Endpoint × Nat) → Acceptor → Prop}
    (kept : ∀ rest, Kept T (J rest)) (within : ∀ rest a, J rest a → I a) (now : Int)
    (updates : ∀ rest endpoint c a, J ((endpoint, c) :: rest) a →
      J rest ((Acceptor.view c).put a (((Acceptor.view c).get a).update now)))
    (erases : ∀ rest a b endpoint c, J ((endpoint, c) :: rest) a →
      Erasing T (J rest) a b endpoint c →
      ((a.conns c).state = .idle → now - (a.conns c).nowTick > timeoutDuration) →
      J rest (b.erase endpoint c (a.conns c).slots))
    (order : List (Endpoint × Nat)) {a : Acceptor} (sound : a.Sound T (J order))
    (entries : order ⊆ a.connections) (once : (order.map Prod.fst).Nodup)
    (serves : a.serving = true) (begun : Acceptor) :
    (updateConnections now order a).Meets (T.accepting guarded I)
      (fun _ b => b.Sound T (J []) ∧ b.serving = true)
      (fun b => (∃ rest, b.Sound T (J rest)) ∧ ¬ guarded) begun := by
  induction order generalizing a begun with
  | nil => exact ⟨fun _ => within [] a sound.holds, sound, serves⟩
  | cons entry rest ih =>
      obtain ⟨endpoint, c⟩ := entry
      have registered : (endpoint, c) ∈ a.connections := entries (List.mem_cons_self ..)
      have rest_entries : rest ⊆ a.connections := fun e member =>
        entries (List.mem_cons_of_mem _ member)
      obtain ⟨fresh, rest_once⟩ := List.nodup_cons.mp once
      have ticked := settled_connection (I := I) (m := tick now) guarded (kept rest) (within rest)
        sound.settled (update_onward _ now).endpoint sound.registry
        (updates rest endpoint c a sound.holds)
        (fun _ _ done => done.settled) (fun _ h => h.1)
        (tick_meets now (settled_entry sound.settled c (.tick now))) begun
      simp only [updateConnections, Comp.bind_apply, Comp.get_apply, Prog.bind_ret]
      refine meets_bind _ (meets_mono ?_ ?_ ticked)
      · rintro expired b ⟨sound', done, serves', later⟩
        have same : b.connections = a.connections := later.connections
        cases expired with
        | false =>
            exact ih sound' (same ▸ rest_entries) rest_once (serves'.trans serves) _
        | true =>
            have erasing : Erasing T (J rest) a b endpoint c :=
              ⟨registered, sound', same ▸ registered,
                (update_onward _ now).env.trans later.env, done.closed rfl, done.failed rfl⟩
            have erased : (b.erase endpoint c (a.conns c).slots).Sound T (J rest) :=
              ⟨sound'.settled, sound'.registry.erase _ _ _,
                erases rest a b endpoint c sound.holds erasing (done.late rfl)⟩
            change (updateConnections now rest (b.erase endpoint c (a.conns c).slots)).Meets _ _ _ _
            refine ih erased ?_ rest_once (serves'.trans serves) _
            intro e member
            refine List.mem_filter.mpr ⟨same ▸ rest_entries member, ?_⟩
            have other : e.1 ≠ endpoint := by
              rintro rfl
              exact fresh (List.mem_map.mpr ⟨e, member, rfl⟩)
            exact decide_eq_true other
      · rintro b ⟨sound', ⟨_, lax⟩, _, _⟩
        exact ⟨⟨rest, sound'⟩, fun isGuarded => lax ⟨isGuarded, serves⟩⟩

theorem serve_sound {a : Acceptor} (kept : Kept T J) (serving : Bool) (sound : a.Sound T J) :
    (a.serve serving).Sound T J :=
  ⟨sound.settled, ⟨sound.registry.unique, sound.registry.made, sound.registry.own⟩,
    kept.serve serving sound.holds⟩

/-- A service coroutine: an exception that leaves its code ends it. -/
theorem service_meets {m : Comp Acceptor Unit} {stop : Acceptor → Acceptor}
    {Q : Unit → Acceptor → Prop} (kept : Kept T J) (within : ∀ a, J a → I a) {a : Acceptor}
    (returns : ∀ b, Q () b → b.Sound T J) {E : Acceptor → Prop}
    (stops : ∀ b, E b → (stop b).Sound T J) {begun : Acceptor}
    (meets : (m a).Meets (T.accepting guarded I) Q E begun) :
    ((do
      Comp.tryCatch m (Comp.modify stop)
      Comp.modify fun b => b.serve false : Comp Acceptor Unit) a).Meets (T.accepting guarded I)
      (fun _ b => b.Sound T J ∧ b.serving = false) (fun _ => False) begun := by
  have done : ∀ b, b.Sound T J → (Prog.ret (b.serve false) () : Prog Acceptor Unit).Meets
      (T.accepting guarded I) (fun _ b => b.Sound T J ∧ b.serving = false) (fun _ => False) b :=
    fun b sound => ⟨fun _ => within _ (kept.serve false sound.holds),
      serve_sound kept false sound, rfl⟩
  refine meets_bind _ (meets_tryCatch _ (meets_mono ?_ ?_ meets))
  · exact fun _ b q => done b (returns b q)
  · intro b e
    have stopped := stops b e
    refine ⟨fun _ => within _ stopped.holds, ?_⟩
    exact done _ stopped

theorem doUpdate_meets (kept : Kept T J) (within : ∀ a, J a → I a) (now : Int)
    {order : List (Endpoint × Nat)} {a : Acceptor} (sound : a.Sound T J)
    (begins : J { a with now := now, serving := true })
    (updates : ∀ a c, J a → J ((Acceptor.view c).put a (((Acceptor.view c).get a).update now)))
    (erases : ∀ a b endpoint c, J a → Erasing T J a b endpoint c →
      ((a.conns c).state = .idle → now - (a.conns c).nowTick > timeoutDuration) →
      J (b.erase endpoint c (a.conns c).slots))
    (stops : ∀ b, J b → ¬ guarded → J { b with updating := false })
    (outside : a.serving = false) (begun : Acceptor) :
    (doUpdate order now a).Meets (T.accepting guarded I)
      (fun _ b => b.Sound T J ∧ b.serving = false) (fun _ => False) begun := by
  simp only [doUpdate, Comp.bind_apply, Comp.get_apply, Prog.bind_ret, Comp.ite_apply]
  split
  · rename_i runs
    have started : Acceptor.Sound T J { a with now := now, serving := true } :=
      ⟨sound.settled, ⟨sound.registry.unique, sound.registry.made, sound.registry.own⟩, begins⟩
    refine service_meets kept within (fun b h => h.1) (fun b h => ?_)
      (updateConnections_meets (fun _ => kept) (fun _ => within) now
        (fun _ _ c b => updates b c) (fun _ => erases) order started
        runs.2.subset ?_ rfl begun)
    · obtain ⟨⟨_, sound⟩, lax⟩ := h
      exact ⟨sound.settled, ⟨sound.registry.unique, sound.registry.made, sound.registry.own⟩,
        stops b sound.holds lax⟩
    · exact (runs.2.map Prod.fst).nodup_iff.mpr sound.registry.unique
  · exact ⟨fun _ => within _ sound.holds, sound, outside⟩

/-! ## `handshark` -/

/-- The end of `handshark` up to the accept handler. -/
def Acceptor.answered (a : Acceptor) (c : Nat) : Acceptor :=
  { a with
    env := a.env.send (a.conns c).endpoint opcodeHandsharkResponse (le32 (a.conns c).conv)
    acceptOps := a.acceptOps.tail
    accepts := a.accepts ++ a.acceptOps.head?.toList.map fun op => (op, c)
    emptyFront := a.emptyFront || a.acceptOps.isEmpty }

theorem answer_eq (c : Nat) (a : Acceptor) :
    answer c a = if a.acceptOps = [] then .ret (a.answered c) ()
      else .invoke (a.answered c) (fun b => .ret b ()) (fun b => .throw b) := by
  have opcode : (opcodeHandsharkResponse ≠ opcodeDisconnect) = True := by
    simp [opcodeHandsharkResponse, opcodeDisconnect]
  simp only [answer, onConnection, Comp.bind_apply, Comp.get_apply, Prog.bind_ret, Comp.zoom_apply,
    rawSend, opcode, if_true, modifyEnv, Comp.modify_apply, Prog.zoom, Acceptor.view,
    Function.update_eq_self]
  cases ops : a.acceptOps with
  | nil => simp [Acceptor.answered, ops]
  | cons op rest => simp [Acceptor.answered, ops]

variable (guarded) in
theorem answer_meets (kept : Kept T J) (within : ∀ a, J a → I a) {a : Acceptor} {c : Nat}
    (settled : a.Settled T) (registry : a.Registry) (answers : J (a.answered c))
    (begun : Acceptor) :
    (answer c a).Meets (T.accepting guarded I)
      (fun _ b => b.Sound T J ∧ b.serving = a.serving)
      (fun b => b.Sound T J ∧ b.serving = a.serving) begun := by
  have sound : (a.answered c).Sound T J :=
    ⟨settled, ⟨registry.unique, registry.made, registry.own⟩, answers⟩
  rw [answer_eq]
  split
  · exact ⟨fun _ => within _ answers, sound, rfl⟩
  · refine ⟨fun _ => within _ answers, fun b => b.Sound T J ∧ b.serving = a.serving, ?_,
      ⟨sound, rfl⟩, fun b hb => ⟨⟨id, hb⟩, fun _ => ⟨id, hb⟩⟩⟩
    refine ⟨fun _ => .settled, fun b => J b ∧ b.Registry, a.serving, kept.and registry_kept,
      fun b h => within b h.1, fun b => ?_⟩
    constructor
    · rintro ⟨sound, serves⟩
      exact ⟨sound.settled, ⟨sound.holds, sound.registry⟩, serves⟩
    · rintro ⟨settled, ⟨holds, registry⟩, serves⟩
      exact ⟨⟨settled, registry, holds⟩, serves⟩

theorem make_settled (T : Terms) (this : Nat) (conv : UInt32) (endpoint : Endpoint)
    (isserver : Bool) (now : Int) (env : Env) :
    Phase.settled.Holds T ⟨.make this conv endpoint isserver now, env⟩ :=
  ⟨by simp [Connection.make], fun _ _ => ⟨rfl, rfl⟩, fun _ _ closed => by
    simp [Local.closed, Connection.make] at closed⟩

theorem create_settled {a : Acceptor} (settled : a.Settled T) (conv : UInt32) (endpoint : Endpoint)
    (clock : Int) : (a.create conv endpoint clock).Settled T := by
  intro c
  by_cases same : c = a.created
  · subst same
    have made := make_settled T a.created conv endpoint true clock a.env
    simpa [Acceptor.view, Acceptor.create] using made
  · have old := settled c
    simpa [Acceptor.view, Acceptor.create, Function.update_of_ne same] using old

/-- Connection `c`, if it was open, has been sent something on the way to its erasure. -/
def Dismissed (a b : Acceptor) (c : Nat) : Prop :=
  (a.conns c).state = .opened →
    ∃ d ∈ b.env.sent.drop a.env.sent.length, d.dest = (a.conns c).endpoint

theorem handshark_meets (kept : Kept T J) (within : ∀ a, J a → I a) (conv : UInt32)
    (endpoint : Endpoint) (clock : Int) {a : Acceptor} (sound : a.Sound T J)
    (reuses : ∀ c, a.find endpoint = some c → (a.conns c).state = .idle → J (a.answered c))
    (erases : ∀ b c, Erasing T J a b endpoint c → a.find endpoint = some c →
      (a.conns c).state ≠ .idle → Dismissed a b c → J (b.erase endpoint c (a.conns c).slots))
    (opens : ∀ b : Acceptor, b.Sound T J → a.acceptOps <+: b.acceptOps →
      b.find endpoint = none → J ((b.create conv endpoint clock).answered b.created))
    (begun : Acceptor) :
    (handshark conv endpoint clock a).Meets (T.accepting guarded I)
      (fun _ b => b.Sound T J ∧ b.serving = a.serving)
      (fun b => b.Sound T J ∧ b.serving = a.serving) begun := by
  have opened : ∀ b : Acceptor, b.Sound T J → a.acceptOps <+: b.acceptOps →
      b.find endpoint = none → b.serving = a.serving →
      ∀ begun, (answer b.created (b.create conv endpoint clock)).Meets (T.accepting guarded I)
        (fun _ b => b.Sound T J ∧ b.serving = a.serving)
        (fun b => b.Sound T J ∧ b.serving = a.serving) begun := by
    intro b sound ops absent serves begun
    rw [← serves]
    exact answer_meets guarded kept within (create_settled sound.settled conv endpoint clock)
      (sound.registry.create conv clock absent) (opens b sound ops absent) begun
  simp only [handshark, Comp.bind_apply, Comp.get_apply, Prog.bind_ret]
  cases found : a.find endpoint with
  | none => exact opened a sound (List.prefix_refl _) found rfl begun
  | some c =>
      by_cases idle : (a.conns c).state = .idle
      · have isIdle : (a.conns c).idle = true := decide_eq_true idle
        simp only [isIdle, if_true]
        exact answer_meets guarded kept within sound.settled sound.registry (reuses c found idle) begun
      · have isIdle : (a.conns c).idle = false := decide_eq_false idle
        have closes := settled_connection (I := I) guarded (E := fun l =>
            Phase.settled.Holds T l ∧ (guarded ∧ a.serving = true → _)) kept within sound.settled rfl
          sound.registry (by rw [(Acceptor.view c).put_get]; exact sound.holds)
          (fun _ _ done => CloseDone.settled done) (fun _ h => h.1)
          (close_meets .operationAborted (by simp) (sound.settled c)) begun
        simp only [isIdle, Bool.false_eq_true, if_false, Comp.bind_apply]
        refine meets_bind _ (meets_mono ?_ (fun b h => ⟨h.1, h.2.2.1⟩) closes)
        rintro _ b ⟨sound', done, serves, later⟩
        rw [(Acceptor.view c).put_get] at later
        have erasing : Erasing T J a b endpoint c :=
          ⟨find_mem found, sound', later.connections ▸ find_mem found, later.env,
            done.closed, done.failed⟩
        obtain ⟨fresh, ops, _⟩ := later.ops
        have erased : (b.erase endpoint c (a.conns c).slots).Sound T J :=
          ⟨sound'.settled, sound'.registry.erase _ _ _, erases b c erasing found idle done.sent⟩
        exact opened _ erased ⟨fresh, ops.symm⟩ (erase_find ..) serves b

/-! ## `do_receive` -/

theorem fill_sound {a : Acceptor} (sound : a.Sound T J) (datagram : List UInt8)
    (fills : J (a.fill datagram)) : (a.fill datagram).Sound T J :=
  ⟨sound.settled, ⟨sound.registry.unique, sound.registry.made, sound.registry.own⟩, fills⟩

/-- The number of bytes of a datagram that fit the buffer. -/
def receivedSize (datagram : List UInt8) : Nat := min datagram.length 2048

/-- Connection `c` with the datagram that `a` has in its buffer, up to the poll. -/
def Acceptor.deliver (a : Acceptor) (c : Nat) (n : Nat) : Local :=
  ((Acceptor.view c).get a).received a.buffer n a.now

/-- The datagram in the buffer is a handshake. -/
def Acceptor.Greeting (a : Acceptor) (ec : ErrorCode) (datagram : List UInt8) : Prop :=
  (a.receiving = true ∧ ec = .success) ∧ (a.fill datagram).buffer.getD 0 0 = opcodeHandshark ∧
    (a.fill datagram).greeted (receivedSize datagram)

instance (a : Acceptor) (ec : ErrorCode) (datagram : List UInt8) : Decidable (a.Greeting ec datagram) :=
  inferInstanceAs (Decidable ((_ ∧ _) ∧ _ ∧ _))

/-- The datagram in the buffer is passed on to connection `c`. -/
def Acceptor.Passing (a : Acceptor) (ec : ErrorCode) (datagram : List UInt8) (sender : Endpoint)
    (c : Nat) : Prop :=
  (a.receiving = true ∧ ec = .success) ∧ (a.fill datagram).buffer.getD 0 0 < opcodeMax ∧
    (a.fill datagram).buffer.getD 0 0 ≠ opcodeHandshark ∧ a.find sender = some c

instance (a : Acceptor) (ec : ErrorCode) (datagram : List UInt8) (sender : Endpoint) (c : Nat) :
    Decidable (a.Passing ec datagram sender c) :=
  inferInstanceAs (Decidable ((_ ∧ _) ∧ _ ∧ _ ∧ _))

/-- The data in the buffer has connection `c` fill up a stream buffer. -/
def Acceptor.Overflows (a : Acceptor) (datagram : List UInt8) (c : Nat) : Prop :=
  24 ≤ receivedSize datagram ∧ (a.fill datagram).buffer.getD 0 0 = opcodeData ∧
    Refuses ((a.fill datagram).deliver c (receivedSize datagram))

instance (a : Acceptor) (datagram : List UInt8) (c : Nat) : Decidable (a.Overflows datagram c) :=
  inferInstanceAs (Decidable (_ ∧ _ ∧ _))

/-- The `conv` of the handshake in the buffer. -/
def Acceptor.greetingConv (a : Acceptor) (datagram : List UInt8) : UInt32 :=
  read32 ((a.fill datagram).buffer.drop (1 + a.magic.length))

theorem acceptorReceive_greeting {a : Acceptor} {ec : ErrorCode} {datagram : List UInt8}
    (greeting : a.Greeting ec datagram) (sender : Endpoint) (clock : Int) :
    acceptorReceive ec datagram sender clock a =
      (handshark (a.greetingConv datagram) sender clock (a.fill datagram)).tryCatch (pure ()) := by
  obtain ⟨⟨receiving, success⟩, opcode, matched⟩ := greeting
  have valid : ¬ opcodeHandshark ≥ opcodeMax := by decide
  have fits : (a.fill datagram).greeted (min datagram.length 2048) := matched
  simp only [acceptorReceive, Comp.bind_apply, Comp.get_apply, Prog.bind_ret, Comp.ite_apply,
    Comp.modify_apply, receiving, success, opcode, valid, fits, Bool.true_eq_false, ne_eq,
    not_true_eq_false, or_self, if_false, if_true]
  rfl

theorem acceptorReceive_passing {a : Acceptor} {ec : ErrorCode} {datagram : List UInt8}
    {sender : Endpoint} {c : Nat} (passing : a.Passing ec datagram sender c) (clock : Int) :
    acceptorReceive ec datagram sender clock a =
      (do
        Comp.tryCatch (onConnection c
            (onReceive (a.fill datagram).buffer (receivedSize datagram) (a.fill datagram).now))
          (Comp.modify fun a => { a with receiving := false })
        Comp.modify fun a => a.serve false : Comp Acceptor Unit) ((a.fill datagram).serve true) := by
  obtain ⟨⟨receiving, success⟩, valid, other, found⟩ := passing
  have lookup : (a.fill datagram).find sender = some c := found
  simp only [acceptorReceive, Comp.bind_apply, Comp.get_apply, Prog.bind_ret, Comp.ite_apply,
    Comp.modify_apply]
  rw [if_neg (by simp [receiving, success]), if_neg (UInt8.not_le.mpr valid), if_neg other, lookup]
  rfl

theorem acceptorReceive_meets (kept : Kept T J) (within : ∀ a, J a → I a) (ec : ErrorCode)
    (datagram : List UInt8) (sender : Endpoint) (clock : Int) {a : Acceptor} (sound : a.Sound T J)
    (fills : J (a.fill datagram))
    (reuses : ∀ c, a.Greeting ec datagram → a.find sender = some c → (a.conns c).state = .idle →
      J ((a.fill datagram).answered c))
    (erases : ∀ b c, a.Greeting ec datagram → Erasing T J (a.fill datagram) b sender c →
      a.find sender = some c → (a.conns c).state ≠ .idle → Dismissed a b c → J (b.erase sender c (a.conns c).slots))
    (opens : ∀ b : Acceptor, a.Greeting ec datagram → b.Sound T J →
      a.acceptOps <+: b.acceptOps → b.find sender = none →
      J ((b.create (a.greetingConv datagram) sender clock).answered b.created))
    (receives : ∀ c, a.Passing ec datagram sender c → J ((Acceptor.view c).put (a.fill datagram)
      ((a.fill datagram).deliver c (receivedSize datagram))))
    (stops : ∀ b c, a.Passing ec datagram sender c → J b →
      (guarded → a.Overflows datagram c) → J { b with receiving := false })
    (outside : a.serving = false) (begun : Acceptor) :
    (acceptorReceive ec datagram sender clock a).Meets (T.accepting guarded I)
      (fun _ b => b.Sound T J ∧ b.serving = false) (fun _ => False) begun := by
  have filled := fill_sound sound datagram fills
  have ignored : (Prog.ret (a.fill datagram) () : Prog Acceptor Unit).Meets
      (T.accepting guarded I) (fun _ b => b.Sound T J ∧ b.serving = false) (fun _ => False) begun :=
    ⟨fun _ => within _ fills, filled, outside⟩
  simp only [acceptorReceive, Comp.bind_apply, Comp.get_apply, Prog.bind_ret, Comp.ite_apply,
    Comp.pure_apply, Comp.modify_apply]
  split
  · exact ⟨fun _ => within _ sound.holds, sound, outside⟩
  · rename_i runs
    have receiving : a.receiving = true ∧ ec = .success := by
      obtain ⟨running, valid⟩ := not_or.mp runs
      exact ⟨Bool.eq_true_of_not_eq_false running, Decidable.not_not.mp valid⟩
    split
    · exact ignored
    · rename_i valid
      split
      · rename_i greets
        split
        · rename_i matched
          have greeting : a.Greeting ec datagram := ⟨receiving, greets, matched⟩
          refine meets_tryCatch _ (meets_mono (fun _ b h => ⟨h.1, h.2.trans outside⟩)
            (fun b h => ?_) (handshark_meets kept within _ sender clock filled
              (fun c => reuses c greeting) (fun b c => erases b c greeting)
              (fun b => opens b greeting) begun))
          exact ⟨id, h.1, h.2.trans outside⟩
        · exact ignored
      · rename_i other
        cases found : (a.fill datagram).find sender with
        | none => exact ignored
        | some c =>
            have passing : a.Passing ec datagram sender c :=
              ⟨receiving, UInt8.not_le.mp valid, other, found⟩
            have delivered := receives c passing
            have started : (((a.fill datagram).serve true)).Sound T J := serve_sound kept true filled
            have frame := received_frame ((Acceptor.view c).get (a.fill datagram))
              (a.fill datagram).buffer (receivedSize datagram) (a.fill datagram).now
            refine service_meets kept within (fun b h => h.1) (fun b h => ?_)
              (settled_connection (I := I) guarded kept within started.settled
                frame.2.2.1 started.registry (kept.serve true delivered) (fun _ _ h => h)
                (fun _ h => h.1) (onReceive_meets _ (receivedSize datagram) _
                  (settled_entry started.settled c
                    (.onReceive _ (receivedSize datagram) _))) begun)
            have stopped := stops b c passing h.1.holds (fun isGuarded => h.2.1.2 ⟨isGuarded, rfl⟩)
            exact ⟨h.1.settled, ⟨h.1.registry.unique, h.1.registry.made, h.1.registry.own⟩, stopped⟩

end Services

end AsioKcp
