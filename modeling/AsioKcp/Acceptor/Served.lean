import AsioKcp.Acceptor.Runs

/-! # The service of the registered connections

As long as nothing fails that `do_update` and the `on_receive` of `do_receive` run
themselves, both coroutines go on: every tick updates every registered connection,
and every datagram from a registered endpoint gets to its connection. -/
set_option autoImplicit false

namespace AsioKcp

open AsioKcp.Ikcp AsioKcp.Callback AsioKcp.Machine Relation

/-- Both service coroutines run. -/
def Serving (a : Acceptor) : Prop := a.receiving = true ∧ a.updating = true

theorem serving_kept {T : Terms} : Kept T Serving :=
  ⟨fun _ serves => serves, fun serves => serves, fun _ _ serves => serves, fun _ serves => serves⟩

/-- Nothing fails that a service coroutine runs itself: no handler that it invokes
lets an exception pass, its disconnect sends are taken, and a datagram of data finds
room in the stream buffer of a pending read. -/
structure Contained (c : Config Acceptor) (label : Label AcceptorEvent AcceptorCall) : Prop where
  passes : label = .unwind → c.state.serving = false
  answers : label = .answer false → c.state.serving = false
  room : ∀ ec datagram sender clock, label = .event (.receive ec datagram sender clock) →
    ∀ i, c.state.Passing ec datagram sender i → ¬ c.state.Overflows datagram i

instance (a : Acceptor) (ec : ErrorCode) (datagram : List UInt8) (sender : Endpoint) :
    Decidable (∀ i, a.Passing ec datagram sender i → ¬ a.Overflows datagram i) :=
  decidable_of_iff (∀ i ∈ a.find sender, a.Passing ec datagram sender i → ¬ a.Overflows datagram i)
    ⟨fun room i passing => room i passing.2.2.2 passing, fun room i _ => room i⟩

instance (c : Config Acceptor) (label : Label AcceptorEvent AcceptorCall) :
    Decidable (Contained c label) :=
  match label with
  | .unwind => decidable_of_iff (c.state.serving = false)
      ⟨fun outside => ⟨fun _ => outside, nofun, nofun⟩, fun contained => contained.passes rfl⟩
  | .answer false => decidable_of_iff (c.state.serving = false)
      ⟨fun outside => ⟨nofun, fun _ => outside, nofun⟩, fun contained => contained.answers rfl⟩
  | .event (.receive ec datagram sender clock) => decidable_of_iff
      (∀ i, c.state.Passing ec datagram sender i → ¬ c.state.Overflows datagram i)
      ⟨fun room => ⟨nofun, nofun, fun _ _ _ _ same => by cases same; exact room⟩,
        fun contained => contained.room ec datagram sender clock rfl⟩
  | .event (.timer _ _) | .event (.posted _) | .call _ | .answer true | .back | .raise | .caught =>
      isTrue ⟨nofun, nofun, nofun⟩

theorem contained_serves (c : Config Acceptor) (label : Label AcceptorEvent AcceptorCall)
    (contained : Contained c label) : Terms.any.Serves True c label := by
  refine ⟨fun unwinds => ⟨id, fun serves => ?_⟩, fun b answers serves => ?_, fun _ _ _ => trivial⟩
  · rw [contained.passes unwinds] at serves
    exact Bool.false_ne_true serves.2
  · cases b with
    | true => rfl
    | false =>
        rw [contained.answers answers] at serves
        exact (serves.elim id fun h => Bool.false_ne_true h.2).elim

theorem serving_event {a : Acceptor} (e : AcceptorEvent)
    (room : ∀ ec datagram sender clock, e = .receive ec datagram sender clock →
      ∀ i, a.Passing ec datagram sender i → ¬ a.Overflows datagram i)
    (bottom : a.Bottom Terms.any Serving) :
    (runAcceptorEvent e a).Meets (Terms.any.accepting True Serving)
      (fun _ => Acceptor.Bottom Terms.any Serving) (Acceptor.Bottom Terms.any Serving) a := by
  obtain ⟨sound, outside⟩ := bottom
  cases e with
  | receive ec datagram sender clock =>
      refine meets_mono (fun _ _ h => h) (fun _ h => h.elim)
        (acceptorReceive_meets serving_kept (fun _ h => h) ec datagram sender clock sound
          sound.holds ?_ ?_ ?_ ?_ ?_ outside a)
      · exact fun _ _ _ _ => sound.holds
      · exact fun _ _ _ erasing _ _ _ => erasing.sound.holds
      · exact fun _ _ sound' _ _ => sound'.holds
      · exact fun _ _ => sound.holds
      · intro b c passing _ overflows
        exact absurd (overflows trivial) (room ec datagram sender clock rfl c passing)
  | timer order now =>
      refine meets_mono (fun _ _ h => h) (fun _ h => h.elim)
        (doUpdate_meets serving_kept (fun _ h => h) now sound sound.holds ?_ ?_ ?_ outside a)
      · exact fun _ _ serves => serves
      · exact fun _ _ _ _ _ erasing _ => erasing.sound.holds
      · exact fun _ _ unguarded => absurd trivial unguarded
  | posted i => exact runAcceptorPosted_meets serving_kept (fun _ h => h) i sound outside a

theorem contained_run {magic : List UInt8} {now : Int} {streambufs : Nat → StreamBuf}
    {c : Config Acceptor}
    (run : acceptorSystem.Steps Contained (acceptorStart magic now streambufs) c) :
    c.Meets (Terms.any.accepting True Serving) (Acceptor.Bottom Terms.any Serving) ∧
      Serving c.state := by
  have start : Serving (.make magic now streambufs) := ⟨rfl, rfl⟩
  exact acceptor_run serving_kept (fun _ h => h) contained_serves
    (fun c e contained bottom => serving_event e
      (fun ec datagram sender clock same => contained.room ec datagram sender clock
        (congrArg _ same)) bottom)
    (start_meets serving_kept (fun _ h => h) start) start run

/-! ## What is served -/

/-- What goes on at an acceptor beside its handshakes: the acts of its connections,
what leaves all connections alone, and the updates and erasures of `do_update`. -/
inductive Doing : Acceptor → Acceptor → Prop
  | act {a : Acceptor} {l : Local} (i : Nat) : Act Terms.any ((Acceptor.view i).get a) l →
      Doing a ((Acceptor.view i).put a l)
  | aside {a b : Acceptor} : b.connections = a.connections → b.conns = a.conns →
      b.env.sent = a.env.sent → a.env.Grows b.env → Doing a b
  | update {a : Acceptor} (i : Nat) (now : Int) :
      Doing a ((Acceptor.view i).put a (((Acceptor.view i).get a).update now))
  | erase {a : Acceptor} (endpoint : Endpoint) (i : Nat) (pending : List Nat) :
      Doing a (a.erase endpoint i pending)

/-- Between `a` and `d`, connection `i` has been updated at the time `now`. -/
def Ticked (a : Acceptor) (i : Nat) (now : Int) (d : Acceptor) : Prop :=
  ∃ b, ReflTransGen Doing a b ∧ ReflTransGen Doing
    ((Acceptor.view i).put b (((Acceptor.view i).get b).update now)) d

/-- Connection `i` has taken the datagram in first of all, and then the acceptor came to `d`. -/
def Delivered (a : Acceptor) (datagram : List UInt8) (i : Nat) (d : Acceptor) : Prop :=
  ReflTransGen Doing ((Acceptor.view i).put (a.fill datagram)
    ((a.fill datagram).deliver i (receivedSize datagram))) d

/-- What goes on is kept by users and the executor. -/
theorem doing_kept {J : Acceptor → Prop} (along : ∀ {a b}, Doing a b → J a → J b) :
    Kept Terms.any fun a => Serving a ∧ J a := by
  have pushes : ∀ a : Acceptor, Doing a a.push := fun a => .aside rfl rfl rfl
    ⟨List.prefix_refl _, List.prefix_refl _, le_refl _, Nat.le_succ _⟩
  have serves : ∀ (a : Acceptor) serving, Doing a (a.serve serving) :=
    fun a serving => .aside rfl rfl rfl (Env.Grows.refl _)
  have queues : ∀ (a : Acceptor) env, a.env.Grows env → env.sent = a.env.sent →
      Doing a { a with env := env } := fun a env grows sent => .aside rfl rfl sent grows
  exact serving_kept.and ⟨fun act => along (.act _ act), along (pushes _),
    fun grows sent => along (queues _ _ grows sent), fun serving => along (serves _ serving)⟩

/-- On the way through `order`, begun in `a`, with the entries of `rest` to be visited. -/
structure Visiting (a : Acceptor) (order : List (Endpoint × Nat)) (now : Int)
    (rest : List (Endpoint × Nat)) (b : Acceptor) : Prop where
  path : ReflTransGen Doing a b
  visited : ∀ entry ∈ order, entry ∈ rest ∨ Ticked a entry.2 now b

section Visiting
variable {a b d : Acceptor} {order rest : List (Endpoint × Nat)} {now : Int}

theorem Visiting.along (visiting : Visiting a order now rest b) (doing : Doing b d) :
    Visiting a order now rest d where
  path := visiting.path.tail doing
  visited entry member := (visiting.visited entry member).imp_right
    fun ⟨mid, before, after⟩ => ⟨mid, before, after.tail doing⟩

theorem Visiting.next {endpoint : Endpoint} {i : Nat}
    (visiting : Visiting a order now ((endpoint, i) :: rest) b) :
    Visiting a order now rest
      ((Acceptor.view i).put b (((Acceptor.view i).get b).update now)) := by
  have updated := visiting.along (.update i now)
  refine ⟨updated.path, fun entry member => ?_⟩
  rcases updated.visited entry member with left | ticked
  · rcases List.mem_cons.mp left with rfl | later
    · exact Or.inr ⟨b, visiting.path, .refl⟩
    · exact Or.inl later
  · exact Or.inr ticked

end Visiting

theorem visiting_kept (a : Acceptor) (order : List (Endpoint × Nat)) (now : Int)
    (rest : List (Endpoint × Nat)) :
    Kept Terms.any fun b => Serving b ∧ Visiting a order now rest b :=
  doing_kept fun doing visiting => visiting.along doing

/-- A tick goes on to the last of the entries. -/
theorem doUpdate_ticks {a : Acceptor} (bottom : a.Bottom Terms.any Serving)
    {order : List (Endpoint × Nat)} (all : order.Perm a.connections) (now : Int) (begun : Acceptor) :
    (doUpdate order now a).Meets (Terms.any.accepting True Serving)
      (fun _ => Acceptor.Bottom Terms.any fun b => Serving b ∧ Visiting a order now [] b)
      (fun _ => False) begun := by
  obtain ⟨sound, _⟩ := bottom
  have started : Acceptor.Sound Terms.any (fun b => Serving b ∧ Visiting a order now order b)
      { a with now := now, serving := true } :=
    ⟨sound.settled, ⟨sound.registry.unique, sound.registry.made, sound.registry.own⟩, sound.holds,
      .single (.aside rfl rfl rfl (Env.Grows.refl _)), fun _ member => Or.inl member⟩
  have walked : (updateConnections now order { a with now := now, serving := true }).Meets
      (Terms.any.accepting True Serving) _ _ begun :=
    updateConnections_meets (I := Serving) (visiting_kept a order now)
      (fun _ _ h => h.1) now (fun _ _ _ _ h => ⟨h.1, h.2.next⟩)
      (fun _ _ _ endpoint i _ erasing _ => ⟨erasing.sound.holds.1,
        erasing.sound.holds.2.along (.erase endpoint i _)⟩) order started all.subset
      ((all.map Prod.fst).nodup_iff.mpr sound.registry.unique) rfl begun
  simp only [doUpdate, Comp.bind_apply, Comp.get_apply, Prog.bind_ret, Comp.ite_apply]
  rw [if_pos ⟨sound.holds.2, all⟩]
  exact service_meets (visiting_kept a order now []) (fun _ h => h.1) (fun _ h => h.1)
    (fun _ h => absurd trivial h.2) walked

theorem delivered_kept (a : Acceptor) (datagram : List UInt8) (i : Nat) :
    Kept Terms.any fun b => Serving b ∧ Delivered a datagram i b :=
  doing_kept fun doing delivered => delivered.tail doing

/-- A datagram is taken by the connection of its endpoint. -/
theorem acceptorReceive_delivers {a : Acceptor} (bottom : a.Bottom Terms.any Serving)
    {ec : ErrorCode} {datagram : List UInt8} {sender : Endpoint} {i : Nat} (clock : Int)
    (passing : a.Passing ec datagram sender i) (room : ¬ a.Overflows datagram i)
    (begun : Acceptor) :
    (acceptorReceive ec datagram sender clock a).Meets (Terms.any.accepting True Serving)
      (fun _ => Acceptor.Bottom Terms.any fun b => Serving b ∧ Delivered a datagram i b)
      (fun _ => False) begun := by
  obtain ⟨sound, _⟩ := bottom
  have filled : (a.fill datagram).Sound Terms.any Serving :=
    fill_sound sound datagram sound.holds
  have started : ((a.fill datagram).serve true).Sound Terms.any Serving :=
    serve_sound serving_kept true filled
  have frame := received_frame ((Acceptor.view i).get (a.fill datagram))
    (a.fill datagram).buffer (receivedSize datagram) (a.fill datagram).now
  have takes : Delivered a datagram i ((Acceptor.view i).put ((a.fill datagram).serve true)
      ((a.fill datagram).deliver i (receivedSize datagram))) :=
    .single (.aside rfl rfl rfl (Env.Grows.refl _))
  rw [acceptorReceive_passing passing]
  refine service_meets (delivered_kept a datagram i) (fun _ h => h.1) (fun _ h => h.1)
    (fun b h => absurd (h.2.1.2 ⟨trivial, rfl⟩) room)
    (settled_connection True (delivered_kept a datagram i) (fun _ h => h.1) started.settled
      frame.2.2.1 started.registry ⟨sound.holds, takes⟩ (fun _ _ h => h) (fun _ h => h.1)
      (onReceive_meets _ (receivedSize datagram) _
        (settled_entry started.settled i (.onReceive _ (receivedSize datagram) _))) begun)

/-! ## Runs -/

/-- The handling of an event goes on: no other event starts. -/
def Underway (c : Config Acceptor) (label : Label AcceptorEvent AcceptorCall) : Prop :=
  Contained c label ∧ ∀ e, label ≠ .event e

/-- The connections registered in `c` are ticked, and get their datagrams. -/
structure ServesRegistered (c : Config Acceptor) : Prop where
  ticks : ∀ {order : List (Endpoint × Nat)} {now : Int} {first d : Config Acceptor},
    order.Perm c.state.connections →
    acceptorSystem.step c (.event (.timer order now)) = some first →
    acceptorSystem.Steps Underway first d → d.Idle →
    ∀ entry ∈ c.state.connections, Ticked c.state entry.2 now d.state
  receives : ∀ {datagram : List UInt8} {sender : Endpoint} {clock : Int} {i : Nat}
    {first d : Config Acceptor}, c.state.find sender = some i →
    (c.state.fill datagram).buffer.getD 0 0 < opcodeMax →
    (c.state.fill datagram).buffer.getD 0 0 ≠ opcodeHandshark →
    ¬ c.state.Overflows datagram i →
    acceptorSystem.step c (.event (.receive .success datagram sender clock)) = some first →
    acceptorSystem.Steps Underway first d → d.Idle → Delivered c.state datagram i d.state

/-- Whatever the code of an event promises it has kept when it is done. -/
theorem handled {J : Acceptor → Prop} (kept : Kept Terms.any J) (within : ∀ a, J a → Serving a)
    {e : AcceptorEvent} {c first d : Config Acceptor} (serves : Serving c.state)
    (meets : (runAcceptorEvent e c.state).Meets (Terms.any.accepting True Serving)
      (fun _ => Acceptor.Bottom Terms.any J) (fun _ => False) c.state)
    (stepped : acceptorSystem.step c (.event e) = some first)
    (underway : acceptorSystem.Steps Underway first d) (idle : d.Idle) : J d.state := by
  obtain ⟨_, rfl⟩ := step_event stepped
  have base : StackMeets (Terms.any.accepting True Serving) (Acceptor.Bottom Terms.any J)
      (Acceptor.Bottom Terms.any J) [] := fun _ h => h
  obtain ⟨guar, entered⟩ := enter_meets (relies_sound kept within false) base
    (meets_mono (fun _ _ h => h) (fun _ h => h.elim) meets)
  have kept := (acceptor_run kept within (fun e label handles => contained_serves e label handles.1)
    (fun _ e handles => absurd rfl (handles.2 e)) entered (guar serves) underway).1
  exact (meets_bottom kept idle).1.holds

theorem servesRegistered_run {magic : List UInt8} {now : Int} {streambufs : Nat → StreamBuf}
    {c : Config Acceptor}
    (run : acceptorSystem.Steps Contained (acceptorStart magic now streambufs) c) : ServesRegistered c := by
  obtain ⟨keeps, serves⟩ := contained_run run
  constructor
  · intro order now first d all stepped underway idle entry member
    have bottom := meets_bottom keeps (step_event stepped).1
    have visited := (handled (e := .timer order now) (visiting_kept c.state order now [])
      (fun _ h => h.1) serves
      (doUpdate_ticks bottom all now c.state) stepped underway idle).2
    exact (visited.visited entry (all.mem_iff.mpr member)).resolve_left List.not_mem_nil
  · intro datagram sender clock i first d found valid other room stepped underway idle
    have bottom := meets_bottom keeps (step_event stepped).1
    exact (handled (e := .receive .success datagram sender clock)
      (delivered_kept c.state datagram i) (fun _ h => h.1) serves
      (acceptorReceive_delivers bottom clock ⟨⟨serves.1, rfl⟩, valid, other, found⟩ room c.state)
      stepped underway idle).2

end AsioKcp
