import AsioKcp.Acceptor.Contract

/-! # The registry, and what the user's code leaves alone in an acceptor -/
set_option autoImplicit false

namespace AsioKcp

open AsioKcp.Ikcp AsioKcp.Callback AsioKcp.Machine

/-! ## The registry -/

/-- Connections are registered once, under their own endpoints. -/
structure Acceptor.Registry (a : Acceptor) : Prop where
  unique : (a.connections.map Prod.fst).Nodup
  made : ∀ entry ∈ a.connections, entry.2 < a.created
  own : ∀ entry ∈ a.connections, (a.conns entry.2).endpoint = entry.1

theorem find_mem {a : Acceptor} {endpoint : Endpoint} {c : Nat}
    (found : a.find endpoint = some c) : (endpoint, c) ∈ a.connections := by
  obtain ⟨before, after, shape, _⟩ := List.lookup_eq_some_iff.mp found
  rw [shape]
  simp

theorem find_none {a : Acceptor} {endpoint : Endpoint} (absent : a.find endpoint = none) :
    endpoint ∉ a.connections.map Prod.fst := by
  intro member
  obtain ⟨entry, inside, same⟩ := List.mem_map.mp member
  have differs := List.lookup_eq_none_iff.mp absent entry inside
  simp [same] at differs

theorem Acceptor.Registry.entry_unique {a : Acceptor} (registry : a.Registry) {endpoint : Endpoint}
    {c d : Nat} (first : (endpoint, c) ∈ a.connections) (second : (endpoint, d) ∈ a.connections) :
    c = d := by
  have same := List.inj_on_of_nodup_map registry.unique first second rfl
  exact congrArg Prod.snd same

theorem Acceptor.Registry.erase {a : Acceptor} (registry : a.Registry) (endpoint : Endpoint)
    (c : Nat) (pending : List Nat) : (a.erase endpoint c pending).Registry := by
  have kept : ∀ entry ∈ (a.erase endpoint c pending).connections, entry ∈ a.connections :=
    fun entry member => List.mem_of_mem_filter member
  refine ⟨?_, fun entry member => registry.made entry (kept entry member),
    fun entry member => registry.own entry (kept entry member)⟩
  exact registry.unique.sublist (List.filter_sublist.map _)

theorem erase_find (a : Acceptor) (endpoint : Endpoint) (c : Nat) (pending : List Nat) :
    (a.erase endpoint c pending).find endpoint = none := by
  refine List.lookup_eq_none_iff.mpr fun entry member => ?_
  have other : entry.1 ≠ endpoint := of_decide_eq_true (List.mem_filter.mp member).2
  exact bne_iff_ne.mpr other.symm

theorem Acceptor.Registry.create {a : Acceptor} (registry : a.Registry) (conv : UInt32)
    {endpoint : Endpoint} (clock : Int) (absent : a.find endpoint = none) :
    (a.create conv endpoint clock).Registry := by
  have split : ∀ entry ∈ (a.create conv endpoint clock).connections,
      entry ∈ a.connections ∨ entry = (endpoint, a.created) := by
    intro entry member
    simpa [Acceptor.create] using member
  refine ⟨?_, fun entry member => ?_, fun entry member => ?_⟩
  · simp only [Acceptor.create, List.map_append, List.map_cons, List.map_nil]
    refine List.nodup_append.mpr ⟨registry.unique, List.nodup_singleton _, ?_⟩
    intro first inside second same equal
    rw [List.mem_singleton.mp same] at equal
    exact find_none absent (equal ▸ inside)
  · rcases split entry member with old | rfl
    · exact Nat.lt_succ_of_lt (registry.made entry old)
    · exact Nat.lt_succ_self _
  · rcases split entry member with old | rfl
    · have other : entry.2 ≠ a.created := Nat.ne_of_lt (registry.made entry old)
      simp only [Acceptor.create, Function.update_of_ne other]
      exact registry.own entry old
    · simp [Acceptor.create, Connection.make]

/-! ## What the user leaves alone -/

/-- `b` is reached from `a` by user code and by acts of connections. -/
structure Later (a b : Acceptor) : Prop where
  shape : b = { a with
    acceptOps := b.acceptOps
    acceptCalls := b.acceptCalls
    conns := b.conns
    env := b.env
    serving := b.serving }
  ops : ∃ fresh, b.acceptOps = a.acceptOps ++ fresh ∧ b.acceptCalls = a.acceptCalls ++ fresh
  identity : ∀ c, (b.conns c).identity = (a.conns c).identity
  idle : ∀ c, (b.conns c).state = .idle ↔ (a.conns c).state = .idle
  closed : ∀ c, (a.conns c).state = .closed → (b.conns c).state = .closed
  env : a.env.Grows b.env

theorem Later.refl (a : Acceptor) : Later a a :=
  ⟨rfl, ⟨[], by simp⟩, fun _ => rfl, fun _ => Iff.rfl, fun _ => id, Env.Grows.refl _⟩

theorem Later.connections {a b : Acceptor} (later : Later a b) :
    b.connections = a.connections := by
  rw [later.shape]

theorem Later.created {a b : Acceptor} (later : Later a b) : b.created = a.created := by
  rw [later.shape]

theorem Later.put {a b : Acceptor} (later : Later a b) {c : Nat} {l : Local}
    (onward : Onward ((Acceptor.view c).get b) l) : Later a ((Acceptor.view c).put b l) := by
  have at_c : ((Acceptor.view c).put b l).conns = Function.update b.conns c l.conn := rfl
  refine ⟨?_, later.ops, fun d => ?_, fun d => ?_, fun d => ?_, later.env.trans onward.env⟩
  · have shape := later.shape
    simp only [Acceptor.view]
    rw [shape]
  · rw [at_c, ← later.identity d]
    by_cases same : d = c
    · subst same
      rw [Function.update_self]
      exact onward.identity
    · rw [Function.update_of_ne same]
  · rw [at_c, ← later.idle d]
    by_cases same : d = c
    · subst same
      rw [Function.update_self]
      exact onward.idle
    · rw [Function.update_of_ne same]
  · rw [at_c]
    intro closed
    by_cases same : d = c
    · subst same
      rw [Function.update_self]
      exact onward.closed (later.closed d closed)
    · rw [Function.update_of_ne same]
      exact later.closed d closed

theorem later_kept (T : Terms) (a : Acceptor) : Kept T (Later a) where
  act := fun act later => later.put (act_onward act)
  push := by
    intro b later
    obtain ⟨fresh, ops, calls⟩ := later.ops
    refine ⟨?_, ⟨fresh ++ [b.env.nextHandler], ?_, ?_⟩, later.identity, later.idle, later.closed,
      later.env.trans ⟨List.prefix_refl _, List.prefix_refl _, le_refl _, Nat.le_succ _⟩⟩
    · have shape := later.shape
      simp only [Acceptor.push]
      rw [shape]
    · simp [Acceptor.push, ops]
    · simp [Acceptor.push, calls]
  queue := by
    intro b env grows _ later
    refine ⟨?_, later.ops, later.identity, later.idle, later.closed, later.env.trans grows⟩
    have shape := later.shape
    rw [shape]
  serve := by
    intro b serving later
    refine ⟨?_, later.ops, later.identity, later.idle, later.closed, later.env⟩
    have shape := later.shape
    simp only [Acceptor.serve]
    rw [shape]

theorem Connection.endpoint_of_identity {c c' : Connection} (same : c'.identity = c.identity) :
    c'.endpoint = c.endpoint :=
  congrArg (fun identity => identity.2.2.2.1) same

theorem Acceptor.Registry.later {a b : Acceptor} (registry : a.Registry) (later : Later a b) :
    b.Registry := by
  refine ⟨?_, fun entry member => ?_, fun entry member => ?_⟩
  · rw [later.connections]
    exact registry.unique
  · rw [later.created]
    exact registry.made entry (later.connections ▸ member)
  · rw [Connection.endpoint_of_identity (later.identity entry.2)]
    exact registry.own entry (later.connections ▸ member)

/-- What follows for all that is reached by the user is kept. -/
theorem kept_of_later {T : Terms} {J : Acceptor → Prop}
    (along : ∀ {a b}, Later a b → J a → J b) : Kept T J where
  act := fun {a _ _} act holds => along ((Later.refl a).put (act_onward act)) holds
  push := fun {a} holds => along ((later_kept T a).push (Later.refl a)) holds
  queue := fun {a _} grows sent holds => along ((later_kept T a).queue grows sent (Later.refl a)) holds
  serve := fun {a} serving holds => along ((later_kept T a).serve serving (Later.refl a)) holds

theorem registry_kept {T : Terms} : Kept T Acceptor.Registry :=
  kept_of_later fun later registry => registry.later later

end AsioKcp
