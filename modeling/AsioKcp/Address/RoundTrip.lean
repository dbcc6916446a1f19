import AsioKcp.Address.HostPort

/-! # From an endpoint to its text and back

`address` writes no brackets around an IPv6 address, so the loop of
`parse_host_port` takes its first group for the host. -/
set_option autoImplicit false

namespace AsioKcp

open AsioKcp.Numeral

/-- What asio's `to_string` promises of the texts of addresses. -/
structure Prints (print : Address → List Char) : Prop where
  v4 : ∀ bits, ':' ∉ print (.v4 bits) ∧ Unbracketed (print (.v4 bits))
  v6 : ∀ high low scope, 2 ≤ (print (.v6 high low scope)).count ':' ∧
    Unbracketed (print (.v6 high low scope))

theorem toString_plain (n : Nat) :
    Unbracketed (Numeral.toString n) ∧ ':' ∉ Numeral.toString n := by
  have absent : ∀ c : Char, c.isDigit = false → c ∉ Numeral.toString n :=
    fun c other member => digit_ne ((toString_isDecimal n).digit member) other rfl
  exact ⟨⟨absent _ rfl, absent _ rfl⟩, absent _ rfl⟩

theorem portOf_toString (port defaultPort : UInt16) :
    portOf (Numeral.toString port.toNat) defaultPort = port := by
  have bound := port.toNat_lt
  have fits : value (Numeral.toString port.toNat) ≤ 65535 := by
    rw [value_toString]
    omega
  rw [portOf, if_pos ⟨toString_isDecimal _, fits⟩, value_toString, UInt16.ofNat_toNat]

section RoundTrip
variable {print : Address → List Char} {endpoint : Endpoint}

/-- The text of an IPv4 endpoint is one of the host:port grammar. -/
def HostPort.ofEndpoint (print : Address → List Char) (endpoint : Endpoint)
    (plain : ':' ∉ print endpoint.address ∧ Unbracketed (print endpoint.address)) : HostPort where
  host := print endpoint.address
  bracketed := false
  port := some (Numeral.toString endpoint.port.toNat)
  hostPlain := plain.2
  bare _ := plain.1
  portPlain p same := by
    cases same
    exact toString_plain _

theorem parse_colonless (bits : Nat)
    (plain : ':' ∉ print endpoint.address ∧ Unbracketed (print endpoint.address))
    (wide : 32 ≤ bits) (defaultPort : UInt16) :
    parseHostPort bits (address print endpoint) defaultPort =
      (print endpoint.address, endpoint.port) := by
  have split := parse_text bits (.ofEndpoint print endpoint plain) defaultPort
  have number : ReadRight bits (Numeral.toString endpoint.port.toNat) defaultPort := by
    refine Or.inl ⟨toString_isDecimal _, ?_⟩
    rw [value_toString]
    have bound := endpoint.port.toNat_lt
    omega
  have port := (portRead_eq_iff wide _ _).mpr number
  rw [portOf_toString] at port
  calc parseHostPort bits (address print endpoint) defaultPort
      = (print endpoint.address,
          portRead bits (Numeral.toString endpoint.port.toNat) defaultPort) := split
    _ = (print endpoint.address, endpoint.port) := by rw [port]

/-- The host ends at the first colon. -/
theorem parse_colon_host (bits : Nat) (colon : ':' ∈ print endpoint.address)
    (plain : Unbracketed (print endpoint.address)) (defaultPort : UInt16) :
    (parseHostPort bits (address print endpoint) defaultPort).1.length <
      (print endpoint.address).length := by
  obtain ⟨front, rest, whole, first⟩ := List.eq_append_cons_of_mem colon
  have behind : Unbracketed (rest ++ ':' :: Numeral.toString endpoint.port.toNat) := by
    have digits := (toString_plain endpoint.port.toNat).1
    rw [whole] at plain
    simp only [Unbracketed, List.mem_append, List.mem_cons, not_or] at plain digits ⊢
    exact ⟨⟨plain.1.2.2, by decide, digits.1⟩, plain.2.2.2, by decide, digits.2⟩
  have before : Unbracketed front := by
    rw [whole] at plain
    exact (unbracketed_append plain).1
  have text : address print endpoint =
      front ++ ':' :: (rest ++ ':' :: Numeral.toString endpoint.port.toNat) := by
    rw [address, whole]
    simp
  have host : (parseHostPort bits (address print endpoint) defaultPort).1 = front := by
    rw [parseHostPort, result_eq, text, Scan.run_append,
      Scan.run_host before rfl fun _ => first, Scan.run_separated rfl behind]
    simp [Scan.start]
  rw [host, whole]
  simp

theorem parse_address_iff (asio : Prints print) {bits : Nat} (wide : 32 ≤ bits)
    (endpoint : Endpoint) (defaultPort : UInt16) :
    parseHostPort bits (address print endpoint) defaultPort =
        (print endpoint.address, endpoint.port) ↔
      ∃ v4, endpoint.address = .v4 v4 := by
  constructor
  · intro same
    cases family : endpoint.address with
    | v4 v4 => exact ⟨v4, rfl⟩
    | v6 high low scope =>
        obtain ⟨colons, plain⟩ := asio.v6 high low scope
        rw [← family] at colons plain
        have shorter : (parseHostPort bits (address print endpoint) defaultPort).1.length <
            (print endpoint.address).length :=
          parse_colon_host bits (List.count_pos_iff.mp (by omega)) plain defaultPort
        rw [same] at shorter
        exact absurd shorter (lt_irrefl _)
  · rintro ⟨v4, family⟩
    have plain := asio.v4 v4
    rw [← family] at plain
    exact parse_colonless bits plain wide defaultPort

end RoundTrip

/-! ## Texts as asio writes them

An IPv6 address without a run of zero groups is written in full. -/

def dotted (bits : UInt32) : List Char :=
  let octet (shift : Nat) := Numeral.toString (bits.toNat / 2 ^ shift % 256)
  octet 24 ++ '.' :: octet 16 ++ '.' :: octet 8 ++ '.' :: octet 0

def hexGroups (high low : UInt64) : List Char :=
  let group (word : UInt64) (shift : Nat) := Nat.toDigits 16 (word.toNat / 2 ^ shift % 65536)
  group high 48 ++ ':' :: group high 32 ++ ':' :: group high 16 ++ ':' :: group high 0 ++ ':' ::
    group low 48 ++ ':' :: group low 32 ++ ':' :: group low 16 ++ ':' :: group low 0

def printInFull : Address → List Char
  | .v4 bits => dotted bits
  | .v6 high low scope =>
      hexGroups high low ++ if scope = 0 then [] else '%' :: Numeral.toString scope.toNat

theorem toDigits_absent (n : Nat) :
    '[' ∉ Nat.toDigits 16 n ∧ ']' ∉ Nat.toDigits 16 n ∧ ':' ∉ Nat.toDigits 16 n := by
  have other : ∀ c ∈ Nat.toDigits 16 n, c ≠ '[' ∧ c ≠ ']' ∧ c ≠ ':' := by
    intro c member
    obtain ⟨k, small, rfl⟩ := mem_toDigits (by decide) member
    have each : ∀ k < 16, Nat.digitChar k ≠ '[' ∧ Nat.digitChar k ≠ ']' ∧
        Nat.digitChar k ≠ ':' := by decide
    exact each k small
  exact ⟨fun member => (other _ member).1 rfl, fun member => (other _ member).2.1 rfl,
    fun member => (other _ member).2.2 rfl⟩

theorem printInFull_prints : Prints printInFull where
  v4 bits := by
    have plain := fun n => toString_plain n
    simp only [Unbracketed] at plain
    simp [printInFull, dotted, Unbracketed, plain]
  v6 high low scope := by
    have plain := fun n => toString_plain n
    simp only [Unbracketed] at plain
    constructor
    · simp only [printInFull, hexGroups, List.count_append, List.count_cons_self]
      omega
    · rw [printInFull]
      split <;> simp [hexGroups, Unbracketed, toDigits_absent, plain]

/-- [2001:db8:1:2:3:4:5:6]:80. -/
def documentationEndpoint : Endpoint := ⟨.v6 0x20010db800010002 0x0003000400050006 0, 80⟩

theorem documentationEndpoint_lost :
    Prints printInFull ∧
      parseHostPort 64 (address printInFull documentationEndpoint) 7 = (['2', '0', '0', '1'], 7) ∧
      parseHostPort 64 (address printInFull documentationEndpoint) 7 ≠
        (printInFull documentationEndpoint.address, documentationEndpoint.port) :=
  ⟨printInFull_prints, by decide, by decide⟩

theorem parse_address_loopback :
    parseHostPort 64 (address printInFull ⟨.v4 0x7f000001, 80⟩) 7 =
        (printInFull (.v4 0x7f000001), 80) ↔
      ∃ v4, (Endpoint.mk (.v4 0x7f000001) 80).address = .v4 v4 :=
  parse_address_iff printInFull_prints (by decide) ⟨.v4 0x7f000001, 80⟩ 7

end AsioKcp
