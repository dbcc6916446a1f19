import AsioKcp.Address.Code

/-! # The host:port grammar

The loop splits a text of the grammar where the grammar does.  The port goes to
`stoul`, which reads a number where the grammar has none. -/
set_option autoImplicit false

namespace AsioKcp

open AsioKcp.Numeral

/-- What a port text stands for. -/
def portOf (text : List Char) (defaultPort : UInt16) : UInt16 :=
  if IsDecimal text ∧ value text ≤ 65535 then UInt16.ofNat (value text) else defaultPort

/-- A host, in brackets or not, and the port text behind it. -/
structure HostPort where
  host : List Char
  bracketed : Bool
  port : Option (List Char)
  hostPlain : Unbracketed host
  bare : bracketed = false → ':' ∉ host
  portPlain : ∀ p, port = some p → Unbracketed p ∧ ':' ∉ p

def HostPort.hostText (t : HostPort) : List Char :=
  if t.bracketed then '[' :: t.host ++ [']'] else t.host

def HostPort.text (t : HostPort) : List Char :=
  match t.port with
  | none => t.hostText
  | some p => t.hostText ++ ':' :: p

def HostPort.meaning (t : HostPort) (defaultPort : UInt16) : List Char × UInt16 :=
  match t.port with
  | none => (t.host, defaultPort)
  | some p => (t.host, portOf p defaultPort)

/-- The port that `parse_host_port` takes from a port text. -/
def portRead (bits : Nat) (text : List Char) (defaultPort : UInt16) : UInt16 :=
  match stoul bits text with
  | .ok port => UInt16.ofNat port
  | .error _ => defaultPort

/-- The number is the whole text and fits; or `stoul` throws; or what is left of
the number in 16 bits is the default port. -/
def ReadRight (bits : Nat) (text : List Char) (defaultPort : UInt16) : Prop :=
  let r := read text
  (IsDecimal text ∧ value text ≤ 65535) ∨ r.digits = [] ∨ ulongSize bits ≤ r.magnitude ∨
    if r.negative then (r.magnitude + defaultPort.toNat) % 65536 = 0
    else r.magnitude % 65536 = defaultPort.toNat

theorem result_eq (bits : Nat) (s : Scan) (defaultPort : UInt16) :
    s.result bits defaultPort = (s.host, portRead bits s.port defaultPort) := by
  rw [Scan.result, portRead]
  by_cases empty : s.port = []
  · rw [if_pos empty, empty]
    rfl
  · rw [if_neg empty]
    cases stoul bits s.port <;> rfl

theorem run_hostText (t : HostPort) :
    Scan.start.run t.hostText = { Scan.start with host := t.host } := by
  rw [HostPort.hostText]
  split
  · exact Scan.run_bracketed t.hostPlain
  · rename_i open_
    have separated := t.bare (by simpa using open_)
    rw [Scan.run_host t.hostPlain rfl fun _ => separated]
    simp [Scan.start]

/-- The loop splits a text of the grammar into its parts. -/
theorem parse_text (bits : Nat) (t : HostPort) (defaultPort : UInt16) :
    parseHostPort bits t.text defaultPort =
      (t.host, (t.port.map fun p => portRead bits p defaultPort).getD defaultPort) := by
  rw [parseHostPort, HostPort.text]
  cases port : t.port with
  | none =>
      rw [run_hostText]
      rfl
  | some p =>
      obtain ⟨plain, colonless⟩ := t.portPlain p port
      have whole : p.filter (· ≠ ':') = p := by
        refine List.filter_eq_self.mpr fun c member => decide_eq_true ?_
        rintro rfl
        exact colonless member
      have split : (Scan.start.run (t.hostText ++ ':' :: p)) =
          { Scan.start with host := t.host, parsePort := true, port := p } := by
        rw [Scan.run_append, run_hostText, Scan.run_separated rfl plain, whole]
        rfl
      rw [split, result_eq]
      rfl

theorem portOf_of_not {text : List Char} {defaultPort : UInt16}
    (other : ¬(IsDecimal text ∧ value text ≤ 65535)) : portOf text defaultPort = defaultPort := by
  simp [portOf, other]

/-- The cast of a number that `stoul` gives, negated or not. -/
theorem cast_eq_iff {bits magnitude : Nat} (wide : 32 ≤ bits)
    (fits : magnitude < ulongSize bits) (port : UInt16) :
    (UInt16.ofNat ((ulongSize bits - magnitude) % ulongSize bits) = port ↔
      (magnitude + port.toNat) % 65536 = 0) ∧
    (UInt16.ofNat magnitude = port ↔ magnitude % 65536 = port.toNat) := by
  have bound := port.toNat_lt
  obtain ⟨k, whole⟩ : 65536 ∣ ulongSize bits := Nat.pow_dvd_pow 2 (show 16 ≤ bits by omega)
  constructor
  · rw [← UInt16.toNat_inj, UInt16.toNat_ofNat', whole]
    rw [whole] at fits
    have low : (65536 * k - magnitude) % (65536 * k) % 65536 = (65536 * k - magnitude) % 65536 :=
      Nat.mod_mod_of_dvd _ (Dvd.intro k rfl)
    rw [show (2 : Nat) ^ 16 = 65536 from rfl, low]
    omega
  · rw [← UInt16.toNat_inj, UInt16.toNat_ofNat']

/-- A port text gives the port that it stands for exactly if it is read right. -/
theorem portRead_eq_iff {bits : Nat} (wide : 32 ≤ bits) (text : List Char)
    (defaultPort : UInt16) :
    portRead bits text defaultPort = portOf text defaultPort ↔ ReadRight bits text defaultPort := by
  have large : 65535 < ulongSize bits :=
    lt_of_lt_of_le (by decide : 65535 < 2 ^ 32) (Nat.pow_le_pow_right (by decide) wide)
  by_cases meant : IsDecimal text ∧ value text ≤ 65535
  · have number := stoul_decimal meant.1 (lt_of_le_of_lt meant.2 large)
    simp [portRead, portOf, number, meant, ReadRight]
  · rw [portOf_of_not meant, portRead, ReadRight, stoul]
    by_cases digits : (read text).digits = []
    · simp [digits]
    · by_cases range : ulongSize bits ≤ (read text).magnitude
      · simp [digits, range]
      · obtain ⟨negated, kept⟩ := cast_eq_iff wide (not_le.mp range) defaultPort
        cases sign : (read text).negative with
        | true => simpa [meant, digits, range, sign] using negated
        | false => simpa [meant, digits, range, sign] using kept

theorem parseHostPort_meaning_iff {bits : Nat} (wide : 32 ≤ bits) (t : HostPort)
    (defaultPort : UInt16) :
    parseHostPort bits t.text defaultPort = t.meaning defaultPort ↔
      ∀ p, t.port = some p → ReadRight bits p defaultPort := by
  rw [parse_text, HostPort.meaning]
  cases port : t.port with
  | none => simp
  | some p => simpa using portRead_eq_iff wide p defaultPort

/-- "h:65616". -/
def largePort : HostPort where
  host := ['h']
  bracketed := false
  port := some ['6', '5', '6', '1', '6']
  hostPlain := by decide
  bare := by decide
  portPlain := by
    intro p same
    cases same
    decide

/-- A port text is cut to 16 bits. -/
theorem largePort_truncated :
    parseHostPort 64 largePort.text 7 = (['h'], 80) ∧
      parseHostPort 64 largePort.text 7 ≠ largePort.meaning 7 := by
  decide

theorem parseHostPort_meaning_largePort :
    32 ≤ 64 ∧ (parseHostPort 64 largePort.text 80 = largePort.meaning 80 ↔
      ∀ p, largePort.port = some p → ReadRight 64 p 80) :=
  ⟨by decide, parseHostPort_meaning_iff (by decide) largePort 80⟩

end AsioKcp
