import AsioKcp.Connection.State
import AsioKcp.Lib.Numeral

/-! # Endpoints as text

`parse_host_port` and `address`.  A text is the list of its characters; `bits` is
the width of `unsigned long`, and `print` is asio's `to_string` of an address. -/
set_option autoImplicit false

namespace AsioKcp

open AsioKcp.Numeral

/-- The variables of the loop of `parse_host_port`. -/
structure Scan where
  host : List Char
  port : List Char
  parsePort : Bool
  squareCount : Int

def Scan.start : Scan := ⟨[], [], false, 0⟩

/-- The body of the loop. -/
def Scan.next (s : Scan) (chr : Char) : Scan :=
  if chr = '[' then { s with squareCount := s.squareCount + 1 }
  else if chr = ']' then { s with squareCount := s.squareCount - 1 }
  else if s.squareCount = 0 ∧ chr = ':' then { s with parsePort := true }
  else if s.parsePort = false then { s with host := s.host ++ [chr] }
  else { s with port := s.port ++ [chr] }

def Scan.run (s : Scan) (text : List Char) : Scan := text.foldl Scan.next s

/-- What follows the loop; the cast to `unsigned short` keeps the low 16 bits. -/
def Scan.result (bits : Nat) (s : Scan) (defaultPort : UInt16) : List Char × UInt16 :=
  if s.port = [] then (s.host, defaultPort)
  else match stoul bits s.port with
    | .ok port => (s.host, UInt16.ofNat port)
    | .error _ => (s.host, defaultPort)

def parseHostPort (bits : Nat) (hostPort : List Char) (defaultPort : UInt16) :
    List Char × UInt16 :=
  (Scan.start.run hostPort).result bits defaultPort

def address (print : Address → List Char) (endpoint : Endpoint) : List Char :=
  print endpoint.address ++ ':' :: Numeral.toString endpoint.port.toNat

/-! ## The loop on a text without brackets -/

/-- No square bracket. -/
def Unbracketed (text : List Char) : Prop := '[' ∉ text ∧ ']' ∉ text

instance (text : List Char) : Decidable (Unbracketed text) := inferInstanceAs (Decidable (_ ∧ _))

@[simp] theorem Scan.run_nil (s : Scan) : s.run [] = s := rfl

@[simp] theorem Scan.run_cons (s : Scan) (chr : Char) (rest : List Char) :
    s.run (chr :: rest) = (s.next chr).run rest := rfl

@[simp] theorem Scan.run_append (s : Scan) (front rest : List Char) :
    s.run (front ++ rest) = (s.run front).run rest := List.foldl_append

theorem unbracketed_cons {chr : Char} {rest : List Char} (plain : Unbracketed (chr :: rest)) :
    chr ≠ '[' ∧ chr ≠ ']' ∧ Unbracketed rest := by
  obtain ⟨opening, closing⟩ := plain
  simp only [List.mem_cons, not_or] at opening closing
  exact ⟨Ne.symm opening.1, Ne.symm closing.1, opening.2, closing.2⟩

theorem unbracketed_append {front rest : List Char} (plain : Unbracketed (front ++ rest)) :
    Unbracketed front ∧ Unbracketed rest := by
  obtain ⟨opening, closing⟩ := plain
  simp only [List.mem_append, not_or] at opening closing
  exact ⟨⟨opening.1, closing.1⟩, opening.2, closing.2⟩

/-- Inside brackets, or before any colon, the text goes to the host. -/
theorem Scan.run_host {text : List Char} (plain : Unbracketed text) :
    ∀ {s : Scan}, s.parsePort = false → (s.squareCount = 0 → ':' ∉ text) →
      s.run text = { s with host := s.host ++ text } := by
  induction text with
  | nil =>
      intro s _ _
      simp
  | cons chr rest ih =>
      intro s reading separated
      obtain ⟨notOpening, notClosing, plainRest⟩ := unbracketed_cons plain
      have ordinary : ¬(s.squareCount = 0 ∧ chr = ':') := by
        rintro ⟨outside, rfl⟩
        exact separated outside List.mem_cons_self
      have stepped : s.next chr = { s with host := s.host ++ [chr] } := by
        simp [Scan.next, notOpening, notClosing, ordinary, reading]
      have continued := ih plainRest (s := s.next chr) (by rw [stepped]; exact reading)
        (by rw [stepped]; exact fun outside inside =>
          separated outside (List.mem_cons_of_mem _ inside))
      rw [Scan.run_cons, continued, stepped]
      simp

theorem Scan.next_colon {s : Scan} (outside : s.squareCount = 0) :
    s.next ':' = { s with parsePort := true } := by
  simp [Scan.next, outside]

/-- Behind the first colon outside brackets, the text goes to the port, without colons. -/
theorem Scan.run_port {text : List Char} (plain : Unbracketed text) :
    ∀ {s : Scan}, s.parsePort = true → s.squareCount = 0 →
      s.run text = { s with port := s.port ++ text.filter (· ≠ ':') } := by
  induction text with
  | nil =>
      intro s _ _
      simp
  | cons chr rest ih =>
      intro s writing outside
      obtain ⟨notOpening, notClosing, plainRest⟩ := unbracketed_cons plain
      by_cases colon : chr = ':'
      · have stepped : s.next chr = s := by
          rw [colon, Scan.next_colon outside, ← writing]
        rw [Scan.run_cons, stepped, ih plainRest writing outside]
        simp [colon]
      · have stepped : s.next chr = { s with port := s.port ++ [chr] } := by
          simp [Scan.next, notOpening, notClosing, colon, writing]
        have continued := ih plainRest (s := s.next chr) (by rw [stepped]; exact writing)
          (by rw [stepped]; exact outside)
        rw [Scan.run_cons, continued, stepped]
        simp [colon]

/-- A bracketed host. -/
theorem Scan.run_bracketed {host : List Char} (plain : Unbracketed host) :
    Scan.start.run ('[' :: host ++ [']']) = { Scan.start with host := host } := by
  have opened : Scan.start.next '[' = { Scan.start with squareCount := 1 } := by
    simp [Scan.next, Scan.start]
  have inside := Scan.run_host plain (s := { Scan.start with squareCount := 1 }) rfl
    (fun outside => absurd outside (by decide))
  rw [List.cons_append, Scan.run_cons, opened, Scan.run_append, inside]
  simp [Scan.next, Scan.start]

/-- A host that is followed by a port. -/
theorem Scan.run_separated {s : Scan} (outside : s.squareCount = 0) {port : List Char}
    (plain : Unbracketed port) :
    s.run (':' :: port) =
      { s with parsePort := true, port := s.port ++ port.filter (· ≠ ':') } := by
  rw [Scan.run_cons, Scan.next_colon outside]
  exact Scan.run_port plain rfl outside

end AsioKcp
