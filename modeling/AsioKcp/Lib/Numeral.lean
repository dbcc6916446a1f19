import Mathlib.Tactic
import Mathlib.Data.List.TakeWhile

/-! # Decimal numbers in text

`stoul` is the number reader of the C++ standard library in base 10 and the "C"
locale: it skips white space, takes a sign and the digits behind it, and does not
look at the rest.  A `-` negates the number in the unsigned type, which has
`bits` bits. -/
set_option autoImplicit false

namespace AsioKcp.Numeral

/-- The value of a string of digits. -/
def value (digits : List Char) : Nat := Nat.ofDigitChars 10 digits 0

/-- A non-empty string of decimal digits. -/
def IsDecimal (text : List Char) : Prop := text ≠ [] ∧ text.all Char.isDigit

instance (text : List Char) : Decidable (IsDecimal text) := inferInstanceAs (Decidable (_ ∧ _))

/-- `std::isspace`. -/
def isSpace (c : Char) : Bool := c == ' ' || (9 ≤ c.toNat && c.toNat ≤ 13)

structure Reading where
  negative : Bool
  digits : List Char

def readUnsigned (text : List Char) : List Char := text.takeWhile Char.isDigit

def readSigned : List Char → Reading
  | '-' :: rest => ⟨true, readUnsigned rest⟩
  | '+' :: rest => ⟨false, readUnsigned rest⟩
  | text => ⟨false, readUnsigned text⟩

/-- The subject sequence of `strtoul`; without digits there is none. -/
def read (text : List Char) : Reading := readSigned (text.dropWhile isSpace)

def Reading.magnitude (r : Reading) : Nat := value r.digits

inductive Failure where
  | invalidArgument
  | outOfRange
  deriving DecidableEq

/-- `ULONG_MAX + 1`. -/
def ulongSize (bits : Nat) : Nat := Nat.pow 2 bits

def stoul (bits : Nat) (text : List Char) : Except Failure Nat :=
  let r := read text
  if r.digits = [] then .error .invalidArgument
  else if ulongSize bits ≤ r.magnitude then .error .outOfRange
  else if r.negative then .ok ((ulongSize bits - r.magnitude) % ulongSize bits)
  else .ok r.magnitude

/-- `std::to_string` of an unsigned number. -/
def toString (n : Nat) : List Char := Nat.toDigits 10 n

theorem IsDecimal.digit {text : List Char} (decimal : IsDecimal text) {c : Char}
    (member : c ∈ text) : c.isDigit := List.all_eq_true.mp decimal.2 c member

theorem toString_isDecimal (n : Nat) : IsDecimal (toString n) :=
  ⟨Nat.toDigits_ne_nil, List.all_eq_true.mpr fun _ member =>
    Nat.isDigit_of_mem_toDigits (by decide) (by decide) member⟩

theorem value_toString (n : Nat) : value (toString n) = n := Nat.ofDigitChars_ten_toDigits

theorem mem_toDigits {base : Nat} (positional : 1 < base) {c : Char} {n : Nat}
    (member : c ∈ Nat.toDigits base n) : ∃ k, k < base ∧ c = Nat.digitChar k := by
  induction n using Nat.strong_induction_on with
  | _ n ih =>
      rw [Nat.toDigits_eq_if positional] at member
      split at member
      · exact ⟨n, ‹n < base›, List.mem_singleton.mp member⟩
      · rcases List.mem_append.mp member with higher | lowest
        · exact ih _ (Nat.div_lt_self (by omega) positional) higher
        · exact ⟨n % base, Nat.mod_lt _ (by omega), List.mem_singleton.mp lowest⟩

theorem digit_range {c : Char} (digit : c.isDigit) : 48 ≤ c.toNat ∧ c.toNat ≤ 57 := by
  simp only [Char.isDigit, Bool.and_eq_true, decide_eq_true_eq, ge_iff_le] at digit
  exact digit

theorem digit_ne {c d : Char} (digit : c.isDigit) (other : d.isDigit = false) : c ≠ d := by
  intro same
  rw [same, other] at digit
  cases digit

theorem not_space_of_digit {c : Char} (digit : c.isDigit) : isSpace c = false := by
  have range := digit_range digit
  have blank : c ≠ ' ' := digit_ne digit rfl
  have high : ¬c.toNat ≤ 13 := by omega
  simp [isSpace, blank, high]

theorem readUnsigned_eq_self_iff (text : List Char) :
    readUnsigned text = text ↔ text.all Char.isDigit := by
  simp [readUnsigned, List.takeWhile_eq_self_iff]

/-- A string of digits is read whole. -/
theorem read_decimal {text : List Char} (decimal : IsDecimal text) :
    read text = ⟨false, text⟩ := by
  obtain ⟨nonempty, digits⟩ := decimal
  cases text with
  | nil => exact absurd rfl nonempty
  | cons c rest =>
      have digit := List.all_eq_true.mp digits c List.mem_cons_self
      have minus : c ≠ '-' := digit_ne digit rfl
      have plus : c ≠ '+' := digit_ne digit rfl
      have whole := (readUnsigned_eq_self_iff (c :: rest)).mpr digits
      have kept : (c :: rest).dropWhile isSpace = c :: rest := by
        simp [not_space_of_digit digit]
      rw [read, kept]
      unfold readSigned
      split
      · rename_i same
        exact absurd (List.cons.inj same).1 minus
      · rename_i same
        exact absurd (List.cons.inj same).1 plus
      · rw [whole]

theorem stoul_decimal {bits : Nat} {text : List Char} (decimal : IsDecimal text)
    (fits : value text < ulongSize bits) : stoul bits text = .ok (value text) := by
  have unread : ¬ulongSize bits ≤ value text := not_le.mpr fits
  simp [stoul, read_decimal decimal, Reading.magnitude, decimal.1, unread]

end AsioKcp.Numeral
