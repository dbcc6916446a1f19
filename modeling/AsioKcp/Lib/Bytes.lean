import Mathlib.Tactic

/-! # Little-endian words in byte lists

Encoders write a word as its bytes, lowest first; decoders read from the front
of a list and take a missing byte as zero. -/
set_option autoImplicit false

namespace AsioKcp.Bytes

def le16 (w : UInt16) : List UInt8 :=
  [UInt8.ofNat w.toNat, UInt8.ofNat (w.toNat / 256)]

def le32 (l : UInt32) : List UInt8 :=
  [UInt8.ofNat l.toNat, UInt8.ofNat (l.toNat / 256), UInt8.ofNat (l.toNat / 65536),
    UInt8.ofNat (l.toNat / 16777216)]

def read16 (p : List UInt8) : UInt16 :=
  UInt16.ofNat ((p.getD 0 0).toNat + 256 * (p.getD 1 0).toNat)

def read32 (p : List UInt8) : UInt32 :=
  UInt32.ofNat ((p.getD 0 0).toNat + 256 * (p.getD 1 0).toNat +
    65536 * (p.getD 2 0).toNat + 16777216 * (p.getD 3 0).toNat)

@[simp] theorem le16_length (w : UInt16) : (le16 w).length = 2 := rfl

@[simp] theorem le32_length (l : UInt32) : (le32 l).length = 4 := rfl

@[simp] theorem read16_le16_append (w : UInt16) (rest : List UInt8) :
    read16 (le16 w ++ rest) = w := by
  have bound := w.toNat_lt
  apply UInt16.toNat_inj.mp
  simp only [read16, le16, List.cons_append, List.nil_append, List.getD_cons_zero,
    List.getD_cons_succ, UInt8.toNat_ofNat', UInt16.toNat_ofNat']
  omega

@[simp] theorem read32_le32_append (l : UInt32) (rest : List UInt8) :
    read32 (le32 l ++ rest) = l := by
  have bound := l.toNat_lt
  apply UInt32.toNat_inj.mp
  simp only [read32, le32, List.cons_append, List.nil_append, List.getD_cons_zero,
    List.getD_cons_succ, UInt8.toNat_ofNat', UInt32.toNat_ofNat']
  omega

theorem read32_append {p : List UInt8} (four : 4 ≤ p.length) (rest : List UInt8) :
    read32 (p ++ rest) = read32 p := by
  match p, four with
  | _ :: _ :: _ :: _ :: _, _ => rfl

theorem read16_append {p : List UInt8} (two : 2 ≤ p.length) (rest : List UInt8) :
    read16 (p ++ rest) = read16 p := by
  match p, two with
  | _ :: _ :: _, _ => rfl

theorem ofNat_of_mod {n : Nat} {x : UInt8} (low : n % 256 = x.toNat) : UInt8.ofNat n = x := by
  apply UInt8.toNat_inj.mp
  rw [UInt8.toNat_ofNat']
  exact low

/-- Two bytes are the encoding of the word that they spell. -/
theorem le16_read16 {p : List UInt8} (two : p.length = 2) : le16 (read16 p) = p := by
  obtain ⟨a, b, rfl⟩ : ∃ a b, p = [a, b] := List.length_eq_two.mp two
  have boundA := a.toNat_lt
  have boundB := b.toNat_lt
  have word : (read16 [a, b]).toNat = a.toNat + 256 * b.toNat := by
    simp only [read16, List.getD_cons_zero, List.getD_cons_succ, UInt16.toNat_ofNat']
    omega
  simp only [le16, word]
  rw [ofNat_of_mod (x := a) (by omega), ofNat_of_mod (x := b) (by omega)]

/-- Four bytes are the encoding of the word that they spell. -/
theorem le32_read32 {p : List UInt8} (four : p.length = 4) : le32 (read32 p) = p := by
  obtain ⟨a, b, c, d, rfl⟩ : ∃ a b c d, p = [a, b, c, d] := List.length_eq_four.mp four
  have boundA := a.toNat_lt
  have boundB := b.toNat_lt
  have boundC := c.toNat_lt
  have boundD := d.toNat_lt
  have word : (read32 [a, b, c, d]).toNat =
      a.toNat + 256 * b.toNat + 65536 * c.toNat + 16777216 * d.toNat := by
    simp only [read32, List.getD_cons_zero, List.getD_cons_succ, UInt32.toNat_ofNat']
    omega
  simp only [le32, word]
  rw [ofNat_of_mod (x := a) (by omega), ofNat_of_mod (x := b) (by omega),
    ofNat_of_mod (x := c) (by omega), ofNat_of_mod (x := d) (by omega)]

/-! ## What a reader of the front of the memory sees -/

/-- The first `n` bytes are the same. -/
def Agree (n : Nat) (p q : List UInt8) : Prop := p.take n = q.take n

namespace Agree
variable {n : Nat} {p q : List UInt8}

theorem mono {m : Nat} (less : m ≤ n) (agree : Agree n p q) : Agree m p q := by
  have cut := congrArg (List.take m) agree
  rwa [List.take_take, List.take_take, Nat.min_eq_left less] at cut

theorem drop (k : Nat) (agree : Agree n p q) : Agree (n - k) (p.drop k) (q.drop k) := by
  have cut := congrArg (List.drop k) agree
  rwa [List.drop_take, List.drop_take] at cut

theorem getD {i : Nat} (inside : i < n) (agree : Agree n p q) : p.getD i 0 = q.getD i 0 := by
  have at_ : (p.take n)[i]? = (q.take n)[i]? := congrArg (fun l : List UInt8 => l[i]?) agree
  rw [List.getElem?_take_of_lt inside, List.getElem?_take_of_lt inside] at at_
  rw [List.getD_eq_getElem?_getD, List.getD_eq_getElem?_getD, at_]

theorem read16 (two : 2 ≤ n) (agree : Agree n p q) : Bytes.read16 p = Bytes.read16 q := by
  rw [Bytes.read16, Bytes.read16, agree.getD (i := 0) (by omega), agree.getD (i := 1) (by omega)]

theorem read32 (four : 4 ≤ n) (agree : Agree n p q) : Bytes.read32 p = Bytes.read32 q := by
  rw [Bytes.read32, Bytes.read32, agree.getD (i := 0) (by omega), agree.getD (i := 1) (by omega),
    agree.getD (i := 2) (by omega), agree.getD (i := 3) (by omega)]

end Agree

end AsioKcp.Bytes
