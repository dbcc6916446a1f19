import Mathlib.Tactic

/-! # Records that are written one behind the other

A reader takes records off the front of a text until what is left begins with
none.  If it reads back what has been written, and only that, then every text is
a list of records and a remainder in exactly one way, and a loop that takes
record by record is a fold over that list. -/
set_option autoImplicit false

namespace AsioKcp.Records

/-- `front` reads the record at the front of a text, whatever comes behind it. -/
structure Format (α β : Type) where
  write : α → List β
  front : List β → Option α
  nonempty : ∀ a, write a ≠ []
  reads : ∀ {text a}, front text = some a → write a <+: text
  again : ∀ {text a}, front text = some a → ∀ rest, front (write a ++ rest) = some a

variable {α β : Type} {F : Format α β} {text rest rest' : List β} {a : α} {as as' : List α}

namespace Format

/-- A record that a reader can find. -/
def Proper (F : Format α β) (a : α) : Prop := ∀ rest, F.front (F.write a ++ rest) = some a

/-- The text is `as`, and then something that begins with no record. -/
structure Splits (F : Format α β) (text : List β) (as : List α) (rest : List β) : Prop where
  shape : text = as.flatMap F.write ++ rest
  proper : ∀ a ∈ as, F.Proper a
  stops : F.front rest = none

theorem front_behind (found : F.front text = some a) :
    F.write a ++ text.drop (F.write a).length = text :=
  List.prefix_iff_eq_append.mp (F.reads found)

theorem drop_less (found : F.front text = some a) :
    (text.drop (F.write a).length).length < text.length := by
  have whole := congrArg List.length (F.front_behind found)
  have positive := List.length_pos_iff.mpr (F.nonempty a)
  rw [List.length_append] at whole
  omega

theorem Splits.nil (stops : F.front text = none) : F.Splits text [] text :=
  ⟨rfl, fun _ member => (List.not_mem_nil member).elim, stops⟩

theorem Splits.cons (found : F.front text = some a)
    (splits : F.Splits (text.drop (F.write a).length) as rest) : F.Splits text (a :: as) rest where
  shape := by
    rw [List.flatMap_cons, List.append_assoc, ← splits.shape]
    exact (F.front_behind found).symm
  proper := by
    intro b member
    rcases List.mem_cons.mp member with rfl | later
    · exact F.again found
    · exact splits.proper b later
  stops := splits.stops

theorem Splits.front_eq (splits : F.Splits text as rest) : F.front text = as.head? := by
  cases as with
  | nil =>
      rw [splits.shape]
      exact splits.stops
  | cons a as =>
      rw [splits.shape, List.flatMap_cons, List.append_assoc]
      exact splits.proper a (List.mem_cons_self ..) _

theorem Splits.tail (splits : F.Splits text (a :: as) rest) :
    F.Splits (text.drop (F.write a).length) as rest where
  shape := by
    rw [splits.shape, List.flatMap_cons, List.append_assoc, List.drop_left]
  proper := fun b member => splits.proper b (List.mem_cons_of_mem a member)
  stops := splits.stops

/-- Every text splits: its records are taken off until there is none. -/
theorem splits_exists (F : Format α β) (text : List β) : ∃ as rest, F.Splits text as rest := by
  induction h : text.length using Nat.strong_induction_on generalizing text with
  | h n ih =>
      cases found : F.front text with
      | none => exact ⟨[], text, .nil found⟩
      | some a =>
          have less := F.drop_less found
          rw [h] at less
          obtain ⟨as, rest, splits⟩ := ih _ less (text.drop (F.write a).length) rfl
          exact ⟨a :: as, rest, splits.cons found⟩

theorem splits_unique (splits : F.Splits text as rest) (splits' : F.Splits text as' rest') :
    as' = as ∧ rest' = rest := by
  induction as generalizing text as' with
  | nil =>
      have first := splits.front_eq.symm.trans splits'.front_eq
      cases as' with
      | nil => exact ⟨rfl, splits'.shape.symm.trans splits.shape⟩
      | cons b bs => cases first
  | cons a as ih =>
      have first := splits.front_eq.symm.trans splits'.front_eq
      cases as' with
      | nil => cases first
      | cons b bs =>
          cases first
          obtain ⟨same, rest⟩ := ih splits.tail splits'.tail
          exact ⟨congrArg (a :: ·) same, rest⟩

/-- A loop that takes a record off the text in each round, on states with `I`. -/
theorem Splits.fold {σ γ : Type} {I : σ → Prop} (loop : Nat → List β → σ → γ)
    (finish : List β → σ → γ) (step : σ → α → σ)
    (stop : ∀ fuel text s, I s → text.length ≤ fuel → F.front text = none →
      loop fuel text s = finish text s)
    (next : ∀ fuel text s a, I s → F.front text = some a → I (step s a) ∧
      loop (fuel + 1) text s = loop fuel (text.drop (F.write a).length) (step s a))
    (splits : F.Splits text as rest) {fuel : Nat} (enough : text.length ≤ fuel) {s : σ}
    (holds : I s) : loop fuel text s = finish rest (as.foldl step s) := by
  induction as generalizing text fuel s with
  | nil =>
      rw [splits.shape] at enough ⊢
      exact stop fuel rest s holds enough splits.stops
  | cons a as ih =>
      have found := splits.front_eq
      have less := F.drop_less found
      cases fuel with
      | zero => omega
      | succ fuel =>
          obtain ⟨kept, round⟩ := next fuel text s a holds found
          rw [round, List.foldl_cons]
          exact ih splits.tail (by omega) kept

end Format

end AsioKcp.Records
