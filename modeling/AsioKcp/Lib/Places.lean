import Mathlib.Logic.Function.Basic
import Mathlib.Tactic

/-! # Items that lie in one place each

A map says where every item is, so that none can be in two places.  A list holds
a place if it names exactly the items there, each once; moving an item takes it
off one list and puts it on another. -/
set_option autoImplicit false

namespace AsioKcp.Places

structure Holds {ι π : Type} (place : ι → π) (p : π) (items : List ι) : Prop where
  nodup : items.Nodup
  mem : ∀ i, i ∈ items ↔ place i = p

section Move
variable {ι π : Type} [DecidableEq ι] {place : ι → π} {p q : π} {i : ι}
  {items before after : List ι}

theorem Holds.enter (holds : Holds place p (before ++ after)) (away : place i ≠ p) :
    Holds (Function.update place i p) p (before ++ i :: after) where
  nodup := by
    have fresh : i ∉ before ++ after := fun inside => away ((holds.mem i).mp inside)
    exact (List.perm_middle.nodup_iff).mpr (List.nodup_cons.mpr ⟨fresh, holds.nodup⟩)
  mem := by
    intro j
    rw [List.perm_middle.mem_iff, List.mem_cons, holds.mem]
    by_cases same : j = i
    · simp [same]
    · simp [same]

theorem Holds.leave (holds : Holds place p (before ++ i :: after)) (other : q ≠ p) :
    Holds (Function.update place i q) p (before ++ after) where
  nodup := (List.nodup_cons.mp (List.perm_middle.nodup_iff.mp holds.nodup)).2
  mem := by
    intro j
    have gone := (List.nodup_cons.mp (List.perm_middle.nodup_iff.mp holds.nodup)).1
    have inside := holds.mem j
    rw [List.perm_middle.mem_iff, List.mem_cons] at inside
    by_cases same : j = i
    · subst same
      simp [gone, other]
    · rw [Function.update_of_ne same, ← inside]
      simp [same]

/-- A move between two other places. -/
theorem Holds.aside (holds : Holds place p items) (away : place i ≠ p) (other : q ≠ p) :
    Holds (Function.update place i q) p items where
  nodup := holds.nodup
  mem := by
    intro j
    by_cases same : j = i
    · subst same
      simp [holds.mem, away, other]
    · rw [Function.update_of_ne same]
      exact holds.mem j

/-! ## A family of lists, each for a place of its own -/

variable {κ : Type} {spot : κ → π} {lists lists' : κ → List ι} {k k' : κ}

theorem holds_entered (separate : Function.Injective spot)
    (holds : ∀ m, Holds place (spot m) (lists m)) (away : ∀ m, place i ≠ spot m)
    (enters : lists' k = i :: lists k) (rest : ∀ m, m ≠ k → lists' m = lists m) (m : κ) :
    Holds (Function.update place i (spot k)) (spot m) (lists' m) := by
  by_cases here : m = k
  · subst here
    have there : Holds place (spot m) ([] ++ lists m) := holds m
    rw [enters]
    exact there.enter (away m)
  · rw [rest m here]
    exact (holds m).aside (away m) fun same => here (separate same).symm

theorem holds_left (separate : Function.Injective spot)
    (holds : ∀ m, Holds place (spot m) (lists m)) (leaves : lists k = before ++ i :: after)
    (left : lists' k = before ++ after) (rest : ∀ m, m ≠ k → lists' m = lists m)
    (outside : ∀ m, q ≠ spot m) (m : κ) : Holds (Function.update place i q) (spot m) (lists' m) := by
  have was : place i = spot k := by
    have inside := (holds k).mem i
    rw [leaves] at inside
    exact inside.mp (by simp)
  by_cases here : m = k
  · subst here
    have there := holds m
    rw [leaves] at there
    rw [left]
    exact there.leave (outside m)
  · rw [rest m here]
    refine (holds m).aside ?_ (outside m)
    rw [was]
    exact fun same => here (separate same).symm

theorem holds_moved (separate : Function.Injective spot)
    (holds : ∀ m, Holds place (spot m) (lists m)) (other : k' ≠ k)
    (leaves : lists k = before ++ i :: after) (left : lists' k = before ++ after)
    (enters : lists' k' = i :: lists k') (rest : ∀ m, m ≠ k → m ≠ k' → lists' m = lists m) (m : κ) :
    Holds (Function.update place i (spot k')) (spot m) (lists' m) := by
  have was : place i = spot k := by
    have inside := (holds k).mem i
    rw [leaves] at inside
    exact inside.mp (by simp)
  by_cases here : m = k
  · subst here
    have there := holds m
    rw [leaves] at there
    rw [left]
    exact there.leave fun same => other (separate same)
  · have away : place i ≠ spot m := by
      rw [was]
      exact fun same => here (separate same).symm
    by_cases target : m = k'
    · subst target
      have there : Holds place (spot m) ([] ++ lists m) := holds m
      rw [enters]
      exact there.enter away
    · rw [rest m here target]
      exact (holds m).aside away fun same => target (separate same).symm

end Move

section Empty
variable {ι π : Type} [DecidableEq π] {place : ι → π} {p p' q : π} {items : List ι}

/-- Everything at `p` moves to `q` at once. -/
def emptied (place : ι → π) (p q : π) (i : ι) : π :=
  if place i = p then q else place i

theorem holds_emptied (other : q ≠ p) : Holds (emptied place p q) p [] where
  nodup := List.nodup_nil
  mem := by
    intro j
    unfold emptied
    split
    · simp [other]
    · simpa

theorem Holds.emptied (holds : Holds place p' items) (other : p' ≠ p) (target : q ≠ p') :
    Holds (emptied place p q) p' items where
  nodup := holds.nodup
  mem := by
    intro j
    unfold Places.emptied
    split
    · rename_i there
      simp [holds.mem, there, target, Ne.symm other]
    · exact holds.mem j

end Empty

end AsioKcp.Places
