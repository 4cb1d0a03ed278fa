import Mathlib.Data.List.Basic

/-!
# Choosing some members of a list

Each member of a list offers alternatives, which are lists themselves. `choices n` chooses `n`
members and one alternative of each, and joins what was chosen. Whether some choice lies within
a set is a matter of counting the members that have an alternative within it.
-/

namespace SpnCore.Lib

open List

variable {α : Type*}

/-- The ways to choose `n` members with one alternative of each. -/
def choices : Nat → List (List (List α)) → List (List α)
  | 0, _ => [[]]
  | _ + 1, [] => []
  | n + 1, m :: ms => m.flatMap (fun a => (choices n ms).map (a ++ ·)) ++ choices (n + 1) ms

/-- Some alternative lies within the set. -/
def Offers (p : α → Bool) (alternatives : List (List α)) : Bool :=
  alternatives.any (·.all p)

variable {p : α → Bool}

theorem offers_iff {alternatives : List (List α)} :
    Offers p alternatives = true ↔ ∃ a ∈ alternatives, ∀ x ∈ a, p x = true := by
  simp [Offers]

@[simp] theorem offers_singleton (x : α) : Offers p [[x]] = p x := by
  simp [Offers]

/-- A choice that begins with the first member lies within the set when both parts do. -/
theorem offers_flatMap (m ms : List (List α)) :
    Offers p (m.flatMap fun a => ms.map (a ++ ·)) = (Offers p m && Offers p ms) := by
  rw [Bool.eq_iff_iff, Bool.and_eq_true]
  simp only [offers_iff, mem_flatMap, mem_map]
  constructor
  · rintro ⟨_, ⟨a, ha, b, hb, rfl⟩, h⟩
    exact ⟨⟨a, ha, fun x hx => h x (mem_append_left _ hx)⟩,
      ⟨b, hb, fun x hx => h x (mem_append_right _ hx)⟩⟩
  · rintro ⟨⟨a, ha, hpa⟩, b, hb, hpb⟩
    refine ⟨a ++ b, ⟨a, ha, b, hb, rfl⟩, fun x hx => ?_⟩
    exact (mem_append.1 hx).elim (hpa x) (hpb x)

/-- A choice of `n` members lies within the set when `n` members offer something within it. -/
theorem offers_choices (n : Nat) (ms : List (List (List α))) :
    Offers p (choices n ms) = decide (n ≤ ms.countP (Offers p)) := by
  induction ms generalizing n with
  | nil => cases n <;> simp [choices, Offers]
  | cons m ms ih =>
    cases n with
    | zero => simp [choices, Offers]
    | succ n =>
      have hsplit : Offers p (choices (n + 1) (m :: ms)) =
          (Offers p m && Offers p (choices n ms) || Offers p (choices (n + 1) ms)) := by
        rw [← offers_flatMap]
        simp only [choices, Offers, any_append]
      rw [hsplit, ih, ih, countP_cons]
      cases Offers p m <;> simp
      omega

end SpnCore.Lib
