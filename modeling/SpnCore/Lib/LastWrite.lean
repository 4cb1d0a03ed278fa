import Mathlib.Data.Nat.Init

/-!
# The last write of an interval

A history of writes says for every point in time what was written then, if anything. The last
write of an interval of points decides what a store that has seen the writes of the interval
holds.
-/

namespace SpnCore.Lib

variable {α : Type} (w : Nat → Option α)

/-- The last write at the points after `lo` up to `hi`. -/
def lastWrite (lo : Nat) : Nat → Option α
  | 0 => none
  | hi + 1 => if lo ≤ hi then (w (hi + 1)).or (lastWrite lo hi) else none

variable {w} {lo mid hi i j : Nat} {a : α}

theorem lastWrite_succ (h : lo ≤ hi) :
    lastWrite w lo (hi + 1) = (w (hi + 1)).or (lastWrite w lo hi) :=
  if_pos h

theorem lastWrite_of_le (h : hi ≤ lo) : lastWrite w lo hi = none := by
  cases hi with
  | zero => rfl
  | succ hi => exact if_neg (by omega)

theorem lastWrite_eq_none : lastWrite w lo hi = none ↔ ∀ i, lo < i → i ≤ hi → w i = none := by
  induction hi with
  | zero => exact ⟨fun _ i h h' => by omega, fun _ => rfl⟩
  | succ hi ih =>
    by_cases h : lo ≤ hi
    · rw [lastWrite_succ h, Option.or_eq_none_iff, ih]
      constructor
      · rintro ⟨hlast, hbefore⟩ i hlo hhi
        rcases Nat.lt_or_ge hi i with hi' | hi'
        · rwa [show i = hi + 1 by omega]
        · exact hbefore i hlo hi'
      · exact fun hall =>
          ⟨hall _ (by omega) (Nat.le_refl _), fun i hlo hhi => hall i hlo (by omega)⟩
    · rw [lastWrite_of_le (by omega)]
      exact ⟨fun _ i h h' => by omega, fun _ => rfl⟩

/-- A last write is one, and none follows it. -/
theorem exists_of_lastWrite (h : lastWrite w lo hi = some a) :
    ∃ i, lo < i ∧ i ≤ hi ∧ w i = some a ∧ lastWrite w i hi = none := by
  induction hi with
  | zero => cases h
  | succ hi ih =>
    by_cases hlo : lo ≤ hi
    · rw [lastWrite_succ hlo] at h
      cases hw : w (hi + 1) with
      | some b =>
        rw [hw, Option.some_or] at h
        exact ⟨hi + 1, by omega, Nat.le_refl _, hw.trans h, lastWrite_of_le (Nat.le_refl _)⟩
      | none =>
        rw [hw, Option.none_or] at h
        obtain ⟨i, hi₁, hi₂, hwi, hrest⟩ := ih h
        refine ⟨i, hi₁, by omega, hwi, ?_⟩
        rw [lastWrite_succ hi₂, hw, hrest]
        rfl
    · rw [lastWrite_of_le (by omega)] at h
      cases h

/-- There is one last write. -/
theorem last_unique {i j : Nat} {a b : α} (hi' : i ≤ hi) (hi'' : w i = some a)
    (hlast : lastWrite w i hi = none) (hj' : j ≤ hi) (hj'' : w j = some b)
    (hlast' : lastWrite w j hi = none) : i = j ∧ a = b := by
  have hij : i = j := by
    rcases Nat.lt_trichotomy i j with hlt | heq | hlt
    · rw [lastWrite_eq_none.1 hlast j hlt hj'] at hj''
      cases hj''
    · exact heq
    · rw [lastWrite_eq_none.1 hlast' i hlt hi'] at hi''
      cases hi''
  subst hij
  exact ⟨rfl, Option.some.inj (hi''.symm.trans hj'')⟩

/-- The last write of an interval is that of its later part, if there is one. -/
theorem lastWrite_append (h : lo ≤ mid) (h' : mid ≤ hi) :
    lastWrite w lo hi = (lastWrite w mid hi).or (lastWrite w lo mid) := by
  induction hi, h' using Nat.le_induction with
  | base => rw [lastWrite_of_le (Nat.le_refl mid), Option.none_or]
  | succ hi hmid ih =>
    rw [lastWrite_succ (Nat.le_trans h hmid), lastWrite_succ hmid, ih, Option.or_assoc]

end SpnCore.Lib
