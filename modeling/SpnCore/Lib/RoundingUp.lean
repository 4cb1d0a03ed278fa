import Mathlib.Algebra.Order.Floor.Div
import Mathlib.Data.Nat.Cast.Order.Field
import Mathlib.GroupTheory.GroupAction.Ring
import Mathlib.Tactic.Linarith
import Mathlib.Tactic.Ring

/-!
# Rounding up level by level

A number is scaled by one fraction after the other, and every product is rounded up before the next
one is taken. When no fraction exceeds one, the result exceeds the exact product by at most one for
each fraction.
-/

namespace SpnCore.Lib

/-- Scales `a` by the fractions, the last one first, and rounds up each time. -/
def scaleUp (a : Nat) (levels : List (Nat × Nat)) : Nat :=
  levels.foldr (fun level w => w * level.1 ⌈/⌉ level.2) a

/-- The exact product. -/
def scale (a : Nat) (levels : List (Nat × Nat)) : ℚ :=
  a * (levels.map fun level => (level.1 / level.2 : ℚ)).prod

/-- A positive fraction of at most one. -/
def Portion (level : Nat × Nat) : Prop := 1 ≤ level.1 ∧ level.1 ≤ level.2

variable {a t s : Nat} {levels : List (Nat × Nat)}

theorem ceilDiv_portion (h : Portion (t, s)) (ha : 0 < a) :
    0 < a * t ⌈/⌉ s ∧ a * t ⌈/⌉ s ≤ a := by
  have hs : 0 < s := h.1.trans h.2
  constructor
  · rw [← not_le, ceilDiv_le_iff_le_mul hs, mul_zero, not_le]
    exact Nat.mul_pos ha h.1
  · rw [ceilDiv_le_iff_le_mul hs, mul_comm s]
    exact Nat.mul_le_mul_left a h.2

theorem div_le_ceilDiv (hs : 0 < s) : (a * (t / s) : ℚ) ≤ (a * t ⌈/⌉ s : Nat) := by
  rw [← mul_div_assoc, div_le_iff₀ (Nat.cast_pos.2 hs), mul_comm _ (s : ℚ)]
  exact_mod_cast (ceilDiv_le_iff_le_mul hs).1 le_rfl

theorem ceilDiv_le_div_add_one (hs : 0 < s) : ((a * t ⌈/⌉ s : Nat) : ℚ) ≤ a * (t / s) + 1 := by
  have hfloor : a * t ⌈/⌉ s ≤ a * t / s + 1 :=
    (ceilDiv_le_iff_le_mul hs).2 (Nat.lt_mul_div_succ _ hs).le
  calc ((a * t ⌈/⌉ s : Nat) : ℚ) ≤ (a * t / s : Nat) + 1 := by exact_mod_cast hfloor
    _ ≤ ((a * t : Nat) : ℚ) / s + 1 := by
      have := @Nat.cast_div_le ℚ _ _ _ (a * t) s
      linarith
    _ = a * (t / s) + 1 := by rw [Nat.cast_mul, mul_div_assoc]

theorem scaleUp_range (h : ∀ level ∈ levels, Portion level) (ha : 0 < a) :
    0 < scaleUp a levels ∧ scaleUp a levels ≤ a := by
  induction levels with
  | nil => exact ⟨ha, le_rfl⟩
  | cons level levels ih =>
    obtain ⟨hlevel, hlevels⟩ := List.forall_mem_cons.1 h
    obtain ⟨hpos, hle⟩ := ih hlevels
    have hscaled := ceilDiv_portion hlevel hpos
    exact ⟨hscaled.1, hscaled.2.trans hle⟩

/-- Every level adds at most one to the exact product. -/
theorem scaleUp_bounds (h : ∀ level ∈ levels, Portion level) :
    scale a levels ≤ scaleUp a levels ∧ scaleUp a levels ≤ scale a levels + levels.length := by
  induction levels with
  | nil => simp [scale, scaleUp]
  | cons level levels ih =>
    obtain ⟨⟨hpos, hle⟩, hlevels⟩ := List.forall_mem_cons.1 h
    obtain ⟨hlower, hupper⟩ := ih hlevels
    obtain ⟨t, s⟩ := level
    have hs : 0 < s := hpos.trans hle
    have hone : (t / s : ℚ) ≤ 1 := div_le_one_of_le₀ (by exact_mod_cast hle) (by positivity)
    have hscale : scale a ((t, s) :: levels) = scale a levels * (t / s) := by
      rw [scale, scale, List.map_cons, List.prod_cons]
      ring
    rw [hscale, List.length_cons, Nat.cast_succ]
    constructor
    · calc scale a levels * (t / s) ≤ scaleUp a levels * (t / s) := by gcongr
        _ ≤ scaleUp a ((t, s) :: levels) := div_le_ceilDiv hs
    · calc (scaleUp a ((t, s) :: levels) : ℚ) ≤ scaleUp a levels * (t / s) + 1 :=
            ceilDiv_le_div_add_one hs
        _ ≤ (scale a levels + levels.length) * (t / s) + 1 := by gcongr
        _ ≤ scale a levels * (t / s) + (levels.length + 1) := by
          have hlength : (0 : ℚ) ≤ levels.length := Nat.cast_nonneg _
          have := mul_le_of_le_one_right hlength hone
          linarith

end SpnCore.Lib
