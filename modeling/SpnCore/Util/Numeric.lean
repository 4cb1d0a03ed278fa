import SpnCore.Ledger.Entries
import SpnCore.Lib.Checked
import Mathlib.Tactic.Ring

/-!
# Amounts

Checked arithmetic on `int64_t` and the scaled divisions of the source. Each function has one
lemma that says when it returns and what.
-/

namespace SpnCore.Ledger

open Lib

def int64Max : Int := 9223372036854775807

/-- The result of an operation on signed integers, unless it overflows. -/
def int64 (x : Int) : Except LedgerError Int :=
  if -int64Max - 1 ≤ x ∧ x ≤ int64Max then .ok x else .error .overflow

@[simp] theorem int64_eq_ok {x y : Int} :
    int64 x = .ok y ↔ x = y ∧ -int64Max - 1 ≤ x ∧ x ≤ int64Max := by
  unfold int64
  split
  case isTrue h => simp [h.1, h.2]
  case isFalse h => simp only [reduceCtorEq, false_iff, not_and]; omega

/-! ### Division -/

inductive Rounding where
  | down
  | up
deriving DecidableEq, Repr

/-- A quotient of non-negative numbers. -/
def quotient : Rounding → Int → Int → Int
  | .down, a, c => a / c
  | .up, a, c => (a + c - 1) / c

/-- `A * B / C`, unless it exceeds the range of `int64_t`. -/
def tryBigDivide (A B C : Int) (rounding : Rounding) : Except LedgerError (Option Int) := do
  require (decide (0 ≤ A) && decide (0 ≤ B) && decide (0 < C)) .assertion
  let x := quotient rounding (A * B) C
  return if x ≤ int64Max then some x else none

def bigDivide (A B C : Int) (rounding : Rounding) : Except LedgerError Int := do
  let result ← tryBigDivide A B C rounding
  match result with
  | some x => .ok x
  | none => .error .bigDivideOverflow

/-- The division of a 128 bit number. -/
def bigDivideWide (a B : Int) (rounding : Rounding) : Except LedgerError Int := do
  require (decide (0 < B)) .assertion
  let x := quotient rounding a B
  if x ≤ int64Max then .ok x else .error .bigDivideOverflow

def bigMultiply (a b : Int) : Except LedgerError Int := do
  require (decide (0 ≤ a) && decide (0 ≤ b)) .assertion
  return a * b

theorem bigDivide_eq_ok {A B C x : Int} {rounding : Rounding} :
    bigDivide A B C rounding = .ok x ↔
      (0 ≤ A ∧ 0 ≤ B ∧ 0 < C) ∧ x = quotient rounding (A * B) C ∧ x ≤ int64Max := by
  simp only [bigDivide, tryBigDivide, bind_eq_ok, require_eq_ok, Bool.and_eq_true,
    decide_eq_true_eq, pure_eq_ok, and_assoc]
  constructor
  · rintro ⟨r, ⟨_, hA, hB, hC, rfl⟩, hr⟩
    split at hr
    case h_1 heq =>
      cases hr
      split at heq
      · cases heq
        exact ⟨hA, hB, hC, rfl, ‹_›⟩
      · cases heq
    case h_2 => cases hr
  · rintro ⟨hA, hB, hC, rfl, hle⟩
    exact ⟨_, ⟨(), hA, hB, hC, rfl⟩, by rw [if_pos hle]⟩

theorem bigDivideWide_eq_ok {a B x : Int} {rounding : Rounding} :
    bigDivideWide a B rounding = .ok x ↔
      0 < B ∧ x = quotient rounding a B ∧ x ≤ int64Max := by
  simp only [bigDivideWide, bind_eq_ok, require_eq_ok, decide_eq_true_eq, exists_and_left,
    exists_const]
  constructor
  · rintro ⟨hB, hx⟩
    split at hx
    · cases hx
      exact ⟨hB, rfl, ‹_›⟩
    · cases hx
  · rintro ⟨hB, rfl, hle⟩
    exact ⟨hB, by rw [if_pos hle]⟩

theorem bigMultiply_eq_ok {a b x : Int} :
    bigMultiply a b = .ok x ↔ (0 ≤ a ∧ 0 ≤ b) ∧ a * b = x := by
  simp only [bigMultiply, bind_eq_ok, require_eq_ok, Bool.and_eq_true, decide_eq_true_eq,
    pure_eq_ok, exists_and_left, exists_const]

/-! ### Balances -/

/-- `spn::addBalance`: the new balance, unless it would leave the range from zero to
`maxBalance`. -/
def addBalance (balance delta maxBalance : Int) : Except LedgerError (Option Int) := do
  require (decide (0 ≤ balance)) .assertion
  require (decide (0 ≤ maxBalance)) .assertion
  return if delta = 0 then some balance
    else if delta < -balance then none
    else if maxBalance - balance < delta then none
    else some (balance + delta)

theorem addBalance_eq_ok {balance delta maxBalance : Int} {r : Option Int} :
    addBalance balance delta maxBalance = .ok r ↔
      (0 ≤ balance ∧ 0 ≤ maxBalance) ∧
        r = if delta = 0 ∨ 0 ≤ balance + delta ∧ balance + delta ≤ maxBalance
          then some (balance + delta) else none := by
  simp only [addBalance, bind_eq_ok, require_eq_ok, decide_eq_true_eq, pure_eq_ok,
    exists_and_left, exists_const, and_assoc]
  refine and_congr_right fun hb => and_congr_right fun hm => ?_
  rw [eq_comm]
  apply Eq.congr_right
  by_cases h0 : delta = 0
  · simp [h0]
  · by_cases h1 : delta < -balance
    · rw [if_neg h0, if_pos h1, if_neg (by omega)]
    · by_cases h2 : maxBalance - balance < delta
      · rw [if_neg h0, if_neg h1, if_pos h2, if_neg (by omega)]
      · rw [if_neg h0, if_neg h1, if_neg h2, if_pos (by omega)]

end SpnCore.Ledger
