import Mathlib.Data.Nat.Bitwise
import Mathlib.Data.Nat.Factorization.Basic

/-!
# Words with as many ones

The ones of a word are counted position by position, so counts of a high and a low part add up. A
word that is not zero has a lowest run of ones. The next larger word with as many ones moves the
highest one of the run up by a bit, and the other ones of the run to the bottom.
-/

namespace SpnCore.Lib

/-- The number of ones among the `n` lowest bits. -/
def onesBelow (n x : Nat) : Nat := (List.range n).countP x.testBit

variable {n p j r l x a k m : Nat}

theorem onesBelow_add (hl : l < 2 ^ n) :
    onesBelow (n + j) (2 ^ n * r + l) = onesBelow n l + onesBelow j r := by
  rw [onesBelow, List.range_add, List.countP_append, List.countP_map]
  congr 1
  · refine List.countP_congr fun i hi => ?_
    rw [Nat.testBit_two_pow_mul_add _ hl, if_pos (List.mem_range.1 hi)]
  · refine List.countP_congr fun i _ => ?_
    simp [Nat.testBit_two_pow_mul_add _ hl]

theorem onesBelow_zero : onesBelow n 0 = 0 := by
  simp [onesBelow]

theorem onesBelow_of_lt (hx : x < 2 ^ p) (hp : p ≤ n) : onesBelow n x = onesBelow p x := by
  obtain ⟨j, rfl⟩ := Nat.exists_eq_add_of_le hp
  have h := @onesBelow_add p j 0 x hx
  rwa [mul_zero, zero_add, onesBelow_zero] at h

theorem onesBelow_pos (hx : x ≠ 0) (h : x < 2 ^ n) : 0 < onesBelow n x := by
  obtain ⟨i, hi⟩ := Nat.exists_testBit_of_ne_zero hx
  refine List.countP_pos_iff.2 ⟨i, List.mem_range.2 ?_, hi⟩
  exact (Nat.pow_lt_pow_iff_right (by decide)).1 ((Nat.ge_two_pow_of_testBit hi).trans_lt h)

theorem onesBelow_full : onesBelow n (2 ^ n - 1) = n := by
  refine (List.countP_eq_length.2 fun i hi => ?_).trans List.length_range
  rw [Nat.testBit_two_pow_sub_one]
  exact decide_eq_true (List.mem_range.1 hi)

theorem onesBelow_lt (h : x < 2 ^ n - 1) : onesBelow n x < n := by
  -- a bit of the complement is a zero
  obtain ⟨i, hi⟩ := Nat.exists_testBit_of_ne_zero (show 2 ^ n - (x + 1) ≠ 0 by omega)
  rw [Nat.testBit_two_pow_sub_succ (by omega), Bool.and_eq_true, decide_eq_true_eq] at hi
  refine (List.countP_lt_length_iff.2 ⟨i, List.mem_range.2 hi.1, ?_⟩).trans_eq List.length_range
  simpa using hi.2

/-! ### The next word -/

/-- The lowest run of ones of `x` has length `k` and starts at bit `a`. -/
structure LowestRun (x a k r : Nat) : Prop where
  pos : 0 < k
  eq : x + 2 ^ a = 2 ^ (a + k) * (2 * r + 1)

theorem exists_lowestRun (hx : x ≠ 0) : ∃ a k r, LowestRun x a k r := by
  obtain ⟨a, _, ⟨c, rfl⟩, rfl⟩ := Nat.exists_eq_two_pow_mul_odd hx
  obtain ⟨k, _, ⟨r, rfl⟩, hk⟩ := Nat.exists_eq_two_pow_mul_odd (Nat.succ_ne_zero (2 * c + 1))
  refine ⟨a, k, r, Nat.pos_of_ne_zero ?_, ?_⟩
  · rintro rfl
    omega
  · rw [pow_add, mul_assoc, ← hk, Nat.mul_succ]

/-- The next word with as many ones. -/
def nextWord (a k r : Nat) : Nat := 2 ^ (a + k) * (2 * r + 1) + (2 ^ (k - 1) - 1)

/-- The ones of a word by its `p` low bits, the bit above them and the others. -/
theorem onesBelow_split {b : Nat} (hb : b < 2) (hl : l < 2 ^ p) :
    onesBelow (p + 1 + j) (2 ^ p * (2 * r + b) + l) = onesBelow p l + b + onesBelow j r := by
  have hbit : onesBelow 1 b = b := by
    obtain rfl | rfl : b = 0 ∨ b = 1 := by omega
    · rfl
    · rfl
  have hhigh := @onesBelow_add 1 j r b hb
  rw [pow_one, hbit] at hhigh
  rw [add_assoc, onesBelow_add hl, hhigh, add_assoc]

/-- The words above a run that differ in the bits below its length only. -/
theorem onesBelow_above {i : Nat} (hi : i < 2 ^ (k - 1)) :
    onesBelow (a + k + 1 + j) (2 ^ (a + k) * (2 * r + 1) + i) =
      onesBelow (k - 1) i + 1 + onesBelow j r := by
  have hle : k - 1 ≤ a + k := by omega
  rw [onesBelow_split (by decide) (hi.trans_le (Nat.pow_le_pow_right (by decide) hle)),
    onesBelow_of_lt hi hle]

namespace LowestRun

variable (h : LowestRun x a k r)
include h

theorem lt_nextWord : x < nextWord a k r := by
  have heq := h.eq
  have hpos := Nat.two_pow_pos a
  unfold nextWord
  omega

theorem length_le (hx : x < 2 ^ n) : a + k ≤ n := by
  obtain ⟨k, rfl⟩ := Nat.exists_eq_add_one_of_ne_zero h.pos.ne'
  by_contra hlt
  have heq := h.eq
  have hn : 2 ^ n ≤ 2 ^ (a + k) := Nat.pow_le_pow_right (by decide) (by omega)
  have ha : 2 ^ a ≤ 2 ^ (a + k) := Nat.pow_le_pow_right (by decide) (by omega)
  have hle : 2 ^ (a + (k + 1)) ≤ x + 2 ^ a := heq ▸ Nat.le_mul_of_pos_right _ (Nat.succ_pos _)
  rw [← add_assoc, pow_succ] at hle
  omega

/-- The words that differ from `x` below the run only. -/
theorem onesBelow_add_left {i : Nat} (hi : i < 2 ^ a) :
    onesBelow (a + k + 1 + j) (x + i) = onesBelow a i + k + onesBelow j r := by
  have heq := h.eq
  have hpow : 2 ^ (a + k) = 2 ^ a * (2 ^ k - 1) + 2 ^ a := by
    rw [pow_add, Nat.mul_sub_one,
      Nat.sub_add_cancel (Nat.le_mul_of_pos_right _ (Nat.two_pow_pos k))]
  have hx : x + i = 2 ^ (a + k) * (2 * r + 0) + (2 ^ a * (2 ^ k - 1) + i) := by
    rw [mul_add, mul_one] at heq
    rw [add_zero]
    omega
  rw [hx, onesBelow_split (by decide) (by omega), onesBelow_add hi, onesBelow_full, add_zero]

theorem onesBelow_eq : onesBelow (a + k + 1 + j) x = k + onesBelow j r := by
  have hx := h.onesBelow_add_left (j := j) (Nat.two_pow_pos a)
  rwa [add_zero, onesBelow_zero, zero_add] at hx

variable (hn : a + k < n)
include hn

theorem onesBelow_nextWord : onesBelow n (nextWord a k r) = onesBelow n x := by
  obtain ⟨j, rfl⟩ := Nat.exists_eq_add_of_le hn
  have hpos := h.pos
  rw [nextWord, onesBelow_above (Nat.sub_one_lt (Nat.two_pow_pos _).ne'), onesBelow_full,
    h.onesBelow_eq]
  omega

/-- No word in between has as many ones. -/
theorem nextWord_le (hm : x < m) (hones : onesBelow n m = onesBelow n x) :
    nextWord a k r ≤ m := by
  obtain ⟨j, rfl⟩ := Nat.exists_eq_add_of_le hn
  have heq := h.eq
  rw [h.onesBelow_eq] at hones
  by_contra hlt
  rw [nextWord, not_le] at hlt
  obtain hbelow | habove := Nat.lt_or_ge m (x + 2 ^ a)
  · -- ones were added below the run
    obtain ⟨i, rfl⟩ := Nat.exists_eq_add_of_lt hm
    have hi : i + 1 < 2 ^ a := by omega
    have hpos := onesBelow_pos (Nat.add_one_ne_zero i) hi
    rw [add_assoc x, h.onesBelow_add_left hi] at hones
    omega
  · -- not all the ones of the run are left
    obtain ⟨i, rfl⟩ := Nat.exists_eq_add_of_le habove
    rw [heq] at hlt hones
    have hi : i < 2 ^ (k - 1) - 1 := Nat.lt_of_add_lt_add_left hlt
    have hless := onesBelow_lt hi
    rw [onesBelow_above (by omega)] at hones
    omega

end LowestRun

end SpnCore.Lib
