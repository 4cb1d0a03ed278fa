import SpnCore.Buckets.BucketList

/-!
# The ledgers of each bucket

At every ledger the buckets hold the changes of consecutive ranges of ledgers, the deeper the
older. A bucket is described by the newest ledger of its range; the range of the next deeper bucket
ends where its own begins. When a level spills, its snapshot takes over the range of its current
bucket, and the current bucket of the level below that of the old snapshot.
-/

namespace SpnCore.Buckets

variable {i n t t' : Nat}

/-! ### Sizes -/

theorem levelHalf_zero : levelHalf 0 = 2 := rfl

theorem levelSize_eq (i : Nat) : levelSize i = 2 * levelHalf i := by
  have hsize : levelSize i = 2 * 2 ^ (2 * i + 1) := by
    rw [levelSize, show 2 * (i + 1) = 2 * i + 1 + 1 by omega, pow_succ, Nat.mul_comm]
  rw [levelHalf, hsize, Nat.mul_div_cancel_left _ (by decide)]

theorem levelHalf_succ (i : Nat) : levelHalf (i + 1) = 4 * levelHalf i := by
  have hsize : levelSize (i + 1) = 4 * levelSize i := by
    rw [levelSize, levelSize, show 2 * (i + 1 + 1) = 2 * (i + 1) + 2 by omega, pow_add]
    omega
  have h := levelSize_eq i
  have h' := levelSize_eq (i + 1)
  omega

theorem levelHalf_pos (i : Nat) : 0 < levelHalf i := by
  induction i with
  | zero => decide
  | succ i ih =>
    rw [levelHalf_succ]
    omega

/-! ### Spills -/

theorem mask_eq_self_iff : t = mask t n ↔ n ∣ t := by
  rw [mask, Nat.dvd_iff_div_mul_eq]
  exact eq_comm

theorem mask_mono (h : t ≤ t') (n : Nat) : mask t n ≤ mask t' n :=
  Nat.mul_le_mul_right n (Nat.div_le_div_right h)

/-- The mask moves on when a multiple is reached. -/
theorem mask_succ (t n : Nat) :
    mask (t + 1) n = if n ∣ t + 1 then mask t n + n else mask t n := by
  rw [mask, mask, Nat.succ_div]
  split
  · rw [Nat.add_mul, Nat.one_mul]
  · rw [Nat.add_zero]

theorem dvd_mask (t n : Nat) : n ∣ mask t n :=
  Dvd.intro_left _ rfl

theorem mask_of_dvd (h : n ∣ t) : mask t n = t :=
  (mask_eq_self_iff.2 h).symm

/-- A level spills when it is half full. -/
theorem levelShouldSpill_iff (hi : i < kNumLevels - 1) :
    levelShouldSpill t i = true ↔ levelHalf i ∣ t := by
  rw [levelShouldSpill, if_neg hi.ne, Bool.or_eq_true, decide_eq_true_eq, decide_eq_true_eq,
    mask_eq_self_iff, mask_eq_self_iff, levelSize_eq, or_iff_left_iff_imp]
  exact fun h => (Dvd.intro_left 2 rfl).trans h

/-- A level spills only together with the ones above it. -/
theorem levelShouldSpill_above (hi : i + 1 < kNumLevels - 1)
    (h : levelShouldSpill t (i + 1) = true) : levelShouldSpill t i = true := by
  rw [levelShouldSpill_iff hi, levelHalf_succ] at h
  rw [levelShouldSpill_iff (by omega)]
  exact (Dvd.intro_left 4 rfl).trans h

/-! ### Ranges -/

/-- How far the current bucket of a level is behind when the level spills. -/
def lag : Nat → Nat
  | 0 => 1
  | i + 1 => lag i + 2 * levelHalf i

/-- The newest ledger of the snapshot of a level. The last level has none. -/
def snapEnd (i t : Nat) : Nat :=
  if i < kNumLevels - 1 then mask t (levelHalf i) - lag i else 0

/-- The newest ledger of the current bucket of a level. -/
def currEnd : Nat → Nat → Nat
  | 0, t => t
  | i + 1, t => if i < kNumLevels - 1 then mask t (levelHalf i) - levelHalf i - lag i else 0

@[simp] theorem currEnd_zero (t : Nat) : currEnd 0 t = t := rfl

theorem snapEnd_eq (hi : i < kNumLevels - 1) : snapEnd i t = mask t (levelHalf i) - lag i :=
  if_pos hi

theorem currEnd_eq (hi : i < kNumLevels - 1) :
    currEnd (i + 1) t = mask t (levelHalf i) - levelHalf i - lag i :=
  if_pos hi

theorem snapEnd_last (hi : ¬ i < kNumLevels - 1) : snapEnd i t = 0 :=
  if_neg hi

theorem currEnd_last (hi : ¬ i < kNumLevels - 1) : currEnd (i + 1) t = 0 :=
  if_neg hi

theorem currEnd_le_snapEnd (i t : Nat) : currEnd (i + 1) t ≤ snapEnd i t := by
  by_cases hi : i < kNumLevels - 1
  · rw [currEnd_eq hi, snapEnd_eq hi]
    omega
  · rw [currEnd_last hi]
    exact Nat.zero_le _

/-- The mask of a level is at most that of the level above. -/
theorem mask_succ_le (i t : Nat) : mask t (levelHalf (i + 1)) ≤ mask t (levelHalf i) := by
  have h : mask (mask t (levelHalf (i + 1))) (levelHalf i) = mask t (levelHalf (i + 1)) :=
    mask_of_dvd ((Dvd.intro_left 4 (levelHalf_succ i).symm).trans (dvd_mask _ _))
  rw [← h]
  exact mask_mono (mask_le _ _) _

theorem snapEnd_le_currEnd (i t : Nat) : snapEnd i t ≤ currEnd i t := by
  by_cases hi : i < kNumLevels - 1
  · rw [snapEnd_eq hi]
    cases i with
    | zero =>
      have h := mask_le t (levelHalf 0)
      rw [currEnd_zero]
      omega
    | succ i =>
      have h := mask_succ_le i t
      rw [currEnd_eq (by omega), lag]
      omega
  · rw [snapEnd_last hi]
    exact Nat.zero_le _

theorem currEnd_anti {j : Nat} (h : i ≤ j) (t : Nat) : currEnd j t ≤ currEnd i t := by
  induction j, h using Nat.le_induction with
  | base => exact le_rfl
  | succ j _ ih => exact (currEnd_le_snapEnd j t).trans ((snapEnd_le_currEnd j t).trans ih)

theorem currEnd_le (i t : Nat) : currEnd i t ≤ t :=
  currEnd_anti (Nat.zero_le i) t

theorem snapEnd_mono (h : t ≤ t') (i : Nat) : snapEnd i t ≤ snapEnd i t' := by
  have hmask := mask_mono h (levelHalf i)
  by_cases hi : i < kNumLevels - 1
  · rw [snapEnd_eq hi, snapEnd_eq hi]
    omega
  · rw [snapEnd_last hi]
    exact Nat.zero_le _

theorem currEnd_mono (h : t ≤ t') (i : Nat) : currEnd i t ≤ currEnd i t' := by
  cases i with
  | zero => exact h
  | succ i =>
    have hmask := mask_mono h (levelHalf i)
    by_cases hi : i < kNumLevels - 1
    · rw [currEnd_eq hi, currEnd_eq hi]
      omega
    · rw [currEnd_last hi]
      exact Nat.zero_le _

section

variable (hi : i < kNumLevels - 1)
include hi

/-- At a spill the snapshot takes over the range of the current bucket. -/
theorem snapEnd_succ (t : Nat) :
    snapEnd i (t + 1) = if levelShouldSpill (t + 1) i then currEnd i t else snapEnd i t := by
  rw [snapEnd_eq hi, snapEnd_eq hi, mask_succ t (levelHalf i)]
  by_cases hspill : levelShouldSpill (t + 1) i = true
  · have hdvd := (levelShouldSpill_iff hi).1 hspill
    rw [if_pos hdvd, if_pos hspill]
    have hnow : mask t (levelHalf i) + levelHalf i = t + 1 := by
      have h := mask_succ t (levelHalf i)
      rw [if_pos hdvd, mask_of_dvd hdvd] at h
      exact h.symm
    rw [hnow]
    cases i with
    | zero => rfl
    | succ i =>
      -- the level above spills as well
      have hi' : i < kNumLevels - 1 := by omega
      have hdvd' := (levelShouldSpill_iff hi').1 (levelShouldSpill_above hi hspill)
      have h := mask_succ t (levelHalf i)
      rw [if_pos hdvd', mask_of_dvd hdvd'] at h
      rw [currEnd_eq hi', lag]
      omega
  · have hdvd : ¬ levelHalf i ∣ t + 1 := fun h => hspill ((levelShouldSpill_iff hi).2 h)
    rw [if_neg hdvd, if_neg hspill]

/-- At a spill the current bucket of the next level takes over the range of the old snapshot. -/
theorem currEnd_succ (t : Nat) : currEnd (i + 1) (t + 1) =
      if levelShouldSpill (t + 1) i then snapEnd i t else currEnd (i + 1) t := by
  rw [currEnd_eq hi, currEnd_eq hi, snapEnd_eq hi, mask_succ t (levelHalf i)]
  by_cases hspill : levelShouldSpill (t + 1) i = true
  · rw [if_pos ((levelShouldSpill_iff hi).1 hspill), if_pos hspill]
    omega
  · have hdvd : ¬ levelHalf i ∣ t + 1 := fun h => hspill ((levelShouldSpill_iff hi).2 h)
    rw [if_neg hdvd, if_neg hspill]

end

/-- Without a spill the snapshot stays as it is. -/
theorem snapEnd_of_not_spill (hspill : levelShouldSpill (t + 1) i = false) :
    snapEnd i (t + 1) = snapEnd i t := by
  by_cases hi : i < kNumLevels - 1
  · rw [snapEnd_succ hi, hspill, if_neg Bool.false_ne_true]
  · rw [snapEnd_last hi, snapEnd_last hi]

/-- Without a spill the current bucket of the next level stays as it is. -/
theorem currEnd_of_not_spill (hspill : levelShouldSpill (t + 1) i = false) :
    currEnd (i + 1) (t + 1) = currEnd (i + 1) t := by
  by_cases hi : i < kNumLevels - 1
  · rw [currEnd_succ hi, hspill, if_neg Bool.false_ne_true]
  · rw [currEnd_last hi, currEnd_last hi]

/-- The last level never spills. -/
theorem not_spill_last (hi : ¬ i < kNumLevels - 1) (hle : i < kNumLevels) :
    levelShouldSpill t i = false :=
  if_pos (by omega)

/-! ### Merges under way -/

/-- Where the range of the merge into the level after `i` begins: the current bucket of that level
takes part unless the level spills before the merge is committed. -/
def mergeStart (i t : Nat) : Nat :=
  if levelShouldSpill (mask t (levelHalf i) + levelHalf i) (i + 1) then currEnd (i + 1) t
  else snapEnd (i + 1) t

theorem mergeStart_le (i t : Nat) : mergeStart i t ≤ currEnd (i + 1) t := by
  rw [mergeStart]
  split
  · exact le_rfl
  · exact snapEnd_le_currEnd _ _

variable (hi : i < kNumLevels - 1)
include hi

/-- The first spill of a level leaves the current bucket of the next one as it is. -/
theorem currEnd_of_first_spill (hspill : levelShouldSpill (t + 1) i = true)
    (hearly : t < levelHalf i) : currEnd (i + 1) (t + 1) = currEnd (i + 1) t := by
  have hmask : mask t (levelHalf i) = 0 := by
    rw [mask, Nat.div_eq_of_lt hearly, Nat.zero_mul]
  rw [currEnd_succ hi, if_pos hspill, snapEnd_eq hi, currEnd_eq hi, hmask]
  omega

theorem not_spill_next (hspill : levelShouldSpill t i = false) :
    levelShouldSpill t (i + 1) = false := by
  by_cases hi' : i + 1 < kNumLevels - 1
  · rw [← Bool.not_eq_true] at hspill ⊢
    exact fun h => hspill (levelShouldSpill_above hi' h)
  · exact not_spill_last hi' (by omega)

/-- When the merge is prepared. -/
theorem mergeStart_prepared (hspill : levelShouldSpill t i = true) :
    mergeStart i t = if levelShouldSpill (t + levelHalf i) (i + 1) then currEnd (i + 1) t
      else snapEnd (i + 1) t := by
  rw [mergeStart, mask_of_dvd ((levelShouldSpill_iff hi).1 hspill)]

/-- At a spill of the level above, the range of the pending merge is the new range of the current
bucket. -/
theorem mergeStart_of_spill (hspill : levelShouldSpill (t + 1) i = true) :
    mergeStart i t = snapEnd (i + 1) (t + 1) := by
  have hdvd := (levelShouldSpill_iff hi).1 hspill
  have hnow : mask t (levelHalf i) + levelHalf i = t + 1 := by
    have h := mask_succ t (levelHalf i)
    rw [if_pos hdvd, mask_of_dvd hdvd] at h
    exact h.symm
  rw [mergeStart, hnow]
  by_cases hi' : i + 1 < kNumLevels - 1
  · rw [snapEnd_succ hi']
  · have hlast := not_spill_last (t := t + 1) hi' (by omega)
    rw [hlast, snapEnd_of_not_spill hlast, if_neg Bool.false_ne_true]

/-- Without a spill of the level above the merge goes on. -/
theorem mergeStart_of_not_spill (hspill : levelShouldSpill (t + 1) i = false) :
    mergeStart i (t + 1) = mergeStart i t := by
  have hdvd : ¬ levelHalf i ∣ t + 1 := by
    rw [← levelShouldSpill_iff hi, hspill]
    exact Bool.false_ne_true
  rw [mergeStart, mergeStart, mask_succ, if_neg hdvd, currEnd_of_not_spill hspill,
    snapEnd_of_not_spill (not_spill_next hi hspill)]

theorem early_of_not_spill (hspill : levelShouldSpill (t + 1) i = false) :
    t + 1 < levelHalf i ↔ t < levelHalf i := by
  have hne : t + 1 ≠ levelHalf i := by
    intro heq
    rw [(levelShouldSpill_iff hi).2 (heq ▸ dvd_refl _)] at hspill
    cases hspill
  omega

end SpnCore.Buckets
