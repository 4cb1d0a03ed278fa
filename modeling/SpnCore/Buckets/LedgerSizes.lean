import SpnCore.Buckets.Ranges

/-!
# Sizes of buckets

`sizeOfCurr` and `sizeOfSnap` compute how many ledgers the buckets of a level cover. They agree with
the ranges that the buckets have when the batches are added one after the other, so the oldest
ledger that is computed for a bucket is the first one of its range.
-/

namespace SpnCore.Buckets

variable {i t : Nat}

theorem lag_le_levelHalf (i : Nat) : lag i ≤ levelHalf i := by
  induction i with
  | zero => decide
  | succ i ih =>
    rw [lag, levelHalf_succ]
    omega

theorem levelHalf_eq_pow (i : Nat) : levelHalf i = 2 ^ (2 * (i + 1) - 1) := by
  induction i with
  | zero => rfl
  | succ i ih =>
    rw [levelHalf_succ, ih, show 2 * (i + 1 + 1) - 1 = 2 * (i + 1) - 1 + 2 by omega, pow_add]
    omega

theorem mask_eq_zero_iff {t n : Nat} (hn : 0 < n) : mask t n = 0 ↔ t < n := by
  rw [mask, Nat.mul_eq_zero, or_iff_left hn.ne', Nat.div_eq_zero_iff, or_iff_right hn.ne']

/-- A mask that is not zero is at least one step. -/
theorem le_mask {t n : Nat} (h : mask t n ≠ 0) : n ≤ mask t n := by
  have hdiv : t / n ≠ 0 := by
    intro hzero
    rw [mask, hzero, Nat.zero_mul] at h
    exact h rfl
  exact Nat.le_mul_of_pos_left n (Nat.pos_of_ne_zero hdiv)

/-- Coarser masks of finer ones. -/
theorem mask_mask (i t : Nat) :
    mask (mask t (levelHalf i)) (levelHalf (i + 1)) = mask t (levelHalf (i + 1)) := by
  have hle := mask_succ_le i t
  have h := mask_mono hle (levelHalf (i + 1))
  rw [mask_of_dvd (dvd_mask t _)] at h
  exact le_antisymm (mask_mono (mask_le _ _) _) h

/-- The ledger before which the current bucket of a level changed last. -/
theorem previousRelevantLedger_eq (i t : Nat) :
    previousRelevantLedger t (i + 1) = mask (t - 1) (levelHalf i) := by
  have hsize : ∀ j, mask (t - 1) (levelSize j) ≤ mask (t - 1) (levelHalf j) := by
    intro j
    have hdvd : levelHalf j ∣ mask (t - 1) (levelSize j) := by
      rw [mask, levelSize_eq]
      exact (Dvd.intro_left 2 rfl).trans (Dvd.intro_left _ rfl)
    rw [← mask_of_dvd hdvd]
    exact mask_mono (mask_le _ _) _
  have hnext := mask_succ_le i (t - 1)
  have h := hsize i
  have h' := hsize (i + 1)
  rw [previousRelevantLedger, Nat.add_sub_cancel]
  omega

/-- The size of the current bucket of a level that has spilled before. -/
theorem currSize_eq (hi : i + 1 < kNumLevels - 1) (ht : mask t (levelHalf (i + 1)) ≠ 0) :
    currEnd (i + 1) t - snapEnd (i + 1) t =
      mask t (levelHalf i) - mask t (levelHalf (i + 1)) + levelHalf i := by
  have hlarge := le_mask ht
  have hle := mask_succ_le i t
  have hlag := lag_le_levelHalf i
  rw [currEnd_eq (by omega), snapEnd_eq hi, lag]
  rw [levelHalf_succ] at hlarge ⊢
  rw [levelHalf_succ] at hle
  omega

/-- The size of the current bucket of a level that has spilled before, as it is computed: it grows
by one spill of the level above at a time. -/
theorem sizeOfCurr_spilled (hi : i + 1 ≠ kNumLevels - 1) (t : Nat)
    (ht : mask t (levelHalf (i + 1)) ≠ 0) :
    sizeOfCurr t (i + 1) =
      mask t (levelHalf i) - mask t (levelHalf (i + 1)) + levelHalf i := by
  induction t using Nat.strong_induction_on with
  | _ t ih =>
    have hdelta : 2 ^ (2 * (i + 1) - 1) = levelHalf i := (levelHalf_eq_pow i).symm
    have hsucc := levelHalf_succ i
    rw [sizeOfCurr, if_neg (Nat.succ_ne_zero i), if_pos ⟨hi, ht⟩]
    simp only [hdelta, Nat.add_sub_cancel, previousRelevantLedger_eq]
    have hhalf : ∀ j, (mask t (levelHalf j) = t ∨ mask t (levelSize j) = t) ↔
        levelHalf j ∣ t := by
      intro j
      rw [eq_comm, mask_eq_self_iff, @eq_comm _ (mask t (levelSize j)), mask_eq_self_iff,
        levelSize_eq, or_iff_left_iff_imp]
      exact fun h => (Dvd.intro_left 2 rfl).trans h
    simp only [hhalf]
    by_cases hspill : levelHalf (i + 1) ∣ t
    · rw [if_pos hspill, mask_of_dvd hspill,
        mask_of_dvd ((Dvd.intro_left 4 hsucc.symm).trans hspill)]
      omega
    · rw [if_neg hspill]
      have hlt : mask t (levelHalf (i + 1)) < t :=
        lt_of_le_of_ne (mask_le _ _) fun h => hspill (h ▸ dvd_mask _ _)
      -- the mask of the level is the same at the ledger before
      have hprev : mask (t - 1) (levelHalf (i + 1)) = mask t (levelHalf (i + 1)) := by
        have h := mask_succ (t - 1) (levelHalf (i + 1))
        rw [Nat.sub_add_cancel (by omega), if_neg hspill] at h
        exact h.symm
      have hmask : mask (mask (t - 1) (levelHalf i)) (levelHalf (i + 1)) =
          mask t (levelHalf (i + 1)) := by rw [mask_mask, hprev]
      have hstep := ih (mask (t - 1) (levelHalf i))
        (lt_of_le_of_lt (mask_le _ _) (by omega)) (by rw [hmask]; exact ht)
      rw [hmask, mask_of_dvd (dvd_mask _ _)] at hstep
      have hnext := mask_succ (t - 1) (levelHalf i)
      rw [Nat.sub_add_cancel (by omega)] at hnext
      have hle'' := mask_succ_le i (t - 1)
      rw [hprev] at hle''
      by_cases hstepSpill : levelHalf i ∣ t
      · rw [if_pos hstepSpill, hstep, hnext, if_pos hstepSpill]
        omega
      · rw [if_neg hstepSpill, hstep, hnext, if_neg hstepSpill]

/-- Before it is full, a level has handed nothing on to the next one. -/
theorem currEnd_succ_eq_zero (ht : t < levelSize i) : currEnd (i + 1) t = 0 := by
  by_cases hi : i < kNumLevels - 1
  · have hhalf : t / levelHalf i * levelHalf i ≤ 1 * levelHalf i := by
      refine Nat.mul_le_mul_right _ (Nat.lt_succ_iff.1 (Nat.div_lt_of_lt_mul ?_))
      rw [Nat.mul_comm, ← levelSize_eq]
      exact ht
    rw [currEnd_eq hi, mask]
    omega
  · exact currEnd_last hi

/-- A level that has not spilled has no snapshot. -/
theorem snapEnd_of_not_spilled (h : ¬ (i < kNumLevels - 1 ∧ mask t (levelHalf i) ≠ 0)) :
    snapEnd i t = 0 := by
  by_cases hlast : i < kNumLevels - 1
  · have hzero : mask t (levelHalf i) = 0 := by
      by_contra hne
      exact h ⟨hlast, hne⟩
    rw [snapEnd_eq hlast, hzero, Nat.zero_sub]
  · exact snapEnd_last hlast

/-- The size of a current bucket, when the sizes before it are known. -/
theorem sizeOfCurr_eq (ht : t ≠ 0) (hi : i < kNumLevels)
    (hbefore : sizesBefore t i = t - currEnd i t) :
    sizeOfCurr t i = currEnd i t - snapEnd i t := by
  cases i with
  | zero =>
    rw [sizeOfCurr, if_pos rfl, currEnd_zero, snapEnd_eq (by decide), levelHalf_zero, lag, mask]
    split_ifs <;> omega
  | succ i =>
    by_cases hspilled : i + 1 < kNumLevels - 1 ∧ mask t (levelHalf (i + 1)) ≠ 0
    · rw [sizeOfCurr_spilled hspilled.1.ne t hspilled.2, currSize_eq hspilled.1 hspilled.2]
    · have hnone := snapEnd_of_not_spilled hspilled
      have hnever : ¬ (i + 1 ≠ kNumLevels - 1 ∧ mask t (levelHalf (i + 1)) ≠ 0) :=
        fun h => hspilled ⟨by omega, h.2⟩
      have hle : currEnd (i + 1) t ≤ t := currEnd_le (i + 1) t
      rw [sizeOfCurr, if_neg (Nat.succ_ne_zero i), if_neg hnever, hbefore, hnone]
      omega

/-- The size of a snapshot, when the sizes before it are known. -/
theorem sizeOfSnap_eq (ht : t ≠ 0) (hi : i < kNumLevels)
    (hbefore : sizesBefore t i = t - currEnd i t) :
    sizeOfSnap t i = snapEnd i t - currEnd (i + 1) t := by
  have hcurr := sizeOfCurr_eq ht hi hbefore
  have hle : currEnd i t ≤ t := currEnd_le i t
  have hsnapLe := snapEnd_le_currEnd i t
  have hlag := lag_le_levelHalf i
  rw [sizeOfSnap]
  split_ifs with hlast hlarge
  · rw [snapEnd_last (by omega), Nat.zero_sub]
  · have hhalf : levelSize i ≤ mask t (levelHalf i) := by
      refine (le_mask hlarge).trans ?_
      have hdvd : levelHalf i ∣ mask t (levelSize i) := by
        rw [levelSize_eq]
        exact (Dvd.intro_left 2 rfl).trans (dvd_mask _ _)
      rw [← mask_of_dvd hdvd]
      exact mask_mono (mask_le _ _) _
    rw [levelSize_eq] at hhalf
    rw [snapEnd_eq (by omega), currEnd_eq (by omega)]
    omega
  · have hsize : 0 < levelSize i := by
      rw [levelSize_eq]
      exact Nat.mul_pos Nat.two_pos (levelHalf_pos i)
    have hsmall : t < levelSize i := (mask_eq_zero_iff hsize).1 (not_ne_iff.1 hlarge)
    rw [currEnd_succ_eq_zero hsmall, hbefore, hcurr]
    omega

/-- The levels before one cover the ledgers after its current bucket. -/
theorem sizesBefore_eq (ht : t ≠ 0) (hi : i ≤ kNumLevels) :
    sizesBefore t i = t - currEnd i t := by
  induction i with
  | zero => rw [sizesBefore, currEnd_zero, Nat.sub_self]
  | succ i ih =>
    have hbefore := ih (by omega)
    have hle : currEnd i t ≤ t := currEnd_le i t
    have hsnapLe := snapEnd_le_currEnd i t
    have hcurrLe := currEnd_le_snapEnd i t
    rw [sizesBefore, sizeOfCurr_eq ht (by omega) hbefore, sizeOfSnap_eq ht (by omega) hbefore,
      hbefore]
    omega

/-- The oldest ledger of a current bucket with ledgers in it is the first one of its range. -/
theorem oldestLedgerInCurr_eq (hi : i < kNumLevels) (h : snapEnd i t < currEnd i t) :
    oldestLedgerInCurr t i = some (snapEnd i t + 1) := by
  have hle : currEnd i t ≤ t := currEnd_le i t
  have ht : t ≠ 0 := by omega
  have hbefore := sizesBefore_eq ht hi.le
  rw [oldestLedgerInCurr, if_neg ht, sizeOfCurr_eq ht hi hbefore, if_neg (by omega), hbefore]
  congr 2
  omega

/-- The oldest ledger of a snapshot with ledgers in it is the first one of its range. -/
theorem oldestLedgerInSnap_eq (hi : i < kNumLevels) (h : currEnd (i + 1) t < snapEnd i t) :
    oldestLedgerInSnap t i = some (currEnd (i + 1) t + 1) := by
  have hle : currEnd i t ≤ t := currEnd_le i t
  have hsnapLe := snapEnd_le_currEnd i t
  have ht : t ≠ 0 := by omega
  have hthrough : sizesBefore t (i + 1) = t - currEnd (i + 1) t := sizesBefore_eq ht hi
  rw [oldestLedgerInSnap, if_neg ht, sizeOfSnap_eq ht hi (sizesBefore_eq ht hi.le),
    if_neg (by omega), hthrough]
  congr 2
  omega

/-! ### Empty ranges -/

/-- An empty snapshot range is that of a level nothing has reached. -/
theorem snapEnd_eq_zero (h : snapEnd i t ≤ currEnd (i + 1) t) : snapEnd i t = 0 := by
  by_cases hi : i < kNumLevels - 1
  · have hpos := levelHalf_pos i
    rw [snapEnd_eq hi, currEnd_eq hi] at h
    rw [snapEnd_eq hi]
    omega
  · exact snapEnd_last hi

/-- An empty current range is that of a level nothing has reached. -/
theorem currEnd_eq_zero (h : currEnd i t ≤ snapEnd i t) : currEnd i t = 0 := by
  cases i with
  | zero =>
    have hmask := mask_le t (levelHalf 0)
    rw [snapEnd_eq (by decide), lag] at h
    rw [currEnd_zero] at *
    omega
  | succ i =>
    by_cases hspilled : i + 1 < kNumLevels - 1 ∧ mask t (levelHalf (i + 1)) ≠ 0
    · have hpos := levelHalf_pos i
      have hsize := currSize_eq hspilled.1 hspilled.2
      omega
    · have hnone := snapEnd_of_not_spilled hspilled
      omega

end SpnCore.Buckets
