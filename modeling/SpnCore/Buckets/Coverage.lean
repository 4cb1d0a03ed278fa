import SpnCore.Buckets.Merging
import SpnCore.Buckets.Ranges
import SpnCore.Lib.LastWrite

/-!
# What the buckets of a list hold

Every bucket covers a range of ledgers. What it holds for a key is one of the operations of its
range, and it is the last one of the range if no later ledger has an operation on the key. The
last level leaves out deletions. This is kept by every step of adding a batch: a merge covers both
ranges of its inputs, and leaves out only records of keys that a newer ledger has.
-/

namespace SpnCore.Buckets

open Lib Ledger List

variable {history : Nat → Batch} {keep : Bool} {lo mid hi now i t : Nat} {b old new snap : Bucket}
  {shadows : List Bucket} {level : BucketLevel}

/-- The operation of a ledger on a key. -/
def opAt (history : Nat → Batch) (key : LedgerKey) (ledger : Nat) : Option Record :=
  findKey (history ledger).records key

/-- The bucket covers the ledgers after `lo` up to `hi`, as far as it can be told at ledger
`now`. -/
structure Covers (history : Nat → Batch) (keep : Bool) (lo hi now : Nat) (b : Bucket) : Prop where
  increasing : Increasing b
  origin : ∀ key record, findKey b key = some record →
    ∃ j, lo < j ∧ j ≤ hi ∧ opAt history key j = some record
  newest : ∀ key, lastWrite (opAt history key) hi now = none →
    findKey b key = (lastWrite (opAt history key) lo hi).filter (kept keep)

/-! ### Buckets -/

theorem Covers.mono (hb : Covers history keep lo hi now b) {now' : Nat} (h : now ≤ now') :
    Covers history keep lo hi now' b where
  __ := hb
  newest key hquiet := by
    rw [lastWrite_eq_none] at hquiet
    exact hb.newest key (lastWrite_eq_none.2 fun j hj hj' => hquiet j hj (by omega))

/-- An empty range needs no record. -/
theorem covers_nil (h : hi ≤ lo) : Covers history keep lo hi now [] where
  increasing := .nil
  origin _ _ h := by cases h
  newest key _ := by
    rw [lastWrite_of_le h]
    rfl

theorem covers_fresh (hbatch : DistinctKeys (history (t + 1)).records) :
    ∃ b, fresh (history (t + 1)) = some b ∧ Covers history true t (t + 1) (t + 1) b := by
  obtain ⟨b, hfresh, hb, hfind⟩ := fresh_spec hbatch
  refine ⟨b, hfresh, hb, fun key record h => ⟨t + 1, by omega, le_rfl, ?_⟩, fun key _ => ?_⟩
  · rw [opAt, ← hfind, h]
  · rw [hfind, lastWrite_succ le_rfl, lastWrite_of_le le_rfl, Option.or_none, filter_kept_true]
    rfl

/-- Shadows hold only keys that newer ledgers have an operation on. -/
def Newer (history : Nat → Batch) (hi now : Nat) (shadow : Bucket) : Prop :=
  Increasing shadow ∧ ∀ key record, findKey shadow key = some record →
    ∃ j, hi < j ∧ j ≤ now ∧ opAt history key j = some record

theorem Newer.mono (h : Newer history hi now b) {now' : Nat} (hnow : now ≤ now') :
    Newer history hi now' b := by
  refine ⟨h.1, fun key record hfind => ?_⟩
  obtain ⟨j, hj, hj', hop⟩ := h.2 key record hfind
  exact ⟨j, hj, hj'.trans hnow, hop⟩

/-- A merge covers the ranges of both buckets. -/
theorem covers_merge (hold : Covers history keep lo mid now old)
    (hnew : Covers history true mid hi now new) (hlo : lo ≤ mid) (hhi : mid ≤ hi)
    (hshadows : ∀ s ∈ shadows, Newer history hi now s) :
    ∃ b, merge old new shadows keep = some b ∧ Covers history keep lo hi now b := by
  obtain ⟨b, hmerge, hb, hfind⟩ := merge_spec shadows keep hold.increasing hnew.increasing
    fun s hs => (hshadows s hs).1
  refine ⟨b, hmerge, hb, fun key record h => ?_, fun key hquiet => ?_⟩
  · rw [hfind] at h
    split at h
    case isTrue => cases h
    case isFalse =>
      have hfound := (Option.filter_eq_some_iff.1 h).1
      rcases Option.or_eq_some_iff.1 hfound with hfound | ⟨-, hfound⟩
      · obtain ⟨j, hj, hj', hop⟩ := hnew.origin key record hfound
        exact ⟨j, by omega, hj', hop⟩
      · obtain ⟨j, hj, hj', hop⟩ := hold.origin key record hfound
        exact ⟨j, hj, by omega, hop⟩
  · have hnone : ¬ shadows.any (holds key) = true := by
      rw [any_eq_true]
      rintro ⟨s, hs, hkey⟩
      obtain ⟨record, hrecord⟩ := Option.isSome_iff_exists.1 hkey
      obtain ⟨j, hj, hj', hop⟩ := (hshadows s hs).2 key record hrecord
      rw [lastWrite_eq_none.1 hquiet j hj hj'] at hop
      cases hop
    rw [hfind, if_neg hnone, hnew.newest key hquiet, filter_kept_true, lastWrite_append hlo hhi]
    cases hlast : lastWrite (opAt history key) mid hi with
    | some record => rw [Option.some_or, Option.some_or]
    | none =>
      -- nothing in the newer range, so the older bucket is up to date
      have hquiet' : lastWrite (opAt history key) mid now = none := by
        rw [lastWrite_eq_none] at hlast hquiet ⊢
        intro j hj hj'
        rcases Nat.lt_or_ge hi j with hji | hji
        · exact hquiet j hji hj'
        · exact hlast j hj hji
      rw [Option.none_or, Option.none_or, hold.newest key hquiet', Option.filter_filter]
      simp only [Bool.and_self]

/-! ### Levels -/

/-- The pending merge of a level. Before the first spill of the level above there is none. -/
def PendingCovers (history : Nat → Batch) (t : Nat) : Nat → Option FutureBucket → Prop
  | 0, nextCurr => nextCurr = none
  | i + 1, nextCurr => nextCurr = none ∧ t < levelHalf i ∨
      ∃ fb b, nextCurr = some fb ∧ fb.resolve = some b ∧
        Covers history (keepDeadEntries (i + 1)) (mergeStart i t) (snapEnd i t) t b

/-- A level at the end of ledger `t`. -/
structure LevelCovers (history : Nat → Batch) (t i : Nat) (level : BucketLevel) : Prop where
  curr : Covers history (keepDeadEntries i) (snapEnd i t) (currEnd i t) t level.curr
  snap : Covers history true (currEnd (i + 1) t) (snapEnd i t) t level.snap
  pending : PendingCovers history t i level.nextCurr

/-- A level within ledger `t + 1`, once it has spilled if it does, and before anything is spilled
into it. -/
structure SnappedCovers (history : Nat → Batch) (t i : Nat) (level : BucketLevel) : Prop where
  curr : Covers history (keepDeadEntries i) (snapEnd i (t + 1)) (currEnd i t) (t + 1) level.curr
  snap : Covers history true (currEnd (i + 1) (t + 1)) (snapEnd i (t + 1)) (t + 1) level.snap
  pending : PendingCovers history t i level.nextCurr

theorem keepDeadEntries_eq (hi : i < kNumLevels - 1) : keepDeadEntries i = true :=
  decide_eq_true hi

theorem LevelCovers.takeSnap (h : LevelCovers history t i level) (hi : i < kNumLevels - 1)
    (hspill : levelShouldSpill (t + 1) i = true) :
    SnappedCovers history t i level.takeSnap := by
  have hsnap := snapEnd_succ hi t
  have hcurr := currEnd_succ hi t
  rw [if_pos hspill] at hsnap hcurr
  refine ⟨?_, ?_, h.pending⟩
  · exact covers_nil hsnap.ge
  · rw [hsnap, hcurr]
    have hcovers := h.curr.mono (Nat.le_add_right t 1)
    rw [keepDeadEntries_eq hi] at hcovers
    exact hcovers

theorem LevelCovers.noSnap (h : LevelCovers history t i level)
    (hspill : levelShouldSpill (t + 1) i = false) : SnappedCovers history t i level := by
  have hsnap := snapEnd_of_not_spill hspill
  refine ⟨?_, ?_, h.pending⟩
  · rw [hsnap]
    exact h.curr.mono (Nat.le_add_right t 1)
  · rw [hsnap, currEnd_of_not_spill hspill]
    exact h.snap.mono (Nat.le_add_right t 1)

/-- Committing makes the merge the current bucket. -/
theorem SnappedCovers.commit (h : SnappedCovers history t (i + 1) level)
    (hi : i < kNumLevels - 1) (hspill : levelShouldSpill (t + 1) i = true) :
    ∃ level', level.commit = some level' ∧ level'.nextCurr = none ∧ level'.snap = level.snap ∧
      Covers history (keepDeadEntries (i + 1)) (snapEnd (i + 1) (t + 1)) (currEnd (i + 1) (t + 1))
        (t + 1) level'.curr := by
  have hcurr := currEnd_succ hi t
  rw [if_pos hspill] at hcurr
  rcases h.pending with ⟨hnone, hearly⟩ | ⟨fb, b, hfb, hresolve, hb⟩
  · refine ⟨level, by rw [BucketLevel.commit, hnone], hnone, rfl, ?_⟩
    rw [currEnd_of_first_spill hi hspill hearly]
    exact h.curr
  · refine ⟨{ level with curr := b, nextCurr := none }, ?_, rfl, rfl, ?_⟩
    · rw [BucketLevel.commit, hfb]
      simp only [hresolve, Option.map_some]
    · rw [hcurr, ← mergeStart_of_spill hi hspill]
      exact hb.mono (Nat.le_add_right t 1)

/-- Preparing starts a merge with the new snapshot of the level above. -/
theorem prepare_covers (hi : i < kNumLevels - 1) (hspill : levelShouldSpill (t + 1) i = true)
    (hnone : level.nextCurr = none)
    (hcurr : Covers history (keepDeadEntries (i + 1)) (snapEnd (i + 1) (t + 1))
      (currEnd (i + 1) (t + 1)) (t + 1) level.curr)
    (hsnap : Covers history true (currEnd (i + 2) (t + 1)) (snapEnd (i + 1) (t + 1)) (t + 1)
      level.snap)
    (habove : Covers history true (currEnd (i + 1) (t + 1)) (snapEnd i (t + 1)) (t + 1) snap)
    (hshadows : ∀ s ∈ shadows, Newer history (snapEnd i (t + 1)) (t + 1) s) :
    ∃ level', level.prepare (i + 1) (t + 1) snap shadows = some level' ∧
      LevelCovers history (t + 1) (i + 1) level' := by
  have hmerge : ∀ curr, Covers history (keepDeadEntries (i + 1)) (mergeStart i (t + 1))
        (currEnd (i + 1) (t + 1)) (t + 1) curr → mergeStart i (t + 1) ≤ currEnd (i + 1) (t + 1) →
      PendingCovers history (t + 1) (i + 1)
        (some { curr, snap, shadows, keepDeadEntries := keepDeadEntries (i + 1) }) := by
    intro curr hc hle
    obtain ⟨b, hb, hcovers⟩ := covers_merge hc habove hle (currEnd_le_snapEnd i (t + 1)) hshadows
    exact Or.inr ⟨_, b, rfl, hb, hcovers⟩
  unfold BucketLevel.prepare
  rw [hnone]
  refine ⟨_, rfl, hcurr, hsnap, hmerge _ ?_ (mergeStart_le i (t + 1))⟩
  · rw [mergeStart_prepared hi hspill, Nat.add_sub_cancel]
    split_ifs with hskip hskip' hskip'
    · exact covers_nil le_rfl
    · exact absurd ⟨Nat.succ_ne_zero i, hskip⟩ hskip'
    · exact absurd hskip'.2 hskip
    · exact hcurr

/-- Without a spill of the level above nothing changes. -/
theorem SnappedCovers.noSpill (h : SnappedCovers history t (i + 1) level)
    (hi : i < kNumLevels - 1) (hspill : levelShouldSpill (t + 1) i = false) :
    LevelCovers history (t + 1) (i + 1) level := by
  refine ⟨?_, h.snap, ?_⟩
  · rw [currEnd_of_not_spill hspill]
    exact h.curr
  · rcases h.pending with ⟨hnone, hearly⟩ | ⟨fb, b, hfb, hresolve, hb⟩
    · exact Or.inl ⟨hnone, (early_of_not_spill hi hspill).2 hearly⟩
    · refine Or.inr ⟨fb, b, hfb, hresolve, ?_⟩
      rw [mergeStart_of_not_spill hi hspill, snapEnd_of_not_spill hspill]
      exact hb.mono (Nat.le_add_right t 1)

/-! ### The list -/

section List

variable {orig levels : Levels}

/-- All levels at the end of ledger `t`. -/
def ListCovers (history : Nat → Batch) (t : Nat) (levels : Levels) : Prop :=
  ∀ i, i < kNumLevels → LevelCovers history t i (levels i)

/-- The levels while those after `i` have been dealt with. -/
structure LoopCovers (history : Nat → Batch) (t : Nat) (orig : Levels) (i : Nat)
    (levels : Levels) : Prop where
  done : ∀ j, i < j → j < kNumLevels → LevelCovers history (t + 1) j (levels j)
  here : SnappedCovers history t i (levels i)
  above : ∀ j, j < i → levels j = orig j

/-- The buckets of the levels before `i` are newer than the current bucket of level `i`. -/
theorem newer_of_mem (horig : ListCovers history t orig) (hi : i ≤ kNumLevels) {s : Bucket}
    (hs : s ∈ bucketsOf orig i) : Newer history (currEnd i t) t s := by
  simp only [bucketsOf, mem_flatMap, mem_range, mem_cons, not_mem_nil,
    or_false] at hs
  obtain ⟨l, hl, hs⟩ := hs
  have hlevel := horig l (by omega)
  have hbelow : currEnd i t ≤ currEnd (l + 1) t := currEnd_anti hl t
  have hmid := currEnd_le_snapEnd l t
  have htop : currEnd l t ≤ t := currEnd_le l t
  have hsnap := snapEnd_le_currEnd l t
  rcases hs with rfl | rfl
  · refine ⟨hlevel.curr.increasing, fun key record h => ?_⟩
    obtain ⟨j, hj, hj', hop⟩ := hlevel.curr.origin key record h
    exact ⟨j, by omega, by omega, hop⟩
  · refine ⟨hlevel.snap.increasing, fun key record h => ?_⟩
    obtain ⟨j, hj, hj', hop⟩ := hlevel.snap.origin key record h
    exact ⟨j, by omega, by omega, hop⟩

/-- Level `i` spills into the next one. -/
theorem LoopCovers.spillLevel (h : LoopCovers history t orig (i + 1) levels)
    (horig : ListCovers history t orig) (hi : i < kNumLevels - 1)
    (hspill : levelShouldSpill (t + 1) i = true) :
    ∃ levels', spillLevel (t + 1) i (bucketsOf orig i) levels = some levels' ∧
      LoopCovers history t orig i levels' := by
  have hlevel : levels i = orig i := h.above i (Nat.lt_succ_self i)
  have hsnapped : SnappedCovers history t i (levels i).takeSnap := by
    rw [hlevel]
    exact (horig i (by omega)).takeSnap hi hspill
  obtain ⟨committed, hcommit, hnone, hkept, hcurr⟩ := h.here.commit hi hspill
  have hend : snapEnd i (t + 1) = currEnd i t := by rw [snapEnd_succ hi, if_pos hspill]
  obtain ⟨prepared, hprepare, hprepared⟩ := prepare_covers hi hspill hnone hcurr
    (by rw [hkept]; exact h.here.snap) hsnapped.snap
    (fun s hs => by rw [hend]; exact (newer_of_mem horig (by omega) hs).mono (Nat.le_succ t))
  refine ⟨Function.update (Function.update levels i (levels i).takeSnap) (i + 1) prepared,
    by simp [Buckets.spillLevel, hcommit, hprepare], ?_, ?_, ?_⟩
  · intro j hj hj'
    by_cases hji : j = i + 1
    · subst hji
      rw [Function.update_self]
      exact hprepared
    · rw [Function.update_of_ne hji, Function.update_of_ne (by omega)]
      exact h.done j (by omega) hj'
  · rw [Function.update_of_ne (by omega), Function.update_self]
    exact hsnapped
  · intro j hj
    rw [Function.update_of_ne (by omega), Function.update_of_ne (by omega)]
    exact h.above j (by omega)

theorem LoopCovers.noSpill (h : LoopCovers history t orig (i + 1) levels)
    (horig : ListCovers history t orig) (hi : i < kNumLevels - 1)
    (hspill : levelShouldSpill (t + 1) i = false) : LoopCovers history t orig i levels := by
  refine ⟨fun j hj hj' => ?_, ?_, fun j hj => h.above j (by omega)⟩
  · by_cases hji : j = i + 1
    · subst hji
      exact h.here.noSpill hi hspill
    · exact h.done j (by omega) hj'
  · rw [h.above i (Nat.lt_succ_self i)]
    exact (horig i (by omega)).noSnap hspill

theorem dropLast_bucketsOf (levels : Levels) (n : Nat) :
    (bucketsOf levels (n + 1)).dropLast.dropLast = bucketsOf levels n := by
  simp [bucketsOf, range_succ, dropLast_append_of_ne_nil]

theorem length_bucketsOf (levels : Levels) (n : Nat) : (bucketsOf levels n).length = 2 * n := by
  simp [bucketsOf, Nat.mul_comm]

/-- The loop over the levels goes through, and leaves no shadows. -/
theorem spillLoop_covers (horig : ListCovers history t orig) {i : Nat} (hi : i < kNumLevels)
    {levels : Levels} (h : LoopCovers history t orig i levels) :
    ∃ levels', spillLoop (t + 1) i (bucketsOf orig i) levels = some ([], levels') ∧
      LoopCovers history t orig 0 levels' := by
  induction i generalizing levels with
  | zero => exact ⟨levels, rfl, h⟩
  | succ i ih =>
    have hlength : ¬ (bucketsOf orig (i + 1)).length < 2 := by
      rw [length_bucketsOf]
      omega
    rw [spillLoop, if_neg hlength]
    simp only [dropLast_bucketsOf]
    cases hspill : levelShouldSpill (t + 1) i with
    | true =>
      obtain ⟨next, hnext, hcovers⟩ := h.spillLevel horig (by omega) hspill
      simp only [if_true, hnext, Option.bind_some]
      exact ih (by omega) hcovers
    | false =>
      exact ih (by omega) (h.noSpill horig (by omega) hspill)

/-- Adding a batch goes through, and the buckets cover the new ledger. -/
theorem addBatch_covers (hbatch : DistinctKeys (history (t + 1)).records)
    (horig : ListCovers history t orig) :
    ∃ levels, addBatch (t + 1) (history (t + 1)) orig = some levels ∧
      ListCovers history (t + 1) levels := by
  have hlast : LoopCovers history t orig (kNumLevels - 1) orig :=
    ⟨fun j hj hj' => by omega,
      (horig _ (by decide)).noSnap (not_spill_last (by omega) (by decide)), fun _ _ => rfl⟩
  obtain ⟨levels, hloop, hcovers⟩ := spillLoop_covers horig (by decide) hlast
  obtain ⟨freshBucket, hfresh, hfreshCovers⟩ := covers_fresh hbatch
  have hnone : (levels 0).nextCurr = none := hcovers.here.pending
  have hstart : snapEnd 0 (t + 1) ≤ currEnd 0 t := by
    rw [snapEnd_succ (by decide)]
    split
    · exact le_rfl
    · exact snapEnd_le_currEnd 0 t
  have hshadows : ∀ s ∈ ([] : List Bucket), Newer history (t + 1) (t + 1) s :=
    fun s hs => by cases hs
  obtain ⟨b, hmerge, hb⟩ :=
    covers_merge hcovers.here.curr hfreshCovers hstart (Nat.le_succ t) hshadows
  have hdrop : (bucketsOf orig kNumLevels).dropLast.dropLast = bucketsOf orig (kNumLevels - 1) :=
    dropLast_bucketsOf orig (kNumLevels - 1)
  have hlength : ¬ (bucketsOf orig kNumLevels).length < 2 := by
    rw [length_bucketsOf]
    decide
  refine ⟨Function.update levels 0 { levels 0 with curr := b, nextCurr := none }, ?_, ?_⟩
  · simp [addBatch, hlength, hdrop, hloop, hfresh, BucketLevel.prepare, hnone, BucketLevel.commit,
      FutureBucket.resolve, hmerge]
  · intro i hi
    cases i with
    | zero =>
      exact ⟨hb, hcovers.here.snap, rfl⟩
    | succ i =>
      exact hcovers.done (i + 1) (Nat.succ_pos i) hi

theorem noLevels_covers : ListCovers history 0 noLevels := by
  intro i hi
  have hcurr : ∀ j, currEnd j 0 = 0 := fun j =>
    Nat.le_zero.1 (currEnd_anti (Nat.zero_le j) 0)
  have hsnap : snapEnd i 0 = 0 := Nat.le_zero.1 ((snapEnd_le_currEnd i 0).trans (hcurr i).le)
  refine ⟨covers_nil (by rw [hcurr]; exact Nat.zero_le _),
    covers_nil (by rw [hsnap]; exact Nat.zero_le _), ?_⟩
  cases i with
  | zero => rfl
  | succ i => exact Or.inl ⟨rfl, levelHalf_pos i⟩

/-- All batches are added, and the buckets cover the ledgers. -/
theorem addBatches_covers (hhistory : ∀ t, DistinctKeys (history t).records) (t : Nat) :
    ∃ levels, addBatches history t = some levels ∧ ListCovers history t levels := by
  induction t with
  | zero => exact ⟨noLevels, rfl, noLevels_covers⟩
  | succ t ih =>
    obtain ⟨orig, horig, hcovers⟩ := ih
    obtain ⟨levels, hadd, hnew⟩ := addBatch_covers (hhistory (t + 1)) hcovers
    exact ⟨levels, by rw [addBatches, horig, Option.bind_some, hadd], hnew⟩

theorem covers_of_addBatches (hhistory : ∀ t, DistinctKeys (history t).records)
    (h : addBatches history t = some levels) : ListCovers history t levels := by
  obtain ⟨levels', hadd, hcovers⟩ := addBatches_covers hhistory t
  rw [h] at hadd
  cases hadd
  exact hcovers

end List

end SpnCore.Buckets
