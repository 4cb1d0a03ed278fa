import SpnCore.Buckets.Coverage

/-!
# The bucket list as a ledger database

Scanning the buckets from the newest one finds the last operation on a key. Deletions that have
reached the last level are not found, and neither is then anything else.
-/

namespace SpnCore.Buckets

open Lib Ledger Option

variable {history : Nat → Batch} {t n : Nat} {levels : Levels}

theorem bucketsOf_succ (levels : Levels) (n : Nat) :
    bucketsOf levels (n + 1) = bucketsOf levels n ++ [(levels n).curr, (levels n).snap] := by
  simp [bucketsOf, List.range_succ]

/-- A bucket with all deletions goes on where the buckets before it have no operation. -/
theorem Covers.findSome_append {lo hi : Nat} {b : Bucket} {newer : List Bucket} {key : LedgerKey}
    (hb : Covers history true lo hi t b) (hlo : lo ≤ hi) (hhi : hi ≤ t)
    (hnewer : newer.findSome? (findKey · key) = lastWrite (opAt history key) hi t) :
    (newer ++ [b]).findSome? (findKey · key) = lastWrite (opAt history key) lo t := by
  rw [List.findSome?_append, hnewer, lastWrite_append hlo hhi]
  cases hlast : lastWrite (opAt history key) hi t with
  | some record => rw [some_or, some_or]
  | none =>
    have hfind := hb.newest key hlast
    rw [filter_kept_true] at hfind
    rw [none_or, none_or, ← hfind, List.findSome?_singleton]

section

variable (h : ListCovers history t levels)
include h

/-- The current buckets before the last level have all deletions. -/
theorem ListCovers.curr (hn : n < kNumLevels - 1) :
    Covers history true (snapEnd n t) (currEnd n t) t (levels n).curr :=
  keepDeadEntries_eq hn ▸ (h n (by omega)).curr

/-- The levels before the last one show the last operation of their ledgers. -/
theorem findSome_bucketsOf (hn : n ≤ kNumLevels - 1) (key : LedgerKey) :
    (bucketsOf levels n).findSome? (findKey · key) =
      lastWrite (opAt history key) (currEnd n t) t := by
  induction n with
  | zero => rw [currEnd_zero, lastWrite_of_le le_rfl]; rfl
  | succ n ih =>
    have hend := snapEnd_le_currEnd n t
    have hnow := currEnd_le n t
    have hcurr := (h.curr (by omega)).findSome_append hend hnow (ih (by omega))
    rw [bucketsOf_succ, List.append_cons]
    exact (h n (by omega)).snap.findSome_append (currEnd_le_snapEnd n t) (hend.trans hnow) hcurr

/-- What a scan finds: the last operation of the levels before the last one, or else the last
operation of the last level unless it is a deletion. -/
theorem scan_eq (key : LedgerKey) :
    scan levels key = (lastWrite (opAt history key) (currEnd (kNumLevels - 1) t) t).or
      ((lastWrite (opAt history key) 0 (currEnd (kNumLevels - 1) t)).filter (kept false)) := by
  have hlevel := h (kNumLevels - 1) (by decide)
  have hsnapEnd : snapEnd (kNumLevels - 1) t = 0 := snapEnd_last (by omega)
  have hcurr := hlevel.curr
  have hsnap := hlevel.snap
  rw [hsnapEnd] at hcurr hsnap
  -- the last level has no snapshot
  have hnil : findKey (levels (kNumLevels - 1)).snap key = none := by
    cases hfind : findKey (levels (kNumLevels - 1)).snap key with
    | none => rfl
    | some record =>
      obtain ⟨j, hj, hj', -⟩ := hsnap.origin key record hfind
      omega
  have hlevels : bucketsOf levels kNumLevels = bucketsOf levels (kNumLevels - 1) ++
      [(levels (kNumLevels - 1)).curr, (levels (kNumLevels - 1)).snap] :=
    bucketsOf_succ levels (kNumLevels - 1)
  rw [scan, hlevels, List.findSome?_append, findSome_bucketsOf h le_rfl]
  cases hlast : lastWrite (opAt history key) (currEnd (kNumLevels - 1) t) t with
  | some record => rw [some_or, some_or]
  | none =>
    have hnewest := hcurr.newest key hlast
    rw [show keepDeadEntries (kNumLevels - 1) = false from rfl] at hnewest
    rw [none_or, none_or, ← hnewest]
    simp only [List.findSome?_cons, hnil, List.findSome?_nil]
    cases findKey (levels (kNumLevels - 1)).curr key <;> rfl

omit h in
/-- The last operation on a key up to a ledger. -/
def lastOp (history : Nat → Batch) (key : LedgerKey) (t : Nat) : Option Record :=
  lastWrite (opAt history key) 0 t

omit h in
/-- A record that is not kept is the deletion of its key. -/
theorem eq_dead_of_not_kept {key : LedgerKey} {record : Record} {ledger : Nat}
    (hop : opAt history key ledger = some record) (hkept : kept false record = false) :
    record = .dead key := by
  have hkey := key_of_findKey hop
  cases record with
  | live entry => cases hkept
  | dead k =>
    cases hkey
    rfl

theorem scan_spec (key : LedgerKey) :
    (∀ record, scan levels key = some record → lastOp history key t = some record) ∧
    (scan levels key = none →
      lastOp history key t = none ∨ lastOp history key t = some (.dead key)) := by
  have hend : currEnd (kNumLevels - 1) t ≤ t := currEnd_le _ t
  rw [scan_eq h, lastOp, lastWrite_append (Nat.zero_le _) hend]
  cases hnew : lastWrite (opAt history key) (currEnd (kNumLevels - 1) t) t with
  | some record =>
    rw [some_or, some_or]
    exact ⟨fun _ h => h, fun h => by cases h⟩
  | none =>
    rw [none_or, none_or]
    refine ⟨fun record hrecord => (filter_eq_some_iff.1 hrecord).1, fun hnone => ?_⟩
    cases hold : lastWrite (opAt history key) 0 (currEnd (kNumLevels - 1) t) with
    | none => exact Or.inl rfl
    | some record =>
      obtain ⟨j, -, -, hop, -⟩ := exists_of_lastWrite hold
      rw [hold, filter_some] at hnone
      refine Or.inr (congrArg some (eq_dead_of_not_kept hop ?_))
      cases hkept : kept false record with
      | false => rfl
      | true =>
        rw [hkept] at hnone
        cases hnone

end

/-- The bucket list is a ledger database: after any ledgers, whose batches have each key at most
once, the first bucket that holds a key holds the last operation on it, and a key that no bucket
holds never had one or was deleted by the last one. -/
theorem addBatches_scan (history : Nat → Batch)
    (hhistory : ∀ t, DistinctKeys (history t).records) (t : Nat) :
    ∃ levels, addBatches history t = some levels ∧ ∀ key,
      (∀ record, scan levels key = some record → lastOp history key t = some record) ∧
      (scan levels key = none →
        lastOp history key t = none ∨ lastOp history key t = some (.dead key)) := by
  obtain ⟨levels, hadd, hcovers⟩ := addBatches_covers hhistory t
  exact ⟨levels, hadd, scan_spec hcovers⟩

/-- A data entry as it is written at a ledger. -/
def toggledEntry (t : Nat) : LedgerEntry where
  lastModifiedLedgerSeq := t
  data := .data { accountID := 1, dataName := [107], dataValue := [1] }

def toggledKey : LedgerKey := .data 1 [107]

/-- An account pays a fee in every ledger, creates a data entry in ledgers 12 and 40, and deletes it
in the ledger after. -/
def toggled (t : Nat) : Batch where
  liveEntries :=
    { lastModifiedLedgerSeq := t
      data := .account
        { accountID := 1
          balance := 1000000000 - 100 * t
          seqNum := t
          numSubEntries := if t = 12 ∨ t = 40 then 1 else 0 } } ::
    if t = 12 ∨ t = 40 then [toggledEntry t] else []
  deadEntries := if t = 13 ∨ t = 41 then [toggledKey] else []

theorem toggled_distinct (t : Nat) : DistinctKeys (toggled t).records := by
  by_cases hlive : t = 12 ∨ t = 40
  · have hdead : ¬ (t = 13 ∨ t = 41) := by omega
    simp [toggled, Batch.records, DistinctKeys, hlive, hdead, toggledEntry, LedgerEntryData.key]
  · by_cases hdead : t = 13 ∨ t = 41
    · simp [toggled, Batch.records, DistinctKeys, hlive, hdead, toggledKey, LedgerEntryData.key]
    · simp [toggled, Batch.records, DistinctKeys, hlive, hdead]

theorem addBatches_scan_toggled :
    (∀ t, DistinctKeys (toggled t).records) ∧
    ∃ levels, addBatches toggled 41 = some levels ∧ ∀ key,
      (∀ record, scan levels key = some record → lastOp toggled key 41 = some record) ∧
      (scan levels key = none →
        lastOp toggled key 41 = none ∨ lastOp toggled key 41 = some (.dead key)) :=
  ⟨toggled_distinct, addBatches_scan toggled toggled_distinct 41⟩

end SpnCore.Buckets
