import SpnCore.Buckets.Application
import SpnCore.Buckets.LedgerSizes
import SpnCore.Buckets.Scan

/-!
# The ledger of an archive from the buckets that differ

A node at an earlier ledger of a history applies the buckets of a later one. The buckets from the
first one that differs on are those of the ledgers since a boundary, and the older ones are the same
at both ledgers. Rows of the node that no applied bucket has are right exactly when they were not
deleted in a ledger before the boundary: no applied bucket then has the deletion.
-/

namespace SpnCore.Buckets

open Lib Ledger List

variable {history : Nat → Batch} {n m t level : Nat} {bucketList : Levels}
  {applyState : HistoryArchiveState} {rows : Rows} {key : LedgerKey}

/-- The entries of a bucket list. -/
def contents (levels : Levels) : Rows := fun key => (scan levels key).bind Record.value?

/-- The live entries of every ledger carry its number. -/
def Stamped (history : Nat → Batch) : Prop :=
  ∀ t, ∀ entry ∈ (history t).liveEntries, entry.lastModifiedLedgerSeq = t

theorem Stamped.live (hstamped : Stamped history) {entry : LedgerEntry}
    (h : opAt history key t = some (.live entry)) : entry.lastModifiedLedgerSeq = t := by
  have hmem := mem_of_findKey h
  simp only [Batch.records, mem_append, mem_map, reduceCtorEq, and_false, exists_false,
    or_false, Record.live.injEq, exists_eq_right] at hmem
  exact hstamped t entry hmem

/-! ### Buckets one after the other -/

/-- The rows after buckets were applied, the last one first. -/
def applyBuckets (buckets : List Bucket) (rows : Rows) : Rows :=
  buckets.foldr applyBucket rows

theorem applyBuckets_eq (buckets : List Bucket) (rows : Rows) (key : LedgerKey) :
    applyBuckets buckets rows key =
      (buckets.findSome? (findKey · key)).elim (rows key) Record.value? := by
  induction buckets with
  | nil => rfl
  | cons b buckets ih =>
    rw [applyBuckets, foldr_cons, applyBucket, List.findSome?_cons]
    cases findKey b key with
    | some record => rfl
    | none => exact ih

/-- Once the work is applying, it applies all buckets. -/
theorem applyLevels_applying (level : Nat) (rows : Rows) :
    applyLevels bucketList applyState level true rows =
      some (applyBuckets (bucketsOf applyState.currentBuckets level) rows) := by
  induction level generalizing rows with
  | zero => rfl
  | succ level ih =>
    rw [applyLevels, bucketsOf_succ, applyBuckets, foldr_append]
    exact ih _

/-- Nothing is done about a level with the same buckets. -/
theorem applyLevels_same (hsnap : applySnap bucketList applyState level = false)
    (hcurr : applyCurr bucketList applyState level = false) (rows : Rows) :
    applyLevels bucketList applyState (level + 1) false rows =
      applyLevels bucketList applyState level false rows := by
  simp [applyLevels, deleteAt, hsnap, hcurr]

/-- At a level with another snapshot both of its buckets are applied. -/
theorem applyLevels_snap (hsnap : applySnap bucketList applyState level = true) {ledger : Nat}
    (holdest : oldestLedgerInSnap applyState.currentLedger level = some ledger) (rows : Rows) :
    applyLevels bucketList applyState (level + 1) false rows =
      some (applyBuckets (bucketsOf applyState.currentBuckets (level + 1))
        (deleteSince ledger rows)) := by
  have hdelete : deleteAt bucketList applyState deleteSince level false rows =
      some (deleteSince ledger rows) := by
    simp [deleteAt, oldestLedger, hsnap, holdest]
  rw [applyLevels, hdelete, hsnap, bucketsOf_succ, applyBuckets, foldr_append]
  exact applyLevels_applying level _

/-- At a level with another current bucket only, that one is applied. -/
theorem applyLevels_curr (hsnap : applySnap bucketList applyState level = false)
    (hcurr : applyCurr bucketList applyState level = true) {ledger : Nat}
    (holdest : oldestLedgerInCurr applyState.currentLedger level = some ledger) (rows : Rows) :
    applyLevels bucketList applyState (level + 1) false rows =
      some (applyBuckets (bucketsOf applyState.currentBuckets level ++
        [(applyState.currentBuckets level).curr]) (deleteSince ledger rows)) := by
  have hdelete : deleteAt bucketList applyState deleteSince level false rows =
      some (deleteSince ledger rows) := by
    simp [deleteAt, oldestLedger, hsnap, hcurr, holdest]
  rw [applyLevels, hdelete, hsnap, hcurr, applyBuckets, foldr_append]
  exact applyLevels_applying level _

/-! ### The boundary -/

/-- The contents are those of the last operations. -/
theorem contents_eq_some (h : ListCovers history t bucketList) {entry : LedgerEntry} :
    contents bucketList key = some entry ↔ lastOp history key t = some (.live entry) := by
  obtain ⟨hsome, hnone⟩ := scan_spec h key
  rw [contents]
  cases hscan : scan bucketList key with
  | some record =>
    rw [hsome record hscan, Option.bind_some]
    cases record <;> simp [Record.value?]
  | none => rcases hnone hscan with hop | hop <;> simp [hop]

/-- A key without an entry was deleted, if there was an operation on it. -/
theorem exists_deletion (h : ListCovers history t bucketList)
    (hnone : contents bucketList key = none) {j : Nat} {record : Record} (hj : 0 < j) (hjt : j ≤ t)
    (hop : opAt history key j = some record) :
    ∃ d, d ≤ t ∧ opAt history key d = some (.dead key) ∧
      lastWrite (opAt history key) d t = none := by
  cases hlast : lastOp history key t with
  | none =>
    rw [lastWrite_eq_none.1 hlast j hj hjt] at hop
    cases hop
  | some last =>
    obtain ⟨d, -, hdt, hopd, hafter⟩ := exists_of_lastWrite hlast
    cases last with
    | live entry =>
      rw [(contents_eq_some h).2 hlast] at hnone
      cases hnone
    | dead k =>
      have hkey : k = key := key_of_findKey hopd
      exact ⟨d, hdt, hkey ▸ hopd, hafter⟩

/-- The newer buckets of an archive, which are those of the ledgers after a boundary. The older ones
are the same as those of a node at an earlier ledger, where they may end before the boundary. -/
structure Boundary (history : Nat → Batch) (n m : Nat) (bucketList archive : Levels)
    (newer : List Bucket) (boundary : Nat) : Prop where
  split : ∃ own older start,
    bucketsOf archive kNumLevels = newer ++ older ∧
    bucketsOf bucketList kNumLevels = own ++ older ∧
    (∀ b ∈ own, ∀ key record, findKey b key = some record →
      ∃ j, start < j ∧ j ≤ n ∧ opAt history key j = some record) ∧
    ∀ b ∈ older, ∀ key record, findKey b key = some record →
      ∃ j, j ≤ start ∧ opAt history key j = some record
  newest : (∀ key, newer.findSome? (findKey · key) = lastWrite (opAt history key) boundary m) ∨
    boundary = 0 ∧ ∀ key, newer.findSome? (findKey · key) = none → contents archive key = none

variable {archive : Levels} {newer : List Bucket} {boundary : Nat}

/-- An entry of the archive that is not in a newer bucket is one of the node. -/
theorem Boundary.own_of_older (h : Boundary history n m bucketList archive newer boundary)
    (hnm : n ≤ m) (hstamped : Stamped history) (harchive : ListCovers history m archive)
    (hnewer : newer.findSome? (findKey · key) = none) {entry : LedgerEntry}
    (hentry : contents archive key = some entry) : contents bucketList key = some entry := by
  obtain ⟨own, older, start, hsplit, hown, hownOrigin, holderOrigin⟩ := h.split
  have hlast := (contents_eq_some harchive).1 hentry
  -- the entry is found in an older bucket
  have holder : older.findSome? (findKey · key) = some (.live entry) := by
    rw [contents, scan, hsplit, List.findSome?_append, hnewer, Option.none_or] at hentry
    obtain ⟨record, hrecord, hvalue⟩ := Option.bind_eq_some_iff.1 hentry
    cases record with
    | live e =>
      cases hvalue
      exact hrecord
    | dead k => cases hvalue
  obtain ⟨b, hb, hfind⟩ := exists_of_findSome?_eq_some holder
  obtain ⟨j, hj, hop⟩ := holderOrigin b hb key _ hfind
  obtain ⟨last, -, -, hlastOp, hafter⟩ := exists_of_lastWrite hlast
  have hlastEq : last = j := (hstamped.live hlastOp).symm.trans (hstamped.live hop)
  -- no newer bucket of the node has the key
  have hownNone : own.findSome? (findKey · key) = none := by
    cases hfound : own.findSome? (findKey · key) with
    | none => rfl
    | some record =>
      obtain ⟨b', hb', hfind'⟩ := exists_of_findSome?_eq_some hfound
      obtain ⟨j', hj', hj'', hop'⟩ := hownOrigin b' hb' key record hfind'
      rw [lastWrite_eq_none.1 hafter j' (by omega) (by omega)] at hop'
      cases hop'
  rw [contents, scan, hown, List.findSome?_append, hownNone, Option.none_or, holder]
  rfl

/-- The entries of the node that are deleted in the end were deleted since a ledger. -/
def DeletedSince (history : Nat → Batch) (m : Nat) (bucketList : Levels) (ledger : Nat) : Prop :=
  ∀ key d, (contents bucketList key).isSome → d ≤ m → opAt history key d = some (.dead key) →
    lastWrite (opAt history key) d m = none → ledger ≤ d

/-- Deleting the rows since the boundary and applying the newer buckets gives the entries of the
archive, if the entries of the node that are deleted in the end were deleted after the boundary. -/
theorem Boundary.restores (h : Boundary history n m bucketList archive newer boundary)
    (hnm : n ≤ m) (hstamped : Stamped history) (hown : ListCovers history n bucketList)
    (harchive : ListCovers history m archive)
    (hdeleted : DeletedSince history m bucketList (boundary + 1)) :
    applyBuckets newer (deleteSince (boundary + 1) (contents bucketList)) = contents archive := by
  funext key
  rw [applyBuckets_eq, deleteSince]
  cases hnewer : newer.findSome? (findKey · key) with
  | some record =>
    obtain ⟨own, older, start, hsplit, -⟩ := h.split
    rw [Option.elim_some, contents, scan, hsplit, List.findSome?_append, hnewer, Option.some_or,
      Option.bind_some]
  | none =>
    rw [Option.elim_none]
    cases hentry : contents bucketList key with
    | none =>
      cases hother : contents archive key with
      | none => rfl
      | some entry =>
        rw [h.own_of_older hnm hstamped harchive hnewer hother] at hentry
        cases hentry
    | some entry =>
      obtain ⟨j, hj, hjn, hop, -⟩ := exists_of_lastWrite ((contents_eq_some hown).1 hentry)
      have hstamp := hstamped.live hop
      rcases h.newest with hnewest | ⟨hzero, hgone⟩
      · have hquiet := (hnewest key).symm.trans hnewer
        have hold : j ≤ boundary := by
          by_contra hlt
          rw [lastWrite_eq_none.1 hquiet j (by omega) (by omega)] at hop
          cases hop
        rw [Option.filter_some, if_pos (decide_eq_true (by omega))]
        cases hother : contents archive key with
        | some entry' =>
          rw [← hentry]
          exact h.own_of_older hnm hstamped harchive hnewer hother
        | none =>
          obtain ⟨d, hdm, hdead, hafter⟩ := exists_deletion harchive hother hj (hjn.trans hnm) hop
          have hnew := hdeleted key d (by rw [hentry]; rfl) hdm hdead hafter
          rw [lastWrite_eq_none.1 hquiet d hnew hdm] at hdead
          cases hdead
      · rw [hgone key hnewer, Option.filter_some, if_neg]
        simp only [decide_eq_true_eq]
        omega

/-- An entry of the node that was deleted before the boundary is left over. -/
theorem Boundary.left_over (h : Boundary history n m bucketList archive newer boundary)
    (hnm : n ≤ m) (hstamped : Stamped history) (hown : ListCovers history n bucketList)
    (harchive : ListCovers history m archive)
    (hrestored : applyBuckets newer (deleteSince (boundary + 1) (contents bucketList)) =
      contents archive) : DeletedSince history m bucketList (boundary + 1) := by
  intro key d hsome hdm hdead hafter
  by_contra hlt
  obtain ⟨entry, hentry⟩ := Option.isSome_iff_exists.1 hsome
  obtain ⟨j, hj, hjn, hop, hlast⟩ := exists_of_lastWrite ((contents_eq_some hown).1 hentry)
  -- the entry is of ledger `j`, and the deletion comes after the ledger of the node
  have hnd : n < d := by
    by_contra hdn
    have hsame : lastWrite (opAt history key) d n = none :=
      lastWrite_eq_none.2 fun i hi hi' => lastWrite_eq_none.1 hafter i hi (hi'.trans hnm)
    cases (last_unique hjn hop hlast (not_lt.1 hdn) hdead hsame).2
  have hgone : contents archive key = none := by
    refine Option.eq_none_iff_forall_ne_some.2 fun entry' hentry' => ?_
    obtain ⟨i, -, him, hop', hlast'⟩ := exists_of_lastWrite ((contents_eq_some harchive).1 hentry')
    cases (last_unique him hop' hlast' hdm hdead hafter).2
  have hnewer : newer.findSome? (findKey · key) = none := by
    rcases h.newest with hnewest | ⟨hzero, -⟩
    · rw [hnewest key]
      exact lastWrite_eq_none.2 fun i hi hi' => lastWrite_eq_none.1 hafter i (by omega) hi'
    · omega
  have hkept := congrFun hrestored key
  rw [applyBuckets_eq, hnewer, Option.elim_none, deleteSince, hentry, hgone, Option.filter_some,
    if_pos (decide_eq_true (by rw [hstamped.live hop]; omega))] at hkept
  cases hkept

/-! ### Where the boundary is -/

/-- The buckets of the levels from one on. -/
def bucketsFrom (levels : Levels) (level : Nat) : List Bucket :=
  (List.range' level (kNumLevels - level)).flatMap fun i => [(levels i).curr, (levels i).snap]

theorem bucketsOf_append (levels : Levels) (h : level ≤ kNumLevels) :
    bucketsOf levels kNumLevels = bucketsOf levels level ++ bucketsFrom levels level := by
  have hrange : List.range kNumLevels =
      List.range level ++ List.range' level (kNumLevels - level) := by
    have happend := List.range'_append_1 (s := 0) (m := level) (n := kNumLevels - level)
    rw [Nat.zero_add, Nat.add_sub_cancel' h] at happend
    rw [range_eq_range', range_eq_range', happend]
  rw [bucketsOf, hrange, flatMap_append]
  rfl

/-- The older buckets hold operations of the older ledgers. -/
theorem origin_bucketsFrom (h : ListCovers history t bucketList) {b : Bucket}
    (hb : b ∈ bucketsFrom bucketList level) {record : Record}
    (hfind : findKey b key = some record) :
    ∃ j, j ≤ currEnd level t ∧ opAt history key j = some record := by
  simp only [bucketsFrom, mem_flatMap, mem_range'_1, mem_cons, not_mem_nil,
    or_false] at hb
  obtain ⟨i, hi, hb⟩ := hb
  have hbefore := currEnd_anti hi.1 t
  have hsnap := snapEnd_le_currEnd i t
  have hlevel := h i (by omega)
  rcases hb with rfl | rfl
  · obtain ⟨j, -, hj, hop⟩ := hlevel.curr.origin key record hfind
    exact ⟨j, by omega, hop⟩
  · obtain ⟨j, -, hj, hop⟩ := hlevel.snap.origin key record hfind
    exact ⟨j, by omega, hop⟩

/-- What has not changed below a level. -/
def SameFrom (bucketList archive : Levels) (level : Nat) : Prop :=
  ∀ i, level ≤ i → i < kNumLevels →
    (archive i).snap = (bucketList i).snap ∧ (archive i).curr = (bucketList i).curr

theorem SameFrom.bucketsFrom_eq (h : SameFrom bucketList archive level) :
    bucketsFrom archive level = bucketsFrom bucketList level := by
  refine flatMap_congr fun i hi => ?_
  rw [mem_range'_1] at hi
  obtain ⟨hsnap, hcurr⟩ := h i hi.1 (by omega)
  rw [hsnap, hcurr]

/-- A bucket with an empty range is empty. -/
theorem Covers.eq_nil {keep : Bool} {lo hi now : Nat} {b : Bucket}
    (h : Covers history keep lo hi now b) (hempty : hi ≤ lo) : b = [] := by
  refine eq_nil_of_findKey fun key => ?_
  cases hfind : findKey b key with
  | none => rfl
  | some record =>
    obtain ⟨j, hj, hj', -⟩ := h.origin key record hfind
    omega

section

variable (hnm : n ≤ m) (hown : ListCovers history n bucketList)
  (harchive : ListCovers history m archive) (hlevel : level < kNumLevels)
include hnm hown harchive hlevel

/-- The boundary at a snapshot that differs is where its ledgers start. -/
theorem boundary_snap (hsame : SameFrom bucketList archive (level + 1))
    (hdiffer : (archive level).snap ≠ (bucketList level).snap) :
    currEnd (level + 1) m < snapEnd level m ∧
      Boundary history n m bucketList archive (bucketsOf archive (level + 1))
        (currEnd (level + 1) m) := by
  have hrange : currEnd (level + 1) m < snapEnd level m := by
    by_contra hempty
    have hzero := snapEnd_eq_zero (not_lt.1 hempty)
    have hzero' := snapEnd_mono hnm level
    rw [(harchive level hlevel).snap.eq_nil (not_lt.1 hempty),
      (hown level hlevel).snap.eq_nil (by omega)] at hdiffer
    exact hdiffer rfl
  have hlast : level < kNumLevels - 1 := by
    by_contra hlast
    rw [snapEnd_last hlast] at hrange
    exact Nat.not_lt_zero _ hrange
  refine ⟨hrange, ⟨bucketsOf bucketList (level + 1), bucketsFrom bucketList (level + 1),
    currEnd (level + 1) n, ?_, bucketsOf_append bucketList hlevel, ?_, ?_⟩, ?_⟩
  · rw [← hsame.bucketsFrom_eq]
    exact bucketsOf_append archive hlevel
  · exact fun b hb => (newer_of_mem hown hlevel hb).2
  · exact fun b hb key record => origin_bucketsFrom hown hb
  · exact Or.inl (findSome_bucketsOf harchive (by omega))

/-- The boundary at a current bucket that differs is where its ledgers start. -/
theorem boundary_curr (hsame : SameFrom bucketList archive (level + 1))
    (hsnap : (archive level).snap = (bucketList level).snap)
    (hdiffer : (archive level).curr ≠ (bucketList level).curr) : snapEnd level m < currEnd level m ∧
      Boundary history n m bucketList archive
        (bucketsOf archive level ++ [(archive level).curr]) (snapEnd level m) := by
  have hrange : snapEnd level m < currEnd level m := by
    by_contra hempty
    have hzero := currEnd_eq_zero (not_lt.1 hempty)
    have hzero' := currEnd_mono hnm level
    rw [(harchive level hlevel).curr.eq_nil (not_lt.1 hempty),
      (hown level hlevel).curr.eq_nil (by omega)] at hdiffer
    exact hdiffer rfl
  have hsplit : ∀ levels : Levels, bucketsOf levels kNumLevels =
      (bucketsOf levels level ++ [(levels level).curr]) ++
        (levels level).snap :: bucketsFrom levels (level + 1) := by
    intro levels
    have hlevel' : level + 1 ≤ kNumLevels := hlevel
    rw [bucketsOf_append levels hlevel', bucketsOf_succ]
    simp only [append_assoc, cons_append, nil_append]
  have hownLevel := hown level hlevel
  refine ⟨hrange, ⟨bucketsOf bucketList level ++ [(bucketList level).curr],
    (bucketList level).snap :: bucketsFrom bucketList (level + 1), snapEnd level n, ?_,
    hsplit bucketList, ?_, ?_⟩, ?_⟩
  · rw [← hsame.bucketsFrom_eq, ← hsnap]
    exact hsplit archive
  · intro b hb key record hfind
    have hle := snapEnd_le_currEnd level n
    have htop := currEnd_le level n
    rcases mem_append.1 hb with hb | hb
    · obtain ⟨j, hj, hj', hop⟩ := (newer_of_mem hown hlevel.le hb).2 key record hfind
      exact ⟨j, by omega, hj', hop⟩
    · cases mem_singleton.1 hb
      obtain ⟨j, hj, hj', hop⟩ := hownLevel.curr.origin key record hfind
      exact ⟨j, hj, by omega, hop⟩
  · intro b hb key record hfind
    have hle := currEnd_le_snapEnd level n
    rcases mem_cons.1 hb with rfl | hb
    · obtain ⟨j, -, hj, hop⟩ := hownLevel.snap.origin key record hfind
      exact ⟨j, hj, hop⟩
    · obtain ⟨j, hj, hop⟩ := origin_bucketsFrom hown hb hfind
      exact ⟨j, by omega, hop⟩
  · by_cases hlast : level < kNumLevels - 1
    · exact Or.inl fun key =>
        (harchive.curr hlast).findSome_append (snapEnd_le_currEnd _ m) (currEnd_le _ m)
          (findSome_bucketsOf harchive hlast.le key)
    · -- the last level has no snapshot, so all buckets are applied
      have hzero := snapEnd_last (t := m) hlast
      have hsnapNil := (harchive level hlevel).snap.eq_nil (hzero.le.trans (Nat.zero_le _))
      have hfrom : bucketsFrom archive (level + 1) = [] := by
        rw [bucketsFrom, show kNumLevels - (level + 1) = 0 by omega]
        rfl
      refine Or.inr ⟨hzero, fun key hnone => ?_⟩
      rw [contents, scan, hsplit archive, List.findSome?_append, hnone, hsnapNil, hfrom]
      rfl

end

/-! ### Databases -/

/-- The database of a bucket list. -/
def databaseOf (levels : Levels) : Database :=
  (bucketsOf levels kNumLevels).foldr (fun b database => b.foldl applyRecord database) Table.empty

theorem lookup_foldl_applyRecord {b : Bucket} (hb : DistinctKeys b) (database : Database) :
    (b.foldl applyRecord database).lookup = applyBucket b database.lookup := by
  induction b generalizing database with
  | nil => rfl
  | cons record b ih =>
    rw [foldl_cons, ih (pairwise_cons.1 hb).2, applyBucket_tail hb]

theorem lookup_databaseOf (h : ListCovers history t archive) (key : LedgerKey) :
    (databaseOf archive).lookup key = contents archive key := by
  have hfold : ∀ buckets : List Bucket, (∀ b ∈ buckets, DistinctKeys b) →
      (buckets.foldr (fun b database => b.foldl applyRecord database) Table.empty).lookup =
        applyBuckets buckets fun _ => none := by
    intro buckets hbuckets
    induction buckets with
    | nil => rfl
    | cons b buckets ih =>
      obtain ⟨hb, hbuckets⟩ := forall_mem_cons.1 hbuckets
      rw [foldr_cons, lookup_foldl_applyRecord hb, ih hbuckets]
      rfl
  have hdistinct : ∀ b ∈ bucketsOf archive kNumLevels, DistinctKeys b :=
    fun b hb => (newer_of_mem h le_rfl hb).1.distinct
  rw [databaseOf, hfold _ hdistinct, applyBuckets_eq, contents, scan]
  cases (bucketsOf archive kNumLevels).findSome? (findKey · key) <;> rfl

/-! ### The work -/

/-- The buckets of a list have different keys. -/
theorem ListCovers.distinct (h : ListCovers history t archive) (i : Nat)
    (hi : i ≤ kNumLevels - 1) :
    DistinctKeys (archive i).snap ∧ DistinctKeys (archive i).curr := by
  have hlevel := h i (Nat.lt_succ_of_le hi)
  exact ⟨hlevel.snap.increasing.distinct, hlevel.curr.increasing.distinct⟩

/-- The ledger since which rows are deleted: the oldest one of the first bucket that differs, from
the deepest of the first levels on. -/
def restartLedger (bucketList : Levels) (applyState : HistoryArchiveState) : Nat → Option Nat
  | 0 => none
  | level + 1 =>
    if applySnap bucketList applyState level || applyCurr bucketList applyState level then
      oldestLedger bucketList applyState level
    else restartLedger bucketList applyState level

/-- The levels are all the same, or the work deletes and applies from a boundary on. -/
theorem restart_cases (hnm : n ≤ m) (hown : ListCovers history n bucketList)
    (harchive : ListCovers history m archive) (hlevel : level ≤ kNumLevels)
    (hsame : SameFrom bucketList archive level) :
    (restartLedger bucketList ⟨m, archive⟩ level = none ∧ SameFrom bucketList archive 0 ∧
      ∀ rows, applyLevels bucketList ⟨m, archive⟩ level false rows = some rows) ∨
    ∃ newer boundary, restartLedger bucketList ⟨m, archive⟩ level = some (boundary + 1) ∧
      boundary < m ∧ Boundary history n m bucketList archive newer boundary ∧
      ∀ rows, applyLevels bucketList ⟨m, archive⟩ level false rows =
        some (applyBuckets newer (deleteSince (boundary + 1) rows)) := by
  induction level with
  | zero => exact Or.inl ⟨rfl, hsame, fun _ => rfl⟩
  | succ level ih =>
    rw [restartLedger]
    have htop := currEnd_le level m
    have hmid := snapEnd_le_currEnd level m
    cases hsnap : applySnap bucketList ⟨m, archive⟩ level with
    | true =>
      obtain ⟨hrange, hboundary⟩ :=
        boundary_snap hnm hown harchive hlevel hsame (of_decide_eq_true hsnap)
      have holdest := oldestLedgerInSnap_eq hlevel hrange
      refine Or.inr ⟨_, _, ?_, by omega, hboundary, applyLevels_snap hsnap holdest⟩
      rw [oldestLedger, hsnap, Bool.true_or, if_pos rfl, if_pos rfl]
      exact holdest
    | false =>
      have hsnapEq : (archive level).snap = (bucketList level).snap :=
        not_ne_iff.1 (of_decide_eq_false hsnap)
      cases hcurr : applyCurr bucketList ⟨m, archive⟩ level with
      | true =>
        obtain ⟨hrange, hboundary⟩ := boundary_curr hnm hown harchive hlevel hsame hsnapEq
          (of_decide_eq_true hcurr)
        have holdest := oldestLedgerInCurr_eq hlevel hrange
        refine Or.inr ⟨_, _, ?_, by omega, hboundary, applyLevels_curr hsnap hcurr holdest⟩
        rw [oldestLedger, hsnap, Bool.or_true, if_pos rfl, if_neg Bool.false_ne_true]
        exact holdest
      | false =>
        have hcurrEq : (archive level).curr = (bucketList level).curr :=
          not_ne_iff.1 (of_decide_eq_false hcurr)
        have hsame' : SameFrom bucketList archive level := by
          intro i hi hi'
          rcases hi.eq_or_lt with rfl | hlt
          · exact ⟨hsnapEq, hcurrEq⟩
          · exact hsame i hlt hi'
        simp only [applyLevels_same hsnap hcurr]
        exact ih (by omega) hsame'

/-- What the levels make of the entries of the node. -/
theorem applyLevels_restores (hnm : n ≤ m) (hstamped : Stamped history)
    (hown : ListCovers history n bucketList) (harchive : ListCovers history m archive) :
    ∃ rows, applyLevels bucketList ⟨m, archive⟩ kNumLevels false (contents bucketList) = some rows ∧
      (rows = contents archive ↔
        ∀ ledger, restartLedger bucketList ⟨m, archive⟩ kNumLevels = some ledger →
          DeletedSince history m bucketList ledger) := by
  have hnone : SameFrom bucketList archive kNumLevels := fun i hi hi' => by omega
  rcases restart_cases hnm hown harchive le_rfl hnone with
    ⟨hrestart, hsame, hrows⟩ | ⟨newer, boundary, hrestart, -, hboundary, hrows⟩
  · refine ⟨_, hrows _, iff_of_true (funext fun key => ?_) fun ledger hledger => ?_⟩
    · rw [contents, contents, scan, scan, bucketsOf_append _ (Nat.zero_le _),
        bucketsOf_append archive (Nat.zero_le _), hsame.bucketsFrom_eq]
      rfl
    · rw [hrestart] at hledger
      cases hledger
  · refine ⟨_, hrows _, fun hrestored ledger hledger => ?_, fun hdeleted => ?_⟩
    · cases hrestart.symm.trans hledger
      exact hboundary.left_over hnm hstamped hown harchive hrestored
    · exact hboundary.restores hnm hstamped hown harchive (hdeleted _ hrestart)

/-- A node whose database is the ledger of its bucket list works through the levels of a later
archive state of the same history to the end. It then has the ledger of that state exactly when the
entries of the node that are deleted by then were deleted since the oldest ledger of the first
bucket that differs. -/
theorem applyBuckets_restores (history : Nat → Batch)
    (hhistory : ∀ t, DistinctKeys (history t).records) (hstamped : Stamped history) (n m : Nat)
    (hnm : n ≤ m) (bucketList archive : Levels) (hown : addBatches history n = some bucketList)
    (harchive : addBatches history m = some archive) (database : Database)
    (hdatabase : ∀ key, database.lookup key = contents bucketList key) :
    (∃ runs final, ApplyBucketsWork.run bucketList ⟨m, archive⟩ runs { database } = some final ∧
      final.state = .success) ∧
    ∀ runs final, ApplyBucketsWork.run bucketList ⟨m, archive⟩ runs { database } = some final →
      final.state = .success →
      ((∀ key, final.database.lookup key = contents archive key) ↔
        ∀ ledger, restartLedger bucketList ⟨m, archive⟩ kNumLevels = some ledger →
          DeletedSince history m bucketList ledger) := by
  have hownCovers := covers_of_addBatches hhistory hown
  have harchiveCovers := covers_of_addBatches hhistory harchive
  have hrows : database.lookup = contents bucketList := funext hdatabase
  obtain ⟨rows, hlevels, hiff⟩ := applyLevels_restores hnm hstamped hownCovers harchiveCovers
  rw [← hrows] at hlevels
  obtain ⟨last, hlast, hstate, hfinal⟩ :=
    ApplyBucketsWork.reaches_success harchiveCovers.distinct hlevels
  refine ⟨?_, fun runs final hrun hsuccess => ?_⟩
  · obtain ⟨runs, hrun⟩ := hlast
    exact ⟨runs, last, hrun, hstate⟩
  · obtain rfl := hlast.success_unique hstate ⟨runs, hrun⟩ hsuccess
    rw [← hiff, ← hfinal, funext_iff]

theorem toggled_stamped : Stamped toggled := by
  intro t entry hentry
  by_cases hlive : t = 12 ∨ t = 40
  · simp only [toggled, if_pos hlive, mem_cons, not_mem_nil, or_false] at hentry
    rcases hentry with rfl | rfl <;> rfl
  · simp only [toggled, if_neg hlive, mem_cons, not_mem_nil, or_false] at hentry
    rw [hentry]

theorem applyBuckets_restores_toggled :
    ∃ bucketList archive, addBatches toggled 12 = some bucketList ∧
      addBatches toggled 13 = some archive ∧
      (∀ ledger, restartLedger bucketList ⟨13, archive⟩ kNumLevels = some ledger →
        DeletedSince toggled 13 bucketList ledger) ∧
      ∃ runs final, ApplyBucketsWork.run bucketList ⟨13, archive⟩ runs
          { database := databaseOf bucketList } = some final ∧
        ∀ key, final.database.lookup key = contents archive key := by
  obtain ⟨bucketList, hown, hownCovers⟩ := addBatches_covers toggled_distinct 12
  obtain ⟨archive, harchive, harchiveCovers⟩ := addBatches_covers toggled_distinct 13
  have hdeleted : ∀ ledger, restartLedger bucketList ⟨13, archive⟩ kNumLevels = some ledger →
      DeletedSince toggled 13 bucketList ledger := by
    intro ledger hledger key d _ hd hdead _
    have hlast : d = 13 := by
      by_contra hne
      have hmem := mem_of_findKey hdead
      have hdead' : ¬ (d = 13 ∨ d = 41) := by omega
      simp [Batch.records, toggled, hdead'] at hmem
    have hnone : SameFrom bucketList archive kNumLevels := fun i hi hi' => by omega
    rcases restart_cases (by decide) hownCovers harchiveCovers le_rfl hnone with
      ⟨hrestart, -⟩ | ⟨newer, boundary, hrestart, hboundary, -⟩
    · rw [hrestart] at hledger
      cases hledger
    · rw [hrestart] at hledger
      cases hledger
      omega
  obtain ⟨⟨runs, final, hrun, hstate⟩, hrestored⟩ := applyBuckets_restores toggled toggled_distinct
    toggled_stamped 12 13 (by decide) bucketList archive hown harchive _
    (lookup_databaseOf hownCovers)
  exact ⟨bucketList, archive, hown, harchive, hdeleted, runs, final, hrun,
    (hrestored runs final hrun hstate).2 hdeleted⟩

/-! ### A deletion that is missed -/

/-- Levels with the same buckets are passed over. -/
theorem applyLevels_of_same (applyState : HistoryArchiveState)
    (hsame : SameFrom bucketList applyState.currentBuckets level)
    (hlevel : level ≤ kNumLevels) (rows : Rows) :
    applyLevels bucketList applyState kNumLevels false rows =
      applyLevels bucketList applyState level false rows := by
  have hpass : ∀ k, level ≤ k → k ≤ kNumLevels →
      applyLevels bucketList applyState k false rows =
        applyLevels bucketList applyState level false rows := by
    intro k hk
    induction k, hk using Nat.le_induction with
    | base => exact fun _ => rfl
    | succ k hk ih =>
      intro hk'
      obtain ⟨hsnap, hcurr⟩ := hsame k hk hk'
      rw [applyLevels_same (decide_eq_false (not_ne_iff.2 hsnap))
        (decide_eq_false (not_ne_iff.2 hcurr)), ih (Nat.le_of_succ_le hk')]
  exact hpass kNumLevels hlevel le_rfl

/-- The second level of the list, and the snapshot of the first one, at the two ledgers. -/
theorem toggled_buckets :
    (addBatches toggled 40).map (fun l => ((l 2).curr, (l 2).snap)) =
      (addBatches toggled 63).map (fun l => ((l 2).curr, (l 2).snap)) ∧
    (addBatches toggled 40).map (fun l => (l 1).snap) ≠
      (addBatches toggled 63).map (fun l => (l 1).snap) := by
  decide +kernel

/-- Where the levels of the two ledgers differ first. -/
theorem toggled_same {bucketList archive : Levels} (hown : addBatches toggled 40 = some bucketList)
    (harchive : addBatches toggled 63 = some archive) :
    SameFrom bucketList archive 2 ∧ (archive 1).snap ≠ (bucketList 1).snap := by
  have hownCovers := covers_of_addBatches toggled_distinct hown
  have harchiveCovers := covers_of_addBatches toggled_distinct harchive
  obtain ⟨hsecond, hfirst⟩ := toggled_buckets
  rw [hown, harchive, Option.map_some, Option.map_some] at hsecond hfirst
  refine ⟨fun i hi hi' => ?_, fun h => hfirst (congrArg some h.symm)⟩
  rcases hi.eq_or_lt with rfl | hlt
  · have hpair := Prod.mk.inj (Option.some.inj hsecond)
    exact ⟨hpair.2.symm, hpair.1.symm⟩
  · -- nothing has reached the deeper levels
    have hend : ∀ t, t ≤ 63 → currEnd i t = 0 := fun t ht =>
      Nat.le_zero.1 ((currEnd_anti hlt t).trans ((currEnd_mono ht 3).trans (by decide)))
    have hempty : ∀ t levels, t ≤ 63 → ListCovers toggled t levels →
        (levels i).snap = [] ∧ (levels i).curr = [] := by
      intro t levels ht h
      have hle := snapEnd_le_currEnd i t
      have hzero := hend t ht
      exact ⟨(h i hi').snap.eq_nil (by omega), (h i hi').curr.eq_nil (by omega)⟩
    obtain ⟨hsnap, hcurr⟩ := hempty 40 bucketList (by decide) hownCovers
    obtain ⟨hsnap', hcurr'⟩ := hempty 63 archive (by decide) harchiveCovers
    rw [hsnap, hcurr, hsnap', hcurr']
    exact ⟨rfl, rfl⟩

/-- The row of an entry that was deleted is left over: a node at ledger 40 has the entry, which is
deleted in ledger 41. In the archive state of ledger 63 the deletion has reached a bucket that
already had one of the same entry, so the bucket does not differ and is not applied. -/
theorem deleted_row_left_over :
    (∀ t, DistinctKeys (toggled t).records) ∧ Stamped toggled ∧
    ∃ bucketList archive database runs final,
      addBatches toggled 40 = some bucketList ∧ addBatches toggled 63 = some archive ∧
      (∀ key, database.lookup key = contents bucketList key) ∧
      ApplyBucketsWork.run bucketList ⟨63, archive⟩ runs { database } = some final ∧
      final.state = .success ∧ contents archive toggledKey = none ∧
      final.database.lookup toggledKey = some (toggledEntry 40) := by
  obtain ⟨bucketList, hown, hownCovers⟩ := addBatches_covers toggled_distinct 40
  obtain ⟨archive, harchive, harchiveCovers⟩ := addBatches_covers toggled_distinct 63
  obtain ⟨hsame, hdiffer⟩ := toggled_same hown harchive
  have holdest : oldestLedgerInSnap 63 1 = some 44 := oldestLedgerInSnap_eq (by decide) (by decide)
  have hrows : (databaseOf bucketList).lookup = contents bucketList :=
    funext (lookup_databaseOf hownCovers)
  have hlevels := applyLevels_of_same ⟨63, archive⟩ hsame (by decide) (databaseOf bucketList).lookup
  rw [applyLevels_snap (decide_eq_true hdiffer) holdest] at hlevels
  obtain ⟨final, ⟨runs, hrun⟩, hstate, hfinal⟩ :=
    ApplyBucketsWork.reaches_success harchiveCovers.distinct hlevels
  refine ⟨toggled_distinct, toggled_stamped, bucketList, archive, databaseOf bucketList, runs,
    final, hown, harchive, congrFun hrows, hrun, hstate, ?_, ?_⟩
  · cases hentry : contents archive toggledKey with
    | none => rfl
    | some entry =>
      have hlast : lastOp toggled toggledKey 63 = some (.dead toggledKey) := by decide +kernel
      rw [contents_eq_some harchiveCovers, hlast] at hentry
      cases hentry
  · -- no operation since ledger 44
    have hnewer : (bucketsOf archive 2).findSome? (findKey · toggledKey) = none := by
      rw [findSome_bucketsOf harchiveCovers (by decide)]
      decide +kernel
    have hentry : contents bucketList toggledKey = some (toggledEntry 40) :=
      (contents_eq_some hownCovers).2 (by decide +kernel)
    rw [hfinal, applyBuckets_eq, hnewer, Option.elim_none, deleteSince, hrows, hentry]
    rfl

/-! ### Where records come from -/

/-- Every record of a bucket is the operation of one of the `sizeOfCurr` or `sizeOfSnap` ledgers
from the oldest one of the bucket on. -/
theorem records_in_range (history : Nat → Batch) (hhistory : ∀ t, DistinctKeys (history t).records)
    (t i : Nat) (hi : i < kNumLevels) {levels : Levels} (hadd : addBatches history t = some levels)
    (key : LedgerKey) (record : Record) :
    (findKey (levels i).curr key = some record → ∃ oldest j, oldestLedgerInCurr t i = some oldest ∧
      oldest ≤ j ∧ j < oldest + sizeOfCurr t i ∧ opAt history key j = some record) ∧
    (findKey (levels i).snap key = some record → ∃ oldest j, oldestLedgerInSnap t i = some oldest ∧
      oldest ≤ j ∧ j < oldest + sizeOfSnap t i ∧ opAt history key j = some record) := by
  have hlevel := covers_of_addBatches hhistory hadd i hi
  have htop : currEnd i t ≤ t := currEnd_le i t
  have hmid := snapEnd_le_currEnd i t
  constructor
  · intro hfind
    obtain ⟨j, hj, hj', hop⟩ := hlevel.curr.origin key record hfind
    refine ⟨_, j, oldestLedgerInCurr_eq hi (by omega), hj, ?_, hop⟩
    have ht : t ≠ 0 := by omega
    rw [sizeOfCurr_eq ht hi (sizesBefore_eq ht hi.le)]
    omega
  · intro hfind
    obtain ⟨j, hj, hj', hop⟩ := hlevel.snap.origin key record hfind
    refine ⟨_, j, oldestLedgerInSnap_eq hi (by omega), hj, ?_, hop⟩
    have ht : t ≠ 0 := by omega
    rw [sizeOfSnap_eq ht hi (sizesBefore_eq ht hi.le)]
    omega

theorem records_in_range_toggled :
    ∃ levels, addBatches toggled 41 = some levels ∧
      findKey (levels 0).curr toggledKey = some (.dead toggledKey) ∧
      ∃ oldest j, oldestLedgerInCurr 41 0 = some oldest ∧ oldest ≤ j ∧
        j < oldest + sizeOfCurr 41 0 ∧ opAt toggled toggledKey j = some (.dead toggledKey) := by
  obtain ⟨levels, hadd, -⟩ := addBatches_covers toggled_distinct 41
  have hfound : (addBatches toggled 41).map (fun l => findKey (l 0).curr toggledKey) =
      some (some (.dead toggledKey)) := by
    decide +kernel
  rw [hadd] at hfound
  have hcurr := Option.some.inj hfound
  have hrange := records_in_range toggled toggled_distinct 41 0 (by decide) hadd toggledKey
  exact ⟨levels, hadd, hcurr, (hrange _).1 hcurr⟩

end SpnCore.Buckets
