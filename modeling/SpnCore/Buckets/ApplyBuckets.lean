import SpnCore.Buckets.BucketList

/-!
# Applying the buckets of an archive

`ApplyBucketsWork` turns the database of a node into the ledger of an archive state. It goes through
the levels from the deepest one on. At the first bucket that is not the one of the local bucket list
it deletes the rows that were modified since the oldest ledger of that bucket, and applies this and
all newer buckets of the archive. The records of a bucket are applied in batches, each of them in a
run of the work.

Hashes of buckets are compared as the buckets themselves. The local bucket list does not change
before the last level is done.
-/

namespace SpnCore.Buckets

open Lib Ledger

/-- The rows of the tables of ledger entries. -/
abbrev Database := Table LedgerEntry

/-- `LedgerStateRoot::deleteObjectsModifiedOnOrAfterLedger` -/
def deleteObjectsModifiedOnOrAfterLedger (ledger : Nat) (database : Database) : Database :=
  database.filter fun entry => decide (entry.lastModifiedLedgerSeq < ledger)

/-! ### Applying a bucket -/

/-- `BucketApplicator`, with the records that are left. -/
structure BucketApplicator where
  bucketIter : Bucket
  size : Nat := 0

/-- A live entry is stored in place of the one that there may be. -/
def applyRecord (database : Database) : Record → Database
  | .live entry => database.upsert entry
  | .dead key => database.erase key

/-- The loop of `advance`. A batch ends without moving on, so its last record is applied again by
the next one. -/
def advanceLoop : Bucket → Nat → Database → BucketApplicator × Database
  | [], size, database => ({ bucketIter := [], size }, database)
  | record :: bucketIter, size, database =>
    let database := applyRecord database record
    if (size + 1) % 256 = 255 then
      ({ bucketIter := record :: bucketIter, size := size + 1 }, database)
    else advanceLoop bucketIter (size + 1) database

/-- `BucketApplicator::advance` -/
def BucketApplicator.advance (applicator : BucketApplicator) (database : Database) :
    BucketApplicator × Database :=
  advanceLoop applicator.bucketIter applicator.size database

/-- `BucketApplicator::operator bool` -/
def BucketApplicator.more (applicator : BucketApplicator) : Bool :=
  !applicator.bucketIter.isEmpty

/-! ### The work -/

/-- `HistoryArchiveState` -/
structure HistoryArchiveState where
  currentLedger : Nat
  currentBuckets : Levels

/-- `Work::State`, for a work that does not fail. -/
inductive WorkState where
  | pending
  | running
  | success
deriving DecidableEq, Repr

/-- `ApplyBucketsWork`, with the database that it works on. -/
structure ApplyBucketsWork where
  database : Database
  level : Nat := kNumLevels - 1
  applying : Bool := false
  snapApplicator : Option BucketApplicator := none
  currApplicator : Option BucketApplicator := none
  state : WorkState := .pending

variable (bucketList : Levels) (applyState : HistoryArchiveState)

/-- The snapshot of a level is not the one of the archive. -/
def applySnap (level : Nat) : Bool :=
  decide ((applyState.currentBuckets level).snap ≠ (bucketList level).snap)

/-- The current bucket of a level is not the one of the archive. -/
def applyCurr (level : Nat) : Bool :=
  decide ((applyState.currentBuckets level).curr ≠ (bucketList level).curr)

/-- The oldest ledger of the deepest bucket to apply at a level. -/
def oldestLedger (level : Nat) : Option Nat :=
  if applySnap bucketList applyState level then
    oldestLedgerInSnap applyState.currentLedger level
  else oldestLedgerInCurr applyState.currentLedger level

namespace ApplyBucketsWork

/-- `ApplyBucketsWork::onStart` -/
def onStart (work : ApplyBucketsWork) : Option ApplyBucketsWork := do
  let snap := applySnap bucketList applyState work.level
  let curr := applyCurr bucketList applyState work.level
  let i := applyState.currentBuckets work.level
  let database ←
    if !work.applying && (snap || curr) then
      (oldestLedger bucketList applyState work.level).map fun ledger =>
        deleteObjectsModifiedOnOrAfterLedger ledger work.database
    else some work.database
  let work := { work with database }
  let work :=
    if work.applying || snap then
      { work with snapApplicator := some { bucketIter := i.snap }, applying := true }
    else work
  let work :=
    if work.applying || curr then
      { work with currApplicator := some { bucketIter := i.curr }, applying := true }
    else work
  return work

/-- `ApplyBucketsWork::onRun` -/
def onRun (work : ApplyBucketsWork) : ApplyBucketsWork :=
  match work.snapApplicator with
  | some applicator =>
    if applicator.more then
      let (applicator, database) := applicator.advance work.database
      { work with snapApplicator := some applicator, database }
    else work
  | none =>
    match work.currApplicator with
    | some applicator =>
      if applicator.more then
        let (applicator, database) := applicator.advance work.database
        { work with currApplicator := some applicator, database }
      else work
    | none => work

/-- The end of `onSuccess`: a level is done. -/
def nextLevel (work : ApplyBucketsWork) : ApplyBucketsWork :=
  if work.level ≠ 0 then { work with level := work.level - 1, state := .pending }
  else { work with state := .success }

/-- `ApplyBucketsWork::onSuccess` -/
def onSuccess (work : ApplyBucketsWork) : ApplyBucketsWork :=
  if work.snapApplicator.any BucketApplicator.more then { work with state := .running }
  else
    let work := { work with snapApplicator := none }
    if work.currApplicator.any BucketApplicator.more then { work with state := .running }
    else { work with currApplicator := none }.nextLevel

/-- `Work::run` and `Work::complete`. Nothing is scheduled after a success. -/
def step (work : ApplyBucketsWork) : Option ApplyBucketsWork :=
  match work.state with
  | .pending => (work.onStart bucketList applyState).map fun work => work.onRun.onSuccess
  | .running => some work.onRun.onSuccess
  | .success => some work

/-- The work after a number of runs. -/
def run : Nat → ApplyBucketsWork → Option ApplyBucketsWork
  | 0, work => some work
  | runs + 1, work => (work.step bucketList applyState).bind (run runs)

end ApplyBucketsWork

end SpnCore.Buckets
