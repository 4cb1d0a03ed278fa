import SpnCore.Buckets.Bucket
import Mathlib.Logic.Function.Basic

/-!
# The bucket list

Eleven levels of two buckets each. Every ledger adds its batch to the first level. A level that is
half full spills: its current bucket becomes its snapshot, and the level below starts to merge the
snapshot into its own current bucket. That merge is committed at the next spill. The shadows of a
merge are the buckets that were two and more levels above when it was prepared.

A merge runs in the background on buckets that do not change, so it is carried out here when its
result is asked for. Failed assertions end a run. Ledger numbers are natural numbers.
-/

namespace SpnCore.Buckets

open Lib Ledger

def kNumLevels : Nat := 11

/-! ### Sizes -/

def levelSize (level : Nat) : Nat := 2 ^ (2 * (level + 1))

def levelHalf (level : Nat) : Nat := levelSize level / 2

/-- `v & ~(m - 1)`, for a power `m` of two. -/
def mask (v m : Nat) : Nat := v / m * m

def levelShouldSpill (ledger level : Nat) : Bool :=
  if level = kNumLevels - 1 then false
  else decide (ledger = mask ledger (levelHalf level)) ||
    decide (ledger = mask ledger (levelSize level))

def keepDeadEntries (level : Nat) : Bool := decide (level < kNumLevels - 1)

/-- The last ledger before one that changed the current bucket of a level. -/
def previousRelevantLedger (ledger level : Nat) : Nat :=
  max (max (mask (ledger - 1) (levelHalf (level - 1))) (mask (ledger - 1) (levelSize (level - 1))))
    (max (mask (ledger - 1) (levelHalf level)) (mask (ledger - 1) (levelSize level)))

theorem mask_le (t n : Nat) : mask t n ≤ t :=
  Nat.div_mul_le_self t n

theorem previousRelevantLedger_lt {ledger level n : Nat} (h : mask ledger n ≠ 0) :
    previousRelevantLedger ledger level < ledger := by
  have hpos : 0 < ledger := Nat.lt_of_lt_of_le (Nat.pos_of_ne_zero h) (mask_le ledger n)
  have hmask : ∀ m, mask (ledger - 1) m ≤ ledger - 1 := mask_le _
  have hle : previousRelevantLedger ledger level ≤ ledger - 1 :=
    max_le (max_le (hmask _) (hmask _)) (max_le (hmask _) (hmask _))
  omega

mutual

/-- The number of ledgers in the current bucket of a level. -/
def sizeOfCurr (ledger level : Nat) : Nat :=
  if level = 0 then if ledger = 1 then 1 else 1 + ledger % 2
  else if level ≠ kNumLevels - 1 ∧ mask ledger (levelHalf level) ≠ 0 then
    let sizeDelta := 2 ^ (2 * level - 1)
    if mask ledger (levelHalf level) = ledger ∨ mask ledger (levelSize level) = ledger then
      sizeDelta
    else if mask ledger (levelHalf (level - 1)) = ledger ∨
        mask ledger (levelSize (level - 1)) = ledger then
      sizeOfCurr (previousRelevantLedger ledger level) level + sizeDelta
    else sizeOfCurr (previousRelevantLedger ledger level) level
  else ledger - sizesBefore ledger level
termination_by (level, 1, ledger)
decreasing_by
  all_goals simp only [Prod.lex_def, true_and, lt_self_iff_false, false_or]
  · exact previousRelevantLedger_lt (‹_ ∧ _›).2
  · exact previousRelevantLedger_lt (‹_ ∧ _›).2
  · exact Or.inl (by decide)

/-- The number of ledgers in the snapshot of a level. -/
def sizeOfSnap (ledger level : Nat) : Nat :=
  if level = kNumLevels - 1 then 0
  else if mask ledger (levelSize level) ≠ 0 then levelHalf level
  else ledger - (sizesBefore ledger level + sizeOfCurr ledger level)
termination_by (level, 2, 0)

/-- The number of ledgers in the levels before one: the loop that is common to the functions on
sizes. -/
def sizesBefore (ledger : Nat) : Nat → Nat
  | 0 => 0
  | level + 1 =>
    sizesBefore ledger level + (sizeOfCurr ledger level + sizeOfSnap ledger level)
termination_by level => (level, 0, 0)

end

def maxLedger : Nat := 2 ^ 32 - 1

/-- The oldest ledger of the current bucket of a level. -/
def oldestLedgerInCurr (ledger level : Nat) : Option Nat :=
  if ledger = 0 then none
  else if sizeOfCurr ledger level = 0 then some maxLedger
  else some (ledger - sizesBefore ledger level - sizeOfCurr ledger level + 1)

/-- The oldest ledger of the snapshot of a level. -/
def oldestLedgerInSnap (ledger level : Nat) : Option Nat :=
  if ledger = 0 then none
  else if sizeOfSnap ledger level = 0 then some maxLedger
  else some (ledger - sizesBefore ledger (level + 1) + 1)

/-! ### Levels -/

/-- `FutureBucket`, with the inputs of the merge. -/
structure FutureBucket where
  curr : Bucket
  snap : Bucket
  shadows : List Bucket
  keepDeadEntries : Bool

def FutureBucket.resolve (fb : FutureBucket) : Option Bucket :=
  merge fb.curr fb.snap fb.shadows fb.keepDeadEntries

structure BucketLevel where
  curr : Bucket := []
  snap : Bucket := []
  nextCurr : Option FutureBucket := none

/-- `BucketLevel::commit` -/
def BucketLevel.commit (level : BucketLevel) : Option BucketLevel :=
  match level.nextCurr with
  | none => some level
  | some fb => fb.resolve.map fun b => { level with curr := b, nextCurr := none }

/-- `BucketLevel::prepare`, at level number `i`. The current bucket is left out when it is going to
be snapshotted itself before the merge is committed. -/
def BucketLevel.prepare (level : BucketLevel) (i currLedger : Nat) (snap : Bucket)
    (shadows : List Bucket) : Option BucketLevel :=
  if level.nextCurr.isSome then none
  else
    let curr :=
      if i ≠ 0 ∧ levelShouldSpill (currLedger + levelHalf (i - 1)) i = true then []
      else level.curr
    some { level with
      nextCurr := some { curr, snap, shadows, keepDeadEntries := keepDeadEntries i } }

/-- `BucketLevel::snap` -/
def BucketLevel.takeSnap (level : BucketLevel) : BucketLevel :=
  { level with snap := level.curr, curr := [] }

/-! ### The list -/

/-- The levels by their number. -/
abbrev Levels := Nat → BucketLevel

/-- The buckets of the first levels, `curr` before `snap`. -/
def bucketsOf (levels : Levels) (n : Nat) : List Bucket :=
  (List.range n).flatMap fun i => [(levels i).curr, (levels i).snap]

/-- Level `i` spills into the next one. -/
def spillLevel (currLedger i : Nat) (shadows : List Bucket) (levels : Levels) : Option Levels := do
  let snapped := (levels i).takeSnap
  let committed ← (levels (i + 1)).commit
  let prepared ← committed.prepare (i + 1) currLedger snapped.snap shadows
  return Function.update (Function.update levels i snapped) (i + 1) prepared

/-- The loop of `addBatch` over the levels that may spill, counting down, with the shadows of the
level that is spilled into. -/
def spillLoop (currLedger : Nat) :
    Nat → List Bucket → Levels → Option (List Bucket × Levels)
  | 0, shadows, levels => some (shadows, levels)
  | i + 1, shadows, levels =>
    if shadows.length < 2 then none
    else
      let shadows := shadows.dropLast.dropLast
      if levelShouldSpill currLedger i then
        (spillLevel currLedger i shadows levels).bind fun levels =>
          spillLoop currLedger i shadows levels
      else spillLoop currLedger i shadows levels

/-- `BucketList::addBatch` -/
def addBatch (currLedger : Nat) (batch : Batch) (levels : Levels) : Option Levels := do
  if currLedger = 0 then none
  let shadows := bucketsOf levels kNumLevels
  if shadows.length < 2 then none
  let (shadows, levels) ← spillLoop currLedger (kNumLevels - 1) shadows.dropLast.dropLast levels
  if !shadows.isEmpty then none
  let prepared ← (levels 0).prepare 0 currLedger (← fresh batch) shadows
  let committed ← prepared.commit
  return Function.update levels 0 committed

/-- A new bucket list. -/
def noLevels : Levels := fun _ => {}

/-- The bucket list after the ledgers of a history up to some number. -/
def addBatches (history : Nat → Batch) : Nat → Option Levels
  | 0 => some noLevels
  | t + 1 => (addBatches history t).bind (addBatch (t + 1) (history (t + 1)))

/-- The first record of a key, from level 0 on. -/
def scan (levels : Levels) (key : LedgerKey) : Option Record :=
  (bucketsOf levels kNumLevels).findSome? fun b => findKey b key

end SpnCore.Buckets
