import SpnCore.Ledger.KeyOrder
import SpnCore.Lib.SortedKeys

/-!
# Buckets

A bucket is a list of records with increasing keys. Two buckets are merged in one pass, in which a
newer record takes the place of an older one, records that occur in one of the shadows are left
out, and records of deleted entries are left out where the bucket is the last one. An output
iterator holds back one record until it sees that the next one has another key.
-/

namespace SpnCore.Buckets

open Lib Ledger

abbrev Bucket := List Record

/-- `DEADENTRY` -/
def isDead : Record → Bool
  | .live _ => false
  | .dead _ => true

/-! ### Writing -/

/-- `BucketOutputIterator`, with the records that it has written. -/
structure BucketOutputIterator where
  keepDeadEntries : Bool
  buf : Option Record := none
  written : List Record := []

/-- `BucketOutputIterator::put`. Records must not come out of order. -/
def BucketOutputIterator.put (out : BucketOutputIterator) (e : Record) :
    Option BucketOutputIterator :=
  if !out.keepDeadEntries && isDead e then some out
  else
    match out.buf with
    | none => some { out with buf := some e }
    | some buffered =>
      if (Keyed.key e : LedgerKey) < Keyed.key buffered then none
      else if (Keyed.key buffered : LedgerKey) < Keyed.key e then
        some { out with written := out.written ++ [buffered], buf := some e }
      else some { out with buf := some e }

/-- `BucketOutputIterator::getBucket` -/
def BucketOutputIterator.getBucket (out : BucketOutputIterator) : Bucket :=
  out.written ++ out.buf.toList

/-! ### Merging -/

/-- The shadows are searched for a record one after the other, each from where the last search
left it, up to the first that has the record. -/
def searchShadows (entry : Record) : List Bucket → Bool × List Bucket
  | [] => (false, [])
  | si :: shadowIterators =>
    let si := si.dropWhile fun x => decide ((Keyed.key x : LedgerKey) < Keyed.key entry)
    if si.head?.any fun x => !decide ((Keyed.key entry : LedgerKey) < Keyed.key x) then
      (true, si :: shadowIterators)
    else
      let (found, shadowIterators) := searchShadows entry shadowIterators
      (found, si :: shadowIterators)

/-- A merge under way. -/
structure Merge where
  out : BucketOutputIterator
  shadowIterators : List Bucket

/-- `maybePut` -/
def maybePut (m : Merge) (entry : Record) : Option Merge :=
  let (shadowed, shadowIterators) := searchShadows entry m.shadowIterators
  if shadowed then some { m with shadowIterators }
  else (m.out.put entry).map fun out => { out, shadowIterators }

/-- The loop of `merge` while the older bucket is at `o`; `rest` goes on with the next record of
the older bucket. -/
def mergeWith (o : Record) (rest : Bucket → Merge → Option Merge) : Bucket → Merge → Option Merge
  | [], m => maybePut m o >>= rest []
  | n :: ni, m =>
    if (Keyed.key o : LedgerKey) < Keyed.key n then maybePut m o >>= rest (n :: ni)
    else if (Keyed.key n : LedgerKey) < Keyed.key o then maybePut m n >>= mergeWith o rest ni
    else maybePut m n >>= rest ni

/-- The loop of `merge`. -/
def mergeLoop : Bucket → Bucket → Merge → Option Merge
  | [], ni, m => ni.foldlM maybePut m
  | o :: oi, ni, m => mergeWith o (mergeLoop oi) ni m

/-- `Bucket::merge` -/
def merge (oldBucket newBucket : Bucket) (shadows : List Bucket) (keepDeadEntries : Bool) :
    Option Bucket :=
  (mergeLoop oldBucket newBucket { out := { keepDeadEntries }, shadowIterators := shadows }).map
    fun m => m.out.getBucket

/-! ### Batches -/

/-- The changes of a ledger. -/
structure Batch where
  liveEntries : List LedgerEntry := []
  deadEntries : List LedgerKey := []

/-- Writes records in the order of their keys. -/
def sortedBucket (records : List Record) : Option Bucket :=
  ((records.insertionSort fun a b => (Keyed.key a : LedgerKey) ≤ Keyed.key b).foldlM
    BucketOutputIterator.put { keepDeadEntries := true }).map BucketOutputIterator.getBucket

/-- `Bucket::fresh` -/
def fresh (batch : Batch) : Option Bucket := do
  let liveBucket ← sortedBucket (batch.liveEntries.map .live)
  let deadBucket ← sortedBucket (batch.deadEntries.map .dead)
  merge liveBucket deadBucket [] true

end SpnCore.Buckets
