import SpnCore.Scp.QuorumSet

/-!
# Ledger headers and checkpoints

The part of a ledger header that catchup reads, the entries of the header files of a history
archive, and the numbering of checkpoints.
-/

namespace SpnCore.Catchup

open Scp

/-- A ledger header. `rest` stands for the fields that catchup only hashes. -/
structure LedgerHeader where
  ledgerVersion : Nat := 0
  previousLedgerHash : Hash := 0
  bucketListHash : Hash := 0
  ledgerSeq : Nat := 0
  rest : List Nat := []
deriving DecidableEq, Repr

/-- A header with the hash recorded for it. -/
structure LedgerHeaderHistoryEntry where
  hash : Hash := 0
  header : LedgerHeader := {}
deriving DecidableEq, Repr

/-- The first multiple of the checkpoint frequency from `ledger` on. -/
def nextCheckpointLedger (frequency ledger : Nat) : Nat :=
  if ledger = 0 then frequency else (ledger + frequency - 1) / frequency * frequency

/-- The last ledger of the checkpoint that contains `ledger`. -/
def checkpointContainingLedger (frequency ledger : Nat) : Nat :=
  nextCheckpointLedger frequency (ledger + 1) - 1

end SpnCore.Catchup
