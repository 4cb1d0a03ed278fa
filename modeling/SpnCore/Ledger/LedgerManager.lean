import SpnCore.Herder.Upgrades
import SpnCore.Transactions.TransactionFrame

/-!
# Closing ledgers

A ledger closes with a set of transactions and upgrades that the network has agreed on. The fees
of all transactions are charged first, then the transactions are applied one after the other, and
then the upgrades. An exception ends the transaction or the upgrade it is thrown in.
-/

namespace SpnCore.Ledger

open Lib
open Herder.Upgrades (LedgerUpgrade)

/-- What stops the program: undefined behaviour and failed assertions, but no exception. -/
def LedgerError.isFatal : LedgerError → Bool
  | .overflow | .assertion | .outOfFuel => true
  | _ => false

/-- What a ledger closes with. The transactions are in the order in which they are applied. -/
structure LedgerCloseData where
  closeTime : Nat
  txs : List Transaction
  upgrades : List LedgerUpgrade

/-- Charges a fee in a `LedgerState` of its own. -/
def processFeeOf (tx : Transaction) : LedgerM Unit :=
  nested (fun _ => true) do
    let _ ← tx.processFeeSeqNum

def processFeesSeqNums (txs : List Transaction) : LedgerM Unit :=
  nested (fun _ => true) (txs.forM processFeeOf)

/-- Applies transactions one after the other. A transaction that throws an exception has no
result but `txINTERNAL_ERROR`. -/
def applyTransactions (env : Env) :
    List Transaction → LedgerM (List (Option Transaction.Application))
  | [] => return []
  | tx :: rest => do
      let application ← catching LedgerError.isFatal (tx.apply env)
      let applications ← applyTransactions env rest
      return application :: applications

/-- Applies an upgrade in a `LedgerState` of its own. An upgrade that throws is skipped. -/
def applyUpgrade (upgrade : LedgerUpgrade) : LedgerM Unit := do
  let _ ← catching LedgerError.isFatal (nested (fun _ => true) (Herder.Upgrades.applyTo upgrade))

/-- Opens the next ledger and charges the fees. -/
def openLedger (ledgerData : LedgerCloseData) : LedgerM Unit := do
  let header ← loadHeader
  putHeader { header with
    ledgerSeq := (header.ledgerSeq + 1) % 2 ^ 32
    closeTime := ledgerData.closeTime }
  processFeesSeqNums ledgerData.txs

def closeLedger (env : Env) (ledgerData : LedgerCloseData) :
    LedgerM (List (Option Transaction.Application)) :=
  nested (fun _ => true) do
    openLedger ledgerData
    let applications ← applyTransactions env ledgerData.txs
    ledgerData.upgrades.forM applyUpgrade
    return applications

/-- Closes ledgers one after the other. -/
def closeLedgers (env : Env) (closes : List LedgerCloseData) : LedgerM Unit :=
  closes.forM fun ledgerData => do
    let _ ← closeLedger env ledgerData

end SpnCore.Ledger
