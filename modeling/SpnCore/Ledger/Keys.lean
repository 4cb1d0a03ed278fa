import SpnCore.Ledger.Entries

/-!
# Ledger entries of any type

`LedgerEntry` and `LedgerKey`, the unions over the types of entries, and records that say either
what an entry is or that it does not exist. An entry and a record carry their key, so a table of
them cannot hold one under another key.
-/

namespace SpnCore.Ledger

open Lib

/-- What identifies an entry. -/
inductive LedgerKey where
  | account (accountID : AccountID)
  | trustLine (accountID : AccountID) (asset : Asset)
  | offer (sellerID : AccountID) (offerID : Nat)
  | data (accountID : AccountID) (dataName : Bytes)
deriving DecidableEq, Repr

/-- The key belongs to an offer. -/
def LedgerKey.isOffer : LedgerKey → Bool
  | .offer _ _ => true
  | .account _ | .trustLine _ _ | .data _ _ => false

/-- A trust line of the issuer of its own asset, which is never stored. -/
def LedgerKey.isOwnTrustLine : LedgerKey → Bool
  | .trustLine accountID asset => decide (asset.issuer? = some accountID)
  | .account _ | .offer _ _ | .data _ _ => false

/-- The contents of an entry. -/
inductive LedgerEntryData where
  | account (acc : AccountEntry)
  | trustLine (line : TrustLineEntry)
  | offer (offer : OfferEntry)
  | data (data : DataEntry)
deriving DecidableEq, Repr

/-- The key of an entry with these contents. -/
def LedgerEntryData.key : LedgerEntryData → LedgerKey
  | .account acc => .account acc.accountID
  | .trustLine line => .trustLine line.accountID line.asset
  | .offer oe => .offer oe.sellerID oe.offerID
  | .data de => .data de.accountID de.dataName

/-- An entry, with the ledger that modified it last. -/
structure LedgerEntry where
  lastModifiedLedgerSeq : Nat
  data : LedgerEntryData
deriving DecidableEq, Repr

instance : Keyed LedgerEntry LedgerKey := ⟨fun entry => entry.data.key⟩

/-- The newest version of an entry: the entry, or that there is none under the key. -/
inductive Record where
  | live (entry : LedgerEntry)
  | dead (key : LedgerKey)
deriving DecidableEq, Repr

/-- The entry of a record, if it exists. -/
def Record.value? : Record → Option LedgerEntry
  | .live entry => some entry
  | .dead _ => none

instance : Keyed Record LedgerKey where
  key
    | .live entry => Keyed.key entry
    | .dead key => key

@[simp] theorem key_entry (entry : LedgerEntry) : Keyed.key entry = entry.data.key := rfl

@[simp] theorem key_live (entry : LedgerEntry) :
    Keyed.key (Record.live entry) = entry.data.key := rfl

/-- What there is under each key, as the rows of a database. -/
abbrev Rows := LedgerKey → Option LedgerEntry

end SpnCore.Ledger
