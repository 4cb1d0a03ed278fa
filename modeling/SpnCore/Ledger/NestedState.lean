import SpnCore.Ledger.Keys
import SpnCore.Lib.LruCache

/-!
# Nested ledger states

`LedgerState` and `LedgerStateRoot`: a stack of levels over the database. A level records the
entries that were written since it was opened, and that an entry was erased only if the level
below has it. A level is committed into the one below, or dropped. Reading an entry goes down
the stack to the first record of it, and at the bottom through the entry cache of the root.

An entry is modified through the active handle that `create` or `load` return. The entries of
the database are a table; storing a row fails when it is inserted twice, or updated or deleted
while it does not exist.
-/

namespace SpnCore.Ledger.Nested

open Lib

/-- `LedgerStateRoot`. The cache also holds that an entry does not exist. -/
structure Root where
  database : Table LedgerEntry
  entryCache : LruCache LedgerKey (Option LedgerEntry)
  header : LedgerHeader

/-- `LedgerState`. `active` are the keys with an active handle. -/
structure Level where
  entry : Table Record := .empty
  header : LedgerHeader
  shouldUpdateLastModified : Bool
  isSealed : Bool := false
  active : List LedgerKey := []

/-- A stack of ledger states, the innermost one first. -/
structure LedgerStack where
  levels : List Level := []
  root : Root

/-- What stops an operation. -/
inductive StateError where
  /-- There is no level to work on. -/
  | noLevel
  /-- "LedgerState is sealed" -/
  | isSealed
  /-- "Key already exists" -/
  | keyExists
  /-- "Key does not exist" -/
  | keyMissing
  /-- "Key is active" -/
  | keyActive
  /-- "Key is not active" -/
  | keyNotActive
  /-- `printErrorAndAbort` -/
  | fatal
deriving DecidableEq, Repr

/-! ### Reading -/

/-- `loadAccount`, `loadTrustLine`, `loadOffer` and `loadData`. There is no trust line for the
native asset, and none of an issuer: the program aborts when it looks for one. -/
def Root.load (root : Root) (key : LedgerKey) : Option (Option LedgerEntry) :=
  match key with
  | .trustLine accountID asset =>
    if asset = .native then none
    else if asset.issuer? = some accountID then none
    else some (root.database.lookup key)
  | .account _ | .offer _ _ | .data _ _ => some (root.database.lookup key)

/-- The entry under a key, from the cache or the database. -/
def Root.getNewestVersion (root : Root) (key : LedgerKey) : Option (Option LedgerEntry × Root) :=
  match root.entryCache.get key with
  | some (entry, entryCache) => some (entry, { root with entryCache })
  | none =>
    (root.load key).map fun entry =>
      (entry, { root with entryCache := root.entryCache.put key entry })

/-- The entry under a key as the innermost of some levels shows it. -/
def getNewestVersion : List Level → LedgerKey → Root → Option (Option LedgerEntry × Root)
  | [], key, root => root.getNewestVersion key
  | level :: parents, key, root =>
    match level.entry.lookup key with
    | some record => some (record.value?, root)
    | none => getNewestVersion parents key root

/-- The loop of `getAllOffers` over the records of a level. -/
def collectOffer (offers : Table LedgerEntry) (record : Record) : Table LedgerEntry :=
  if (Keyed.key record : LedgerKey).isOffer then
    match record with
    | .dead key => offers.erase key
    | .live entry => offers.upsert entry
  else offers

/-- All offers. -/
def getAllOffers : List Level → Root → Table LedgerEntry
  | [], root => root.database.filter fun entry => (Keyed.key entry : LedgerKey).isOffer
  | level :: parents, root => level.entry.values.foldl collectOffer (getAllOffers parents root)

/-- The offer of the account buys or sells the asset. -/
def concerns (account : AccountID) (asset : Asset) : LedgerEntryData → Bool
  | .offer oe => decide (oe.sellerID = account) &&
      (decide (oe.selling = asset) || decide (oe.buying = asset))
  | .account _ | .trustLine _ | .data _ => false

/-- The text of an asset code: what comes before the first zero. -/
def assetCodeToStr : Asset → List UInt8
  | .native => []
  | .alphaNum4 assetCode _ => assetCode.toList.takeWhile (· != 0)
  | .alphaNum12 assetCode _ => assetCode.toList.takeWhile (· != 0)

/-- The columns of the assets agree: the code as a text, and the issuer. -/
def sameColumns (a b : Asset) : Bool :=
  decide (assetCodeToStr a = assetCodeToStr b) && decide (a.issuer? = b.issuer?)

/-- The row of an offer meets the query of `loadOffersByAccountAndAsset`. -/
def rowConcerns (account : AccountID) (asset : Asset) : LedgerEntryData → Bool
  | .offer oe => decide (oe.sellerID = account) &&
      (sameColumns oe.selling asset || sameColumns oe.buying asset)
  | .account _ | .trustLine _ | .data _ => false

/-- The loop of `getOffersByAccountAndAsset` over the records of a level. -/
def collectOfferOf (account : AccountID) (asset : Asset) (offers : Table LedgerEntry)
    (record : Record) : Table LedgerEntry :=
  if (Keyed.key record : LedgerKey).isOffer then
    match record with
    | .dead key => offers.erase key
    | .live entry =>
      if concerns account asset entry.data then offers.upsert entry
      else offers.erase (Keyed.key entry)
  else offers

/-- The offers of an account that buy or sell an asset. The query of the root is not made for the
native asset: the program aborts. -/
def getOffersByAccountAndAsset (account : AccountID) (asset : Asset) :
    List Level → Root → Option (Table LedgerEntry)
  | [], root =>
    if asset = .native then none
    else some (root.database.filter fun entry => rowConcerns account asset entry.data)
  | level :: parents, root =>
    (getOffersByAccountAndAsset account asset parents root).map fun offers =>
      level.entry.values.foldl (collectOfferOf account asset) offers

/-! ### Committing -/

/-- Stamps an entry with the ledger that modified it. -/
def stamp (ledgerSeq : Nat) : Record → Record
  | .live entry => .live { entry with lastModifiedLedgerSeq := ledgerSeq }
  | .dead key => .dead key

/-- The records of a level as they are committed. -/
def Level.maybeUpdateLastModified (level : Level) : Table Record :=
  level.entry.values.foldl
    (fun entries record =>
      entries.upsert
        (if level.shouldUpdateLastModified then stamp level.header.ledgerSeq record else record))
    .empty

/-- Takes over a record of the child. -/
def commitRecord (parents : List Level) (acc : Table Record × Root) (record : Record) :
    Option (Table Record × Root) :=
  match record with
  | .live entry => some (acc.1.upsert (.live entry), acc.2)
  | .dead key =>
    (getNewestVersion parents key acc.2).map fun (newest, root) =>
      -- created in this level, or existed before
      if newest.isNone then (acc.1.erase key, root) else (acc.1.upsert (.dead key), root)

/-- `LedgerState::commitChild` -/
def Level.commitChild (level : Level) (parents : List Level) (header : LedgerHeader)
    (entries : Table Record) (root : Root) : Option (Level × Root) :=
  (entries.values.foldlM (commitRecord parents) (level.entry, root)).map fun (entry, root) =>
    ({ level with entry, header }, root)

/-- `insertOrUpdateAccount` and its like: an insertion needs that there is no row, an update that
there is one. -/
def Root.insertOrUpdate (root : Root) (entry : LedgerEntry) (isInsert : Bool) : Option Root :=
  if (Keyed.key entry : LedgerKey).isOwnTrustLine then none
  else if isInsert = (root.database.lookup (Keyed.key entry)).isNone then
    some { root with database := root.database.upsert entry }
  else none

/-- `deleteAccount` and its like. -/
def Root.delete (root : Root) (key : LedgerKey) : Option Root :=
  if key.isOwnTrustLine then none
  else if (root.database.lookup key).isNone then none
  else some { root with database := root.database.erase key }

/-- `storeAccount` and its like, for a record of the child. -/
def Root.store (root : Root) : Record → Option Root
  | .live entry => do
      let (previous, root) ← root.getNewestVersion (Keyed.key entry)
      root.insertOrUpdate entry previous.isNone
  | .dead key => root.delete key

/-- `LedgerStateRoot::commitChild` -/
def Root.commitChild (root : Root) (header : LedgerHeader) (entries : Table Record) :
    Option Root :=
  (entries.values.foldlM Root.store root).map fun root =>
    { root with header, entryCache := root.entryCache.clear }

/-! ### Operations -/

/-- The operations on a stack. All but the last work on the innermost level. -/
inductive Op where
  | openChild (shouldUpdateLastModified : Bool)
  /-- A query, which may change the cache. -/
  | getNewestVersion (key : LedgerKey)
  | create (entry : LedgerEntry)
  | load (key : LedgerKey)
  /-- Writes through the active handle of the key of the entry. -/
  | write (entry : LedgerEntry)
  | deactivate (key : LedgerKey)
  | erase (key : LedgerKey)
  | writeHeader (header : LedgerHeader)
  /-- Also `getDelta` and the other queries that seal the level. -/
  | getChanges
  | commit
  /-- Rolls back a level and all levels inside it: the innermost one is level 0. -/
  | rollback (level : Nat)

/-- A method of a ledger state. -/
abbrev StackM := EStateM StateError LedgerStack

/-- Puts a level in place of the innermost one. -/
def putLevel (level : Level) (parents : List Level) : StackM Unit :=
  modify fun s => { s with levels := level :: parents }

/-- Looks an entry up, which may change the cache. -/
def newestVersion (levels : List Level) (key : LedgerKey) : StackM (Option LedgerEntry) := do
  let s ← get
  match getNewestVersion levels key s.root with
  | none => throw .fatal
  | some (newest, root) =>
    set { s with root }
    return newest

/-- `LedgerState::create` -/
def create (level : Level) (parents : List Level) (entry : LedgerEntry) : StackM Unit := do
  ensure (!level.isSealed) .isSealed
  let newest ← newestVersion (level :: parents) (Keyed.key entry)
  ensure newest.isNone .keyExists
  putLevel { level with
    entry := level.entry.upsert (.live entry), active := Keyed.key entry :: level.active } parents

/-- `LedgerState::load` -/
def load (level : Level) (parents : List Level) (key : LedgerKey) : StackM Unit := do
  ensure (!level.isSealed) .isSealed
  ensure (!decide (key ∈ level.active)) .keyActive
  match ← newestVersion (level :: parents) key with
  | none => pure ()
  | some entry =>
    putLevel { level with
      entry := level.entry.upsert (.live entry), active := key :: level.active } parents

/-- Writes to the entry of an active handle. -/
def write (level : Level) (parents : List Level) (entry : LedgerEntry) : StackM Unit := do
  ensure (decide (Keyed.key entry ∈ level.active)) .keyNotActive
  putLevel { level with entry := level.entry.upsert (.live entry) } parents

/-- `LedgerState::deactivate` -/
def deactivate (level : Level) (parents : List Level) (key : LedgerKey) : StackM Unit := do
  ensure (decide (key ∈ level.active)) .keyNotActive
  putLevel { level with active := level.active.filter fun k => decide (k ≠ key) } parents

/-- `LedgerState::erase` -/
def erase (level : Level) (parents : List Level) (key : LedgerKey) : StackM Unit := do
  ensure (!level.isSealed) .isSealed
  let newest ← newestVersion (level :: parents) key
  ensure newest.isSome .keyMissing
  let previous ← newestVersion parents key
  putLevel { level with
    -- created in this level, or existed before
    entry := if previous.isNone then level.entry.erase key else level.entry.upsert (.dead key),
    active := level.active.filter fun k => decide (k ≠ key) } parents

/-- The records that a level commits. -/
def Level.sealedEntry (level : Level) : Table Record :=
  if level.isSealed then level.entry else level.maybeUpdateLastModified

/-- `LedgerState::commit` -/
def commit (level : Level) (parents : List Level) : StackM Unit := do
  let s ← get
  match parents with
  | parent :: parents =>
    match parent.commitChild parents level.header level.sealedEntry s.root with
    | none => throw .fatal
    | some (parent, root) => set ({ levels := parent :: parents, root } : LedgerStack)
  | [] =>
    match s.root.commitChild level.header level.sealedEntry with
    | none => throw .fatal
    | some root => set ({ levels := [], root } : LedgerStack)

/-- Opens a ledger state on top of another one, whose handles become inactive. -/
def openChild (shouldUpdateLastModified : Bool) (level : Level) (parents : List Level) :
    StackM Unit := do
  ensure (!level.isSealed) .isSealed
  putLevel { header := level.header, shouldUpdateLastModified }
    ({ level with active := [] } :: parents)

/-- Opens a ledger state on top of the root. -/
def openOnRoot (shouldUpdateLastModified : Bool) : StackM Unit := do
  let s ← get
  putLevel { header := s.root.header, shouldUpdateLastModified } []

/-- Rolls back a level and the levels inside it. -/
def rollback (n : Nat) : StackM Unit := do
  let s ← get
  ensure (decide (n < s.levels.length)) .noLevel
  set { s with levels := s.levels.drop (n + 1) }

/-- A query, whose result is not used. -/
def query (levels : List Level) (key : LedgerKey) : StackM Unit := do
  let _ ← newestVersion levels key

/-- An operation on the innermost level. -/
def onLevel (level : Level) (parents : List Level) : Op → StackM Unit
  | .getNewestVersion key => query (level :: parents) key
  | .openChild shouldUpdateLastModified => openChild shouldUpdateLastModified level parents
  | .create entry => create level parents entry
  | .load key => load level parents key
  | .write entry => write level parents entry
  | .deactivate key => deactivate level parents key
  | .erase key => erase level parents key
  | .writeHeader header => putLevel { level with header } parents
  | .getChanges =>
    putLevel { level with entry := level.sealedEntry, isSealed := true, active := [] } parents
  | .commit => commit level parents
  | .rollback n => rollback n

/-- An operation when no ledger state is open. -/
def onRoot : Op → StackM Unit
  | .openChild shouldUpdateLastModified => openOnRoot shouldUpdateLastModified
  | .getNewestVersion key => query [] key
  | _ => throw .noLevel

/-- One operation. -/
def step (op : Op) : StackM Unit := do
  let s ← get
  match s.levels with
  | [] => onRoot op
  | level :: parents => onLevel level parents op

/-- Performs operations one after the other. Returns how each of them ended, with the error that
it threw if any, or nothing when the program aborts. -/
def runOps : List Op → LedgerStack → Option (LedgerStack × List (Op × Option StateError))
  | [], s => some (s, [])
  | op :: ops, s =>
    match step op s with
    | .ok _ t => (runOps ops t).map fun (t, trace) => (t, (op, none) :: trace)
    | .error e t =>
      if e = .fatal then none
      else (runOps ops t).map fun (t, trace) => (t, (op, some e) :: trace)

end SpnCore.Ledger.Nested
