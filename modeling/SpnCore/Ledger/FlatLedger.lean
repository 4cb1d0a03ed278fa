import SpnCore.Ledger.NestedState
import SpnCore.Lib.Wp
import SpnCore.Transactions.Operations

/-!
# The flat ledger behind nested ledger states

The flat ledger is a map from keys to entries that is copied when a level is opened, kept on a
commit and restored on a rollback. It also keeps which entries have handles and whether a query has
sealed it, and with that it says of every operation whether it is accepted. What a stack of levels
shows is such a map, and the levels below the innermost one are the saved copies. Two facts make
reading a stack the same as reading the map: the cache agrees with the database, and a level records
that an entry does not exist only if the level below has it.
-/

namespace SpnCore.Ledger.Nested

open Lib

/-! ### The flat ledger -/

/-- A header and a map from keys to entries, as a ledger state holds them. -/
structure FlatLedger where
  header : LedgerHeader
  entries : LedgerKey → Option LedgerEntryData
  /-- A query has sealed the ledger state. -/
  isSealed : Bool := false
  /-- The keys with an active handle. -/
  active : List LedgerKey := []

def FlatLedger.write (flat : FlatLedger) (data : LedgerEntryData) : FlatLedger :=
  { flat with entries := Function.update flat.entries data.key (some data) }

def FlatLedger.erase (flat : FlatLedger) (key : LedgerKey) : FlatLedger :=
  { flat with entries := Function.update flat.entries key none }

/-- Hands out a handle of the entry, if there is one. -/
def FlatLedger.activate (flat : FlatLedger) (key : LedgerKey) : FlatLedger :=
  if (flat.entries key).isSome then { flat with active := key :: flat.active } else flat

def FlatLedger.deactivate (flat : FlatLedger) (key : LedgerKey) : FlatLedger :=
  { flat with active := flat.active.filter fun k => decide (k ≠ key) }

/-- What a ledger state refuses: changes once it is sealed, a second handle of an entry, writing
without a handle, creating an entry that exists and erasing one that does not. -/
def FlatLedger.refusal (flat : FlatLedger) : Op → Option StateError
  | .openChild _ => if flat.isSealed then some .isSealed else none
  | .create entry =>
    if flat.isSealed then some .isSealed
    else if (flat.entries entry.data.key).isSome then some .keyExists
    else none
  | .load key =>
    if flat.isSealed then some .isSealed
    else if key ∈ flat.active then some .keyActive
    else none
  | .write entry => if entry.data.key ∈ flat.active then none else some .keyNotActive
  | .deactivate key => if key ∈ flat.active then none else some .keyNotActive
  | .erase key =>
    if flat.isSealed then some .isSealed
    else if (flat.entries key).isNone then some .keyMissing
    else none
  | .getNewestVersion _ | .writeHeader _ | .getChanges | .commit | .rollback _ => none

/-- The ledger and the copies to go back to, the newest first. -/
structure FlatStack where
  current : FlatLedger
  saved : List FlatLedger := []

/-- Goes back to a copy, counted from the newest one. -/
def FlatStack.restore (f : FlatStack) (n : Nat) : FlatStack :=
  match f.saved.drop n with
  | [] => f
  | current :: saved => { current, saved }

/-- Keeps the entries and gives up the newest copy. -/
def FlatStack.keep (f : FlatStack) : FlatStack :=
  match f.saved with
  | [] => f
  | copy :: saved =>
    { current := { copy with header := f.current.header, entries := f.current.entries }, saved }

/-- What an operation does to the flat ledger. -/
def FlatStack.step (f : FlatStack) : Op → FlatStack
  | .openChild _ =>
    { current := { f.current with isSealed := false, active := [] },
      saved := { f.current with active := [] } :: f.saved }
  | .getNewestVersion _ => f
  | .create entry =>
    { f with current := (f.current.write entry.data).activate entry.data.key }
  | .load key => { f with current := f.current.activate key }
  | .write entry => { f with current := f.current.write entry.data }
  | .deactivate key => { f with current := f.current.deactivate key }
  | .erase key => { f with current := (f.current.erase key).deactivate key }
  | .writeHeader header => { f with current := { f.current with header } }
  | .getChanges => { f with current := { f.current with isSealed := true, active := [] } }
  | .commit => f.keep
  | .rollback n => f.restore n

/-- What refuses an operation, if anything does. Below the copies there is no ledger state to work
on, only one to open and to ask. -/
def FlatStack.refusal (f : FlatStack) (op : Op) : Option StateError :=
  match op with
  | .openChild _ | .getNewestVersion _ => f.current.refusal op
  | .rollback n => if n < f.saved.length then none else some .noLevel
  | _ => if f.saved.isEmpty then some .noLevel else f.current.refusal op

/-- Performs the operations that are not refused. Returns how each of them ended. -/
def FlatStack.run : FlatStack → List Op → FlatStack × List (Op × Option StateError)
  | f, [] => (f, [])
  | f, op :: ops =>
    let (g, trace) := (if (f.refusal op).isNone then f.step op else f).run ops
    (g, (op, f.refusal op) :: trace)

theorem FlatLedger.refusal_ne_fatal (flat : FlatLedger) (op : Op) :
    flat.refusal op ≠ some .fatal := by
  unfold FlatLedger.refusal
  grind

/-- No operation of the flat ledger aborts the program. -/
theorem FlatStack.refusal_ne_fatal (f : FlatStack) (op : Op) : f.refusal op ≠ some .fatal := by
  have hcurrent := f.current.refusal_ne_fatal op
  unfold FlatStack.refusal
  grind

/-! ### What a stack shows -/

/-- The newest version of an entry, without the cache. -/
def newest : List Level → Table LedgerEntry → LedgerKey → Option LedgerEntry
  | [], database, key => database.lookup key
  | level :: parents, database, key =>
    match level.entry.lookup key with
    | some record => record.value?
    | none => newest parents database key

/-- The header of the innermost level. -/
def headerOf : List Level → Root → LedgerHeader
  | [], root => root.header
  | level :: _, _ => level.header

/-- The flat ledger that some levels show. The root is never sealed and has no handles. -/
def shown (levels : List Level) (root : Root) : FlatLedger where
  header := headerOf levels root
  entries key := (newest levels root.database key).map LedgerEntry.data
  isSealed := levels.head?.any Level.isSealed
  active := levels.head?.elim [] Level.active

/-- What is shown below the innermost level, at each depth. -/
def shownBelow : List Level → Root → List FlatLedger
  | [], _ => []
  | _ :: parents, root => shown parents root :: shownBelow parents root

/-- The flat stack that a stack of levels stands for. -/
def flatten (s : LedgerStack) : FlatStack where
  current := shown s.levels s.root
  saved := shownBelow s.levels s.root

section Newest

variable {level : Level} {parents : List Level} {database : Table LedgerEntry} {key : LedgerKey}
  {record : Record} {entry : LedgerEntry} {levels : List Level}

theorem newest_of_some (h : level.entry.lookup key = some record) :
    newest (level :: parents) database key = record.value? := by
  simp [newest, h]

theorem newest_of_none (h : level.entry.lookup key = none) :
    newest (level :: parents) database key = newest parents database key := by
  simp [newest, h]

/-- Only what the innermost level records under the key matters. -/
theorem newest_congr {level' : Level} (h : level'.entry.lookup key = level.entry.lookup key) :
    newest (level' :: parents) database key = newest (level :: parents) database key := by
  simp only [newest, h]

theorem key_of_newest (h : newest levels database key = some entry) : entry.data.key = key := by
  induction levels with
  | nil => exact Table.key_of_lookup h
  | cons level parents ih =>
    cases hlookup : level.entry.lookup key with
    | none => exact ih (by rwa [newest_of_none hlookup] at h)
    | some record =>
      rw [newest_of_some hlookup] at h
      have hkey := Table.key_of_lookup hlookup
      cases record with
      | dead key => cases h
      | live entry' =>
        cases h
        exact hkey

end Newest

/-! ### The invariant -/

/-- Keys of entries that the database can hold. -/
def Storable : LedgerKey → Prop
  | .trustLine accountID asset => asset ≠ .native ∧ asset.issuer? ≠ some accountID
  | .account _ | .offer _ _ | .data _ _ => True

/-- The assets of an offer are valid. -/
def ValidAssets : LedgerEntryData → Prop
  | .offer oe => isAssetValid oe.selling = true ∧ isAssetValid oe.buying = true
  | .account _ | .trustLine _ | .data _ => True

/-- Records that the database can store. -/
def StorableRecord (record : Record) : Prop :=
  Storable (Keyed.key record) ∧ ∀ entry, record.value? = some entry → ValidAssets entry.data

/-- The cache holds what a table holds. -/
def CacheShows (entryCache : LruCache LedgerKey (Option LedgerEntry))
    (database : Table LedgerEntry) : Prop :=
  ∀ item ∈ entryCache.items, item.2 = database.lookup item.1

/-- The cache holds what the database holds. -/
def CacheAgrees (root : Root) : Prop := CacheShows root.entryCache root.database

/-- A level records that an entry does not exist only if the level below has it. -/
def NullsBelow : List Level → Table LedgerEntry → Prop
  | [], _ => True
  | level :: parents, database =>
    (∀ key, level.entry.lookup key = some (.dead key) →
      (newest parents database key).isSome = true) ∧
    NullsBelow parents database

/-- What every operation keeps. -/
structure Consistent (s : LedgerStack) : Prop where
  cache : CacheAgrees s.root
  rows : ∀ key entry, s.root.database.lookup key = some entry →
    Storable key ∧ ValidAssets entry.data
  records : ∀ level ∈ s.levels, ∀ key record, level.entry.lookup key = some record →
    StorableRecord record
  nulls : NullsBelow s.levels s.root.database

/-! ### Reading -/

section Reading

variable {root root' : Root} {key : LedgerKey} {s : LedgerStack} {levels : List Level}

/-- A read changes nothing but the cache. -/
structure Reread (root root' : Root) : Prop where
  database : root'.database = root.database
  header : root'.header = root.header
  cache : CacheAgrees root'

theorem Reread.refl (h : CacheAgrees root) : Reread root root :=
  ⟨rfl, rfl, h⟩

theorem Reread.trans {root'' : Root} (h : Reread root root') (h' : Reread root' root'') :
    Reread root root'' :=
  ⟨h'.database.trans h.database, h'.header.trans h.header, h'.cache⟩

theorem Reread.shown (h : Reread root root') (levels : List Level) :
    shown levels root' = shown levels root := by
  cases levels with
  | nil => simp only [Nested.shown, headerOf, h.database, h.header]
  | cons level parents => simp only [Nested.shown, headerOf, h.database]

theorem Reread.shownBelow (h : Reread root root') (levels : List Level) :
    shownBelow levels root' = shownBelow levels root := by
  induction levels with
  | nil => rfl
  | cons level parents ih => simp only [Nested.shownBelow, ih, h.shown]

theorem Reread.flatten (h : Reread s.root root') :
    flatten { s with root := root' } = flatten s := by
  simp only [Nested.flatten, h.shown, h.shownBelow]

theorem Consistent.reread (hs : Consistent s) (h : Reread s.root root') :
    Consistent { s with root := root' } where
  cache := h.cache
  rows := by
    simp only [h.database]
    exact hs.rows
  records := hs.records
  nulls := by
    simp only [h.database]
    exact hs.nulls

/-- Only a key that the database cannot hold stops a look-up. -/
theorem load_elim (root : Root) (key : LedgerKey) :
    (root.load key).elim (¬ Storable key) (· = root.database.lookup key) := by
  cases key with
  | trustLine accountID asset =>
    simp only [Root.load]
    split_ifs with hnative hissuer
    · exact fun h => h.1 hnative
    · exact fun h => h.2 hissuer
    · rfl
  | account accountID => rfl
  | offer sellerID offerID => rfl
  | data accountID dataName => rfl

/-- Whatever the cache holds, the root returns what the database holds. The cache may be that of
an older database in which the entry is the same. -/
theorem root_getNewestVersion_elim {database : Table LedgerEntry} (key : LedgerKey)
    (hcache : CacheShows root.entryCache database)
    (hsame : root.database.lookup key = database.lookup key) :
    (root.getNewestVersion key).elim (¬ Storable key) fun found =>
      found.1 = database.lookup key ∧ ∃ entryCache, found.2 = { root with entryCache } ∧
        CacheShows entryCache database := by
  unfold Root.getNewestVersion
  cases hget : root.entryCache.get key with
  | none =>
    refine Table.elim_map (load_elim root key) fun entry hload =>
      ⟨hload.trans hsame, _, rfl, fun item hitem => ?_⟩
    rcases LruCache.mem_of_put hitem with rfl | hitem
    · exact hload.trans hsame
    · exact hcache item hitem
  | some found =>
    obtain ⟨entry, entryCache⟩ := found
    obtain ⟨hmem, hsub⟩ := LruCache.mem_of_get hget
    exact ⟨hcache (key, entry) hmem, entryCache, rfl,
      fun item hitem => hcache item (hsub item hitem)⟩

theorem getNewestVersion_elim (hcache : CacheAgrees root) (levels : List Level)
    (key : LedgerKey) :
    (getNewestVersion levels key root).elim (¬ Storable key) fun found =>
      found.1 = newest levels root.database key ∧ Reread root found.2 := by
  induction levels with
  | nil =>
    refine Table.elim_mono (root_getNewestVersion_elim key hcache rfl) id ?_
    rintro ⟨entry, _⟩ ⟨hentry, entryCache, rfl, hshows⟩
    exact ⟨hentry, rfl, rfl, hshows⟩
  | cons level parents ih =>
    unfold getNewestVersion newest
    cases level.entry.lookup key with
    | none => exact ih
    | some record => exact ⟨rfl, .refl hcache⟩

theorem getNewestVersion_eq (hcache : CacheAgrees root) (hkey : Storable key)
    (levels : List Level) :
    ∃ root', getNewestVersion levels key root = some (newest levels root.database key, root') := by
  have hget := getNewestVersion_elim hcache levels key
  cases hfound : getNewestVersion levels key root with
  | none =>
    rw [hfound] at hget
    exact absurd hkey hget
  | some found =>
    rw [hfound] at hget
    exact ⟨found.2, by rw [← hget.1]⟩

/-- A query inside of an operation. -/
theorem wp_newestVersion (hcache : CacheAgrees s.root)
    {Q : Option LedgerEntry → LedgerStack → Prop} {E : StateError → LedgerStack → Prop}
    (hfatal : ¬ Storable key → E .fatal s)
    (h : ∀ root', Reread s.root root' →
      Q (newest levels s.root.database key) { s with root := root' }) :
    wp (newestVersion levels key) Q E s := by
  have hget := getNewestVersion_elim hcache levels key
  unfold newestVersion
  rw [wp_get_bind]
  cases hfound : getNewestVersion levels key s.root with
  | none =>
    rw [hfound] at hget
    exact wp_throw.2 (hfatal hget)
  | some found =>
    obtain ⟨entry, root'⟩ := found
    rw [hfound] at hget
    obtain ⟨rfl, hroot⟩ := hget
    rw [wp_bind, wp_set, wp_pure]
    exact h root' hroot

end Reading

end SpnCore.Ledger.Nested
