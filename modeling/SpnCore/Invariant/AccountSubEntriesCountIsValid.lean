import SpnCore.Invariant.LedgerStateDelta
import SpnCore.Util.Numeric

/-!
# The count of sub-entries

`AccountSubEntriesCountIsValid` compares, for every account of a delta, the change of the recorded
count with the number of signers, trust lines, offers and data entries that the delta adds. All
numbers are 32 bits wide, so a check that finds nothing shows that the recorded count is the
number of sub-entries up to a multiple of `2 ^ 32`.
-/

namespace SpnCore.Ledger.AccountSubEntriesCountIsValid

open Lib

/-- The number of values of a `uint32_t`. -/
def uint32Size : Nat := 4294967296

/-- Conversion to `int32_t`, and the result of an operation on them: it wraps around. -/
def toInt32 (x : Int) : Int :=
  x.bmod uint32Size

/-! ### The check -/

structure SubEntriesChange where
  numSubEntries : Int := 0
  signers : Int := 0
  calculatedSubEntries : Int := 0
deriving DecidableEq, Repr

abbrev Changes := FMap AccountID SubEntriesChange

/-- `subEntriesChange[accountID]` -/
def Changes.get (changes : Changes) (accountID : AccountID) : SubEntriesChange :=
  (changes.lookup accountID).getD {}

def calculateDelta (current previous : Option LedgerEntry) : Int :=
  (if current.isSome then 1 else 0) - if previous.isSome then 1 else 0

/-- The count that an account records, as an `int32_t`. -/
def recordedCount (entry : LedgerEntry) : Int :=
  match entry.data with
  | .account acc => toInt32 acc.numSubEntries.toNat
  | .trustLine _ | .offer _ | .data _ => 0

/-- The number of signers of an account, as an `int32_t`. -/
def signerCount (entry : LedgerEntry) : Int :=
  match entry.data with
  | .account acc => toInt32 acc.signers.length
  | .trustLine _ | .offer _ | .data _ => 0

/-- `subEntriesChange[accountID].calculatedSubEntries += delta` -/
def addCalculated (changes : Changes) (accountID : AccountID) (delta : Int) : Changes :=
  let change := changes.get accountID
  changes.insert accountID
    { change with calculatedSubEntries := toInt32 (change.calculatedSubEntries + delta) }

/-- Both versions of an entry have its key, so they are of one type. -/
def updateChangedSubEntriesCount (changes : Changes) (delta : EntryDelta) :
    Except LedgerError Changes :=
  match delta.current <|> delta.previous with
  | none => .error .assertion
  | some valid =>
    match valid.data with
    | .account acc =>
      let change := changes.get acc.accountID
      let numSubEntries :=
        toInt32 (delta.current.elim 0 recordedCount - delta.previous.elim 0 recordedCount)
      let signers := toInt32 (delta.current.elim 0 signerCount - delta.previous.elim 0 signerCount)
      let calculated := toInt32 (change.calculatedSubEntries + signers)
      .ok (changes.insert acc.accountID ⟨numSubEntries, signers, calculated⟩)
    | .trustLine line =>
      .ok (addCalculated changes line.accountID (calculateDelta delta.current delta.previous))
    | .offer oe =>
      .ok (addCalculated changes oe.sellerID (calculateDelta delta.current delta.previous))
    | .data de =>
      .ok (addCalculated changes de.accountID (calculateDelta delta.current delta.previous))

/-- The first account whose recorded count changes otherwise than its sub-entries. -/
def mismatch (toStrKey : AccountID → String) (changes : Changes) : Option String :=
  changes.entries.findSome? fun e =>
    if e.2.numSubEntries ≠ e.2.calculatedSubEntries then
      some ("Change in Account " ++ toStrKey e.1 ++ " numSubEntries (" ++
        toString e.2.numSubEntries ++ ") does not match change in number of subentries (" ++
        toString e.2.calculatedSubEntries ++ ")")
    else none

/-- An account that the delta deletes has no sub-entries but its signers. The sum is one of
`uint32_t`. -/
def checkDeleted (toStrKey : AccountID → String) (changes : Changes) (delta : EntryDelta) :
    Except Stop Unit :=
  match delta.current, delta.previous with
  | some _, _ => .ok ()
  | none, none => .error (.raises .assertion)
  | none, some previous =>
    match previous.data with
    | .account acc =>
      let change := changes.get acc.accountID
      let numSigners := toInt32 (acc.numSubEntries.toNat + change.numSubEntries - change.signers)
      if numSigners ≠ toInt32 acc.signers.length then
        let otherSubEntries :=
          toInt32 (toInt32 acc.numSubEntries.toNat - toInt32 acc.signers.length)
        report (some ("Deleted Account " ++ toStrKey acc.accountID ++ " has " ++
          toString otherSubEntries ++ " subentries other than signers"))
      else .ok ()
    | .trustLine _ | .offer _ | .data _ => .ok ()

def checkOnOperationApply (toStrKey : AccountID → String)
    (lsDelta : LedgerStateDelta (Table EntryDelta)) :
    Except LedgerError (Option String) :=
  returned do
    let changes ← raising (lsDelta.entry.values.foldlM updateChangedSubEntriesCount ∅)
    report (mismatch toStrKey changes)
    lsDelta.entry.values.forM (checkDeleted toStrKey changes)

/-! ### Ledgers whose accounts count right -/

/-- The account that an entry belongs to. -/
def owner : LedgerKey → AccountID
  | .account accountID => accountID
  | .trustLine accountID _ => accountID
  | .offer sellerID _ => sellerID
  | .data accountID _ => accountID

/-- The number of sub-entries that an entry records. -/
def recorded (entry : LedgerEntry) : Int :=
  match entry.data with
  | .account acc => acc.numSubEntries.toNat
  | .trustLine _ | .offer _ | .data _ => 0

/-- The number of sub-entries that an entry is: the signers of an account, or the entry itself. -/
def counted (entry : LedgerEntry) : Int :=
  match entry.data with
  | .account acc => acc.signers.length
  | .trustLine _ | .offer _ | .data _ => 1

/-- The same, as far as it belongs to an account. -/
def countedFor (accountID : AccountID) (entry : LedgerEntry) : Int :=
  if owner (Keyed.key entry) = accountID then counted entry else 0

/-- The number of signers, trust lines, offers and data entries of an account. -/
def subEntries (ledger : Entries) (accountID : AccountID) : Int :=
  ledger.total (countedFor accountID)

/-- Every account records the number of its sub-entries, and an account that does not exist has
none. -/
structure CountsSubEntries (ledger : Entries) : Prop where
  account : ∀ accountID entry, ledger.lookup (.account accountID) = some entry →
    recorded entry = subEntries ledger accountID
  missing : ∀ accountID, ledger.lookup (.account accountID) = none →
    ∀ entry ∈ ledger.values, owner (Keyed.key entry) ≠ accountID

variable {ledger : Entries} {accountID : AccountID}

theorem counted_nonneg (entry : LedgerEntry) : 0 ≤ counted entry := by
  unfold counted
  split <;> omega

theorem countedFor_nonneg (accountID : AccountID) (entry : LedgerEntry) :
    0 ≤ countedFor accountID entry := by
  have h := counted_nonneg entry
  unfold countedFor
  split <;> omega

/-- Only accounts count as less than one sub-entry. -/
theorem account_of_counted {entry : LedgerEntry} (h : counted entry < 1) :
    Keyed.key entry = LedgerKey.account (owner (Keyed.key entry)) := by
  rcases entry with ⟨seq, acc | line | oe | de⟩
  case account => rfl
  all_goals exact absurd h (lt_irrefl 1)

/-- Both cases of `CountsSubEntries` in one: an account that does not exist records nothing. -/
theorem countsSubEntries_iff : CountsSubEntries ledger ↔ ∀ accountID,
    (ledger.lookup (.account accountID)).elim 0 recorded = subEntries ledger accountID := by
  constructor
  · intro h accountID
    cases hlookup : ledger.lookup (.account accountID) with
    | some entry => exact h.account accountID entry hlookup
    | none =>
      have hnone : ∀ x ∈ ledger.values.map (countedFor accountID), x = 0 := by
        intro x hx
        obtain ⟨entry, hentry, rfl⟩ := List.mem_map.1 hx
        exact if_neg (h.missing accountID hlookup entry hentry)
      rw [subEntries, Table.total_eq_sum, List.sum_eq_zero hnone]
      rfl
  · intro h
    refine ⟨?_, ?_⟩
    · intro accountID entry hlookup
      have hcount := h accountID
      rwa [hlookup] at hcount
    · intro accountID hlookup entry hentry howner
      have hcount := h accountID
      rw [hlookup, Option.elim_none] at hcount
      -- an entry of the account counts for nothing only if it is the account itself
      have hle : countedFor accountID entry ≤ subEntries ledger accountID :=
        Table.le_total (Table.mem_values.1 hentry) fun _ v _ => countedFor_nonneg accountID v
      rw [countedFor, if_pos howner] at hle
      have hless : counted entry < 1 := by omega
      have hkey := account_of_counted hless
      rw [Table.mem_values, hkey, howner, hlookup] at hentry
      cases hentry

/-! ### What the tallies say -/

/-- Numbers of 32 bits, where the check compares. -/
abbrev Word := ZMod uint32Size

theorem cast_toInt32 {x : Int} : ((toInt32 x : Int) : Word) = x :=
  cast_bmod x

theorem Changes.get_insert (changes : Changes) (a b : AccountID) (change : SubEntriesChange) :
    Changes.get (changes.insert a change) b = if b = a then change else changes.get b := by
  rw [Changes.get, FMap.lookup_insert]
  split
  · rfl
  · rfl

variable {changes changes' : Changes} {delta : EntryDelta}

/-- What a round of the loop leaves of the tally of the account that the entry belongs to. -/
structure Tallied (delta : EntryDelta) (before after : SubEntriesChange) : Prop where
  calculated : (after.calculatedSubEntries : Word) =
    before.calculatedSubEntries + (delta.gain counted : Int)
  account : ∀ accountID, delta.key = .account accountID →
    (after.numSubEntries : Word) = (delta.gain recorded : Int)
  other : (∀ accountID, delta.key ≠ .account accountID) →
    after.numSubEntries = before.numSubEntries

theorem cast_gain (f : LedgerEntry → Int) (delta : EntryDelta) :
    ((delta.gain f : Int) : Word) = delta.gain fun entry => (f entry : Word) :=
  Change.map_gain (Int.castAddHom Word) f delta

/-- A key that is not one of an account has entries that count as one. -/
theorem calculateDelta_eq (h : ∀ accountID, delta.key ≠ .account accountID) :
    calculateDelta delta.current delta.previous = delta.gain counted := by
  have hone : delta.gain counted = delta.gain fun _ => (1 : Int) := by
    refine Change.gain_congr fun entry hkey => ?_
    rcases entry with ⟨seq, acc | line | oe | de⟩
    case account => exact absurd hkey.symm (h acc.accountID)
    all_goals rfl
  rw [hone, Change.gain, calculateDelta]
  cases delta.current <;> cases delta.previous <;> rfl

theorem addCalculated_tallied (hkey : ∀ accountID, delta.key ≠ .account accountID)
    (howner : owner delta.key = accountID) :
    ∃ change, addCalculated changes accountID (calculateDelta delta.current delta.previous) =
        changes.insert (owner delta.key) change ∧
      Tallied delta (changes.get (owner delta.key)) change := by
  refine ⟨_, by rw [howner]; rfl, ?_, ?_, ?_⟩
  · rw [calculateDelta_eq hkey, howner, cast_toInt32]
    push_cast
    rfl
  · intro a ha
    exact absurd ha (hkey a)
  · intro _
    rw [howner]

theorem cast_recordedCount (entry : LedgerEntry) :
    (recordedCount entry : Word) = recorded entry := by
  rcases entry with ⟨seq, acc | line | oe | de⟩
  case account => exact cast_toInt32
  all_goals rfl

/-- The signers of an account are all that it counts as. -/
theorem cast_signerCount {entry : LedgerEntry}
    (h : Keyed.key entry = LedgerKey.account accountID) :
    (signerCount entry : Word) = counted entry := by
  rcases entry with ⟨seq, acc | line | oe | de⟩
  case account => exact cast_toInt32
  all_goals cases h

theorem updateChangedSubEntriesCount_tallied
    (h : updateChangedSubEntriesCount changes delta = .ok changes') :
    ∃ change, changes' = changes.insert (owner delta.key) change ∧
      Tallied delta (changes.get (owner delta.key)) change := by
  unfold updateChangedSubEntriesCount at h
  split at h
  case h_1 => cases h
  case h_2 valid hvalid =>
    have hkey : Keyed.key valid = delta.key := Change.key_of_either hvalid
    rcases valid with ⟨seq, acc | line | oe | de⟩
    case account =>
      cases h
      refine ⟨_, by rw [← hkey]; rfl, ?_, ?_, ?_⟩
      · have hgain : ((delta.current.elim 0 signerCount - delta.previous.elim 0 signerCount : Int) :
            Word) = (delta.gain counted : Int) := by
          rw [cast_gain]
          exact (cast_gain signerCount delta).trans
            (Change.gain_congr fun entry h => cast_signerCount (h.trans hkey.symm))
        rw [cast_toInt32, Int.cast_add, cast_toInt32, ← hkey, ← hgain]
        rfl
      · intro _ _
        rw [cast_toInt32, cast_gain]
        exact (cast_gain recordedCount delta).trans
          (Change.gain_congr fun entry _ => cast_recordedCount entry)
      · intro hother
        exact absurd hkey.symm (hother acc.accountID)
    all_goals
      cases h
      exact addCalculated_tallied (fun a ha => by cases hkey.trans ha) (by rw [← hkey]; rfl)

/-- The tally of an account adds up what the entries of the delta count as. -/
theorem calculated_eq_gain {entry : Table EntryDelta}
    (h : entry.values.foldlM updateChangedSubEntriesCount ∅ = .ok changes)
    (accountID : AccountID) :
    ((changes.get accountID).calculatedSubEntries : Word) =
      (entry.total (Change.gain (countedFor accountID)) : Int) := by
  have hsum := foldlM_total
    (o := fun changes => ((Changes.get changes accountID).calculatedSubEntries : Word))
    (g := Change.gain (countedFor accountID)) (fun before delta after h => by
      obtain ⟨change, rfl, htally⟩ := updateChangedSubEntriesCount_tallied h
      rw [Changes.get_insert]
      split
      case isTrue howner =>
        have hgain : delta.gain (countedFor accountID) = delta.gain counted :=
          Change.gain_congr fun entry hkey => if_pos (by rw [hkey, howner])
        rw [htally.calculated, hgain, howner]
      case isFalse howner =>
        have hgain : delta.gain (countedFor accountID) = delta.gain fun _ => 0 :=
          Change.gain_congr fun entry hkey => if_neg (by rw [hkey]; exact Ne.symm howner)
        rw [hgain, Change.gain_zero, Int.cast_zero, add_zero]) h
  exact hsum.trans (zero_add _)

/-- What the tallies say about the account under a key. -/
def numSubEntriesAt (key : LedgerKey) (changes : Changes) : Word :=
  match key with
  | .account accountID => (changes.get accountID).numSubEntries
  | .trustLine _ _ | .offer _ _ | .data _ _ => 0

/-- The recorded count is assigned, and by the entry of the account only. -/
theorem numSubEntriesAt_update (h : updateChangedSubEntriesCount changes delta = .ok changes')
    (key : LedgerKey) : numSubEntriesAt key changes' =
      if key = delta.key then ((delta.gain recorded : Int) : Word)
      else numSubEntriesAt key changes := by
  obtain ⟨change, rfl, htally⟩ := updateChangedSubEntriesCount_tallied h
  rcases key with a | ⟨a, asset⟩ | ⟨a, offerID⟩ | ⟨a, dataName⟩
  case account =>
    rw [numSubEntriesAt, Changes.get_insert]
    by_cases hkey : LedgerKey.account a = delta.key
    · rw [if_pos hkey, ← hkey, owner, if_pos rfl]
      exact htally.account a hkey.symm
    · rw [if_neg hkey, numSubEntriesAt]
      split
      case isTrue howner =>
        have hother : ∀ b, delta.key ≠ .account b := by
          intro b hb
          rw [hb] at howner hkey
          exact hkey (congrArg LedgerKey.account howner)
        rw [htally.other hother, howner]
      case isFalse => rfl
  all_goals
      split
      case isTrue hkey =>
        have hgain : delta.gain recorded = delta.gain fun _ => 0 := by
          refine Change.gain_congr fun entry h => ?_
          rw [← hkey] at h
          rcases entry with ⟨seq, acc | line | oe | de⟩
          case account => cases h
          all_goals rfl
        rw [hgain, Change.gain_zero, Int.cast_zero]
        rfl
      case isFalse => rfl

theorem numSubEntries_eq_gain {entry : Table EntryDelta}
    (h : entry.values.foldlM updateChangedSubEntriesCount ∅ = .ok changes)
    (accountID : AccountID) :
    ((changes.get accountID).numSubEntries : Word) =
      ((entry.lookup (.account accountID)).elim 0 (Change.gain recorded) : Int) := by
  have hloop := Table.foldlM_values_of_some (I := fun _ => True) (o := numSubEntriesAt)
    (g := fun delta _ => ((delta.gain recorded : Int) : Word)) entry
    (fun before delta after _ _ h => ⟨trivial, fun key =>
      numSubEntriesAt_update (toOption_eq_some.1 h) key⟩) trivial (toOption_foldlM h)
  have hkey := hloop.2 (.account accountID)
  rw [numSubEntriesAt] at hkey
  rw [hkey]
  cases entry.lookup (.account accountID) with
  | none => exact Int.cast_zero.symm
  | some delta => rfl

/-- A check that finds no mismatch found equal tallies for every account. -/
theorem mismatch_eq_none {toStrKey : AccountID → String} (h : mismatch toStrKey changes = none)
    (accountID : AccountID) :
    (changes.get accountID).numSubEntries = (changes.get accountID).calculatedSubEntries := by
  rw [Changes.get]
  cases hlookup : changes.lookup accountID with
  | none => rfl
  | some change =>
    have hentry := List.findSome?_eq_none_iff.1 h ⟨accountID, change⟩ (FMap.mem_entries.2 hlookup)
    by_contra hne
    have hfound : change.numSubEntries ≠ change.calculatedSubEntries := hne
    simp only [if_pos hfound] at hentry
    cases hentry

/-! ### Soundness -/

section Soundness

variable {toStrKey : AccountID → String} {lsDelta : LedgerStateDelta (Table EntryDelta)}

/-- The recorded count of an account changes with its entry in the delta. -/
theorem recorded_apply (h : ledger.ChangedBy lsDelta.entry) (accountID : AccountID) :
    ((ledger.apply lsDelta.entry).lookup (.account accountID)).elim 0 recorded =
      (ledger.lookup (.account accountID)).elim 0 recorded +
        (lsDelta.entry.lookup (.account accountID)).elim 0 (Change.gain recorded) := by
  rw [Table.lookup_apply]
  cases hlookup : lsDelta.entry.lookup (.account accountID) with
  | none => exact (add_zero _).symm
  | some delta =>
    have hprevious := h delta (Table.mem_values_of_lookup hlookup)
    have hkey : delta.key = .account accountID := Table.key_of_lookup hlookup
    rw [hkey] at hprevious
    simp only [Option.elim_some, Change.gain, hprevious]
    omega

/-- The recorded counts after a delta without findings are right up to multiples of `2 ^ 32`. -/
theorem recorded_congr (hledger : CountsSubEntries ledger)
    (hdelta : ledger.ChangedBy lsDelta.entry)
    (hcheck : checkOnOperationApply toStrKey lsDelta = .ok none) (accountID : AccountID) :
    ((ledger.apply lsDelta.entry).lookup (.account accountID)).elim 0 recorded ≡
      subEntries (ledger.apply lsDelta.entry) accountID [ZMOD uint32Size] := by
  obtain ⟨changes, hchanges, hrest⟩ := bind_eq_ok.1 (returned_eq_none.1 hcheck)
  obtain ⟨⟨⟩, hmismatch, -⟩ := bind_eq_ok.1 hrest
  have htallies := mismatch_eq_none (report_eq_ok.1 hmismatch) accountID
  have hcalculated := calculated_eq_gain (raising_eq_ok.1 hchanges) accountID
  have hnum := numSubEntries_eq_gain (raising_eq_ok.1 hchanges) accountID
  rw [htallies, hcalculated] at hnum
  rw [← ZMod.intCast_eq_intCast_iff, recorded_apply hdelta, subEntries,
    Table.total_apply_changes _ hdelta, countsSubEntries_iff.1 hledger accountID, subEntries]
  push_cast
  rw [hnum]

theorem recorded_range (entry : LedgerEntry) :
    0 ≤ recorded entry ∧ recorded entry < uint32Size := by
  rcases entry with ⟨seq, acc | line | oe | de⟩
  case account =>
    have hlt := acc.numSubEntries.toNat_lt
    simp only [recorded, uint32Size]
    omega
  all_goals simp [recorded, uint32Size]

/-- Soundness of the check: if it finds nothing in the changes that an operation made to a ledger
whose accounts count right, the accounts count right afterwards, unless one of them would have to
count more sub-entries than a `uint32_t` can hold. -/
theorem checkOnOperationApply_sound (toStrKey : AccountID → String) (ledger : Entries)
    (lsDelta : LedgerStateDelta (Table EntryDelta)) (hledger : CountsSubEntries ledger)
    (hdelta : ledger.ChangedBy lsDelta.entry)
    (hcheck : checkOnOperationApply toStrKey lsDelta = .ok none)
    (hfits : ∀ accountID, subEntries (ledger.apply lsDelta.entry) accountID ≤ 4294967295) :
    CountsSubEntries (ledger.apply lsDelta.entry) := by
  rw [countsSubEntries_iff]
  intro accountID
  have hcongr := recorded_congr hledger hdelta hcheck accountID
  have hcounted : 0 ≤ subEntries (ledger.apply lsDelta.entry) accountID :=
    Table.total_nonneg _ fun _ entry _ => countedFor_nonneg accountID entry
  have hmax := hfits accountID
  have hrecorded :
      0 ≤ ((ledger.apply lsDelta.entry).lookup (.account accountID)).elim 0 recorded ∧
        ((ledger.apply lsDelta.entry).lookup (.account accountID)).elim 0 recorded <
          uint32Size := by
    cases (ledger.apply lsDelta.entry).lookup (.account accountID) with
    | none => exact ⟨le_refl 0, by decide⟩
    | some entry => exact recorded_range entry
  have hlt : subEntries (ledger.apply lsDelta.entry) accountID < uint32Size := by
    simp only [uint32Size]
    omega
  calc ((ledger.apply lsDelta.entry).lookup (.account accountID)).elim 0 recorded
      = _ % (uint32Size : Int) := (Int.emod_eq_of_lt hrecorded.1 hrecorded.2).symm
    _ = subEntries (ledger.apply lsDelta.entry) accountID % uint32Size := hcongr
    _ = subEntries (ledger.apply lsDelta.entry) accountID := Int.emod_eq_of_lt hcounted hlt

end Soundness

/-! ### An account that adds an offer -/

section OneMore

def sampleAccount (n : Nat) : LedgerEntry where
  lastModifiedLedgerSeq := 1
  data := .account { accountID := 1, balance := 0, seqNum := 0, numSubEntries := .ofNat n }

def sampleOffer (n : Nat) : LedgerEntry where
  lastModifiedLedgerSeq := 1
  data := .offer
    { sellerID := 1, offerID := n, selling := .native,
      buying := .alphaNum4 (.replicate 4 65) 1, amount := 1, price := ⟨1, 1⟩ }

/-- The offers 1 to `n`. -/
def sampleOffers : Nat → Entries
  | 0 => .empty
  | n + 1 => (sampleOffers n).upsert (sampleOffer (n + 1))

/-- A ledger with one account and its `n` offers. -/
def sampleLedger (n : Nat) : Entries :=
  (sampleOffers n).upsert (sampleAccount n)

/-- The account adds an offer. -/
def oneMore (n : Nat) : Table EntryDelta :=
  (Table.empty.upsert
    { key := .account 1, current := some (sampleAccount (n + 1)),
      previous := some (sampleAccount n),
      key_current := fun _ h => by cases h; rfl
      key_previous := fun _ h => by cases h; rfl }).upsert
    { key := .offer 1 (n + 1), current := some (sampleOffer (n + 1)), previous := none,
      key_current := fun _ h => by cases h; rfl
      key_previous := fun _ h => by cases h }

def sampleHeader : LedgerHeader where
  ledgerSeq := 2
  closeTime := 0
  totalCoins := 0
  feePool := 0
  inflationSeq := 0
  idPool := 0
  baseFee := 100
  baseReserve := 0
  maxTxSetSize := 50

theorem lookup_sampleOffers_of_ne {n : Nat} {key : LedgerKey}
    (h : ∀ m, 1 ≤ m → m ≤ n → key ≠ .offer 1 m) : (sampleOffers n).lookup key = none := by
  induction n with
  | zero => rfl
  | succ n ih =>
    rw [sampleOffers, Table.lookup_upsert_of_ne (h (n + 1) (by omega) (le_refl _))]
    exact ih fun m hm hn => h m hm (by omega)

theorem total_sampleOffers (n : Nat) (accountID : AccountID) :
    (sampleOffers n).total (countedFor accountID) = if accountID = 1 then (n : Int) else 0 := by
  induction n with
  | zero => simp [sampleOffers]
  | succ n ih =>
    have hnew : (sampleOffers n).lookup (Keyed.key (sampleOffer (n + 1))) = none :=
      lookup_sampleOffers_of_ne fun m _ hm heq => by
        have hm' : n + 1 = m := (LedgerKey.offer.inj heq).2
        omega
    rw [sampleOffers, Table.total_upsert, ih, Table.weight_of_none _ hnew]
    by_cases ha : accountID = 1
    · subst ha
      simp [countedFor, counted, sampleOffer, owner, LedgerEntryData.key]
    · simp [countedFor, sampleOffer, owner, LedgerEntryData.key, ha, Ne.symm ha]

theorem subEntries_sampleLedger (n : Nat) (accountID : AccountID) :
    subEntries (sampleLedger n) accountID = if accountID = 1 then (n : Int) else 0 := by
  have hnew : (sampleOffers n).lookup (Keyed.key (sampleAccount n)) = none :=
    lookup_sampleOffers_of_ne fun m _ _ heq => by cases heq
  have hcounted : countedFor accountID (sampleAccount n) = 0 := by
    simp [countedFor, counted, sampleAccount]
  rw [subEntries, sampleLedger, Table.total_upsert, total_sampleOffers,
    Table.weight_of_none _ hnew, hcounted, sub_zero, add_zero]

theorem sampleLedger_countsSubEntries {n : Nat} (hn : n < uint32Size) :
    CountsSubEntries (sampleLedger n) := by
  rw [countsSubEntries_iff]
  intro accountID
  rw [subEntries_sampleLedger, sampleLedger, Table.lookup_upsert]
  by_cases ha : accountID = 1
  · subst ha
    exact congrArg Nat.cast (UInt32.toNat_ofNat_of_lt' hn)
  · have hother : LedgerKey.account accountID ≠ Keyed.key (sampleAccount n) := by
      intro heq
      cases heq
      exact ha rfl
    rw [if_neg hother, if_neg ha, lookup_sampleOffers_of_ne fun m _ _ heq => by cases heq]
    rfl

theorem sampleLedger_changedBy (n : Nat) : (sampleLedger n).ChangedBy (oneMore n) := by
  intro delta hdelta
  rw [Table.mem_values, oneMore, Table.lookup_upsert, Table.lookup_upsert, Table.lookup_empty]
    at hdelta
  split at hdelta
  case isTrue =>
    cases hdelta
    have hne : LedgerKey.offer 1 (n + 1) ≠ Keyed.key (sampleAccount n) := by
      intro heq
      cases heq
    rw [sampleLedger, Table.lookup_upsert_of_ne hne]
    exact lookup_sampleOffers_of_ne fun m _ hm heq => by
      cases heq
      omega
  case isFalse =>
    split at hdelta
    case isTrue =>
      cases hdelta
      exact Table.lookup_upsert_self
    case isFalse => cases hdelta

/-- What the new offer adds. -/
theorem subEntries_oneMore (n : Nat) (accountID : AccountID) :
    subEntries ((sampleLedger n).apply (oneMore n)) accountID =
      if accountID = 1 then (n : Int) + 1 else 0 := by
  have hgain : (oneMore n).total (Change.gain (countedFor accountID)) =
      if accountID = 1 then 1 else 0 := by
    rw [oneMore, Table.total_upsert, Table.total_upsert, Table.total_empty]
    simp only [Table.weight, key_change, Table.lookup_empty, Table.lookup_upsert, reduceCtorEq,
      if_false, Option.elim_none, sub_zero, zero_add, Change.gain, Option.elim_some]
    by_cases ha : accountID = 1
    · subst ha
      simp [countedFor, counted, sampleOffer, sampleAccount, owner, LedgerEntryData.key]
    · simp [countedFor, sampleOffer, sampleAccount, owner, LedgerEntryData.key, ha, Ne.symm ha]
  rw [subEntries, Table.total_apply_changes _ (sampleLedger_changedBy n), hgain, ← subEntries,
    subEntries_sampleLedger]
  split <;> omega

/-- The check finds nothing when a first offer is added. -/
theorem checkOnOperationApply_sound_sample :
    CountsSubEntries ((sampleLedger 0).apply (oneMore 0)) :=
  checkOnOperationApply_sound (fun _ => "") _ ⟨oneMore 0, ⟨sampleHeader, sampleHeader⟩⟩
    (sampleLedger_countsSubEntries (by decide)) (sampleLedger_changedBy 0) (by decide +kernel)
    (fun accountID => by
      rw [subEntries_oneMore]
      split <;> omega)

/-- Nor does it when the count of an account with `2 ^ 32 - 1` offers wraps around to zero. -/
theorem checkOnOperationApply_misses_wraparound :
    CountsSubEntries (sampleLedger 4294967295) ∧
    (sampleLedger 4294967295).ChangedBy (oneMore 4294967295) ∧
    checkOnOperationApply (fun _ => "")
      ⟨oneMore 4294967295, ⟨sampleHeader, sampleHeader⟩⟩ = .ok none ∧
    ¬ CountsSubEntries ((sampleLedger 4294967295).apply (oneMore 4294967295)) := by
  refine ⟨sampleLedger_countsSubEntries (by decide), sampleLedger_changedBy _, by decide +kernel,
    ?_⟩
  intro hcounts
  have hlookup : ((sampleLedger 4294967295).apply (oneMore 4294967295)).lookup (.account 1) =
      some (sampleAccount 4294967296) := by
    rfl
  have hcount := hcounts.account 1 _ hlookup
  have hrecorded : recorded (sampleAccount 4294967296) = 0 := by decide +kernel
  rw [subEntries_oneMore, if_pos rfl, hrecorded] at hcount
  omega

end OneMore

end SpnCore.Ledger.AccountSubEntriesCountIsValid
