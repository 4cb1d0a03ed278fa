import Mathlib.Logic.Equiv.List
import Mathlib.Logic.Relation
import SpnCore.Catchup.LedgerManager

/-!
# Verification of downloaded ledger headers

`VerifyLedgerChainWork` reads the header files of a history archive, checkpoint by checkpoint,
and checks that they form a chain of hashes that ends in the ledger the network built on. It
keeps the last entry it read of the first file and of the newest file as `firstVerified` and
`lastVerified`; the first of them decides which buckets are applied.

What it keeps is the last entry it *read*. That entry was checked only if it was linked to the
one before: the first entry of a chain that starts somewhere is taken as it is, and an entry
that is older than expected is skipped unchecked. A run that succeeds is therefore right exactly
when the entry at which reading the first file stops is the network's own.
-/

namespace SpnCore.Catchup

open Scp List

/-- A range of ledgers. -/
structure LedgerRange where
  first : Nat
  last : Nat
  first_pos : 0 < first
  first_le_last : first ≤ last
  last_lt : last < 2 ^ 32

/-- What the work is about: the history settings, the hash of a header, the range of ledgers and
the first ledger buffered from the network. -/
structure VerifyConfig where
  checkpointFrequency : Nat
  checkpointFrequency_pos : 0 < checkpointFrequency
  currentLedgerProtocolVersion : Nat
  sha256 : LedgerHeader → Hash
  range : LedgerRange
  firstSyncing : LedgerCloseData

/-- The results of a verification. -/
inductive LedgerVerificationStatus where
  | ok
  | badHash
  | badLedgerVersion
  | overshot
  | missingEntries
deriving DecidableEq, Repr

/-- The variables of the work. -/
structure VerifyState where
  currCheckpoint : Nat
  firstVerified : LedgerHeaderHistoryEntry
  lastVerified : LedgerHeaderHistoryEntry
deriving DecidableEq

section Work

variable (cfg : VerifyConfig)

/-- The checkpoint the work starts with. -/
def firstCheckpoint : Nat :=
  checkpointContainingLedger cfg.checkpointFrequency cfg.range.first

/-- The header hashes to the recorded hash. -/
def verifyLedgerHistoryEntry (hhe : LedgerHeaderHistoryEntry) : Bool :=
  decide (cfg.sha256 hhe.header = hhe.hash)

/-- The entry is right and follows the ledger with hash `prev`. -/
def verifyLedgerHistoryLink (prev : Hash) (curr : LedgerHeaderHistoryEntry) : Bool :=
  verifyLedgerHistoryEntry cfg curr && decide (prev = curr.header.previousLedgerHash)

/-- The loop over the entries of a file. It ends with the last entry that belongs to the chain
and the last entry that was read. -/
def readEntries : LedgerHeaderHistoryEntry → LedgerHeaderHistoryEntry →
    List LedgerHeaderHistoryEntry →
    Except LedgerVerificationStatus (LedgerHeaderHistoryEntry × LedgerHeaderHistoryEntry)
  | prev, curr, [] => .ok (prev, curr)
  | prev, _, curr :: entries =>
    -- `expectedSeq` is a `uint32`
    let expectedSeq := (prev.header.ledgerSeq + 1) % 2 ^ 32
    if curr.header.ledgerVersion > cfg.currentLedgerProtocolVersion then .error .badLedgerVersion
    -- nothing to connect with: the first entry is accepted
    else if prev.header.ledgerSeq = 0 then readEntries curr curr entries
    -- harmless prehistory
    else if curr.header.ledgerSeq < expectedSeq then readEntries prev curr entries
    else if curr.header.ledgerSeq > expectedSeq then .error .overshot
    else if !verifyLedgerHistoryLink cfg prev.hash curr then .error .badHash
    else if curr.header.ledgerSeq = cfg.range.last then .ok (curr, curr)
    else readEntries curr curr entries

/-- `LedgerManager::verifyCatchupCandidate`, when the catchup is not manual. -/
def isCatchupCandidate (candidate : LedgerHeaderHistoryEntry) : Bool :=
  decide (cfg.firstSyncing.ledgerSeq = candidate.header.ledgerSeq + 1 ∧
    cfg.firstSyncing.previousLedgerHash = candidate.hash)

/-- Verifies the file of the current checkpoint. -/
def verifyHistoryOfSingleCheckpoint (file : List LedgerHeaderHistoryEntry) (st : VerifyState) :
    Except LedgerVerificationStatus VerifyState :=
  match readEntries cfg st.lastVerified {} file with
  | .error status => .error status
  | .ok (_, curr) =>
    if curr.header.ledgerSeq ≠ st.currCheckpoint ∧ curr.header.ledgerSeq ≠ cfg.range.last then
      .error .missingEntries
    else if curr.header.ledgerSeq = cfg.range.last ∧ !isCatchupCandidate cfg curr then
      .error .badHash
    else
      .ok
        { st with
          firstVerified :=
            if st.currCheckpoint = firstCheckpoint cfg then curr else st.firstVerified
          lastVerified := curr }

/-- Starts over, from the last closed ledger if the work had begun before. -/
def onReset (lastClosedLedger : LedgerHeaderHistoryEntry) (st : VerifyState) : VerifyState :=
  let setLedger := if lastClosedLedger.header.ledgerSeq < 2 then {} else lastClosedLedger
  { currCheckpoint := firstCheckpoint cfg
    firstVerified := if st.firstVerified.header.ledgerSeq ≠ 0 then setLedger else st.firstVerified
    lastVerified := if st.lastVerified.header.ledgerSeq ≠ 0 then setLedger else st.lastVerified }

/-- What one round of the work leads to. -/
inductive WorkState where
  | success
  | running
  | failureFatal
  /-- `Verification overshot target ledger`. -/
  | thrown
deriving DecidableEq, Repr

/-- One round of the work, on the files of the archive. -/
def onSuccess (files : Nat → List LedgerHeaderHistoryEntry) (st : VerifyState) :
    WorkState × VerifyState :=
  if st.currCheckpoint >
      checkpointContainingLedger cfg.checkpointFrequency cfg.range.last then (.thrown, st)
  else
    match verifyHistoryOfSingleCheckpoint cfg (files st.currCheckpoint) st with
    | .error _ => (.failureFatal, st)
    | .ok st' =>
      if st'.lastVerified.header.ledgerSeq = cfg.range.last then (.success, st')
      else
        (.running, { st' with currCheckpoint := st'.currCheckpoint + cfg.checkpointFrequency })

/-- At most so many rounds of the work, and the state after one that ends in success. -/
def runVerify (files : Nat → List LedgerHeaderHistoryEntry) : Nat → VerifyState → Option VerifyState
  | 0, _ => none
  | rounds + 1, st =>
    match onSuccess cfg files st with
    | (.success, st') => some st'
    | (.running, st') => runVerify files rounds st'
    | (.failureFatal, _) | (.thrown, _) => none

end Work

/-! ### Chains of headers -/

variable {cfg : VerifyConfig}

/-- The header is the one that was hashed. -/
def Verified (cfg : VerifyConfig) (e : LedgerHeaderHistoryEntry) : Prop :=
  cfg.sha256 e.header = e.hash

/-- `b` is the ledger after `a`. -/
structure Linked (cfg : VerifyConfig) (a b : LedgerHeaderHistoryEntry) : Prop where
  verified : Verified cfg b
  previous : b.header.previousLedgerHash = a.hash
  seq : b.header.ledgerSeq = a.header.ledgerSeq + 1

/-- `b` is reached from `a` through links. -/
def Chain (cfg : VerifyConfig) : LedgerHeaderHistoryEntry → LedgerHeaderHistoryEntry → Prop :=
  Relation.ReflTransGen (Linked cfg)

variable {a b prev curr p c : LedgerHeaderHistoryEntry} {st st' final : VerifyState} {rounds : Nat}

theorem Chain.verified (h : Chain cfg a b) (ha : Verified cfg a) : Verified cfg b := by
  cases h with
  | refl => exact ha
  | tail _ hlink => exact hlink.verified

theorem Chain.seq_le (h : Chain cfg a b) : a.header.ledgerSeq ≤ b.header.ledgerSeq := by
  induction h with
  | refl => exact le_refl _
  | tail _ hlink ih =>
    rw [hlink.seq]
    omega

/-- Without collisions, entries with the same hash are the same. -/
theorem Verified.eq_of_hash_eq (hinj : Function.Injective cfg.sha256) (ha : Verified cfg a)
    (hb : Verified cfg b) (h : a.hash = b.hash) : a = b := by
  obtain ⟨hash, header⟩ := a
  obtain ⟨hash', header'⟩ := b
  obtain rfl : hash = hash' := h
  obtain rfl : header = header' := hinj (ha.trans hb.symm)
  rfl

/-- Without collisions, the ledger before another is determined by its number. -/
theorem Chain.eq_of_seq_eq (hinj : Function.Injective cfg.sha256) {z : LedgerHeaderHistoryEntry}
    (ha : Chain cfg a z) (hb : Chain cfg b z) (hva : Verified cfg a) (hvb : Verified cfg b)
    (hseq : a.header.ledgerSeq = b.header.ledgerSeq) : a = b := by
  induction ha generalizing b with
  | refl =>
    cases hb with
    | refl => rfl
    | tail hchain hlink =>
      have hle := Chain.seq_le hchain
      have hnext := hlink.seq
      omega
  | tail hchain hlink ih =>
    cases hb with
    | refl =>
      have hle := Chain.seq_le hchain
      have hnext := hlink.seq
      omega
    | tail hchain' hlink' =>
      have hhash := hlink.previous.symm.trans hlink'.previous
      have hva' := Chain.verified hchain hva
      have hvb' := Chain.verified hchain' hvb
      obtain rfl := hva'.eq_of_hash_eq hinj hvb' hhash
      exact ih hchain' hvb hseq

/-! ### Where reading a file stops -/

/-- The entry at which reading a file stops, by the ledger numbers alone: the one with which the
numbers that follow on `prevSeq` reach the end of the range, or the last one. -/
def lastRead (last : Nat) : Nat → LedgerHeaderHistoryEntry → List LedgerHeaderHistoryEntry →
    LedgerHeaderHistoryEntry
  | _, curr, [] => curr
  | prevSeq, _, curr :: entries =>
    if prevSeq = 0 then lastRead last curr.header.ledgerSeq curr entries
    else if curr.header.ledgerSeq = (prevSeq + 1) % 2 ^ 32 then
      if curr.header.ledgerSeq = last then curr
      else lastRead last curr.header.ledgerSeq curr entries
    else lastRead last prevSeq curr entries

theorem eq_lastRead {entries : List LedgerHeaderHistoryEntry}
    (h : readEntries cfg prev curr entries = .ok (p, c)) :
    c = lastRead cfg.range.last prev.header.ledgerSeq curr entries := by
  induction entries generalizing prev curr with
  | nil =>
    cases h
    rfl
  | cons e entries ih =>
    simp only [readEntries] at h
    rw [lastRead]
    split_ifs at h with _ hstart hold hover _ hlast
    · rw [if_pos hstart]
      exact ih h
    · rw [if_neg hstart, if_neg (by omega)]
      exact ih h
    · cases h
      rw [if_neg hstart, if_pos (by omega), if_pos hlast]
    · rw [if_neg hstart, if_pos (by omega), if_neg hlast]
      exact ih h

/-- From an older ledger on, the end of the range is only reached through a link. -/
theorem verified_of_last {entries : List LedgerHeaderHistoryEntry}
    (hpos : prev.header.ledgerSeq ≠ 0) (hprev : prev.header.ledgerSeq < cfg.range.last)
    (hcurr : curr.header.ledgerSeq ≠ cfg.range.last)
    (h : readEntries cfg prev curr entries = .ok (p, c))
    (hlast : c.header.ledgerSeq = cfg.range.last) : Verified cfg c := by
  have hwrap := cfg.range.last_lt
  induction entries generalizing prev curr with
  | nil =>
    cases h
    exact absurd hlast hcurr
  | cons e entries ih =>
    simp only [readEntries] at h
    split_ifs at h with _ hold hover hlink hend
    · exact ih hpos hprev (by omega) h
    · cases h
      simp only [verifyLedgerHistoryLink, verifyLedgerHistoryEntry] at hlink
      simp_all [Verified]
    · exact ih (by omega) (by omega) hend h

/-! ### Rounds of the work -/

/-- The checkpoint of a ledger is less than a period ahead. -/
theorem checkpointContainingLedger_lt {frequency : Nat} (h : 0 < frequency) (ledger : Nat) :
    checkpointContainingLedger frequency ledger < ledger + frequency := by
  have hle := Nat.div_mul_le_self (ledger + 1 + frequency - 1) frequency
  simp only [checkpointContainingLedger, nextCheckpointLedger, Nat.add_eq_zero_iff, one_ne_zero,
    and_false, if_false]
  omega

theorem le_checkpointContainingLedger {frequency : Nat} (h : 0 < frequency) (ledger : Nat) :
    ledger ≤ checkpointContainingLedger frequency ledger := by
  have hlt := Nat.lt_div_mul_add (a := ledger + 1 + frequency - 1) h
  simp only [checkpointContainingLedger, nextCheckpointLedger, Nat.add_eq_zero_iff, one_ne_zero,
    and_false, if_false]
  omega

/-- What the work ends with: two right entries, the last of which is the ledger the network built
on, with a chain between them. -/
structure Accepted (cfg : VerifyConfig) (st : VerifyState) : Prop where
  first : Verified cfg st.firstVerified
  last : Verified cfg st.lastVerified
  network : st.lastVerified.hash = cfg.firstSyncing.previousLedgerHash
  chain : Chain cfg st.firstVerified st.lastVerified

/-- A file that was accepted and did not end the work has been read before. -/
structure Later (cfg : VerifyConfig) (st : VerifyState) : Prop where
  pos : st.lastVerified.header.ledgerSeq ≠ 0
  seq : st.lastVerified.header.ledgerSeq + cfg.checkpointFrequency = st.currCheckpoint
  first_le : firstCheckpoint cfg ≤ st.lastVerified.header.ledgerSeq

theorem Later.later (h : Later cfg st) : firstCheckpoint cfg < st.currCheckpoint := by
  have hfreq := cfg.checkpointFrequency_pos
  have hseq := h.seq
  have hle := h.first_le
  omega

/-- A file that is accepted ends at the checkpoint, or in the last ledger of the range. -/
theorem verifyHistoryOfSingleCheckpoint_ok {file : List LedgerHeaderHistoryEntry}
    (h : verifyHistoryOfSingleCheckpoint cfg file st = .ok st') :
    ∃ p c first, readEntries cfg st.lastVerified {} file = .ok (p, c) ∧
      (c.header.ledgerSeq = st.currCheckpoint ∨ c.header.ledgerSeq = cfg.range.last) ∧
      (c.header.ledgerSeq = cfg.range.last → c.hash = cfg.firstSyncing.previousLedgerHash) ∧
      first = (if st.currCheckpoint = firstCheckpoint cfg then c else st.firstVerified) ∧
      st' = { st with firstVerified := first, lastVerified := c } := by
  unfold verifyHistoryOfSingleCheckpoint at h
  cases hread : readEntries cfg st.lastVerified {} file with
  | error status => simp [hread] at h
  | ok read =>
    obtain ⟨p, c⟩ := read
    simp only [hread] at h
    by_cases hend : c.header.ledgerSeq ≠ st.currCheckpoint ∧ c.header.ledgerSeq ≠ cfg.range.last
    · simp [hend] at h
    rw [if_neg hend] at h
    by_cases hbad : c.header.ledgerSeq = cfg.range.last ∧ (!isCatchupCandidate cfg c) = true
    · simp [hbad] at h
    rw [if_neg hbad] at h
    refine ⟨p, c, _, rfl, by omega, fun hlast => ?_, rfl, (Except.ok.inj h).symm⟩
    have hcandidate : isCatchupCandidate cfg c = true := by
      by_contra hne
      exact hbad ⟨hlast, by simpa using hne⟩
    simp only [isCatchupCandidate, decide_eq_true_eq] at hcandidate
    exact hcandidate.2.symm

section Rounds

variable {files : Nat → List LedgerHeaderHistoryEntry}

/-- A round that goes well reads the file of its checkpoint, and ends the work with the last ledger
of the range or leads to the next file. -/
theorem onSuccess_read {state : WorkState} (h : onSuccess cfg files st = (state, st'))
    (hstate : state = .success ∨ state = .running) :
    st.currCheckpoint ≤ checkpointContainingLedger cfg.checkpointFrequency cfg.range.last ∧
      ∃ p c first, readEntries cfg st.lastVerified {} (files st.currCheckpoint) = .ok (p, c) ∧
        first = (if st.currCheckpoint = firstCheckpoint cfg then c else st.firstVerified) ∧
        (state = .success ∧ c.header.ledgerSeq = cfg.range.last ∧
            c.hash = cfg.firstSyncing.previousLedgerHash ∧
            st' = { st with firstVerified := first, lastVerified := c } ∨
          state = .running ∧ c.header.ledgerSeq ≠ cfg.range.last ∧
            c.header.ledgerSeq = st.currCheckpoint ∧
            st' = ⟨st.currCheckpoint + cfg.checkpointFrequency, first, c⟩) := by
  unfold onSuccess at h
  split at h
  · cases h
    simp at hstate
  rename_i hover
  cases hfile : verifyHistoryOfSingleCheckpoint cfg (files st.currCheckpoint) st with
  | error status =>
    simp only [hfile] at h
    cases h
    simp at hstate
  | ok t =>
    simp only [hfile] at h
    obtain ⟨p, c, first, hloop, hseq, hnetwork, hfirst, rfl⟩ :=
      verifyHistoryOfSingleCheckpoint_ok hfile
    refine ⟨not_lt.1 hover, p, c, first, hloop, hfirst, ?_⟩
    split at h
    case isTrue hlast =>
      obtain ⟨rfl, rfl⟩ := Prod.mk.inj h
      exact .inl ⟨rfl, hlast, hnetwork hlast, rfl⟩
    case isFalse hlast =>
      obtain ⟨rfl, rfl⟩ := Prod.mk.inj h
      exact .inr ⟨rfl, hlast, hseq.resolve_right hlast, rfl⟩

theorem Later.of_running (h : onSuccess cfg files st = (.running, st'))
    (hpos : 0 < st.currCheckpoint) (hcheckpoint : firstCheckpoint cfg ≤ st.currCheckpoint) :
    Later cfg st' := by
  have hfreq := cfg.checkpointFrequency_pos
  obtain ⟨_, p, c, first, _, _, ⟨hne, _⟩ | ⟨_, _, hseq, rfl⟩⟩ := onSuccess_read h (.inr rfl)
  · cases hne
  · exact ⟨by dsimp only; omega, by dsimp only; omega, by dsimp only; omega⟩

/-- A run that ends in success has a round that does, or goes on from one that runs on. -/
theorem runVerify_succ (h : runVerify cfg files (rounds + 1) st = some final) :
    onSuccess cfg files st = (.success, final) ∨
      ∃ st', onSuccess cfg files st = (.running, st') ∧
        runVerify cfg files rounds st' = some final := by
  simp only [runVerify] at h
  cases hround : onSuccess cfg files st with
  | mk state st' =>
    simp only [hround] at h
    cases state with
    | success =>
      obtain rfl : st' = final := Option.some.inj h
      exact Or.inl rfl
    | running => exact Or.inr ⟨st', rfl, h⟩
    | failureFatal => simp at h
    | thrown => simp at h

/-- The rounds after the first keep the first entry, and check the last one. -/
theorem Later.run (hst : Later cfg st) (h : runVerify cfg files rounds st = some final) :
    firstCheckpoint cfg < cfg.range.last ∧ final.firstVerified = st.firstVerified ∧
      Verified cfg final.lastVerified ∧
      final.lastVerified.hash = cfg.firstSyncing.previousLedgerHash := by
  induction rounds generalizing st with
  | zero => cases h
  | succ rounds ih =>
    have hlater := hst.later
    rcases runVerify_succ h with hround | ⟨st', hround, h⟩
    · obtain ⟨hover, p, c, first, hloop, hfirst, ⟨_, hlast, hnetwork, rfl⟩ | ⟨hne, _⟩⟩ :=
        onSuccess_read hround (.inl rfl)
      · have hlt := checkpointContainingLedger_lt cfg.checkpointFrequency_pos cfg.range.last
        have hseq := hst.seq
        have hprev : st.lastVerified.header.ledgerSeq < cfg.range.last := by omega
        have hzero : 0 ≠ cfg.range.last :=
          (cfg.range.first_pos.trans_le cfg.range.first_le_last).ne
        refine ⟨hst.first_le.trans_lt hprev, ?_, ?_, hnetwork⟩
        · rw [hfirst, if_neg hlater.ne']
        · exact verified_of_last hst.pos hprev hzero hloop hlast
      · cases hne
    · obtain ⟨hlt, hkept, hverified⟩ := ih (Later.of_running hround (by omega) hlater.le) h
      obtain ⟨_, p, c, first, _, hfirst, ⟨hne, _⟩ | ⟨_, _, _, rfl⟩⟩ :=
        onSuccess_read hround (.inr rfl)
      · cases hne
      · exact ⟨hlt, hkept.trans (hfirst.trans (if_neg hlater.ne')), hverified⟩

/-- The ledgers of the network, up to the one it built on. -/
structure History (cfg : VerifyConfig) (ledger : Nat → LedgerHeaderHistoryEntry) (first : Nat) :
    Prop where
  verified : Verified cfg (ledger first)
  seq : (ledger first).header.ledgerSeq = first
  linked : ∀ n, first ≤ n → n < cfg.range.last → Linked cfg (ledger n) (ledger (n + 1))
  network : (ledger cfg.range.last).hash = cfg.firstSyncing.previousLedgerHash

namespace History

variable {ledger : Nat → LedgerHeaderHistoryEntry} {first n : Nat} (h : History cfg ledger first)
include h

theorem entry (hfirst : first ≤ n) (hlast : n ≤ cfg.range.last) :
    Verified cfg (ledger n) ∧ (ledger n).header.ledgerSeq = n := by
  induction n, hfirst using Nat.le_induction with
  | base => exact ⟨h.verified, h.seq⟩
  | succ n hfirst ih =>
    have hlink := h.linked n hfirst hlast
    exact ⟨hlink.verified, by rw [hlink.seq, (ih (by omega)).2]⟩

theorem chain (hfirst : first ≤ n) {m : Nat} (hnm : n ≤ m) (hlast : m ≤ cfg.range.last) :
    Chain cfg (ledger n) (ledger m) := by
  induction m, hnm using Nat.le_induction with
  | base => exact .refl
  | succ m hnm ih => exact .tail (ih (by omega)) (h.linked m (by omega) hlast)

end History

/-- The first file of a run that succeeds. -/
theorem runVerify_first (hst : st.currCheckpoint = firstCheckpoint cfg)
    (h : runVerify cfg files rounds st = some final) :
    final.firstVerified = lastRead cfg.range.last st.lastVerified.header.ledgerSeq {}
        (files (firstCheckpoint cfg)) ∧
      min (firstCheckpoint cfg) cfg.range.last ≤ final.firstVerified.header.ledgerSeq ∧
      final.firstVerified.header.ledgerSeq ≤ cfg.range.last ∧
      final.lastVerified.hash = cfg.firstSyncing.previousLedgerHash ∧
      (final.lastVerified = final.firstVerified ∨ Verified cfg final.lastVerified) := by
  cases rounds with
  | zero => cases h
  | succ rounds =>
    rcases runVerify_succ h with hround | ⟨st', hround, h⟩
    · obtain ⟨_, p, c, first, hloop, hfirst, ⟨_, hlast, hnetwork, rfl⟩ | ⟨hne, _⟩⟩ :=
        onSuccess_read hround (.inl rfl)
      · rw [if_pos hst] at hfirst
        rw [hst] at hloop
        subst hfirst
        exact ⟨eq_lastRead hloop, hlast ▸ Nat.min_le_right _ _, hlast.le, hnetwork, .inl rfl⟩
      · cases hne
    · have hpos : 0 < firstCheckpoint cfg := cfg.range.first_pos.trans_le
        (le_checkpointContainingLedger cfg.checkpointFrequency_pos _)
      have hlater := Later.of_running hround (hst ▸ hpos) hst.ge
      obtain ⟨_, p, c, first, hloop, hfirst, ⟨hne, _⟩ | ⟨_, _, hseq, rfl⟩⟩ :=
        onSuccess_read hround (.inr rfl)
      · cases hne
      · rw [if_pos hst] at hfirst
        rw [hst] at hloop hseq
        subst hfirst
        obtain ⟨hlt, hkept, hverified, hnetwork⟩ := hlater.run h
        rw [hkept]
        refine ⟨eq_lastRead hloop, ?_, ?_, hnetwork, .inr hverified⟩
        · exact hseq ▸ Nat.min_le_left _ _
        · exact hseq ▸ hlt.le

end Rounds

/-- When the work ends in success, both entries it keeps are right, the last one is the ledger the
network built on, and the first one is linked to it, exactly when the entry at which reading the
first file stops is the network's own. -/
theorem verified_chain_sound (cfg : VerifyConfig) (files : Nat → List LedgerHeaderHistoryEntry)
    (lastClosedLedger : LedgerHeaderHistoryEntry) (st final : VerifyState) (rounds : Nat)
    (ledger : Nat → LedgerHeaderHistoryEntry) (hinj : Function.Injective cfg.sha256)
    (hledger : History cfg ledger (min (firstCheckpoint cfg) cfg.range.last))
    (hrun : runVerify cfg files rounds (onReset cfg lastClosedLedger st) = some final) :
    let start := (onReset cfg lastClosedLedger st).lastVerified.header.ledgerSeq
    let stop := lastRead cfg.range.last start {} (files (firstCheckpoint cfg))
    Accepted cfg final ↔ stop = ledger stop.header.ledgerSeq := by
  intro start stop
  obtain ⟨hfirst, hle, hle', hnetwork, hlast⟩ := runVerify_first rfl hrun
  rw [show stop = final.firstVerified from hfirst.symm]
  have hentry := hledger.entry hle hle'
  have hend := (hledger.entry (Nat.min_le_right _ _) le_rfl).1
  have hchain := hledger.chain hle hle' le_rfl
  have hsame : Verified cfg final.lastVerified → final.lastVerified = ledger cfg.range.last :=
    fun hverified => hverified.eq_of_hash_eq hinj hend (hnetwork.trans hledger.network.symm)
  refine ⟨fun haccepted => ?_, fun heq => ?_⟩
  · have hfinal := haccepted.chain
    rw [hsame haccepted.last] at hfinal
    exact hfinal.eq_of_seq_eq hinj hchain haccepted.first hentry.1 hentry.2.symm
  · have hverified : Verified cfg final.firstVerified := by
      rw [heq]
      exact hentry.1
    have hlast : Verified cfg final.lastVerified := hlast.elim (fun h => h ▸ hverified) id
    refine ⟨hverified, hlast, hnetwork, ?_⟩
    rw [hsame hlast, heq]
    exact hchain

/-! ### Archives for ledgers 63 to 65 -/

namespace ShortRange

/-- A hash without collisions. -/
def sha256 (header : LedgerHeader) : Hash :=
  Encodable.encode (header.ledgerVersion, header.previousLedgerHash, header.bucketListHash,
    header.ledgerSeq, header.rest)

theorem sha256_injective : Function.Injective sha256 := by
  intro a b h
  have := Encodable.encode_injective h
  cases a
  cases b
  simp_all

/-- The right entry of the ledger `62 + n`. -/
def entry : Nat → LedgerHeaderHistoryEntry
  | 0 => ⟨sha256 { ledgerSeq := 62 }, { ledgerSeq := 62 }⟩
  | n + 1 =>
    let header := { previousLedgerHash := (entry n).hash, ledgerSeq := 62 + (n + 1) }
    ⟨sha256 header, header⟩

/-- The network has closed ledger 66. -/
def config : VerifyConfig where
  checkpointFrequency := 64
  checkpointFrequency_pos := by decide
  currentLedgerProtocolVersion := 10
  sha256 := sha256
  range := ⟨63, 65, by decide, by decide, by decide⟩
  firstSyncing := { ledgerSeq := 66, previousLedgerHash := (entry 3).hash }

/-- Ledger 63 with another bucket list, under the right hash. -/
def forged : LedgerHeaderHistoryEntry :=
  { entry 1 with header := { (entry 1).header with bucketListHash := 999 } }

/-- An archive with the given file for checkpoint 63. -/
def files (first : List LedgerHeaderHistoryEntry) (checkpoint : Nat) :
    List LedgerHeaderHistoryEntry :=
  if checkpoint = 63 then first else [entry 2, entry 3]

/-- Nothing was verified before. -/
def fresh : VerifyState := { currCheckpoint := 0, firstVerified := {}, lastVerified := {} }

/-- The first entry that is kept, and whether it was the one that was hashed. -/
def kept (first : List LedgerHeaderHistoryEntry) : Option (LedgerHeaderHistoryEntry × Bool) :=
  (runVerify config (files first) 2 (onReset config {} fresh)).map fun final =>
    (final.firstVerified, verifyLedgerHistoryEntry config final.firstVerified)

theorem entry_seq (n : Nat) : (entry n).header.ledgerSeq = 62 + n := by
  cases n <;> rfl

theorem history : History config (fun n => entry (n - 62)) 63 where
  verified := rfl
  seq := rfl
  linked n hfirst hlast := by
    obtain ⟨k, rfl⟩ := Nat.exists_eq_add_of_le hfirst
    have hk : 63 + k + 1 - 62 = (63 + k - 62) + 1 := by omega
    rw [hk]
    exact ⟨rfl, rfl, by rw [entry_seq, entry_seq]; omega⟩
  network := rfl

end ShortRange

open ShortRange in
/-- An archive that repeats a ledger is accepted and right. -/
theorem verified_chain_sound_repeated :
    Accepted config { currCheckpoint := 127, firstVerified := entry 1, lastVerified := entry 3 } :=
  (verified_chain_sound config (files [entry 0, entry 0, entry 1]) {} fresh _ 2 _ sha256_injective
    history (by decide +kernel)).2 (by decide +kernel)

open ShortRange in
/-- A forged header is accepted when it is the only entry of the first file, and also when it
comes again after the right one. -/
theorem forged_header_accepted :
    kept [forged] = some (forged, false) ∧
      kept [entry 0, entry 1, forged] = some (forged, false) ∧
      kept [entry 0, entry 1] = some (entry 1, true) := by
  decide +kernel

end SpnCore.Catchup
