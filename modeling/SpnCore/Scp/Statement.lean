import Mathlib.Data.List.Lex
import Mathlib.Data.Prod.Lex
import Mathlib.Order.Basic
import SpnCore.Scp.QuorumSet

/-!
# Ballots and statements

The messages of the ballot protocol, their comparison functions, and the predicates on a single
statement that the protocol counts. Ballots are ordered by counter and then by value;
`compareBallots` is that linear order.
-/

namespace SpnCore.Scp

open Lib

/-- A consensus value: an opaque byte string. -/
abbrev Value := List Nat

/-- The largest `uint32`. -/
def UINT32_MAX : Nat := 2 ^ 32 - 1

/-- A ballot `⟨n, x⟩`. -/
structure SCPBallot where
  counter : Nat := 0
  value : Value := []
deriving DecidableEq, Repr

variable {a b : SCPBallot}

namespace SCPBallot

/-- The pair a ballot is ordered by. -/
def key (b : SCPBallot) : Nat ×ₗ Value := toLex (b.counter, b.value)

theorem key_injective : Function.Injective key := by
  rintro ⟨n, x⟩ ⟨m, y⟩ h
  simpa [key] using h

instance : LinearOrder SCPBallot := LinearOrder.lift' key key_injective

theorem lt_iff : a < b ↔ a.counter < b.counter ∨ a.counter = b.counter ∧ a.value < b.value :=
  Prod.Lex.toLex_lt_toLex

theorem le_iff : a ≤ b ↔ a.counter < b.counter ∨ a.counter = b.counter ∧ a.value ≤ b.value :=
  Prod.Lex.toLex_le_toLex

theorem counter_le (h : a ≤ b) : a.counter ≤ b.counter := by
  rcases le_iff.1 h with h | h
  · exact h.le
  · exact h.1.le

/-- Among ballots for one value the counter decides. -/
theorem le_iff_counter (h : a.value = b.value) : a ≤ b ↔ a.counter ≤ b.counter := by
  rw [le_iff, h]
  simp [le_iff_lt_or_eq]

theorem lt_iff_counter (h : a.value = b.value) : a < b ↔ a.counter < b.counter := by
  rw [lt_iff, h]
  simp

theorem mk_le {n : Nat} {v : Value} (hval : v = b.value) (hle : n ≤ b.counter) :
    (⟨n, v⟩ : SCPBallot) ≤ b :=
  (le_iff_counter (a := ⟨n, v⟩) hval).2 hle

end SCPBallot

/-- Three-way comparison of ballots. -/
def compareBallots (b1 b2 : SCPBallot) : Ordering :=
  if b1.counter < b2.counter then .lt
  else if b2.counter < b1.counter then .gt
  else if b1.value < b2.value then .lt
  else if b2.value < b1.value then .gt
  else .eq

/-- Three-way comparison of optional ballots: an unset ballot is below every other. -/
def compareOptBallots : Option SCPBallot → Option SCPBallot → Ordering
  | some b1, some b2 => compareBallots b1 b2
  | some _, none => .gt
  | none, some _ => .lt
  | none, none => .eq

/-- The ballots are for the same value. -/
def areBallotsCompatible (b1 b2 : SCPBallot) : Bool :=
  b1.value = b2.value

/-- `b1 ≤ b2` and the ballots are for different values. -/
def areBallotsLessAndIncompatible (b1 b2 : SCPBallot) : Bool :=
  compareBallots b1 b2 ≠ .gt && !areBallotsCompatible b1 b2

/-- `b1 ≤ b2` and the ballots are for the same value. -/
def areBallotsLessAndCompatible (b1 b2 : SCPBallot) : Bool :=
  compareBallots b1 b2 ≠ .gt && areBallotsCompatible b1 b2

theorem compareBallots_eq (a b : SCPBallot) : compareBallots a b = compare a b := by
  unfold compareBallots
  rcases lt_trichotomy a b with h | h | h
  · rw [compare_lt_iff_lt.2 h]
    rcases SCPBallot.lt_iff.1 h with h | ⟨hc, hv⟩
    · simp [h]
    · simp [hc, hv]
  · subst h
    simp
  · rw [compare_gt_iff_gt.2 h]
    rcases SCPBallot.lt_iff.1 h with h | ⟨hc, hv⟩
    · simp [h, h.asymm]
    · simp [hc, hv, hv.asymm]

@[simp] theorem areBallotsCompatible_iff : areBallotsCompatible a b = true ↔ a.value = b.value := by
  simp [areBallotsCompatible]

@[simp] theorem areBallotsLessAndIncompatible_iff :
    areBallotsLessAndIncompatible a b = true ↔ a ≤ b ∧ a.value ≠ b.value := by
  simp [areBallotsLessAndIncompatible, compareBallots_eq, compare_gt_iff_gt,
    areBallotsCompatible]

@[simp] theorem areBallotsLessAndCompatible_iff :
    areBallotsLessAndCompatible a b = true ↔ a ≤ b ∧ a.value = b.value := by
  simp [areBallotsLessAndCompatible, compareBallots_eq, compare_gt_iff_gt]

/-! ### Statements -/

/-- A `PREPARE` pledge: the current ballot, the two highest accepted prepared ballots, and the
counters of the lowest and highest confirmed prepared ballots voted to commit. -/
structure SCPPrepare where
  quorumSetHash : Hash
  ballot : SCPBallot
  prepared : Option SCPBallot
  preparedPrime : Option SCPBallot
  nC : Nat
  nH : Nat
deriving DecidableEq, Repr

/-- A `CONFIRM` pledge. -/
structure SCPConfirm where
  ballot : SCPBallot
  nPrepared : Nat
  nCommit : Nat
  nH : Nat
  quorumSetHash : Hash
deriving DecidableEq, Repr

/-- An `EXTERNALIZE` pledge. -/
structure SCPExternalize where
  commit : SCPBallot
  nH : Nat
  commitQuorumSetHash : Hash
deriving DecidableEq, Repr

/-- The pledges of the ballot protocol. -/
inductive SCPPledges where
  | prepare (p : SCPPrepare)
  | confirm (c : SCPConfirm)
  | externalize (e : SCPExternalize)
deriving DecidableEq, Repr

/-- A ballot statement of a node about the one slot considered. -/
structure SCPStatement where
  nodeID : NodeID
  pledges : SCPPledges
deriving DecidableEq, Repr

/-- The position of a pledge in the order `PREPARE < CONFIRM < EXTERNALIZE`. -/
def SCPPledges.type : SCPPledges → Nat
  | .prepare _ => 0
  | .confirm _ => 1
  | .externalize _ => 2

/-- `st` supersedes `oldst` in the total order of the SCP paper. -/
def isNewerStatement (oldst st : SCPStatement) : Bool :=
  match oldst.pledges, st.pledges with
  | .externalize _, .externalize _ => false
  | .confirm oldC, .confirm c =>
    -- sorted by (b, p, h)
    match compareBallots oldC.ballot c.ballot with
    | .lt => true
    | .eq =>
      if oldC.nPrepared = c.nPrepared then decide (oldC.nH < c.nH)
      else decide (oldC.nPrepared < c.nPrepared)
    | .gt => false
  | .prepare oldPrep, .prepare prep =>
    -- lexicographic order (b, p, p', h)
    match compareBallots oldPrep.ballot prep.ballot with
    | .lt => true
    | .eq =>
      match compareOptBallots oldPrep.prepared prep.prepared with
      | .lt => true
      | .eq =>
        match compareOptBallots oldPrep.preparedPrime prep.preparedPrime with
        | .lt => true
        | .eq => decide (oldPrep.nH < prep.nH)
        | .gt => false
      | .gt => false
    | .gt => false
  | old, new => decide (old.type < new.type)

/-- The ballot a statement is about. -/
def getWorkingBallot (st : SCPStatement) : SCPBallot :=
  match st.pledges with
  | .prepare p => p.ballot
  | .confirm c => ⟨c.nCommit, c.ballot.value⟩
  | .externalize e => e.commit

/-- The statement accepts `ballot` as prepared. -/
def hasPreparedBallot (ballot : SCPBallot) (st : SCPStatement) : Bool :=
  match st.pledges with
  | .prepare p =>
    p.prepared.any (areBallotsLessAndCompatible ballot) ||
      p.preparedPrime.any (areBallotsLessAndCompatible ballot)
  | .confirm c => areBallotsLessAndCompatible ballot ⟨c.nPrepared, c.ballot.value⟩
  | .externalize e => areBallotsCompatible ballot e.commit

/-- The statement votes for `ballot` to be prepared. -/
def votesPreparedBallot (ballot : SCPBallot) (st : SCPStatement) : Bool :=
  match st.pledges with
  | .prepare p => areBallotsLessAndCompatible ballot p.ballot
  | .confirm c => areBallotsCompatible ballot c.ballot
  | .externalize e => areBallotsCompatible ballot e.commit

/-- A closed interval of ballot counters. -/
abbrev Interval := Nat × Nat

/-- The statement accepts committing the ballots of the interval. -/
def commitPredicate (ballot : SCPBallot) (check : Interval) (st : SCPStatement) : Bool :=
  match st.pledges with
  | .prepare _ => false
  | .confirm c =>
    areBallotsCompatible ballot c.ballot &&
      (decide (c.nCommit ≤ check.1) && decide (check.2 ≤ c.nH))
  | .externalize e => areBallotsCompatible ballot e.commit && decide (e.commit.counter ≤ check.1)

/-- The statement votes for committing the ballots of the interval. -/
def votesCommit (ballot : SCPBallot) (cur : Interval) (st : SCPStatement) : Bool :=
  match st.pledges with
  | .prepare p =>
    areBallotsCompatible ballot p.ballot &&
      (decide (p.nC ≠ 0) && (decide (p.nC ≤ cur.1) && decide (cur.2 ≤ p.nH)))
  | .confirm c => areBallotsCompatible ballot c.ballot && decide (c.nCommit ≤ cur.1)
  | .externalize e => areBallotsCompatible ballot e.commit && decide (e.commit.counter ≤ cur.1)

/-- The statement's counter is above `n`, for `attemptBump`. -/
def isAheadOf (n : Nat) (st : SCPStatement) : Bool :=
  match st.pledges with
  | .prepare p => decide (n < p.ballot.counter)
  | .confirm c => decide (n < c.ballot.counter)
  | .externalize _ => decide (n ≠ UINT32_MAX)

/-- The statement's node has reached the counter, for `checkHeardFromQuorum`. -/
def hasReachedCounter (counter : Nat) (st : SCPStatement) : Bool :=
  match st.pledges with
  | .prepare p => decide (counter ≤ p.ballot.counter)
  | _ => true

/-- The counter a statement contributes to `attemptBump`. -/
def bumpCounter (st : SCPStatement) : Nat :=
  match st.pledges with
  | .prepare p => p.ballot.counter
  | .confirm c => c.ballot.counter
  | .externalize _ => UINT32_MAX

/-- The ballots a hint votes to prepare. -/
def hintBallots (hint : SCPStatement) : List SCPBallot :=
  match hint.pledges with
  | .prepare p => p.ballot :: (p.prepared.toList ++ p.preparedPrime.toList)
  | .confirm c => [⟨c.nPrepared, c.ballot.value⟩, ⟨UINT32_MAX, c.ballot.value⟩]
  | .externalize e => [⟨UINT32_MAX, e.commit.value⟩]

/-- The ballots a statement may have prepared that `topVote` covers. -/
def preparedBelow (topVote : SCPBallot) (st : SCPStatement) : List SCPBallot :=
  match st.pledges with
  | .prepare p =>
    (p.ballot :: (p.prepared.toList ++ p.preparedPrime.toList)).filter
      (areBallotsLessAndCompatible · topVote)
  | .confirm c =>
    if areBallotsCompatible topVote c.ballot then
      topVote :: (if c.nPrepared < topVote.counter then [⟨c.nPrepared, topVote.value⟩] else [])
    else []
  | .externalize e => if areBallotsCompatible topVote e.commit then [topVote] else []

/-- The counters at which a statement's commit interval for `ballot` starts or ends. -/
def commitBoundaries (ballot : SCPBallot) (st : SCPStatement) : List Nat :=
  match st.pledges with
  | .prepare p =>
    if areBallotsCompatible ballot p.ballot && decide (p.nC ≠ 0) then [p.nC, p.nH] else []
  | .confirm c => if areBallotsCompatible ballot c.ballot then [c.nCommit, c.nH] else []
  | .externalize e =>
    if areBallotsCompatible ballot e.commit then [e.commit.counter, e.nH, UINT32_MAX] else []

end SpnCore.Scp
