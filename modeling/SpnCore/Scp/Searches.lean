import Mathlib.Data.Finset.Max
import Mathlib.Order.Bounds.Basic
import SpnCore.Scp.CommitIntervals
import SpnCore.Scp.Invariants

/-!
# The loops of the ballot protocol

Three loops scan ordered sets with early exits: `validateValues` over the values of a statement,
`attemptBump` over the counters of all nodes, and `findExtendedInterval` over the ends of commit
intervals. What each of them finds is described here without the loop, with the situations in which
it goes wrong: an invalid value is forgotten when a larger value may be valid, a node that lags
behind ends the search for a counter, and an interval that reaches down to counter zero counts as
none.
-/

namespace SpnCore.Scp

open Lib List

/-- A method that only ends with `true`. -/
theorem ne_ok_false {x : SlotM Bool} {s t : BallotState}
    (h : wp x (fun b _ => b = true) (fun _ _ => True) s) : x s ≠ .ok false t :=
  fun hx => absurd (wp_ok h hx) Bool.false_ne_true

/-! ### Values of a statement -/

section Validation

variable {ctx : Context} {st : SCPStatement} {v : Value}

/-- All values of a statement. -/
def statementValues (st : SCPStatement) : List Value :=
  match st.pledges with
  | .prepare p =>
    p.ballot.value ::
      ((p.prepared.map SCPBallot.value).toList ++ (p.preparedPrime.map SCPBallot.value).toList)
  | .confirm c => [c.ballot.value]
  | .externalize e => [e.commit.value]

/-- The loop ends with an invalid level if an invalid value, or the level it started with, is not
followed by a value that may be valid. -/
theorem combineLevels_eq_invalid {validate : Value → ValidationLevel} {vs : List Value}
    (hsorted : vs.Pairwise (· < ·)) (res : ValidationLevel) :
    combineLevels validate res vs = .invalidValue ↔
      (res = .invalidValue ∧ ∀ w ∈ vs, validate w ≠ .maybeValidValue) ∨
        ∃ v ∈ vs, validate v = .invalidValue ∧
          ∀ w ∈ vs, v < w → validate w ≠ .maybeValidValue := by
  induction vs generalizing res with
  | nil => simp [combineLevels]
  | cons x vs ih =>
    obtain ⟨hhead, htail⟩ := pairwise_cons.1 hsorted
    -- the first value is below all others
    have hx : (∀ w ∈ x :: vs, x < w → validate w ≠ .maybeValidValue) ↔
        ∀ w ∈ vs, validate w ≠ .maybeValidValue := by
      simp only [forall_mem_cons, lt_irrefl, false_imp_iff, true_and]
      exact ⟨fun h w hw => h w hw (hhead w hw), fun h w hw _ => h w hw⟩
    have hrest : ∀ v ∈ vs, (∀ w ∈ x :: vs, v < w → validate w ≠ .maybeValidValue) ↔
        ∀ w ∈ vs, v < w → validate w ≠ .maybeValidValue := fun v hv => by
      simp only [forall_mem_cons, and_iff_right_iff_imp]
      exact fun _ hlt => absurd hlt (hhead v hv).asymm
    have hlater : (∃ v ∈ vs, validate v = .invalidValue ∧
          ∀ w ∈ x :: vs, v < w → validate w ≠ .maybeValidValue) ↔
        ∃ v ∈ vs, validate v = .invalidValue ∧ ∀ w ∈ vs, v < w → validate w ≠ .maybeValidValue :=
      exists_congr fun v => and_congr_right fun hv => and_congr_right fun _ => hrest v hv
    rw [exists_mem_cons_iff, hx, hlater, forall_mem_cons]
    simp only [combineLevels]
    cases hlevel : validate x with
    | fullyValidatedValue => simp [ih htail]
    | invalidValue =>
      rw [ih htail]
      simp
      tauto
    | maybeValidValue => simp [ih htail]

/-- The values put to the driver are invalid on the whole: one of them is, and no larger one may be
valid. -/
def OnTheWholeInvalid (ctx : Context) (st : SCPStatement) : Prop :=
  ∃ v ∈ valuesToValidate st, ctx.validateValue v = .invalidValue ∧
    ∀ w ∈ valuesToValidate st, v < w → ctx.validateValue w ≠ .maybeValidValue

theorem validateValues_eq_invalid :
    validateValues ctx st = .invalidValue ↔ OnTheWholeInvalid ctx st := by
  unfold validateValues
  rw [combineLevels_eq_invalid (ascending_pairwise _)]
  simp only [mem_ascending, reduceCtorEq, false_and, false_or]
  rfl

/-- A statement that is turned down: it is not sane or not newer than the recorded one, its values
are invalid on the whole, or the slot has externalized another value. -/
def IsTurnedDown (ctx : Context) (st : SCPStatement) (self : Bool) (s : BallotState) : Prop :=
  isStatementSane ctx st self = false ∨ isNewerThanLatest s st = false ∨
    OnTheWholeInvalid ctx st ∨
    s.phase = .externalize ∧ ∃ c, s.commit = some c ∧ c.value ≠ (getWorkingBallot st).value

theorem isTurnedDown_iff {self : Bool} {s : BallotState} :
    IsTurnedDown ctx st self s ↔ ¬ Passes ctx s st self ∨
      s.phase = .externalize ∧ ∃ c, s.commit = some c ∧ c.value ≠ (getWorkingBallot st).value := by
  have hpasses : Passes ctx s st self ↔ isStatementSane ctx st self = true ∧
      isNewerThanLatest s st = true ∧ ¬ OnTheWholeInvalid ctx st := by
    rw [isNewerThanLatest_iff, ← validateValues_eq_invalid]
    exact ⟨fun h => ⟨h.sane, h.newer, h.valid⟩, fun h => ⟨h.1, h.2.1, h.2.2⟩⟩
  unfold IsTurnedDown
  rw [hpasses, ← Bool.not_eq_true, ← Bool.not_eq_true]
  tauto

theorem processEnvelope_invalid_iff {advance : SCPStatement → SlotM Unit} {self : Bool}
    {s : BallotState} :
    processEnvelope ctx advance st self s = .ok .invalid s ↔ IsTurnedDown ctx st self s := by
  have hrun : wp (processEnvelope ctx advance st self)
      (fun res t => res = .invalid ∧ t = s ↔ IsTurnedDown ctx st self s)
      (fun _ _ => ¬ IsTurnedDown ctx st self s) s := by
    rw [isTurnedDown_iff]
    refine processEnvelope_rule (fun hnot => by simp [hnot]) (fun hpasses hphase _ => ?_)
      (fun hpasses hphase c hc => by simp [hpasses, hphase, hc]) fun hpasses _ hc => by
        simp [hpasses, hc]
    refine wp_mono (wp_true _ _) (fun _ _ _ => ?_) fun _ _ _ => ?_
    · simp [hpasses, hphase]
    · simp [hpasses, hphase]
  cases hx : processEnvelope ctx advance st self s with
  | ok res t => simpa using wp_ok hrun hx
  | error e t => simpa using wp_error hrun hx

/-- A statement with an invalid value is turned down exactly if it is not sane or not newer than
the recorded one, if the slot has externalized another value, or if the invalid value is that of the
ballot or of the accepted prepared one and no larger one of these may be valid. -/
theorem processEnvelope_rejects_invalid (ctx : Context) (advance : SCPStatement → SlotM Unit)
    (st : SCPStatement) (self : Bool) (s : BallotState) :
    ((∃ v ∈ statementValues st, ctx.validateValue v = .invalidValue) →
        processEnvelope ctx advance st self s = .ok .invalid s) ↔
      ((∃ v ∈ statementValues st, ctx.validateValue v = .invalidValue) →
        IsTurnedDown ctx st self s) :=
  imp_congr_right fun _ => processEnvelope_invalid_iff

/-- A node of which `[1]` is an invalid value and `[2]` may be a valid one. -/
def sceptic : Context :=
  { twoOfThree with
    validateValue := fun v =>
      if v = [1] then .invalidValue else if v = [2] then .maybeValidValue
      else .fullyValidatedValue }

/-- A statement of node 1 with some ballots. -/
def pledging (ballot : SCPBallot) (prepared preparedPrime : Option SCPBallot) : SCPStatement :=
  ⟨1, .prepare { quorumSetHash := 7, ballot, prepared, preparedPrime, nC := 0, nH := 0 }⟩

/-- What is recorded for node 1 after its statement arrived. -/
def recordedFrom (ctx : Context) (st : SCPStatement) : Option (Option SCPStatement) :=
  match runCalls ctx [.recvSCPEnvelope st] (BallotState.init ctx) with
  | .ok _ t => some (t.latestEnvelopes.lookup 1)
  | .error _ _ => none

set_option maxRecDepth 100000 in
/-- An invalid value is overlooked in `preparedPrime`, and also in the ballot when the value of
`prepared` is larger and may be valid. -/
theorem invalid_value_recorded :
    [1] ∈ statementValues (pledging ⟨2, [3]⟩ (some ⟨2, [3]⟩) (some ⟨1, [1]⟩)) ∧
    recordedFrom sceptic (pledging ⟨2, [3]⟩ (some ⟨2, [3]⟩) (some ⟨1, [1]⟩)) =
      some (some (pledging ⟨2, [3]⟩ (some ⟨2, [3]⟩) (some ⟨1, [1]⟩))) ∧
    [1] ∈ statementValues (pledging ⟨1, [1]⟩ (some ⟨1, [2]⟩) none) ∧
    recordedFrom sceptic (pledging ⟨1, [1]⟩ (some ⟨1, [2]⟩) none) =
      some (some (pledging ⟨1, [1]⟩ (some ⟨1, [2]⟩) none)) ∧
    sceptic.validateValue [1] = .invalidValue := by
  refine ⟨by decide, by decide +kernel, by decide, by decide +kernel, by decide⟩

end Validation

/-! ### Counters -/

section Counters

variable {ctx : Context} {envs : FMap NodeID SCPStatement} {s : BallotState} {target n m : Nat}
  {advance : SCPStatement → SlotM Unit}

/-- The nodes with a counter above `n` block the local node. -/
def blockedAbove (ctx : Context) (envs : FMap NodeID SCPStatement) (n : Nat) : Bool :=
  isVBlockingWith ctx.qSet envs fun st => decide (n < bumpCounter st)

/-- The recorded counters are 32-bit ones. -/
def CountersFit (envs : FMap NodeID SCPStatement) : Prop :=
  ∀ v st, envs.lookup v = some st → bumpCounter st ≤ UINT32_MAX

/-- Filters that agree on the recorded statements block alike. -/
theorem isVBlockingWith_congr {qSet : SCPQuorumSet} {f g : SCPStatement → Bool}
    (h : ∀ v st, envs.lookup v = some st → f st = g st) :
    isVBlockingWith qSet envs f = isVBlockingWith qSet envs g := by
  rw [Bool.eq_iff_iff]
  constructor
  · intro hf
    exact isVBlockingWith_transfer hf fun v st hst hpass => ⟨st, hst, (h v st hst).symm.trans hpass⟩
  · intro hg
    exact isVBlockingWith_transfer hg fun v st hst hpass => ⟨st, hst, (h v st hst).trans hpass⟩

theorem isAheadOf_eq {st : SCPStatement} (hn : n ≤ UINT32_MAX) :
    isAheadOf n st = decide (n < bumpCounter st) := by
  cases hst : st.pledges with
  | prepare p => simp only [isAheadOf, bumpCounter, hst]
  | confirm c => simp only [isAheadOf, bumpCounter, hst]
  | externalize e =>
    simp only [isAheadOf, bumpCounter, hst, decide_eq_decide]
    exact ⟨fun hne => lt_of_le_of_ne hn hne, fun hlt => hlt.ne⟩

theorem isVBlockingWith_isAheadOf (hn : n ≤ UINT32_MAX) :
    isVBlockingWith ctx.qSet envs (isAheadOf n) = blockedAbove ctx envs n :=
  isVBlockingWith_congr fun _ _ _ => isAheadOf_eq hn

/-- Nothing blocks above a counter that no node has passed. -/
theorem not_blockedAbove (h : ∀ v st, envs.lookup v = some st → bumpCounter st ≤ n) :
    blockedAbove ctx envs n = false := by
  rw [Bool.eq_false_iff]
  intro hblocked
  obtain ⟨v, st, hst, hpass⟩ := exists_of_isVBlockingWith hblocked
  exact absurd (of_decide_eq_true hpass) (Nat.not_lt.2 (h v st hst))

/-- Between two counters that no node is at, the same nodes are above. -/
theorem blockedAbove_eq (hle : m ≤ n)
    (hgap : ∀ v st, envs.lookup v = some st → bumpCounter st ≤ m ∨ n < bumpCounter st) :
    blockedAbove ctx envs n = blockedAbove ctx envs m := by
  refine isVBlockingWith_congr fun v st hst => ?_
  rw [decide_eq_decide]
  rcases hgap v st hst with hbelow | habove
  · exact ⟨fun hlt => by omega, fun hlt => by omega⟩
  · exact ⟨fun _ => by omega, fun _ => habove⟩

/-- Over counters that do not lag behind, the scan finds the first one that does not block. -/
theorem scanCounters_eq_find {ns : List Nat} (hns : ∀ n ∈ ns, target ≤ n ∧ n ≤ UINT32_MAX) :
    scanCounters ctx envs target ns =
      (ns.find? fun n => !blockedAbove ctx envs n).filter (· ≠ target) := by
  induction ns with
  | nil => rfl
  | cons n ns ih =>
    obtain ⟨hge, hfit⟩ := hns n mem_cons_self
    simp only [scanCounters, if_neg (Nat.not_lt.2 hge), isVBlockingWith_isAheadOf hfit]
    cases hblocked : blockedAbove ctx envs n with
    | true =>
      rw [if_pos rfl, ih fun m hm => hns m (mem_cons_of_mem _ hm),
        List.find?_cons_of_neg (by simp [hblocked])]
    | false =>
      rw [if_neg Bool.false_ne_true, List.find?_cons_of_pos (by simp [hblocked])]
      by_cases htarget : n = target
      · rw [if_pos htarget, Option.filter_some_neg (by simpa using htarget)]
      · rw [if_neg htarget, Option.filter_some_pos (by simpa using htarget)]

/-- The counters that `attemptBump` scans. -/
def allCounters (envs : FMap NodeID SCPStatement) (target : Nat) : List Nat :=
  ascending (target :: envs.entries.map fun e => bumpCounter e.2)

theorem mem_allCounters :
    n ∈ allCounters envs target ↔
      n = target ∨ ∃ v st, envs.lookup v = some st ∧ bumpCounter st = n := by
  simp only [allCounters, mem_ascending, mem_cons, mem_map]
  constructor
  · rintro (rfl | ⟨⟨v, st⟩, hst, rfl⟩)
    · exact Or.inl rfl
    · exact Or.inr ⟨v, st, FMap.mem_entries.1 hst, rfl⟩
  · rintro (rfl | ⟨v, st, hst, rfl⟩)
    · exact Or.inl rfl
    · exact Or.inr ⟨⟨v, st⟩, FMap.mem_entries.2 hst, rfl⟩

/-- The first element of an increasing list that passes is the smallest one. -/
theorem find_le_of_pairwise {ns : List Nat} {p : Nat → Bool} (hsorted : ns.Pairwise (· < ·))
    (hfind : ns.find? p = some n) (hm : m ∈ ns) (hpass : p m = true) : n ≤ m := by
  obtain ⟨-, before, after, rfl, hbefore⟩ := List.find?_eq_some_iff_append.1 hfind
  rcases mem_append.1 hm with hm | hm
  · have hfail := hbefore m hm
    rw [hpass] at hfail
    cases hfail
  · rcases mem_cons.1 hm with rfl | hm
    · exact le_rfl
    · exact ((pairwise_cons.1 (pairwise_append.1 hsorted).2.1).1 m hm).le

/-- At any counter the same nodes are above as at the largest one scanned that is not above it. -/
theorem exists_scanned_below (ctx : Context) (envs : FMap NodeID SCPStatement)
    (hm : target ≤ m) :
    ∃ n ∈ allCounters envs target, n ≤ m ∧ blockedAbove ctx envs m = blockedAbove ctx envs n := by
  have htarget : target ∈ (allCounters envs target).toFinset.filter (· ≤ m) :=
    Finset.mem_filter.2 ⟨mem_toFinset.2 (mem_allCounters.2 (Or.inl rfl)), hm⟩
  obtain ⟨n, hn, hmax⟩ := Finset.exists_max_image _ id ⟨target, htarget⟩
  obtain ⟨hmem, hle⟩ := Finset.mem_filter.1 hn
  refine ⟨n, mem_toFinset.1 hmem, hle, blockedAbove_eq hle fun v st hst => ?_⟩
  rcases Nat.lt_or_ge m (bumpCounter st) with habove | hbelow
  · exact Or.inr habove
  · refine Or.inl (hmax (bumpCounter st) (Finset.mem_filter.2 ⟨mem_toFinset.2 ?_, hbelow⟩))
    exact mem_allCounters.2 (Or.inr ⟨v, st, hst, rfl⟩)

/-- The first counter scanned that does not block is the least counter of all from the target on
that does not block. -/
theorem isLeast_find (ctx : Context) (htarget : target ≤ UINT32_MAX) (hfit : CountersFit envs)
    (hlag : ∀ v st, envs.lookup v = some st → target ≤ bumpCounter st) :
    ∃ n, (allCounters envs target).find? (fun n => !blockedAbove ctx envs n) = some n ∧
      IsLeast { m | target ≤ m ∧ blockedAbove ctx envs m = false } n := by
  have hsorted : (allCounters envs target).Pairwise (· < ·) := ascending_pairwise _
  cases hfind : (allCounters envs target).find? (fun n => !blockedAbove ctx envs n) with
  | none =>
    -- nothing blocks above the largest counter
    obtain ⟨n, hmem, -, hsame⟩ := exists_scanned_below ctx envs htarget
    have hblocked := List.find?_eq_none.1 hfind n hmem
    rw [← hsame, not_blockedAbove hfit] at hblocked
    exact absurd rfl hblocked
  | some n =>
    have hfree : blockedAbove ctx envs n = false := by
      simpa using List.find?_some hfind
    have hge : target ≤ n := by
      rcases mem_allCounters.1 (mem_of_find?_eq_some hfind) with rfl | ⟨v, st, hst, rfl⟩
      · exact le_rfl
      · exact hlag v st hst
    refine ⟨n, rfl, ⟨hge, hfree⟩, ?_⟩
    rintro m ⟨hm, hfree'⟩
    obtain ⟨n', hmem, hle, hsame⟩ := exists_scanned_below ctx envs hm
    have hpass : (!blockedAbove ctx envs n') = true := by rw [← hsame, hfree']; rfl
    exact (find_le_of_pairwise hsorted hfind hmem hpass).trans hle

/-- A node that lags behind ends the scan. -/
theorem bumpTarget_of_lagging {l : LocalState} {v : NodeID} {st : SCPStatement}
    (hst : envs.lookup v = some st) (hlag : bumpCounter st < l.counter) :
    bumpTarget ctx l envs = none := by
  have hmem : bumpCounter st ∈ allCounters envs l.counter :=
    mem_allCounters.2 (Or.inr ⟨v, st, hst, rfl⟩)
  have hsorted : (allCounters envs l.counter).Pairwise (· < ·) := ascending_pairwise _
  show scanCounters ctx envs l.counter (allCounters envs l.counter) = none
  cases hns : allCounters envs l.counter with
  | nil => rfl
  | cons n ns =>
    rw [hns] at hmem hsorted
    -- the counters are scanned in ascending order
    have hle : n ≤ bumpCounter st := by
      rcases mem_cons.1 hmem with rfl | hmem
      · exact le_rfl
      · exact ((pairwise_cons.1 hsorted).1 _ hmem).le
    exact if_pos (hle.trans_lt hlag)

/-- Where `attemptBump` moves to when no node lags behind. -/
theorem bumpTarget_eq (ctx : Context) {l : LocalState} (htarget : l.counter ≤ UINT32_MAX)
    (hfit : CountersFit envs)
    (hlag : ∀ v st, envs.lookup v = some st → l.counter ≤ bumpCounter st) :
    (blockedAbove ctx envs l.counter = false → bumpTarget ctx l envs = none) ∧
    (blockedAbove ctx envs l.counter = true → ∃ n, bumpTarget ctx l envs = some n ∧
      IsLeast { m | l.counter < m ∧ blockedAbove ctx envs m = false } n) := by
  obtain ⟨n, hfind, ⟨hge, hfree⟩, hleast⟩ := isLeast_find ctx htarget hfit hlag
  have hscan : bumpTarget ctx l envs = (some n).filter (· ≠ l.counter) := by
    rw [← hfind]
    refine scanCounters_eq_find fun m hm => ?_
    rcases mem_allCounters.1 hm with rfl | ⟨v, st, hst, rfl⟩
    · exact ⟨le_rfl, htarget⟩
    · exact ⟨hlag v st hst, hfit v st hst⟩
  constructor
  · intro hstays
    have hn : n = l.counter := le_antisymm (hleast ⟨le_rfl, hstays⟩) hge
    rw [hscan, Option.filter_some_neg (by simpa using hn)]
  · intro hblocked
    have hn : n ≠ l.counter := by
      rintro rfl
      rw [hblocked] at hfree
      cases hfree
    refine ⟨n, ?_, ⟨lt_of_le_of_ne hge hn.symm, hfree⟩, ?_⟩
    · rw [hscan, Option.filter_some_pos (by simpa using hn)]
    · rintro m ⟨hlt, hfree'⟩
      exact hleast ⟨hlt.le, hfree'⟩

/-- The value that `abandonBallot` picks, which may be empty. -/
def pickedValue (s : BallotState) : Value :=
  if s.latestCompositeCandidate = [] then (s.currentBallot.map SCPBallot.value).getD []
  else s.latestCompositeCandidate

/-- The value that a bump is for: there may be none, or `c` may not allow it. -/
def bumpValue (s : BallotState) : Option Value :=
  if pickedValue s = [] then none
  else if s.currentBallot.isSome &&
      s.commit.any fun c => c.value ≠ s.valueOverride.getD (pickedValue s) then none
  else some (s.valueOverride.getD (pickedValue s))

/-- Moves to a ballot and tells the other nodes. -/
def moveTo (ctx : Context) (advance : SCPStatement → SlotM Unit) (ballot : SCPBallot) :
    SlotM Bool := do
  bumpToBallot ballot true
  runExcept (checkInvariants (← get).toLocalState)
  emitCurrentStateStatement ctx advance
  checkHeardFromQuorum ctx
  pure true

/-- A bump to a higher ballot, for a value that `c` allows. -/
theorem updateCurrentValue_eq {ballot : SCPBallot} (hphase : s.phase ≠ .externalize)
    (hlt : ∀ b, s.currentBallot = some b → b < ballot) :
    updateCurrentValue ballot s =
      if s.currentBallot.isSome && s.commit.any fun c => c.value ≠ ballot.value then .ok false s
      else (do
        bumpToBallot ballot true
        runExcept (checkInvariants (← get).toLocalState)
        pure true : SlotM Bool) s := by
  show (if s.phase = .externalize then pure false else _ : SlotM Bool) s = _
  rw [if_neg hphase]
  cases hb : s.currentBallot with
  | none => rfl
  | some b =>
    have hbelow := hlt b hb
    have hcompare : compareBallots b ballot = .lt := by
      rw [compareBallots_eq, compare_lt_iff_lt]
      exact hbelow
    have hensure : ensure (decide (compareBallots b ballot ≠ .gt)) ScpError.ballotDecreased s =
        .ok () s := by
      rw [hcompare]
      rfl
    have hcommit : (s.commit.any fun c => !areBallotsCompatible c ballot) =
        s.commit.any fun c => decide (c.value ≠ ballot.value) := by
      simp only [areBallotsCompatible, decide_not]
    refine (bind_of_ok hensure).trans ?_
    rw [Option.isSome_some, Bool.true_and, ← hcommit]
    by_cases hincompatible : s.commit.any fun c => !areBallotsCompatible c ballot
    · rw [if_pos hincompatible, if_pos hincompatible]
      rfl
    · rw [if_neg hincompatible, if_neg hincompatible]
      simp only [hcompare]

/-- A bump to a higher counter. -/
theorem bumpStateTo_eq {value : Value} (hphase : s.phase ≠ .externalize)
    (hn : s.toLocalState.counter < n) :
    bumpStateTo ctx advance value n s =
      if s.currentBallot.isSome && s.commit.any fun c => c.value ≠ s.valueOverride.getD value then
        .ok false s
      else moveTo ctx advance ⟨n, s.valueOverride.getD value⟩ s := by
  have hlt : ∀ b, s.currentBallot = some b → b < ⟨n, s.valueOverride.getD value⟩ := by
    intro b hb
    rw [SCPBallot.lt_iff]
    simp only [LocalState.counter, hb, Option.map_some, Option.getD_some] at hn
    exact Or.inl hn
  have hupdate := updateCurrentValue_eq hphase hlt
  show (if s.phase = .externalize then pure false else
    updateCurrentValue ⟨n, s.valueOverride.getD value⟩ >>= fun updated => _ : SlotM Bool) s = _
  rw [if_neg hphase]
  by_cases hforbidden :
      s.currentBallot.isSome && s.commit.any fun c => c.value ≠ s.valueOverride.getD value
  · rw [if_pos hforbidden] at hupdate ⊢
    exact bind_of_ok hupdate
  · rw [if_neg hforbidden] at hupdate ⊢
    refine (bind_congr_run hupdate).trans ?_
    simp only [moveTo, bind_assoc, pure_bind, if_true]

/-- What `attemptBump` does once it has found a counter. -/
theorem attemptBump_eq (hphase : s.phase ≠ .externalize)
    (htarget : bumpTarget ctx s.toLocalState s.latestEnvelopes = some n)
    (hn : s.toLocalState.counter < n) :
    attemptBump ctx advance s =
      (bumpValue s).elim (.ok false s) fun x => moveTo ctx advance ⟨n, x⟩ s := by
  have hnonzero : n ≠ 0 := by omega
  have hstart : attemptBump ctx advance s = abandonBallot ctx advance n s := by
    refine get_bind_run.trans ?_
    simp only [if_neg hphase, htarget]
  rw [hstart]
  unfold bumpValue
  show (if pickedValue s = [] then pure false
    else if n = 0 then bumpState ctx advance (pickedValue s) true
    else bumpStateTo ctx advance (pickedValue s) n : SlotM Bool) s = _
  rw [if_neg hnonzero]
  by_cases hempty : pickedValue s = []
  · rw [if_pos hempty, if_pos hempty]
    rfl
  · rw [if_neg hempty, if_neg hempty, bumpStateTo_eq hphase hn]
    by_cases hforbidden : s.currentBallot.isSome &&
        s.commit.any fun c => c.value ≠ s.valueOverride.getD (pickedValue s)
    · rw [if_pos hforbidden, if_pos hforbidden]
      rfl
    · rw [if_neg hforbidden, if_neg hforbidden]
      rfl

/-- There is a least counter above the local one that does not block. -/
theorem exists_least_free (ctx : Context) (hfit : CountersFit envs) :
    ∃ n, IsLeast { m | target < m ∧ blockedAbove ctx envs m = false } n := by
  classical
  have hfree : ∃ m, target < m ∧ blockedAbove ctx envs m = false := by
    refine ⟨target + UINT32_MAX + 1, by omega, not_blockedAbove fun v st hst => ?_⟩
    exact (hfit v st hst).trans (by omega)
  exact ⟨Nat.find hfree, Nat.find_spec hfree, fun m hm => Nat.find_min' hfree hm⟩

/-- A move does not look like staying. -/
theorem moveTo_ne {ballot : SCPBallot} {t : BallotState} :
    moveTo ctx advance ballot s ≠ .ok false t := by
  refine ne_ok_false ?_
  repeat refine wp_bind_any (fun _ _ => trivial) fun _ _ => ?_
  exact wp_pure.2 rfl

/-- `attemptBump` stays when the nodes with higher counters do not block the local node. When they
do, it moves to the least counter above which they no longer do, if there is a value to vote for,
exactly if no node lags behind the local counter. -/
theorem attemptBump_least_counter (ctx : Context) (advance : SCPStatement → SlotM Unit)
    (s : BallotState) (hphase : s.phase ≠ .externalize)
    (hcounter : s.toLocalState.counter ≤ UINT32_MAX) (hfit : CountersFit s.latestEnvelopes) :
    (blockedAbove ctx s.latestEnvelopes s.toLocalState.counter = false →
      attemptBump ctx advance s = .ok false s) ∧
    ((blockedAbove ctx s.latestEnvelopes s.toLocalState.counter = true →
      ∃ n, IsLeast { m | s.toLocalState.counter < m ∧
          blockedAbove ctx s.latestEnvelopes m = false } n ∧
        attemptBump ctx advance s =
          (bumpValue s).elim (.ok false s) fun x => moveTo ctx advance ⟨n, x⟩ s) ↔
      (blockedAbove ctx s.latestEnvelopes s.toLocalState.counter = true → bumpValue s ≠ none →
        ∀ v st, s.latestEnvelopes.lookup v = some st →
          s.toLocalState.counter ≤ bumpCounter st)) := by
  have hnone : bumpTarget ctx s.toLocalState s.latestEnvelopes = none →
      attemptBump ctx advance s = .ok false s := by
    intro htarget
    refine get_bind_run.trans ?_
    simp only [if_neg hphase, htarget]
    rfl
  by_cases hlag : ∀ v st, s.latestEnvelopes.lookup v = some st →
      s.toLocalState.counter ≤ bumpCounter st
  · obtain ⟨hstays, hmoves⟩ := bumpTarget_eq ctx hcounter hfit hlag
    refine ⟨fun hfree => hnone (hstays hfree), fun _ _ _ => hlag, fun _ hblocked => ?_⟩
    obtain ⟨n, htarget, hleast⟩ := hmoves hblocked
    exact ⟨n, hleast, attemptBump_eq hphase htarget hleast.1.1⟩
  · obtain ⟨v, st, hst, hbehind⟩ : ∃ v st, s.latestEnvelopes.lookup v = some st ∧
        bumpCounter st < s.toLocalState.counter := by
      simpa only [not_forall, not_le, exists_prop] using hlag
    have hstays := hnone (bumpTarget_of_lagging hst hbehind)
    refine ⟨fun _ => hstays, fun hmoves hblocked hvalue => ?_, fun h hblocked => ?_⟩
    · obtain ⟨n, -, hattempt⟩ := hmoves hblocked
      obtain ⟨x, hx⟩ := Option.ne_none_iff_exists'.1 hvalue
      rw [hstays, hx] at hattempt
      exact absurd hattempt.symm moveTo_ne
    · have hvalue : bumpValue s = none := by
        by_contra hvalue
        exact hlag (h hblocked hvalue)
      obtain ⟨n, hleast⟩ := exists_least_free ctx hfit
      exact ⟨n, hleast, by rw [hstays, hvalue]; rfl⟩

/-- A node in a network of four where any three form a quorum. -/
def threeOfFour : Context where
  nodeID := 0
  isValidator := true
  qSet := ⟨3, [0, 1, 2, 3], []⟩
  qSetHash := 7
  getQSet := fun h => if h = 7 then some ⟨3, [0, 1, 2, 3], []⟩ else none
  validateValue := fun _ => .fullyValidatedValue

/-- The node is at counter 2 and two peers are at counter 5. -/
def overtaken : BallotState where
  currentBallot := some ⟨2, [1]⟩
  latestEnvelopes := ((∅ : FMap NodeID SCPStatement).insert 2 (preparing 2 ⟨5, [1]⟩ none)).insert 3
    (preparing 3 ⟨5, [1]⟩ none)
  fullyValidated := true

theorem bumpCounter_overtaken {v : NodeID} {st : SCPStatement}
    (h : overtaken.latestEnvelopes.lookup v = some st) : bumpCounter st = 5 := by
  simp only [overtaken, FMap.lookup_insert] at h
  split_ifs at h with h3 h2
  · cases h
    rfl
  · cases h
    rfl
  · cases h

theorem attemptBump_least_counter_overtaken :
    blockedAbove threeOfFour overtaken.latestEnvelopes 2 = true ∧
      ∃ n, IsLeast { m | 2 < m ∧ blockedAbove threeOfFour overtaken.latestEnvelopes m = false } n ∧
        attemptBump threeOfFour (fun _ => pure ()) overtaken =
          (bumpValue overtaken).elim (.ok false overtaken) fun x =>
            moveTo threeOfFour (fun _ => pure ()) ⟨n, x⟩ overtaken := by
  have hblocked : blockedAbove threeOfFour overtaken.latestEnvelopes 2 = true := by decide +kernel
  refine ⟨hblocked, ((attemptBump_least_counter threeOfFour _ overtaken (by decide) (by decide)
    fun v st hst => ?_).2.2 fun _ _ v st hst => ?_) hblocked⟩
  · rw [bumpCounter_overtaken hst]
    decide
  · rw [bumpCounter_overtaken hst]
    decide

/-- The state after some calls on a fresh slot. -/
def stateAfter (ctx : Context) (calls : List Call) : Option BallotState :=
  okState (runCalls ctx calls) (BallotState.init ctx)

/-- The node is at counter 2 when it hears from two peers at counter 5. -/
def laggingCalls (lagging : List Call) : List Call :=
  [.bumpState [1] true, .abandonBallot] ++ lagging ++
    [.recvSCPEnvelope (preparing 2 ⟨5, [1]⟩ none), .recvSCPEnvelope (preparing 3 ⟨5, [1]⟩ none)]

set_option maxRecDepth 100000 in
/-- A node at counter 1 keeps the local node at counter 2, although both others are at counter 5.
Without that node it moves to counter 5. -/
theorem lagging_node_stops_bump :
    (stateAfter threeOfFour (laggingCalls [.recvSCPEnvelope (preparing 1 ⟨1, [1]⟩ none)])).map
        (fun s => (s.toLocalState.counter, blockedAbove threeOfFour s.latestEnvelopes 2,
          blockedAbove threeOfFour s.latestEnvelopes 5, bumpValue s)) =
      some (2, true, false, some [1]) ∧
    (stateAfter threeOfFour (laggingCalls [])).map
        (fun s => s.toLocalState.counter) = some 5 := by
  decide +kernel

end Counters

/-! ### Commit intervals -/

section Intervals

variable {pred : Interval → Bool} {boundaries : List Nat} {ctx : Context} {s : BallotState}
  {advance : SCPStatement → SlotM Unit} {hint : SCPStatement} {ballot : SCPBallot}

/-- The interval does not reach down to counter zero. -/
def StaysPositive (pred : Interval → Bool) (boundaries : List Nat) : Prop :=
  ∀ upper, IsGreatest { n | n ∈ boundaries ∧ pred (n, n) = true } upper →
    0 ∉ reachableFrom pred boundaries upper

theorem LargestInterval.lower_ne_zero {found : Interval}
    (h : LargestInterval pred boundaries found) :
    found.1 ≠ 0 ↔ StaysPositive pred boundaries := by
  constructor
  · intro hnonzero upper hupper hreach
    rw [hupper.unique h.upper] at hreach
    exact hnonzero (Nat.le_zero.1 (h.lower.2 hreach))
  · intro hpositive hzero
    have hreach := h.lower.1
    rw [hzero] at hreach
    exact hpositive found.2 h.upper hreach

/-- Accepting a commit does not look like doing nothing. -/
theorem setAcceptCommit_ne {c h : SCPBallot} :
    setAcceptCommit ctx advance c h s ≠ .ok false s := by
  have hdone : wp (setAcceptCommit ctx advance c h) (fun didWork t => didWork = false → t ≠ s)
      (fun _ _ => True) s := by
    refine wp_bind.2 (wp_modify.2 (wp_get_bind.2 (wp_bind.2 (wp_set.2 ?_))))
    extract_lets changed _ didWork
    by_cases hwork : didWork = true
    · repeat refine wp_bind_any (fun _ _ => trivial) fun _ _ => ?_
      exact wp_pure.2 fun hnot => absurd hwork (Bool.not_eq_true _ ▸ hnot)
    · obtain ⟨hchanged, hphase⟩ := not_or.1 (mt Bool.or_eq_true_iff.2 hwork)
      refine wp_bind.2 (wp_onlyIf.2 ⟨fun h => absurd h hchanged, fun _ => ?_⟩)
      refine wp_bind.2 (wp_onlyIf.2 ⟨fun h => absurd h hphase, fun _ => ?_⟩)
      refine wp_bind.2 (wp_onlyIf.2 ⟨fun h => absurd h hwork, fun _ => ?_⟩)
      refine wp_pure.2 fun _ hsame => ?_
      -- the log has grown
      have hlog := congrArg (fun t => t.log.length) hsame
      simp at hlog
  intro hstays
  exact wp_ok hdone hstays rfl rfl

/-- Externalizing does not look like doing nothing. -/
theorem setConfirmCommit_ne {c h : SCPBallot} {t : BallotState} :
    setConfirmCommit ctx advance c h s ≠ .ok false t := by
  refine ne_ok_false ?_
  repeat refine wp_bind_any (fun _ _ => trivial) fun _ _ => ?_
  exact wp_pure.2 rfl

/-- What `attemptAcceptCommit` does with a hint that can help. -/
theorem attemptAcceptCommit_eq (ctx : Context) (advance : SCPStatement → SlotM Unit) {n : Nat}
    (hhint : commitHint hint = some ballot)
    (hphase : s.phase = .prepare ∨ s.phase = .confirm ∧
      ∃ h, s.highBallot = some h ∧ ballot.value = h.value ∧ h.counter < n)
    (hn : n ≤ (acceptedInterval ctx s.latestEnvelopes ballot).2) :
    attemptAcceptCommit ctx advance hint s =
      if (acceptedInterval ctx s.latestEnvelopes ballot).1 ≠ 0 then
        setAcceptCommit ctx advance
          ⟨(acceptedInterval ctx s.latestEnvelopes ballot).1, ballot.value⟩
          ⟨(acceptedInterval ctx s.latestEnvelopes ballot).2, ballot.value⟩ s
      else .ok false s := by
  have hext : s.phase ≠ .externalize := by
    rcases hphase with hphase | ⟨hphase, -⟩
    · simp [hphase]
    · simp [hphase]
  have hon : isOnHighBallot s.toLocalState ballot = .ok true := by
    rcases hphase with hphase | ⟨hphase, h, hh, hvalue, -⟩
    · simp only [isOnHighBallot, hphase]
    · simp only [isOnHighBallot, hphase, hh, deref]
      exact congrArg Except.ok (areBallotsCompatible_iff.2 hvalue)
  have habove : s.phase ≠ .confirm ∨ s.highBallot.any fun h =>
      (acceptedInterval ctx s.latestEnvelopes ballot).2 > h.counter := by
    rcases hphase with hphase | ⟨-, h, hh, -, hlt⟩
    · simp [hphase]
    · rw [hh]
      exact Or.inr (decide_eq_true (hlt.trans_le hn))
  refine get_bind_run.trans ?_
  simp only [if_neg hext, hhint]
  refine (bind_of_ok (b := true) (t := s) (by rw [hon]; rfl)).trans ?_
  split
  · rename_i hgoes
    rw [if_pos hgoes.2.1]
  · rename_i hgoes
    rw [if_neg fun hnonzero => hgoes ⟨rfl, hnonzero, habove⟩]
    rfl

/-- What `attemptConfirmCommit` does with a hint that can help. -/
theorem attemptConfirmCommit_eq (ctx : Context) (advance : SCPStatement → SlotM Unit)
    (hhint : confirmHint hint = some ballot) (hphase : s.phase = .confirm)
    (hhigh : s.highBallot.isSome)
    (hcommit : ∃ c, s.commit = some c ∧ ballot.value = c.value) :
    attemptConfirmCommit ctx advance hint s =
      if (ratifiedInterval ctx s.latestEnvelopes ballot).1 ≠ 0 then
        setConfirmCommit ctx advance
          ⟨(ratifiedInterval ctx s.latestEnvelopes ballot).1, ballot.value⟩
          ⟨(ratifiedInterval ctx s.latestEnvelopes ballot).2, ballot.value⟩ s
      else .ok false s := by
  obtain ⟨h, hh⟩ := Option.isSome_iff_exists.1 hhigh
  obtain ⟨c, hc, hvalue⟩ := hcommit
  refine get_bind_run.trans ?_
  simp only [hphase, hh, hc, hhint, ne_eq, not_true_eq_false, if_false,
    areBallotsCompatible_iff.2 hvalue, true_and]
  split
  · rfl
  · rfl

/-- `attemptAcceptCommit` and `attemptConfirmCommit` find the interval with the largest upper end
that passes their test, extended downwards over all boundaries that keep passing it, exactly if it
does not reach down to counter zero. -/
theorem commit_intervals_found (ctx : Context) (advance : SCPStatement → SlotM Unit)
    (s : BallotState) (hint : SCPStatement) (ballot : SCPBallot) (n : Nat)
    (hmem : n ∈ getCommitBoundariesFromStatements s.latestEnvelopes ballot) :
    (commitHint hint = some ballot →
      acceptsCommit ctx s.latestEnvelopes ballot (n, n) = true →
      s.phase = .prepare ∨ s.phase = .confirm ∧
        (∃ h, s.highBallot = some h ∧ ballot.value = h.value ∧ h.counter < n) →
      ((∃ found, LargestInterval (acceptsCommit ctx s.latestEnvelopes ballot)
          (getCommitBoundariesFromStatements s.latestEnvelopes ballot) found ∧
        attemptAcceptCommit ctx advance hint s =
          setAcceptCommit ctx advance ⟨found.1, ballot.value⟩ ⟨found.2, ballot.value⟩ s) ↔
        StaysPositive (acceptsCommit ctx s.latestEnvelopes ballot)
          (getCommitBoundariesFromStatements s.latestEnvelopes ballot))) ∧
    (confirmHint hint = some ballot →
      ratifiesCommit ctx s.latestEnvelopes ballot (n, n) = true →
      s.phase = .confirm → s.highBallot.isSome →
      (∃ c, s.commit = some c ∧ ballot.value = c.value) →
      ((∃ found, LargestInterval (ratifiesCommit ctx s.latestEnvelopes ballot)
          (getCommitBoundariesFromStatements s.latestEnvelopes ballot) found ∧
        attemptConfirmCommit ctx advance hint s =
          setConfirmCommit ctx advance ⟨found.1, ballot.value⟩ ⟨found.2, ballot.value⟩ s) ↔
        StaysPositive (ratifiesCommit ctx s.latestEnvelopes ballot)
          (getCommitBoundariesFromStatements s.latestEnvelopes ballot))) := by
  constructor
  · intro hhint hpass hphase
    have hfound : LargestInterval _ _ (acceptedInterval ctx s.latestEnvelopes ballot) :=
      findExtendedInterval_largest descending_pairwise hmem hpass
    have hattempt := attemptAcceptCommit_eq ctx advance hhint hphase (hfound.upper.2 ⟨hmem, hpass⟩)
    refine Iff.trans ?_ hfound.lower_ne_zero
    constructor
    · rintro ⟨found, -, hset⟩ hzero
      rw [hattempt, if_neg (not_not.2 hzero)] at hset
      exact setAcceptCommit_ne hset.symm
    · intro hnonzero
      exact ⟨_, hfound, hattempt.trans (if_pos hnonzero)⟩
  · intro hhint hpass hphase hhigh hcommit
    have hfound : LargestInterval _ _ (ratifiedInterval ctx s.latestEnvelopes ballot) :=
      findExtendedInterval_largest descending_pairwise hmem hpass
    have hattempt := attemptConfirmCommit_eq ctx advance hhint hphase hhigh hcommit
    refine Iff.trans ?_ hfound.lower_ne_zero
    constructor
    · rintro ⟨found, -, hset⟩ hzero
      rw [hattempt, if_neg (not_not.2 hzero)] at hset
      exact setConfirmCommit_ne hset.symm
    · intro hnonzero
      exact ⟨_, hfound, hattempt.trans (if_pos hnonzero)⟩

/-- A `CONFIRM` statement on `[1]` for the counters from `nCommit` to 2. -/
def confirming (node : NodeID) (nCommit : Nat) : SCPStatement :=
  ⟨node, .confirm
    { ballot := ⟨2, [1]⟩, nPrepared := 2, nCommit, nH := 2, quorumSetHash := 7 }⟩

/-- A node that has heard of two peers that they accepted to commit from counter 1 on. -/
def informed : BallotState where
  latestEnvelopes := ((∅ : FMap NodeID SCPStatement).insert 1 (confirming 1 1)).insert 2
    (confirming 2 1)
  fullyValidated := true

theorem commit_intervals_found_informed :
    ∃ found, LargestInterval (acceptsCommit threeOfFour informed.latestEnvelopes ⟨2, [1]⟩)
        (getCommitBoundariesFromStatements informed.latestEnvelopes ⟨2, [1]⟩) found ∧
      attemptAcceptCommit threeOfFour (fun _ => pure ()) (confirming 2 1) informed =
        setAcceptCommit threeOfFour (fun _ => pure ()) ⟨found.1, [1]⟩ ⟨found.2, [1]⟩ informed := by
  have hboundaries : getCommitBoundariesFromStatements informed.latestEnvelopes ⟨2, [1]⟩ =
      [2, 1] := by decide +kernel
  refine ((commit_intervals_found threeOfFour (fun _ => pure ()) informed (confirming 2 1)
    ⟨2, [1]⟩ 2 (by rw [hboundaries]; decide)).1 rfl (by decide +kernel) (Or.inl rfl)).2 ?_
  intro upper _ hreach
  have hmem := hreach.1
  rw [hboundaries] at hmem
  simp at hmem

/-- Two peers have accepted to commit from some counter on. -/
def confirmedBy (nCommit : Nat) : List Call :=
  [.bumpState [1] true, .recvSCPEnvelope (confirming 1 nCommit),
    .recvSCPEnvelope (confirming 2 nCommit)]

/-- Whether counter 2 passes the test to accept a commit, whether the counters from zero on do, and
how far the node has got. -/
def commitOutcome (nCommit : Nat) : Option (Bool × Bool × SCPPhase) :=
  (stateAfter threeOfFour (confirmedBy nCommit)).map fun s =>
    (acceptsCommit threeOfFour s.latestEnvelopes ⟨2, [1]⟩ (2, 2),
      acceptsCommit threeOfFour s.latestEnvelopes ⟨2, [1]⟩ (0, 2), s.phase)

set_option maxRecDepth 100000 in
/-- Sane statements that commit from counter zero on make the node overlook an interval that it
could accept. With counter one it accepts the commit and externalizes. -/
theorem zero_boundary_hides_interval :
    isStatementSane threeOfFour (confirming 1 0) false = true ∧
    isStatementSane threeOfFour (confirming 2 0) false = true ∧
    commitOutcome 0 = some (true, true, .prepare) ∧
    commitOutcome 1 = some (true, false, .externalize) := by
  decide +kernel

end Intervals

end SpnCore.Scp
