import SpnCore.Lib.Wp
import SpnCore.Scp.Statement

/-!
# The ballot protocol

`BallotProtocol` and the parts of `Slot` it uses, for one slot of one node. Every method is a
program over the state of the slot that may throw: exceptions, failed `dbgAssert`s (assertions
are compiled in) and dereferences of unset ballots are errors.

The methods are mutually recursive through `advanceSlot`, which the node's own statements
re-enter. The methods below it therefore take the next `advanceSlot` as a parameter, and
`advanceSlot` ties the knot on the number of levels that are still allowed.
-/

namespace SpnCore.Scp

open Lib

/-- The phases of the ballot protocol. -/
inductive SCPPhase where
  | prepare
  | confirm
  | externalize
deriving DecidableEq, Repr

/-- The answers of `SCPDriver::validateValue`. -/
inductive ValidationLevel where
  | invalidValue
  | maybeValidValue
  | fullyValidatedValue
deriving DecidableEq, Repr

/-- The answers of `processEnvelope`. -/
inductive EnvelopeState where
  | invalid
  | valid
deriving DecidableEq, Repr

/-- What stops a method of the ballot protocol. -/
inductive ScpError where
  /-- An assertion of `checkInvariants`. -/
  | invariant
  /-- An unset ballot is dereferenced. -/
  | nullBallot
  /-- The exception `moved to a bad state (ballot protocol)`. -/
  | badState
  /-- The exception `maximum number of transitions reached in advanceSlot`. -/
  | maxTransitions
  /-- The current ballot would move backwards. -/
  | ballotDecreased
  /-- `bumpToBallot` is called after a value was externalized. -/
  | bumpAfterExternalize
  /-- A ballot incompatible with `c` is considered in the `CONFIRM` phase. -/
  | incompatibleWithCommit
  /-- `c` would be cleared outside of the `PREPARE` phase. -/
  | commitCleared
  /-- `c` would be set while it is set. -/
  | commitReplaced
  /-- The loop around `attemptBump` was cut off. -/
  | bumpLoop
deriving DecidableEq, Repr

/-- What the ballot protocol needs to know about its node and its driver: the `LocalNode`, the
quorum sets behind hashes, and the validity of values. -/
structure Context where
  nodeID : NodeID
  isValidator : Bool
  qSet : SCPQuorumSet
  qSetHash : Hash
  getQSet : Hash → Option SCPQuorumSet
  validateValue : Value → ValidationLevel

/-- The state `φ, b, p, p', h, c` of the SCP paper. -/
structure LocalState where
  phase : SCPPhase := .prepare
  currentBallot : Option SCPBallot := none
  prepared : Option SCPBallot := none
  preparedPrime : Option SCPBallot := none
  highBallot : Option SCPBallot := none
  commit : Option SCPBallot := none
deriving DecidableEq, Repr

/-- The changes of the local state. -/
inductive Update where
  | preparedAccept (ballot : SCPBallot)
  | preparedConfirmed (newC newH : SCPBallot)
  | acceptCommit (c h : SCPBallot)
  | confirmCommit (c h : SCPBallot)
  | bump (ballot : SCPBallot)
deriving DecidableEq, Repr

/-- Calls of the driver. -/
inductive DriverCall where
  | startedBallotProtocol (ballot : SCPBallot)
  | acceptedBallotPrepared (ballot : SCPBallot)
  | confirmedBallotPrepared (ballot : SCPBallot)
  | acceptedCommit (ballot : SCPBallot)
  | ballotDidHearFromQuorum (ballot : SCPBallot)
  | setupTimer (counter : Nat)
  | stopTimer
  | stopNomination
  | valueExternalized (value : Value)
  | emitEnvelope (statement : SCPStatement)
deriving DecidableEq, Repr

/-- The state of a slot. The log holds the lines that the `set` methods write on entry, each
with the local state it was written in. -/
structure BallotState extends LocalState where
  heardFromQuorum : Bool := false
  latestEnvelopes : FMap NodeID SCPStatement := ∅
  valueOverride : Option Value := none
  currentMessageLevel : Nat := 0
  lastEnvelope : Option SCPStatement := none
  lastEnvelopeEmit : Option SCPStatement := none
  statementsHistory : List SCPStatement := []
  fullyValidated : Bool
  latestCompositeCandidate : Value := []
  driverCalls : List DriverCall := []
  log : List (LocalState × Update) := []

/-- The slot as it is constructed. -/
def BallotState.init (ctx : Context) : BallotState :=
  { fullyValidated := ctx.isValidator }

/-- A method of the ballot protocol. -/
abbrev SlotM := EStateM ScpError BallotState

/-- `MAX_ADVANCE_SLOT_RECURSION`. -/
def maxAdvanceSlotRecursion : Nat := 50

/-- The ballot behind a pointer. -/
def deref : Option SCPBallot → Except ScpError SCPBallot
  | some b => .ok b
  | none => .error .nullBallot

/-- `dbgAssert` of a pure check. -/
def dbgAssert (c : Bool) (e : ScpError) : Except ScpError Unit :=
  if c then .ok () else .error e

/-- Records a call of the driver. -/
def tell (call : DriverCall) : SlotM Unit :=
  modify fun s => { s with driverCalls := s.driverCalls ++ [call] }

/-- Writes a line of the log. -/
def logUpdate (u : Update) : SlotM Unit :=
  modify fun s => { s with log := s.log ++ [(s.toLocalState, u)] }

/-- Replaces the local state. -/
def setLocalState (l : LocalState) : SlotM Unit :=
  modify fun s => { s with toLocalState := l }

/-! ### Slot -/

section Slot

variable (ctx : Context)

/-- The quorum set a statement is counted with. -/
def getQuorumSetFromStatement (st : SCPStatement) : Option SCPQuorumSet :=
  match st.pledges with
  | .prepare p => ctx.getQSet p.quorumSetHash
  | .confirm c => ctx.getQSet c.quorumSetHash
  | .externalize _ => some (buildSingletonQSet st.nodeID)

/-- The statement is accepted by a v-blocking set, or accepted or voted for by a quorum. -/
def federatedAccept (envs : FMap NodeID SCPStatement) (voted accepted : SCPStatement → Bool) :
    Bool :=
  isVBlockingWith ctx.qSet envs accepted ||
    isQuorum ctx.qSet envs (getQuorumSetFromStatement ctx) fun st => accepted st || voted st

/-- A quorum voted for the statement. -/
def federatedRatify (envs : FMap NodeID SCPStatement) (voted : SCPStatement → Bool) : Bool :=
  isQuorum ctx.qSet envs (getQuorumSetFromStatement ctx) voted

end Slot

/-! ### Checks and statements -/

/-- The assertion on `p` and `p'`. -/
def checkPrepared (l : LocalState) : Except ScpError Unit :=
  match l.prepared, l.preparedPrime with
  | some p, some p' => dbgAssert (areBallotsLessAndIncompatible p' p) .invariant
  | _, _ => .ok ()

/-- The assertions on `h`. -/
def checkHighBallot (l : LocalState) : Except ScpError Unit :=
  match l.highBallot with
  | some h => do
      dbgAssert l.currentBallot.isSome .invariant
      let b ← deref l.currentBallot
      dbgAssert (areBallotsLessAndCompatible h b) .invariant
  | none => .ok ()

/-- The assertions on `c`, which dereference `h` without a check. -/
def checkCommit (l : LocalState) : Except ScpError Unit :=
  match l.commit with
  | some c => do
      dbgAssert l.currentBallot.isSome .invariant
      let h ← deref l.highBallot
      dbgAssert (areBallotsLessAndCompatible c h) .invariant
      let b ← deref l.currentBallot
      dbgAssert (areBallotsLessAndCompatible h b) .invariant
  | none => .ok ()

/-- The assertions of each phase. -/
def checkPhase (l : LocalState) : Except ScpError Unit :=
  match l.phase with
  | .prepare => .ok ()
  | .confirm => dbgAssert l.commit.isSome .invariant
  | .externalize => do
      dbgAssert l.commit.isSome .invariant
      dbgAssert l.highBallot.isSome .invariant

/-- The assertions on the local state. -/
def checkInvariants (l : LocalState) : Except ScpError Unit := do
  dbgAssert (l.currentBallot.all fun b => b.counter ≠ 0) .invariant
  checkPrepared l
  checkHighBallot l
  checkCommit l
  checkPhase l

/-- The pledge of the `PREPARE` phase; unset ballots leave their fields at zero. -/
def preparePledge (ctx : Context) (l : LocalState) : SCPPrepare :=
  { quorumSetHash := ctx.qSetHash
    ballot := l.currentBallot.getD {}
    prepared := l.prepared
    preparedPrime := l.preparedPrime
    nC := (l.commit.map SCPBallot.counter).getD 0
    nH := (l.highBallot.map SCPBallot.counter).getD 0 }

/-- The statement of the current phase that describes the local state, as the local node signs
it. -/
def createStatement (ctx : Context) (l : LocalState) : Except ScpError SCPStatement := do
  checkInvariants l
  match l.phase with
  | .prepare => .ok ⟨ctx.nodeID, .prepare (preparePledge ctx l)⟩
  | .confirm => do
      let b ← deref l.currentBallot
      let p ← deref l.prepared
      let c ← deref l.commit
      let h ← deref l.highBallot
      .ok ⟨ctx.nodeID, .confirm
        { ballot := b
          nPrepared := p.counter
          nCommit := c.counter
          nH := h.counter
          quorumSetHash := ctx.qSetHash }⟩
  | .externalize => do
      let c ← deref l.commit
      let h ← deref l.highBallot
      .ok ⟨ctx.nodeID, .externalize
        { commit := c
          nH := h.counter
          commitQuorumSetHash := ctx.qSetHash }⟩

/-- The fields of a `PREPARE` pledge are consistent. The local node may have no ballot yet. -/
def isPrepareSane (p : SCPPrepare) (self : Bool) : Bool :=
  (self || decide (p.ballot.counter > 0)) &&
    (p.preparedPrime.all fun p' =>
      p.prepared.all fun q => areBallotsLessAndIncompatible p' q) &&
    (decide (p.nH = 0) || p.prepared.any (fun q => p.nH ≤ q.counter)) &&
    (decide (p.nC = 0) || decide (p.nH ≠ 0 ∧ p.ballot.counter ≥ p.nH ∧ p.nH ≥ p.nC))

/-- The statement's quorum set is sane, and its fields are consistent. -/
def isStatementSane (ctx : Context) (st : SCPStatement) (self : Bool) : Bool :=
  match getQuorumSetFromStatement ctx st with
  | none => false
  | some qSet =>
    isQuorumSetSane qSet false &&
      match st.pledges with
      | .prepare p => isPrepareSane p self
      | .confirm c =>
        decide (c.ballot.counter > 0 ∧ c.nH ≤ c.ballot.counter ∧ c.nCommit ≤ c.nH)
      | .externalize e => decide (e.commit.counter > 0 ∧ e.nH ≥ e.commit.counter)

/-- The values of a statement that are put to the driver. -/
def valuesToValidate (st : SCPStatement) : List Value :=
  match st.pledges with
  | .prepare p =>
    (if p.ballot.counter ≠ 0 then [p.ballot.value] else []) ++
      (p.prepared.map SCPBallot.value).toList
  | .confirm c => [c.ballot.value]
  | .externalize e => [e.commit.value]

/-- The loop of `validateValues` over the values in order: the last answer that is not
`fullyValidatedValue` is kept. -/
def combineLevels (validate : Value → ValidationLevel) :
    ValidationLevel → List Value → ValidationLevel
  | res, [] => res
  | res, v :: vs =>
    match validate v with
    | .fullyValidatedValue => combineLevels validate res vs
    | .invalidValue => combineLevels validate .invalidValue vs
    | .maybeValidValue => combineLevels validate .maybeValidValue vs

/-- The validation level of a statement. -/
def validateValues (ctx : Context) (st : SCPStatement) : ValidationLevel :=
  combineLevels ctx.validateValue .fullyValidatedValue (ascending (valuesToValidate st))

/-- The statement supersedes the latest one recorded for its node. -/
def isNewerThanLatest (s : BallotState) (st : SCPStatement) : Bool :=
  match s.latestEnvelopes.lookup st.nodeID with
  | none => true
  | some oldst => isNewerStatement oldst st

/-- Records a statement as the latest of its node, and in the history of the slot. -/
def recordEnvelope (st : SCPStatement) : SlotM Unit :=
  modify fun s =>
    { s with
      latestEnvelopes := s.latestEnvelopes.insert st.nodeID st
      statementsHistory := s.statementsHistory ++ [st] }

/-- Hands the latest own statement to the driver, when outside of `advanceSlot`. -/
def sendLatestEnvelope : SlotM Unit := do
  let s ← get
  match s.lastEnvelope with
  | some st =>
    if s.currentMessageLevel = 0 ∧ s.fullyValidated ∧ s.lastEnvelopeEmit ≠ some st then do
      set { s with lastEnvelopeEmit := some st }
      tell (.emitEnvelope st)
    else pure ()
  | none => pure ()

/-- Starts or stops the ballot timer, depending on whether a quorum has reached the current
counter. -/
def checkHeardFromQuorum (ctx : Context) : SlotM Unit := do
  let s ← get
  match s.currentBallot with
  | none => pure ()
  | some b =>
    if isQuorum ctx.qSet s.latestEnvelopes (getQuorumSetFromStatement ctx)
        (hasReachedCounter b.counter) then do
      set { s with heardFromQuorum := true }
      if !s.heardFromQuorum then do
        tell (.ballotDidHearFromQuorum b)
        if s.phase ≠ .externalize then tell (.setupTimer b.counter) else pure ()
      else pure ()
      if s.phase = .externalize then tell .stopTimer else pure ()
    else do
      set { s with heardFromQuorum := false }
      tell .stopTimer

/-! ### Changes of the local state -/

/-- Moves the current ballot, dropping `h` when it is not compatible. -/
def LocalState.bumpTo (l : LocalState) (ballot : SCPBallot) : LocalState :=
  { l with
    currentBallot := some ballot
    highBallot := l.highBallot.filter (areBallotsCompatible ballot) }

/-- Raises `p` or `p'` to an accepted prepared ballot; the flag tells whether either changed. -/
def setPrepared (l : LocalState) (ballot : SCPBallot) : LocalState × Bool :=
  match l.prepared with
  | some p =>
    match compareBallots p ballot with
    | .lt =>
      if areBallotsCompatible p ballot then ({ l with prepared := some ballot }, true)
      else ({ l with prepared := some ballot, preparedPrime := some p }, true)
    | .gt =>
      if l.preparedPrime.all fun p' => compareBallots p' ballot = .lt then
        ({ l with preparedPrime := some ballot }, true)
      else (l, false)
    | .eq => (l, false)
  | none => ({ l with prepared := some ballot }, true)

/-- `p` or `p'` aborts the ballots voted to commit: it is above `h` and incompatible. -/
def LocalState.abortsCommit (l : LocalState) : Bool :=
  match l.commit, l.highBallot with
  | some _, some h =>
    l.prepared.any (areBallotsLessAndIncompatible h) ||
      l.preparedPrime.any (areBallotsLessAndIncompatible h)
  | _, _ => false

/-- Moves the current ballot; `check` asserts that it does not decrease. -/
def bumpToBallot (ballot : SCPBallot) (check : Bool) : SlotM Unit := do
  let s ← get
  ensure (decide (s.phase ≠ .externalize)) .bumpAfterExternalize
  ensure (!check || s.currentBallot.all fun b => compareBallots ballot b ≠ .lt) .ballotDecreased
  let gotBumped := s.currentBallot.all fun b => b.counter ≠ ballot.counter
  if s.currentBallot.isNone then tell (.startedBallotProtocol ballot) else pure ()
  setLocalState (s.toLocalState.bumpTo ballot)
  if gotBumped then modify fun s => { s with heardFromQuorum := false } else pure ()

/-- Moves the current ballot up to `h`. -/
def updateCurrentIfNeeded (h : SCPBallot) : SlotM Bool := do
  let s ← get
  if s.currentBallot.all fun b => compareBallots b h = .lt then do
    bumpToBallot h true
    pure true
  else pure false

/-- Moves the current ballot up to `ballot`, unless it is incompatible with `c`. -/
def updateCurrentValue (ballot : SCPBallot) : SlotM Bool := do
  let s ← get
  if s.phase = .externalize then pure false
  else
    match s.currentBallot with
    | none => do
        bumpToBallot ballot true
        runExcept (checkInvariants (← get).toLocalState)
        pure true
    | some b => do
        ensure (compareBallots b ballot ≠ .gt) .ballotDecreased
        if s.commit.any fun c => !areBallotsCompatible c ballot then pure false
        else
          match compareBallots b ballot with
          | .lt => do
              bumpToBallot ballot true
              runExcept (checkInvariants (← get).toLocalState)
              pure true
          | .gt => pure false
          | .eq => do
              runExcept (checkInvariants s.toLocalState)
              pure false

section Methods

variable (ctx : Context) (advance : SCPStatement → SlotM Unit)

/-- Processes a statement of a peer or, with `self`, of the local node. -/
def processEnvelope (st : SCPStatement) (self : Bool) : SlotM EnvelopeState := do
  let s ← get
  if !isStatementSane ctx st self then pure .invalid
  else if !isNewerThanLatest s st then pure .invalid
  else if validateValues ctx st = .invalidValue then pure .invalid
  else if s.phase ≠ .externalize then do
    if validateValues ctx st = .maybeValidValue then
      modify fun s => { s with fullyValidated := false }
    else pure ()
    recordEnvelope st
    advance st
    pure .valid
  else do
    -- the final EXTERNALIZE statement of the local node is recorded here
    let c ← runExcept (deref s.commit)
    if c.value = (getWorkingBallot st).value then do
      recordEnvelope st
      pure .valid
    else pure .invalid

/-- Processes the statement that describes the local state, unless it is already the latest
one, and queues it for emission. -/
def emitCurrentStateStatement : SlotM Unit := do
  let s ← get
  let st ← runExcept (createStatement ctx s.toLocalState)
  if s.latestEnvelopes.lookup ctx.nodeID = some st then pure ()
  else do
    let res ← processEnvelope ctx advance st true
    if res = .valid then do
      let s' ← get
      if s.currentBallot.isSome && s'.lastEnvelope.all (isNewerStatement · st) then do
        set { s' with lastEnvelope := some st }
        sendLatestEnvelope
      else pure ()
    else throw .badState

/-- Accepts `ballot` as prepared, giving up `c` when that aborts it. -/
def setPreparedAccept (ballot : SCPBallot) : SlotM Bool := do
  logUpdate (.preparedAccept ballot)
  let s ← get
  let (l, didWork) := setPrepared s.toLocalState ballot
  setLocalState l
  let didWork ← if l.abortsCommit then do
      ensure (decide (l.phase = .prepare)) .commitCleared
      setLocalState { l with commit := none }
      pure true
    else pure didWork
  if didWork then do
    tell (.acceptedBallotPrepared ballot)
    emitCurrentStateStatement ctx advance
  else pure ()
  pure didWork

/-- Confirms `newH` as prepared, and votes to commit from `newC` when its counter is set. -/
def setPreparedConfirmed (newC newH : SCPBallot) : SlotM Bool := do
  logUpdate (.preparedConfirmed newC newH)
  let s ← get
  set { s with valueOverride := some newH.value }
  let didWork ←
    -- c and h are only set on a compatible ballot
    if s.currentBallot.all fun b => areBallotsCompatible b newH then do
      let raise := s.highBallot.all fun h => compareBallots newH h = .gt
      if raise then setLocalState { s.toLocalState with highBallot := some newH } else pure ()
      if newC.counter ≠ 0 then do
        ensure s.commit.isNone .commitReplaced
        modify fun s => { s with commit := some newC }
      else pure ()
      let didWork := raise || decide (newC.counter ≠ 0)
      if didWork then tell (.confirmedBallotPrepared newH) else pure ()
      pure didWork
    else pure false
  let bumped ← updateCurrentIfNeeded newH
  let didWork := bumped || didWork
  if didWork then emitCurrentStateStatement ctx advance else pure ()
  pure didWork

/-- The part of `setAcceptCommit` that leaves the `PREPARE` phase. -/
def moveToConfirm (h : SCPBallot) : SlotM Unit := do
  modify fun s => { s with phase := .confirm }
  let s ← get
  onlyIf (s.currentBallot.any fun b => !areBallotsLessAndCompatible h b) (bumpToBallot h false)
  modify fun s => { s with preparedPrime := none }

/-- Accepts committing the ballots from `c` to `h`. -/
def setAcceptCommit (c h : SCPBallot) : SlotM Bool := do
  logUpdate (.acceptCommit c h)
  let s ← get
  set { s with valueOverride := some h.value }
  let changed := !(s.highBallot = some h && s.commit = some c)
  onlyIf changed (setLocalState { s.toLocalState with commit := some c, highBallot := some h })
  onlyIf (s.phase = .prepare) (moveToConfirm h)
  let didWork := changed || decide (s.phase = .prepare)
  onlyIf didWork do
    let high ← runExcept (deref (← get).highBallot)
    let _ ← updateCurrentIfNeeded high
    tell (.acceptedCommit h)
    emitCurrentStateStatement ctx advance
  pure didWork

/-- Externalizes the value of `c`. -/
def setConfirmCommit (c h : SCPBallot) : SlotM Bool := do
  logUpdate (.confirmCommit c h)
  let s ← get
  setLocalState { s.toLocalState with commit := some c, highBallot := some h }
  let _ ← updateCurrentIfNeeded h
  modify fun s => { s with phase := .externalize }
  emitCurrentStateStatement ctx advance
  tell .stopNomination
  let c ← runExcept (deref (← get).commit)
  tell (.valueExternalized c.value)
  pure true

/-- Moves to the ballot with counter `n`, on the value confirmed prepared if there is one. -/
def bumpStateTo (value : Value) (n : Nat) : SlotM Bool := do
  let s ← get
  if s.phase = .externalize then pure false
  else do
    let newb : SCPBallot := ⟨n, s.valueOverride.getD value⟩
    let updated ← updateCurrentValue newb
    if updated then do
      emitCurrentStateStatement ctx advance
      checkHeardFromQuorum ctx
    else pure ()
    pure updated

/-- Moves to the next counter; without `force` only when there is no current ballot. -/
def bumpState (value : Value) (force : Bool) : SlotM Bool := do
  let s ← get
  if !force && s.currentBallot.isSome then pure false
  else
    bumpStateTo ctx advance value
      ((s.currentBallot.map fun b => (b.counter + 1) % 2 ^ 32).getD 1)

/-- Gives up on the current ballot and moves to counter `n`, or to the next one when `n` is
zero. -/
def abandonBallot (n : Nat) : SlotM Bool := do
  let s ← get
  let v := if s.latestCompositeCandidate = [] then
      (s.currentBallot.map SCPBallot.value).getD []
    else s.latestCompositeCandidate
  if v = [] then pure false
  else if n = 0 then bumpState ctx advance v true
  else bumpStateTo ctx advance v n

/-! ### Federated voting -/

/-- The ballots that may have become prepared because of the hint, highest first. -/
def getPrepareCandidates (envs : FMap NodeID SCPStatement) (hint : SCPStatement) :
    List SCPBallot :=
  descending <| (hintBallots hint).flatMap fun topVote =>
    envs.entries.flatMap fun e => preparedBelow topVote e.2

/-- In the `CONFIRM` phase only a ballot above `p` on its value can help; it must then be on the
value of `c`. -/
def isConsidered (l : LocalState) (ballot : SCPBallot) : Except ScpError Bool :=
  match l.phase with
  | .confirm => do
      let p ← deref l.prepared
      if !areBallotsLessAndCompatible p ballot then .ok false
      else do
        let c ← deref l.commit
        dbgAssert (areBallotsCompatible c ballot) .incompatibleWithCommit
        .ok true
  | _ => .ok true

/-- `ballot` is not above `p'`, or is covered by `p`, so accepting it changes nothing. -/
def isAlreadyPrepared (l : LocalState) (ballot : SCPBallot) : Bool :=
  (l.preparedPrime.any fun p' => compareBallots ballot p' ≠ .gt) ||
    l.prepared.any (areBallotsLessAndCompatible ballot)

/-- `ballot` can be accepted as prepared and would raise `p` or `p'`. -/
def canAcceptPrepared (l : LocalState) (envs : FMap NodeID SCPStatement) (ballot : SCPBallot) :
    Except ScpError Bool := do
  let considered ← isConsidered l ballot
  .ok (considered && !isAlreadyPrepared l ballot &&
    federatedAccept ctx envs (votesPreparedBallot ballot) (hasPreparedBallot ballot))

/-- The first candidate that can be accepted as prepared. -/
def findAcceptable (l : LocalState) (envs : FMap NodeID SCPStatement) :
    List SCPBallot → Except ScpError (Option SCPBallot)
  | [] => .ok none
  | ballot :: rest => do
      if ← canAcceptPrepared ctx l envs ballot then .ok (some ballot)
      else findAcceptable l envs rest

/-- Steps (1) and (2) of the paper. -/
def attemptPreparedAccept (hint : SCPStatement) : SlotM Bool := do
  let s ← get
  if s.phase = .externalize then pure false
  else do
    let found ← runExcept (findAcceptable ctx s.toLocalState s.latestEnvelopes
      (getPrepareCandidates s.latestEnvelopes hint))
    match found with
    | some ballot => setPreparedAccept ctx advance ballot
    | none => pure false

/-- The candidates from the highest ratified one on, if it would raise `h`. -/
def findNewH (l : LocalState) (envs : FMap NodeID SCPStatement) :
    List SCPBallot → List SCPBallot
  | [] => []
  | ballot :: rest =>
    if l.highBallot.any fun h => compareBallots h ballot ≠ .lt then []
    else if federatedRatify ctx envs (hasPreparedBallot ballot) then ballot :: rest
    else findNewH l envs rest

/-- The lowest ballot of an unbroken run of ratified candidates on `newH`'s value that are not
below `b`. -/
def findNewC (envs : FMap NodeID SCPStatement) (b newH : SCPBallot) :
    SCPBallot → List SCPBallot → SCPBallot
  | newC, [] => newC
  | newC, ballot :: rest =>
    if compareBallots ballot b = .lt then newC
    else if !areBallotsLessAndCompatible ballot newH then findNewC envs b newH newC rest
    else if federatedRatify ctx envs (hasPreparedBallot ballot) then
      findNewC envs b newH ballot rest
    else newC

/-- `c` may be set for `newH`: it is not set, and no accepted prepared ballot aborts `newH`. -/
def mayVoteCommit (l : LocalState) (newH : SCPBallot) : Bool :=
  l.commit.isNone && l.prepared.all (fun p => !areBallotsLessAndIncompatible newH p) &&
    l.preparedPrime.all (fun p' => !areBallotsLessAndIncompatible newH p')

/-- Step (3) of the paper. -/
def attemptPreparedConfirmed (hint : SCPStatement) : SlotM Bool := do
  let s ← get
  if s.phase ≠ .prepare then pure false
  else if s.prepared.isNone then pure false
  else
    match findNewH ctx s.toLocalState s.latestEnvelopes
        (getPrepareCandidates s.latestEnvelopes hint) with
    | [] => pure false
    | newH :: rest =>
      let newC := if mayVoteCommit s.toLocalState newH then
          findNewC ctx s.latestEnvelopes (s.currentBallot.getD {}) newH {} (newH :: rest)
        else {}
      setPreparedConfirmed ctx advance newC newH

/-- Extends the candidate interval downwards over the boundaries, largest first; an interval
that starts at zero is unset. -/
def findExtendedInterval (pred : Interval → Bool) : Interval → List Nat → Interval
  | candidate, [] => candidate
  | candidate, b :: rest =>
    if candidate.1 ≠ 0 ∧ b > candidate.2 then findExtendedInterval pred candidate rest
    else
      let cur := if candidate.1 = 0 then (b, b) else (b, candidate.2)
      if pred cur then findExtendedInterval pred cur rest
      else if candidate.1 ≠ 0 then candidate
      else findExtendedInterval pred candidate rest

/-- The ends of all commit intervals on the ballot's value, largest first. -/
def getCommitBoundariesFromStatements (envs : FMap NodeID SCPStatement) (ballot : SCPBallot) :
    List Nat :=
  descending (envs.entries.flatMap fun e => commitBoundaries ballot e.2)

/-- The ballot whose commit a hint may get accepted. -/
def commitHint (hint : SCPStatement) : Option SCPBallot :=
  match hint.pledges with
  | .prepare p => if p.nC ≠ 0 then some ⟨p.nH, p.ballot.value⟩ else none
  | .confirm c => some ⟨c.nH, c.ballot.value⟩
  | .externalize e => some ⟨e.nH, e.commit.value⟩

/-- The interval whose commit can be accepted. -/
def acceptedInterval (envs : FMap NodeID SCPStatement) (ballot : SCPBallot) : Interval :=
  findExtendedInterval
    (fun cur => federatedAccept ctx envs (votesCommit ballot cur) (commitPredicate ballot cur))
    (0, 0) (getCommitBoundariesFromStatements envs ballot)

/-- In the `CONFIRM` phase only a hint on the value of `h` can help. -/
def isOnHighBallot (l : LocalState) (ballot : SCPBallot) : Except ScpError Bool :=
  match l.phase with
  | .confirm => do
      let h ← deref l.highBallot
      .ok (areBallotsCompatible ballot h)
  | _ => .ok true

/-- Steps (4) and (5) of the paper. -/
def attemptAcceptCommit (hint : SCPStatement) : SlotM Bool := do
  let s ← get
  if s.phase = .externalize then pure false
  else
    match commitHint hint with
    | none => pure false
    | some ballot => do
        let compatible ← runExcept (isOnHighBallot s.toLocalState ballot)
        let candidate := acceptedInterval ctx s.latestEnvelopes ballot
        if compatible ∧ candidate.1 ≠ 0 ∧
            (s.phase ≠ .confirm ∨ s.highBallot.any fun h => candidate.2 > h.counter) then
          setAcceptCommit ctx advance ⟨candidate.1, ballot.value⟩ ⟨candidate.2, ballot.value⟩
        else pure false

/-- The interval whose commit is ratified. -/
def ratifiedInterval (envs : FMap NodeID SCPStatement) (ballot : SCPBallot) : Interval :=
  findExtendedInterval
    (fun cur => federatedRatify ctx envs (commitPredicate ballot cur))
    (0, 0) (getCommitBoundariesFromStatements envs ballot)

/-- The ballot whose commit a hint may confirm. -/
def confirmHint (hint : SCPStatement) : Option SCPBallot :=
  match hint.pledges with
  | .prepare _ => none
  | .confirm c => some ⟨c.nH, c.ballot.value⟩
  | .externalize e => some ⟨e.nH, e.commit.value⟩

/-- Step (7) of the paper. -/
def attemptConfirmCommit (hint : SCPStatement) : SlotM Bool := do
  let s ← get
  if s.phase ≠ .confirm then pure false
  else
    match s.highBallot, s.commit, confirmHint hint with
    | some _, some c, some ballot =>
      let candidate := ratifiedInterval ctx s.latestEnvelopes ballot
      if areBallotsCompatible ballot c ∧ candidate.1 ≠ 0 then
        setConfirmCommit ctx advance ⟨candidate.1, ballot.value⟩ ⟨candidate.2, ballot.value⟩
      else pure false
    | _, _, _ => pure false

/-- The scan of `attemptBump` over the counters, smallest first: the first counter above the
target that no v-blocking set has passed. -/
def scanCounters (envs : FMap NodeID SCPStatement) (targetCounter : Nat) :
    List Nat → Option Nat
  | [] => none
  | n :: rest =>
    if n < targetCounter then none
    else if isVBlockingWith ctx.qSet envs (isAheadOf n) then
      scanCounters envs targetCounter rest
    else if n = targetCounter then none
    else some n

/-- The counter `attemptBump` moves to. -/
def bumpTarget (l : LocalState) (envs : FMap NodeID SCPStatement) : Option Nat :=
  let targetCounter := (l.currentBallot.map SCPBallot.counter).getD 0
  scanCounters ctx envs targetCounter
    (ascending (targetCounter :: envs.entries.map fun e => bumpCounter e.2))

/-- Step (9) of the paper. -/
def attemptBump : SlotM Bool := do
  let s ← get
  if s.phase = .externalize then pure false
  else
    match bumpTarget ctx s.toLocalState s.latestEnvelopes with
    | some n => abandonBallot ctx advance n
    | none => pure false

/-- Repeats `attemptBump` while it moves, for fewer rounds than the bound; the flag tells
whether it moved. -/
def bumpLoop : Nat → SlotM Bool
  | 0 => throw .bumpLoop
  | fuel + 1 => do
      let didBump ← attemptBump ctx advance
      if didBump then do
        let _ ← bumpLoop fuel
        pure true
      else pure false

/-- The end of `advanceSlot` at the first level: bump, then look for a quorum. -/
def bumpAtFirstLevel : SlotM Bool := do
  let s ← get
  if s.currentMessageLevel = 1 then do
    let didBump ← bumpLoop ctx advance (2 * s.latestEnvelopes.entries.length + 3)
    checkHeardFromQuorum ctx
    pure didBump
  else pure false

/-- The body of `advanceSlot` between entering and leaving a level. -/
def advanceBody (hint : SCPStatement) : SlotM Bool := do
  let accepted ← attemptPreparedAccept ctx advance hint
  let confirmed ← attemptPreparedConfirmed ctx advance hint
  let acceptedCommit ← attemptAcceptCommit ctx advance hint
  let confirmedCommit ← attemptConfirmCommit ctx advance hint
  let bumped ← bumpAtFirstLevel ctx advance
  pure (accepted || confirmed || acceptedCommit || confirmedCommit || bumped)

end Methods

/-- Draws all conclusions from a newly recorded statement. The first argument bounds the levels
of recursion that are left; the level counter of the slot reaches its limit first. -/
def advanceSlot (ctx : Context) : Nat → SCPStatement → SlotM Unit
  | 0, _ => throw .maxTransitions
  | fuel + 1, hint => do
      modify fun s => { s with currentMessageLevel := s.currentMessageLevel + 1 }
      let s ← get
      ensure (decide (s.currentMessageLevel < maxAdvanceSlotRecursion)) .maxTransitions
      let didWork ← advanceBody ctx (advanceSlot ctx fuel) hint
      modify fun s => { s with currentMessageLevel := s.currentMessageLevel - 1 }
      if didWork then sendLatestEnvelope else pure ()

/-! ### Calls -/

/-- The calls a slot receives: envelopes from the network, `bumpState`, `abandonBallot` (which is
also what the ballot timer runs), and a new composite candidate from nomination. -/
inductive Call where
  | recvSCPEnvelope (st : SCPStatement)
  | bumpState (value : Value) (force : Bool)
  | abandonBallot
  | compositeCandidate (value : Value)
deriving DecidableEq, Repr

/-- Runs a call. -/
def Call.run (ctx : Context) (call : Call) : SlotM Unit :=
  let advance := advanceSlot ctx maxAdvanceSlotRecursion
  match call with
  | .recvSCPEnvelope st =>
    -- the herder skips the node's own messages
    if st.nodeID = ctx.nodeID then pure ()
    else do
      let _ ← processEnvelope ctx advance st false
      pure ()
  | .bumpState value force => do
      let _ ← Scp.bumpState ctx advance value force
      pure ()
  | .abandonBallot => do
      let _ ← Scp.abandonBallot ctx advance 0
      pure ()
  | .compositeCandidate value => modify fun s => { s with latestCompositeCandidate := value }

/-- Runs calls one after the other. -/
def runCalls (ctx : Context) : List Call → SlotM Unit
  | [] => pure ()
  | call :: calls => do
      call.run ctx
      runCalls ctx calls

end SpnCore.Scp
