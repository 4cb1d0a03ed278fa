import Mathlib.Data.Finset.Sort
import SpnCore.Lib.Checked
import SpnCore.Scp.BallotProtocol

/-!
# The nomination protocol

`NominationProtocol` of one slot, together with the ballot protocol of the slot, which it starts
and which can stop it. The driver is asked for the validity of values at different times, so its
answers are functions of the number of questions asked before.

A node processes its own nominations like those of others, so `processEnvelope` re-enters itself
through `emitNomination`. How deep it does depends on the answers of the driver; the first
argument of `processNested` bounds the depth.
-/

namespace SpnCore.Scp.Nomination

open Lib

/-- A `NOMINATE` pledge. -/
structure SCPNomination where
  quorumSetHash : Hash
  votes : List Value
  accepted : List Value
deriving DecidableEq, Repr

/-- A nomination of a node. -/
structure Statement where
  nodeID : NodeID
  nominate : SCPNomination
deriving DecidableEq, Repr

/-- The answers of the driver. Those about values may change over time: their first argument is
the number of questions asked before. -/
structure Driver where
  validateValue : Nat → Value → ValidationLevel
  extractValidValue : Nat → Value → Value
  combineCandidates : Nat → List Value → Value
  computeHashNode : Value → Bool → Nat → NodeID → Nat
  computeValueHash : Value → Nat → Value → Nat

/-- What stops a method of the nomination protocol. -/
inductive Error where
  /-- The exception `moved to a bad state (nomination)`. -/
  | badState
  /-- A hash is taken before the value of the previous slot is known. -/
  | emptyPreviousValue
  /-- The ballot protocol failed. -/
  | ballot (e : ScpError)
  /-- Own nominations are nested too deep. -/
  | stackOverflow
deriving DecidableEq, Repr

/-- Calls of the driver that return nothing. -/
inductive Notice where
  | nominatingValue (value : Value)
  | setupTimer (roundNumber : Nat)
  | updatedCandidateValue (value : Value)
  | emitEnvelope (st : Statement)
deriving DecidableEq, Repr

/-- The state of a slot. `acceptances` notes each value when it is accepted, with the number of
the question about it. -/
structure State where
  roundNumber : Nat := 0
  votes : Finset Value := ∅
  accepted : Finset Value := ∅
  candidates : Finset Value := ∅
  latestNominations : FMap NodeID Statement := ∅
  lastEnvelope : Option Statement := none
  roundLeaders : Finset NodeID := ∅
  nominationStarted : Bool := false
  previousValue : Value := []
  statementsHistory : List Statement := []
  questions : Nat := 0
  notices : List Notice := []
  acceptances : List (Nat × Value) := []
  ballot : BallotState

/-- The slot as it is constructed. -/
def State.init (ctx : Context) : State :=
  { ballot := BallotState.init ctx }

/-- A method of the nomination protocol. -/
abbrev NominationM := EStateM Error State

/-- Asks the driver. -/
def ask {α : Type} (answer : Nat → α) : NominationM α := do
  let s ← get
  set { s with questions := s.questions + 1 }
  pure (answer s.questions)

/-- Tells the driver. -/
def tell (notice : Notice) : NominationM Unit :=
  modify fun s => { s with notices := s.notices ++ [notice] }

/-- The ballot protocol of the slot moved to `b`; it may have stopped the nomination. -/
def State.withBallot (s : State) (b : BallotState) : State :=
  { s with
    ballot := b
    nominationStarted := s.nominationStarted &&
      decide (b.driverCalls.count .stopNomination ≤ s.ballot.driverCalls.count .stopNomination) }

/-- Runs a method of the ballot protocol of the slot. -/
def onBallot {α : Type} (x : SlotM α) : NominationM α := fun s =>
  match x s.ballot with
  | .ok a b => .ok a (s.withBallot b)
  | .error e b => .error (.ballot e) (s.withBallot b)

/-! ### Statements -/

/-- `p` is a subset of `v`, and whether they differ; the lists must be sorted. -/
def isSubsetHelper (p v : List Value) : Bool × Bool :=
  if p.length ≤ v.length then
    if includes v p then (true, decide (p.length ≠ v.length)) else (false, true)
  else (false, true)

/-- `st` has all votes and accepted values of `oldst`, and more. -/
def isNewerStatement (oldst st : SCPNomination) : Bool :=
  let (votesGrow, moreVotes) := isSubsetHelper oldst.votes st.votes
  let (acceptedGrow, moreAccepted) := isSubsetHelper oldst.accepted st.accepted
  votesGrow && acceptedGrow && (moreVotes || moreAccepted)

/-- `st` supersedes the latest nomination recorded for its node. -/
def isNewerThanLatest (s : State) (st : Statement) : Bool :=
  match s.latestNominations.lookup st.nodeID with
  | none => true
  | some oldst => isNewerStatement oldst.nominate st.nominate

/-- No two neighbours are out of order. -/
def isIncreasing : List Value → Bool
  | v :: w :: vs => decide (v < w) && isIncreasing (w :: vs)
  | _ => true

/-- A nomination is not empty, and its lists are sorted without repetitions. -/
def isSane (st : Statement) : Bool :=
  decide (st.nominate.votes.length + st.nominate.accepted.length ≠ 0) &&
    isIncreasing st.nominate.votes && isIncreasing st.nominate.accepted

/-- Records a nomination as the latest of its node, and in the history of the slot. -/
def recordEnvelope (st : Statement) : NominationM Unit :=
  modify fun s =>
    { s with
      latestNominations := s.latestNominations.insert st.nodeID st
      statementsHistory := s.statementsHistory ++ [st] }

/-! ### Round leaders -/

/-- Unsigned division that rounds up; the result is cut to 64 bits. -/
def divideUp (a b c : Nat) : Nat := (a * b + c - 1) / c % 2 ^ 64

mutual

/-- The weight of a node in a quorum set, as a fraction of `UINT64_MAX`. -/
def getNodeWeight (nodeID : NodeID) : SCPQuorumSet → Nat
  | ⟨threshold, validators, innerSets⟩ =>
    let d := innerSets.length + validators.length
    if nodeID ∈ validators then divideUp (2 ^ 64 - 1) threshold d
    else
      let leafW := innerWeight nodeID innerSets
      if leafW ≠ 0 then divideUp leafW threshold d else 0

/-- The first weight of the node in an inner set that is not zero. -/
def innerWeight (nodeID : NodeID) : List SCPQuorumSet → Nat
  | [] => 0
  | q :: qs =>
    let leafW := getNodeWeight nodeID q
    if leafW ≠ 0 then leafW else innerWeight nodeID qs

end

mutual

/-- The nodes of a quorum set, in the order of the declaration. -/
def allNodes : SCPQuorumSet → List NodeID
  | ⟨_, validators, innerSets⟩ => validators ++ innerNodes innerSets

/-- The nodes of all inner sets. -/
def innerNodes : List SCPQuorumSet → List NodeID
  | [] => []
  | q :: qs => allNodes q ++ innerNodes qs

end

section Methods

variable (ctx : Context) (driver : Driver)

/-- The hash that decides whether a node is a neighbour, or its priority. -/
def hashNode (s : State) (isPriority : Bool) (nodeID : NodeID) : Except Error Nat := do
  require (!s.previousValue.isEmpty) .emptyPreviousValue
  return driver.computeHashNode s.previousValue isPriority s.roundNumber nodeID

/-- The hash values are ordered by. -/
def hashValue (s : State) (value : Value) : Except Error Nat := do
  require (!s.previousValue.isEmpty) .emptyPreviousValue
  return driver.computeValueHash s.previousValue s.roundNumber value

/-- The priority of a node in this round; the local node is in all quorum sets. -/
def getNodePriority (s : State) (qset : SCPQuorumSet) (nodeID : NodeID) : Except Error Nat := do
  let w := if nodeID = ctx.nodeID then 2 ^ 64 - 1 else getNodeWeight nodeID qset
  if (← hashNode driver s false nodeID) < w then hashNode driver s true nodeID else return 0

/-- The loop over the nodes: those with the highest priority so far. -/
def selectLeaders (s : State) (qset : SCPQuorumSet) :
    Nat → Finset NodeID → List NodeID → Except Error (Finset NodeID)
  | _, leaders, [] => return leaders
  | topPriority, leaders, cur :: nodes => do
      let w ← getNodePriority ctx driver s qset cur
      let leaders := if w > topPriority then ∅ else leaders
      let topPriority := max w topPriority
      let leaders := if w = topPriority ∧ w > 0 then insert cur leaders else leaders
      selectLeaders s qset topPriority leaders nodes

/-- Chooses the leaders of the round. -/
def updateRoundLeaders : NominationM Unit := do
  let s ← get
  let myQSet := normalizeQSet (some ctx.nodeID) ctx.qSet
  let topPriority ← runExcept (getNodePriority ctx driver s myQSet ctx.nodeID)
  let leaders ← runExcept
    (selectLeaders ctx driver s myQSet topPriority {ctx.nodeID} (allNodes myQSet).eraseDups)
  modify fun s => { s with roundLeaders := leaders }

/-! ### Votes -/

/-- What the node can vote for instead of `value`; empty when there is nothing. -/
def valueToNominate (value : Value) : NominationM Value := do
  let vl ← ask fun n => driver.validateValue n value
  if vl = .fullyValidatedValue then pure value else ask fun n => driver.extractValidValue n value

/-- The loop over the values of a nomination: the one with the highest hash that the node does
not vote for yet. -/
def pickNewVote : Value → Nat → List Value → NominationM Value
  | newVote, _, [] => pure newVote
  | newVote, newHash, value :: values => do
      let candidate ← valueToNominate driver value
      let s ← get
      if candidate ≠ [] ∧ candidate ∉ s.votes then do
        let curHash ← runExcept (hashValue driver s candidate)
        if curHash ≥ newHash then pickNewVote candidate curHash values
        else pickNewVote newVote newHash values
      else pickNewVote newVote newHash values

/-- A value of the nomination to vote for; empty when there is none. -/
def getNewValueFromNomination (nom : SCPNomination) : NominationM Value :=
  pickNewVote driver [] 0 (nom.votes ++ nom.accepted)

/-- The quorum set a nomination is counted with. -/
def getQuorumSetFromStatement (st : Statement) : Option SCPQuorumSet :=
  ctx.getQSet st.nominate.quorumSetHash

/-- A v-blocking set accepted `v`, or a quorum accepted or voted for it. -/
def federatedAccept (envs : FMap NodeID Statement) (v : Value) : Bool :=
  isVBlockingWith ctx.qSet envs (fun st => decide (v ∈ st.nominate.accepted)) ||
    isQuorum ctx.qSet envs (getQuorumSetFromStatement ctx) fun st =>
      decide (v ∈ st.nominate.accepted) || decide (v ∈ st.nominate.votes)

/-- A quorum accepted `v`. -/
def federatedRatify (envs : FMap NodeID Statement) (v : Value) : Bool :=
  isQuorum ctx.qSet envs (getQuorumSetFromStatement ctx) fun st =>
    decide (v ∈ st.nominate.accepted)

/-- Accepts a value that is fully valid, or votes for a valid variation of it; the flag tells
whether anything changed. -/
def acceptOrVary (v : Value) : NominationM Bool := do
  let n := (← get).questions
  let vl ← ask fun n => driver.validateValue n v
  if vl = .fullyValidatedValue then do
    modify fun s =>
      { s with
        accepted := insert v s.accepted
        votes := insert v s.votes
        acceptances := s.acceptances ++ [(n, v)] }
    pure true
  else do
    let toVote ← ask fun n => driver.extractValidValue n v
    let s ← get
    if toVote ≠ [] ∧ toVote ∉ s.votes then do
      set { s with votes := insert toVote s.votes }
      pure true
    else pure false

/-- Attempts to promote votes to accepted. -/
def promoteVotes : List Value → NominationM Bool
  | [] => pure false
  | v :: vs => do
      let s ← get
      let changed ← if v ∉ s.accepted ∧ federatedAccept ctx s.latestNominations v then
          acceptOrVary driver v
        else pure false
      let rest ← promoteVotes vs
      pure (changed || rest)

/-- Attempts to promote accepted values to candidates. -/
def promoteAccepted : NominationM Bool := do
  let s ← get
  let new := s.accepted.filter fun a =>
    a ∉ s.candidates ∧ federatedRatify ctx s.latestNominations a = true
  set { s with candidates := s.candidates ∪ new }
  pure (decide (new ≠ ∅))

/-- Takes a vote of a round leader, while there are no candidates. -/
def followLeader (st : Statement) : NominationM Bool := do
  let s ← get
  if s.candidates = ∅ ∧ st.nodeID ∈ s.roundLeaders then do
    let newVote ← getNewValueFromNomination driver st.nominate
    if newVote ≠ [] then do
      modify fun s => { s with votes := insert newVote s.votes }
      tell (.nominatingValue newVote)
      pure true
    else pure false
  else pure false

/-- Puts the combination of the candidates to the ballot protocol. -/
def startBallot : NominationM Unit := do
  let s ← get
  let composite ← ask fun n => driver.combineCandidates n (s.candidates.sort (· ≤ ·))
  modify fun s => { s with ballot := { s.ballot with latestCompositeCandidate := composite } }
  tell (.updatedCandidateValue composite)
  let _ ← onBallot (Scp.bumpState ctx (advanceSlot ctx maxAdvanceSlotRecursion) composite false)

/-- Processes a nomination; `emit` is `emitNomination`. -/
def processEnvelope (emit : NominationM Unit) (st : Statement) : NominationM EnvelopeState := do
  let s ← get
  if !isNewerThanLatest s st then pure .invalid
  else if !isSane st then pure .invalid
  else do
    recordEnvelope st
    if s.nominationStarted then do
      let accepted ← promoteVotes ctx driver st.nominate.votes
      let newCandidates ← promoteAccepted ctx
      let voted ← followLeader driver st
      onlyIf (accepted || voted) emit
      onlyIf newCandidates (startBallot ctx driver)
    else pure ()
    pure .valid

/-- The nomination of the local node that shows these votes and accepted values. -/
def createStatement (votes accepted : Finset Value) : Statement :=
  { nodeID := ctx.nodeID
    nominate :=
      { quorumSetHash := ctx.qSetHash
        votes := votes.sort (· ≤ ·)
        accepted := accepted.sort (· ≤ ·) } }

/-- Processes the nomination that shows the present votes, and hands it to the driver; `process`
is `processEnvelope`. -/
def emitNomination (process : Statement → NominationM EnvelopeState) : NominationM Unit := do
  let s ← get
  let st := createStatement ctx s.votes s.accepted
  let res ← process st
  if res = .valid then do
    let s ← get
    if s.lastEnvelope.all fun last => isNewerStatement last.nominate st.nominate then do
      set { s with lastEnvelope := some st }
      onlyIf s.ballot.fullyValidated (tell (.emitEnvelope st))
    else pure ()
  else throw .badState

/-- `processEnvelope`, with own nominations nested at most as deep as the first argument. -/
def processNested : Nat → Statement → NominationM EnvelopeState
  | 0, _ => throw .stackOverflow
  | depth + 1, st => processEnvelope ctx driver (emitNomination ctx (processNested depth)) st

/-- The loop over the leaders: takes a new vote from each of their nominations. -/
def followLeaders : Bool → Value → List NodeID → NominationM (Bool × Value)
  | updated, nominatingValue, [] => pure (updated, nominatingValue)
  | updated, nominatingValue, leader :: leaders => do
      match (← get).latestNominations.lookup leader with
      | some st => do
          let newVote ← getNewValueFromNomination driver st.nominate
          if newVote ≠ [] then do
            modify fun s => { s with votes := insert newVote s.votes }
            followLeaders true newVote leaders
          else followLeaders updated newVote leaders
      | none => followLeaders updated nominatingValue leaders

/-- The votes of a round: the own value for a leader, values of the leaders otherwise. -/
def chooseVotes (value : Value) : NominationM (Bool × Value) := do
  let s ← get
  if ctx.nodeID ∈ s.roundLeaders then do
    set { s with votes := insert value s.votes }
    pure (decide (value ∉ s.votes), value)
  else followLeaders driver false [] (s.roundLeaders.sort (· ≤ ·))

/-- Starts a round of nomination; `timedout` when the timer of the last round does so. -/
def nominate (emit : NominationM Unit) (value previousValue : Value) (timedout : Bool) :
    NominationM Bool := do
  let s ← get
  if timedout && !s.nominationStarted then pure false
  else do
    set { s with
      nominationStarted := true
      previousValue := previousValue
      roundNumber := s.roundNumber + 1 }
    updateRoundLeaders ctx driver
    let (updated, nominatingValue) ← chooseVotes ctx driver value
    tell (.nominatingValue nominatingValue)
    tell (.setupTimer (s.roundNumber + 1))
    onlyIf updated emit
    pure updated

/-- Stops the nomination. -/
def stopNomination : NominationM Unit :=
  modify fun s => { s with nominationStarted := false }

/-- The calls a slot receives: nominations from peers, `nominate` (which is also what the
nomination timer runs), `stopNomination`, and the calls of its ballot protocol. -/
inductive Call where
  | recvSCPEnvelope (st : Statement)
  | nominate (value previousValue : Value) (timedout : Bool)
  | stopNomination
  | ballot (call : Scp.Call)

/-- Runs a call, with own nominations nested at most `depth` deep. -/
def Call.run (depth : Nat) : Call → NominationM Unit
  | .recvSCPEnvelope st =>
    -- the herder skips the node's own messages
    if st.nodeID = ctx.nodeID then pure ()
    else do
      let _ ← processNested ctx driver (depth + 1) st
      pure ()
  | .nominate value previousValue timedout => do
      let _ ← Nomination.nominate ctx driver (emitNomination ctx (processNested ctx driver depth))
        value previousValue timedout
      pure ()
  | .stopNomination => Nomination.stopNomination
  | .ballot call => onBallot (call.run ctx)

/-- Runs calls one after the other, each with the answers about ballots while it runs. -/
def runCalls (depth : Nat) : List ((Value → ValidationLevel) × Call) → NominationM Unit
  | [] => pure ()
  | (answers, call) :: calls => do
      call.run { ctx with validateValue := answers } driver depth
      runCalls depth calls

end Methods

end SpnCore.Scp.Nomination
