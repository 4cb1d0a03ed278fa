import Mathlib.Logic.Relation
import SpnCore.Scp.BallotProtocol
import SpnCore.Lib.Checked

/-!
# The ballot protocol as a transition system

A node moves in small steps: it records a statement of a peer, or it makes one of the changes
of `Update` and records its own statement about the new local state. `Guard` says what the
recorded statements must be for a change to be made. Everything that the methods of
`BallotProtocol` do to the local state, to the recorded statements and to the log is a sequence
of such steps.

The first part turns the checks of the code into propositions.
-/

namespace SpnCore.Scp

open Lib

/-! ### The invariants of the local state -/

/-- What `checkInvariants` asserts. -/
structure LocalState.Invariants (l : LocalState) : Prop where
  current : ∀ b, l.currentBallot = some b → b.counter ≠ 0
  primes : ∀ p p', l.prepared = some p → l.preparedPrime = some p' → p' ≤ p ∧ p'.value ≠ p.value
  high : ∀ h, l.highBallot = some h →
    ∃ b, l.currentBallot = some b ∧ h ≤ b ∧ h.value = b.value
  commit : ∀ c, l.commit = some c → ∃ h, l.highBallot = some h ∧ c ≤ h ∧ c.value = h.value
  confirm : l.phase = .confirm → l.commit.isSome
  externalize : l.phase = .externalize → l.commit.isSome ∧ l.highBallot.isSome

@[simp] theorem dbgAssert_eq_ok {c : Bool} {e : ScpError} {u : Unit} :
    dbgAssert c e = .ok u ↔ c = true := by
  cases c <;> simp [dbgAssert]

@[simp] theorem deref_eq_ok {o : Option SCPBallot} {b : SCPBallot} :
    deref o = .ok b ↔ o = some b := by
  cases o <;> simp [deref]

variable {l : LocalState} {ctx : Context} {k k' : Core}

theorem checkPrepared_eq_ok :
    checkPrepared l = .ok () ↔ ∀ p p', l.prepared = some p → l.preparedPrime = some p' →
      p' ≤ p ∧ p'.value ≠ p.value := by
  unfold checkPrepared
  cases l.prepared <;> cases l.preparedPrime <;> simp

theorem checkHighBallot_eq_ok :
    checkHighBallot l = .ok () ↔ ∀ h, l.highBallot = some h →
      ∃ b, l.currentBallot = some b ∧ h ≤ b ∧ h.value = b.value := by
  unfold checkHighBallot
  cases l.highBallot <;> cases l.currentBallot <;>
    simp [bind_eq_ok]

/-- Given the assertions on `h`, those on `c` only add that `h` is set and covers `c`. -/
theorem checkCommit_eq_ok (hhigh : checkHighBallot l = .ok ()) :
    checkCommit l = .ok () ↔ ∀ c, l.commit = some c →
      ∃ h, l.highBallot = some h ∧ c ≤ h ∧ c.value = h.value := by
  have hb := checkHighBallot_eq_ok.1 hhigh
  unfold checkCommit
  cases hc : l.commit with
  | none => simp
  | some c =>
    cases hh : l.highBallot with
    | none => simp [bind_eq_ok]
    | some h =>
      obtain ⟨b, hb, hle, hval⟩ := hb h hh
      simp [bind_eq_ok, hb, hle, hval]

theorem checkPhase_eq_ok :
    checkPhase l = .ok () ↔ (l.phase = .confirm → l.commit.isSome) ∧
      (l.phase = .externalize → l.commit.isSome ∧ l.highBallot.isSome) := by
  unfold checkPhase
  cases l.phase <;> simp [check_bind_eq_ok]

theorem checkInvariants_eq_ok : checkInvariants l = .ok () ↔ l.Invariants := by
  simp only [checkInvariants, check_bind_eq_ok, dbgAssert_eq_ok]
  constructor
  · rintro ⟨hcurrent, hprimes, hhigh, hcommit, hphase⟩
    exact
      { current := fun b hb => by simpa [hb] using hcurrent
        primes := checkPrepared_eq_ok.1 hprimes
        high := checkHighBallot_eq_ok.1 hhigh
        commit := (checkCommit_eq_ok hhigh).1 hcommit
        confirm := (checkPhase_eq_ok.1 hphase).1
        externalize := (checkPhase_eq_ok.1 hphase).2 }
  · intro h
    have hhigh := checkHighBallot_eq_ok.2 h.high
    refine ⟨?_, checkPrepared_eq_ok.2 h.primes, hhigh, (checkCommit_eq_ok hhigh).2 h.commit,
      checkPhase_eq_ok.2 ⟨h.confirm, h.externalize⟩⟩
    cases hb : l.currentBallot with
    | none => rfl
    | some b => simpa using h.current b hb

/-- The statement says what the local state is. -/
inductive Describes (ctx : Context) (l : LocalState) : SCPStatement → Prop
  | prepare (hphase : l.phase = .prepare) :
      Describes ctx l ⟨ctx.nodeID, .prepare (preparePledge ctx l)⟩
  | confirm (b p c h : SCPBallot) (hphase : l.phase = .confirm)
      (hb : l.currentBallot = some b) (hp : l.prepared = some p)
      (hc : l.commit = some c) (hh : l.highBallot = some h) :
      Describes ctx l ⟨ctx.nodeID, .confirm
        { ballot := b
          nPrepared := p.counter
          nCommit := c.counter
          nH := h.counter
          quorumSetHash := ctx.qSetHash }⟩
  | externalize (c h : SCPBallot) (hphase : l.phase = .externalize)
      (hc : l.commit = some c) (hh : l.highBallot = some h) :
      Describes ctx l ⟨ctx.nodeID, .externalize
        { commit := c
          nH := h.counter
          commitQuorumSetHash := ctx.qSetHash }⟩

theorem createStatement_eq_ok {st : SCPStatement} :
    createStatement ctx l = .ok st ↔ l.Invariants ∧ Describes ctx l st := by
  simp only [createStatement, check_bind_eq_ok, checkInvariants_eq_ok]
  refine and_congr_right fun _ => ?_
  constructor
  · intro h
    cases hphase : l.phase with
    | prepare =>
      simp only [hphase] at h
      obtain rfl := Except.ok.inj h
      exact .prepare hphase
    | confirm =>
      simp only [hphase, bind_eq_ok, deref_eq_ok] at h
      obtain ⟨b, hb, p, hp, c, hc, h', hh, hst⟩ := h
      obtain rfl := Except.ok.inj hst
      exact .confirm b p c h' hphase hb hp hc hh
    | externalize =>
      simp only [hphase, bind_eq_ok, deref_eq_ok] at h
      obtain ⟨c, hc, h', hh, hst⟩ := h
      obtain rfl := Except.ok.inj hst
      exact .externalize c h' hphase hc hh
  · intro h
    cases h with
    | prepare hphase => simp only [hphase]
    | confirm b p c h hphase hb hp hc hh => simp [hphase, bind_eq_ok, hb, hp, hc, hh]
    | externalize c h hphase hc hh => simp [hphase, bind_eq_ok, hc, hh]

section

variable {st : SCPStatement} (h : Describes ctx l st)
include h

/-- Statements about the local state are signed by the local node. -/
theorem Describes.nodeID_eq : st.nodeID = ctx.nodeID := by
  cases h <;> rfl

theorem Describes.eq_prepare (hphase : l.phase = .prepare) :
    st = ⟨ctx.nodeID, .prepare (preparePledge ctx l)⟩ := by
  cases h with
  | prepare => rfl
  | confirm _ _ _ _ h => simp [hphase] at h
  | externalize _ _ h => simp [hphase] at h

theorem Describes.eq_confirm (hphase : l.phase = .confirm) :
    ∃ b p c h, l.currentBallot = some b ∧ l.prepared = some p ∧ l.commit = some c ∧
      l.highBallot = some h ∧
      st = ⟨ctx.nodeID, .confirm
        { ballot := b
          nPrepared := p.counter
          nCommit := c.counter
          nH := h.counter
          quorumSetHash := ctx.qSetHash }⟩ := by
  cases h with
  | prepare h => simp [hphase] at h
  | confirm b p c h _ hb hp hc hh => exact ⟨b, p, c, h, hb, hp, hc, hh, rfl⟩
  | externalize _ _ h => simp [hphase] at h

end

theorem isPrepareSane_iff {p : SCPPrepare} {self : Bool} :
    isPrepareSane p self = true ↔
      (self = true ∨ 0 < p.ballot.counter) ∧
      (∀ p' q, p.preparedPrime = some p' → p.prepared = some q → p' ≤ q ∧ p'.value ≠ q.value) ∧
      (p.nH = 0 ∨ ∃ q, p.prepared = some q ∧ p.nH ≤ q.counter) ∧
      (p.nC = 0 ∨ p.nH ≠ 0 ∧ p.nH ≤ p.ballot.counter ∧ p.nC ≤ p.nH) := by
  simp only [isPrepareSane, Bool.and_eq_true, Bool.or_eq_true, decide_eq_true_eq, and_assoc]
  cases p.prepared <;> cases p.preparedPrime <;> simp

/-- A statement validates fully when every value does. -/
theorem validateValues_eq_of_valid (hvalid : ∀ v, ctx.validateValue v = .fullyValidatedValue)
    (st : SCPStatement) : validateValues ctx st = .fullyValidatedValue := by
  have hcombine : ∀ vs, combineLevels ctx.validateValue .fullyValidatedValue vs =
      .fullyValidatedValue := by
    intro vs
    induction vs with
    | nil => rfl
    | cons v vs ih => simpa [combineLevels, hvalid v] using ih
  exact hcombine _

/-! ### Steps -/

/-- Moves the current ballot up to `h`. -/
def LocalState.raiseTo (l : LocalState) (h : SCPBallot) : LocalState :=
  if l.currentBallot.all (· < h) then l.bumpTo h else l

/-- Sets `h`, and `c` if its counter is set, when the current ballot is compatible. -/
def LocalState.confirmOn (l : LocalState) (newC newH : SCPBallot) : LocalState :=
  if l.currentBallot.all (areBallotsCompatible · newH) then
    { l with
      highBallot := if l.highBallot.all (· < newH) then some newH else l.highBallot
      commit := if newC.counter ≠ 0 then some newC else l.commit }
  else l

/-- The effect of a change on the local state. -/
def Update.apply : Update → LocalState → LocalState
  | .preparedAccept ballot, l =>
    let l' := (setPrepared l ballot).1
    if l'.abortsCommit then { l' with commit := none } else l'
  | .preparedConfirmed newC newH, l => (l.confirmOn newC newH).raiseTo newH
  | .acceptCommit c h, l =>
    let l' : LocalState := { l with commit := some c, highBallot := some h }
    let l' := if l.phase = .prepare then
        { (if l.currentBallot.any fun b => !areBallotsLessAndCompatible h b then l'.bumpTo h
            else l') with
          phase := .confirm
          preparedPrime := none }
      else l'
    l'.raiseTo h
  | .confirmCommit c h, l =>
    { ({ l with commit := some c, highBallot := some h } : LocalState).raiseTo h with
      phase := .externalize }
  | .bump ballot, l => l.bumpTo ballot

/-- Changes that `advanceSlot` makes at every level; only the first level bumps. -/
def Update.isInner : Update → Bool
  | .bump _ => false
  | _ => true

/-- The part of a slot's state that the protocol is about. -/
structure Core where
  loc : LocalState
  envs : FMap NodeID SCPStatement
  history : List SCPStatement
  log : List (LocalState × Update)

/-- The protocol state of a slot. -/
def BallotState.core (s : BallotState) : Core :=
  ⟨s.toLocalState, s.latestEnvelopes, s.statementsHistory, s.log⟩

namespace Core

/-- Records a statement. -/
def record (k : Core) (st : SCPStatement) : Core :=
  { k with envs := k.envs.insert st.nodeID st, history := k.history ++ [st] }

/-- Logs that a change is attempted. -/
def push (k : Core) (u : Update) : Core :=
  { k with log := k.log ++ [(k.loc, u)] }

/-- Moves to a local state and records the statement about it, unless it is already the latest
one. -/
def publish (ctx : Context) (k : Core) (l : LocalState) (st : SCPStatement) : Core :=
  if k.envs.lookup ctx.nodeID = some st then { k with loc := l }
  else { k with loc := l }.record st

end Core

/-- What holds when the code makes a change. -/
def Guard (ctx : Context) (k : Core) : Update → Prop
  | .preparedAccept ballot =>
    k.loc.phase ≠ .externalize ∧
    (k.loc.phase = .confirm → ∃ p c, k.loc.prepared = some p ∧ k.loc.commit = some c ∧
      p ≤ ballot ∧ p.value = ballot.value ∧ c.value = ballot.value) ∧
    (∀ p', k.loc.preparedPrime = some p' → p' < ballot) ∧
    (∀ p, k.loc.prepared = some p → ¬ (ballot ≤ p ∧ ballot.value = p.value)) ∧
    federatedAccept ctx k.envs (votesPreparedBallot ballot) (hasPreparedBallot ballot) = true
  | .preparedConfirmed newC newH =>
    k.loc.phase = .prepare ∧
    (∃ p, k.loc.prepared = some p ∧ newH ≤ p) ∧
    (∀ h, k.loc.highBallot = some h → h < newH) ∧
    federatedRatify ctx k.envs (hasPreparedBallot newH) = true ∧
    (newC.counter ≠ 0 → k.loc.commit = none ∧ newC ≤ newH ∧ newC.value = newH.value ∧
      k.loc.currentBallot.getD {} ≤ newC)
  | .acceptCommit c h =>
    k.loc.phase ≠ .externalize ∧ k.loc.prepared.isSome ∧
    c.value = h.value ∧ 0 < c.counter ∧ c.counter ≤ h.counter ∧
    federatedAccept ctx k.envs (votesCommit h (c.counter, h.counter))
      (commitPredicate h (c.counter, h.counter)) = true ∧
    (k.loc.phase = .confirm → ∃ h₀, k.loc.highBallot = some h₀ ∧ h₀.value = h.value ∧
      h₀.counter < h.counter)
  | .confirmCommit c h =>
    k.loc.phase = .confirm ∧
    c.value = h.value ∧ 0 < c.counter ∧ c.counter ≤ h.counter ∧
    (∃ c₀, k.loc.commit = some c₀ ∧ c₀.value = c.value) ∧
    federatedRatify ctx k.envs (commitPredicate h (c.counter, h.counter)) = true
  | .bump ballot =>
    k.loc.phase ≠ .externalize ∧ 0 < ballot.counter ∧
    (∀ b, k.loc.currentBallot = some b → b < ballot) ∧
    (∀ c, k.loc.commit = some c → c.value = ballot.value)

/-- The statement about a local state can be created, and is accepted from the local node if it
is not already its latest one. -/
def Publishable (ctx : Context) (k : Core) (l : LocalState) (st : SCPStatement) : Prop :=
  createStatement ctx l = .ok st ∧
    (k.envs.lookup ctx.nodeID ≠ some st →
      isStatementSane ctx st true = true ∧
      (∀ old, k.envs.lookup ctx.nodeID = some old → isNewerStatement old st = true) ∧
      validateValues ctx st ≠ .invalidValue)

/-- A change is attempted, or it is made and the statement about it recorded. -/
inductive Act (ctx : Context) (u : Update) (k : Core) : Core → Prop
  | enter (hguard : Guard ctx k u) : Act ctx u k (k.push u)
  | perform (st : SCPStatement) (hguard : Guard ctx k u)
      (hpublish : Publishable ctx k (u.apply k.loc) st) :
      Act ctx u k (k.publish ctx (u.apply k.loc) st)

theorem Act.guard {u : Update} (h : Act ctx u k k') : Guard ctx k u := by
  cases h <;> assumption

/-- A step of a node: its own change, or the statement of a peer. -/
inductive Step (ctx : Context) (k : Core) : Core → Prop
  | act (u : Update) (k' : Core) (hact : Act ctx u k k') : Step ctx k k'
  | receive (st : SCPStatement) (hother : st.nodeID ≠ ctx.nodeID)
      (hsane : isStatementSane ctx st false = true) : Step ctx k (k.record st)

/-- A change of the node itself. -/
def OwnStep (ctx : Context) (k k' : Core) : Prop :=
  ∃ u : Update, Act ctx u k k'

/-- A step that a nested `advanceSlot` may make. -/
def InnerStep (ctx : Context) (k k' : Core) : Prop :=
  ∃ u : Update, u.isInner = true ∧ Act ctx u k k'

theorem OwnStep.step (h : OwnStep ctx k k') : Step ctx k k' := by
  obtain ⟨u, hact⟩ := h
  exact .act u k' hact

theorem InnerStep.own (h : InnerStep ctx k k') : OwnStep ctx k k' := by
  obtain ⟨u, _, hact⟩ := h
  exact ⟨u, hact⟩

end SpnCore.Scp
