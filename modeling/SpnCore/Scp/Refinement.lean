import SpnCore.Scp.Candidates

/-!
# The methods of the ballot protocol take steps

Every method is related to the transition system: from a state that satisfies the invariant of
the node, a method that returns has taken a run of steps, and a method that fails had taken a
run of steps up to a change that could not be published, or hit one of three other errors.
Nested calls of `advanceSlot` only take inner steps.
-/

namespace SpnCore.Scp

open Lib Relation

/-! ### What a method leaves behind -/

/-- Everything handed to the driver is backed by the history and the log of the slot. -/
structure Emissions (ctx : Context) (s : BallotState) : Prop where
  last : ∀ st, s.lastEnvelope = some st → st ∈ s.statementsHistory ∧ st.nodeID = ctx.nodeID
  emitted : ∀ st, .emitEnvelope st ∈ s.driverCalls →
    st ∈ s.statementsHistory ∧ st.nodeID = ctx.nodeID
  externalized : ∀ v, .valueExternalized v ∈ s.driverCalls →
    ∃ l c h, (l, .confirmCommit c h) ∈ s.log ∧ c.value = v

/-- A change that could not be published, or an error outside of the checks of own
statements. -/
def Failure (ctx : Context) (k : Core) (e : ScpError) : Prop :=
  e = .maxTransitions ∨ e = .ballotDecreased ∨ e = .incompatibleWithCommit ∨
    ∃ u, Guard ctx k u ∧ (u.isInner = true → (k.loc, u) ∈ k.log) ∧
      ¬ ∃ st, Publishable ctx k (u.apply k.loc) st

/-- The method stopped with an error after a run of steps from `k₀`. The local state it leaves
may be half updated, so only history and log are those of the run. -/
def Fails (ctx : Context) (k₀ : Core) (e : ScpError) (t : BallotState) : Prop :=
  Emissions ctx t ∧ ∃ k, ReflTransGen (OwnStep ctx) k₀ k ∧ k.log = t.log ∧
    k.history = t.statementsHistory ∧ Failure ctx k e

/-- The steps a method may take at a message level. -/
def LevelStep (ctx : Context) (level : Nat) : Core → Core → Prop :=
  if level = 0 then OwnStep ctx else InnerStep ctx

/-- The method returned after a run of steps. -/
structure Returns (ctx : Context) (R : Core → Core → Prop) (s t : BallotState) : Prop where
  steps : ReflTransGen R s.core t.core
  inv : t.core.Inv ctx
  emissions : Emissions ctx t
  level : t.currentMessageLevel = s.currentMessageLevel

/-- Only bookkeeping outside of the protocol changed. -/
structure Quiet (ctx : Context) (s t : BallotState) : Prop where
  core : t.core = s.core
  level : t.currentMessageLevel = s.currentMessageLevel
  emissions : Emissions ctx s → Emissions ctx t

/-- What is assumed of the recursive `advanceSlot`: called on a recorded hint it takes steps of
the present level. -/
def AdvanceSpec (ctx : Context) (advance : SCPStatement → SlotM Unit) : Prop :=
  ∀ hint s, s.core.Inv ctx → Emissions ctx s →
    s.latestEnvelopes.lookup hint.nodeID = some hint →
    wp (advance hint) (fun _ t => Returns ctx (LevelStep ctx s.currentMessageLevel) s t)
      (Fails ctx s.core) s

variable {ctx : Context} {advance : SCPStatement → SlotM Unit}

variable {level : Nat} {k k' k₀ : Core} {e : ScpError} {s t : BallotState} {st : SCPStatement}
  {P : ScpError → Prop} {u : Update}

theorem LevelStep.own (h : LevelStep ctx level k k') : OwnStep ctx k k' := by
  unfold LevelStep at h
  split at h
  · exact h
  · exact h.own

theorem own_of_level (h : ReflTransGen (LevelStep ctx level) k k') :
    ReflTransGen (OwnStep ctx) k k' :=
  ReflTransGen.mono (show LevelStep ctx level ≤ OwnStep ctx from fun _ _ => LevelStep.own) _ _ h

theorem inner_of_level (hlevel : level ≠ 0) (h : ReflTransGen (LevelStep ctx level) k k') :
    ReflTransGen (InnerStep ctx) k k' := by
  unfold LevelStep at h
  rwa [if_neg hlevel] at h

theorem Quiet.refl (s : BallotState) : Quiet ctx s s := ⟨rfl, rfl, id⟩

/-- What was handed to the driver stays backed when history and log grow. -/
theorem Emissions.mono (h : Emissions ctx s)
    (hlast : t.lastEnvelope = s.lastEnvelope) (hcalls : t.driverCalls = s.driverCalls)
    (hhistory : s.statementsHistory ⊆ t.statementsHistory) (hlog : s.log ⊆ t.log) :
    Emissions ctx t where
  last := fun st hst => (h.last st (hlast ▸ hst)).imp_left fun hm => hhistory hm
  emitted := fun st hst => (h.emitted st (hcalls ▸ hst)).imp_left fun hm => hhistory hm
  externalized := by
    intro v hv
    obtain ⟨l, c, h', hm, hval⟩ := h.externalized v (hcalls ▸ hv)
    exact ⟨l, c, h', hlog hm, hval⟩

/-! ### Bookkeeping -/

/-- The call hands neither an envelope nor a value to the driver. -/
def DriverCall.isNotice : DriverCall → Bool
  | .emitEnvelope _ => false
  | .valueExternalized _ => false
  | _ => true

/-- Notices leave what was handed to the driver backed. -/
theorem Emissions.notices (calls : List DriverCall) (h : Emissions ctx s)
    (hcalls : calls.all DriverCall.isNotice = true) (hlast : t.lastEnvelope = s.lastEnvelope)
    (hdriver : t.driverCalls = s.driverCalls ++ calls)
    (hhistory : t.statementsHistory = s.statementsHistory) (hlog : t.log = s.log) :
    Emissions ctx t := by
  have hmem : ∀ call ∈ t.driverCalls, call.isNotice = false → call ∈ s.driverCalls := by
    intro call hcall hnot
    rw [hdriver] at hcall
    refine (List.mem_append.1 hcall).resolve_right fun hnew => ?_
    simp [List.all_eq_true.1 hcalls call hnew] at hnot
  constructor
  case last => rw [hlast, hhistory]; exact h.last
  case emitted => rw [hhistory]; exact fun st hst => h.emitted st (hmem _ hst rfl)
  case externalized => rw [hlog]; exact fun v hv => h.externalized v (hmem _ hv rfl)

theorem Emissions.tell_notice (h : Emissions ctx s) (call : DriverCall)
    (hcall : call.isNotice = true) :
    Emissions ctx { s with driverCalls := s.driverCalls ++ [call] } :=
  h.notices [call] (by simp [hcall]) rfl rfl rfl rfl

theorem sendLatestEnvelope_quiet (s : BallotState) (hem : Emissions ctx s) :
    wp sendLatestEnvelope (fun _ => Quiet ctx s) (fun _ _ => False) s := by
  unfold sendLatestEnvelope
  simp only [wp_bind, wp_get]
  cases hlast : s.lastEnvelope with
  | none => exact wp_pure.2 (.refl s)
  | some st =>
    simp only
    split
    · simp only [wp_bind, wp_set, tell, wp_modify]
      refine ⟨rfl, rfl, fun _ => ⟨fun st' hst' => hem.last st' (hlast.trans hst'), ?_, ?_⟩⟩
      · intro st' hst'
        rcases List.mem_append.1 hst' with hst' | hst'
        · exact hem.emitted st' hst'
        · obtain rfl : st' = st := by simpa using hst'
          exact hem.last st' hlast
      · intro v hv
        rcases List.mem_append.1 hv with hv | hv
        · exact hem.externalized v hv
        · simp at hv
    · exact wp_pure.2 (.refl s)

theorem Quiet.tell (h : Quiet ctx s t) (call : DriverCall)
    (hcall : call.isNotice = true) :
    Quiet ctx s { t with driverCalls := t.driverCalls ++ [call] } :=
  ⟨h.core, h.level, fun hs => (h.emissions hs).tell_notice call hcall⟩

/-- `checkHeardFromQuorum` sets its flag and only gives notices. -/
theorem checkHeardFromQuorum_rule {Q : BallotState → Prop} {E : ScpError → BallotState → Prop}
    (h : ∀ heard calls, calls.all DriverCall.isNotice = true →
      Q { s with heardFromQuorum := heard, driverCalls := s.driverCalls ++ calls }) :
    wp (checkHeardFromQuorum ctx) (fun _ => Q) E s := by
  have hsilent : ∀ heard, Q { s with heardFromQuorum := heard } := fun heard => by
    simpa using h heard [] rfl
  unfold checkHeardFromQuorum
  simp only [wp_bind, wp_get]
  split
  · exact wp_pure.2 (hsilent s.heardFromQuorum)
  · simp only [wp_ite, wp_bind, wp_set, Scp.tell, wp_modify, wp_pure, List.append_assoc,
      List.cons_append, List.nil_append]
    exact ⟨fun _ => ⟨fun _ => ⟨fun _ => ⟨fun _ => h _ _ rfl, fun _ => h _ _ rfl⟩,
      fun _ => ⟨fun _ => h _ _ rfl, fun _ => h _ _ rfl⟩⟩,
      fun _ => ⟨fun _ => h _ _ rfl, fun _ => hsilent true⟩⟩, fun _ => h _ _ rfl⟩

theorem checkHeardFromQuorum_quiet (s : BallotState) :
    wp (checkHeardFromQuorum ctx) (fun _ => Quiet ctx s) (fun _ _ => False) s :=
  checkHeardFromQuorum_rule fun _ calls hcalls =>
    ⟨rfl, rfl, fun hs => hs.notices calls hcalls rfl rfl rfl rfl⟩

/-! ### Publishing -/

/-- The change `u` was made at `k₀` and published, and steps of the present level followed. -/
structure Publishes (ctx : Context) (k₀ : Core) (u : Update) (s t : BallotState) : Prop where
  steps : ∃ k₁, Act ctx u k₀ k₁ ∧ k₁.loc = u.apply k₀.loc ∧
    ReflTransGen (LevelStep ctx s.currentMessageLevel) k₁ t.core
  inv : t.core.Inv ctx
  emissions : Emissions ctx t
  level : t.currentMessageLevel = s.currentMessageLevel

/-- A change is about to be published: the local state is already the new one. -/
structure Pending (ctx : Context) (k₀ : Core) (u : Update) (s : BallotState) : Prop where
  inv : k₀.Inv ctx
  guard : Guard ctx k₀ u
  logged : u.isInner = true → (k₀.loc, u) ∈ k₀.log
  core : s.core = { k₀ with loc := u.apply k₀.loc }
  emissions : Emissions ctx s

theorem Pending.fails (h : Pending ctx k₀ u s)
    (hnot : ¬ ∃ st, Publishable ctx k₀ (u.apply k₀.loc) st) : Fails ctx k₀ e s := by
  have hlog : k₀.log = s.log := (congrArg Core.log h.core).symm
  have hhistory : k₀.history = s.statementsHistory := (congrArg Core.history h.core).symm
  exact ⟨h.emissions, k₀, .refl, hlog, hhistory, .inr (.inr (.inr ⟨u, h.guard, h.logged, hnot⟩))⟩

/-- Recording the statement about the new local state completes the change. -/
theorem Pending.act (h : Pending ctx k₀ u s)
    (hpub : Publishable ctx k₀ (u.apply k₀.loc) st) (hnew : k₀.envs.lookup ctx.nodeID ≠ some st) :
    Act ctx u k₀ (s.core.record st) := by
  have hact := Act.perform st h.guard hpub
  unfold Core.publish at hact
  rw [if_neg hnew] at hact
  rwa [h.core]

/-- Queueing an own statement that is in the history, and sending it. -/
theorem queue_quiet (hst : st ∈ s.statementsHistory)
    (hself : st.nodeID = ctx.nodeID) (hem : Emissions ctx s) :
    wp (do set { s with lastEnvelope := some st }; sendLatestEnvelope : SlotM Unit)
      (fun _ => Quiet ctx s) (fun _ _ => False) s := by
  have hem' : Emissions ctx { s with lastEnvelope := some st } :=
    ⟨fun st' hst' => Option.some.inj hst' ▸ ⟨hst, hself⟩, hem.emitted, hem.externalized⟩
  simp only [wp_bind, wp_set]
  refine wp_total (sendLatestEnvelope_quiet _ hem') (fun _ t ht => ?_)
  exact ⟨ht.core, ht.level, fun _ => ht.emissions hem'⟩

/-- A recorded own statement: the change is complete and the invariant holds again. -/
theorem Pending.recorded (h : Pending ctx k₀ u s)
    (hpub : Publishable ctx k₀ (u.apply k₀.loc) st) (hnew : k₀.envs.lookup ctx.nodeID ≠ some st)
    (hcore : t.core = s.core.record st) (hlast : t.lastEnvelope = s.lastEnvelope)
    (hcalls : t.driverCalls = s.driverCalls) :
    Act ctx u k₀ t.core ∧ t.core.Inv ctx ∧ Emissions ctx t := by
  have hact := h.act hpub hnew
  rw [← hcore] at hact
  refine ⟨hact, hact.inv h.inv, h.emissions.mono hlast hcalls ?_ ?_⟩
  · have hhistory : t.statementsHistory = s.statementsHistory ++ [st] :=
      congrArg Core.history hcore
    rw [hhistory]
    exact List.subset_append_left _ _
  · have hlog : t.log = s.log := congrArg Core.log hcore
    rw [hlog]
    exact List.Subset.refl _

/-- The change `u` was just recorded with the statement `st`: `k₀` was the state before it. -/
structure Recorded (ctx : Context) (k₀ : Core) (u : Update) (s : BallotState) (st : SCPStatement)
    (t : BallotState) : Prop where
  act : Act ctx u k₀ t.core
  loc : t.toLocalState = u.apply k₀.loc
  inv : t.core.Inv ctx
  emissions : Emissions ctx t
  self : st.nodeID = ctx.nodeID
  latest : t.latestEnvelopes.lookup ctx.nodeID = some st
  history : st ∈ t.statementsHistory
  new : k₀.envs.lookup ctx.nodeID ≠ some st
  level : t.currentMessageLevel = s.currentMessageLevel

@[simp] theorem raises_dbgAssert {c : Bool} : Raises P (dbgAssert c e) ↔ (c = false → P e) := by
  cases c <;> simp [dbgAssert]

@[simp] theorem raises_deref {o : Option SCPBallot} :
    Raises P (deref o) ↔ (o = none → P .nullBallot) := by
  cases o <;> simp [deref]

theorem raises_checkInvariants (hinvariant : P .invariant) (hnull : P .nullBallot)
    (l : LocalState) : Raises P (checkInvariants l) := by
  have hprepared : Raises P (checkPrepared l) := by
    unfold checkPrepared
    split <;> simp [hinvariant]
  have hhigh : Raises P (checkHighBallot l) := by
    unfold checkHighBallot
    split <;> simp [hinvariant, hnull]
  have hcommit : Raises P (checkCommit l) := by
    unfold checkCommit
    split <;> simp [hinvariant, hnull]
  have hphase : Raises P (checkPhase l) := by
    unfold checkPhase
    split <;> simp [hinvariant]
  simp [checkInvariants, hinvariant, hprepared, hhigh, hcommit, hphase]

/-- The errors of `createStatement` are failed assertions and unset ballots. -/
theorem raises_createStatement (hinvariant : P .invariant) (hnull : P .nullBallot)
    (l : LocalState) : Raises P (createStatement ctx l) := by
  refine raises_bind.2 ⟨raises_checkInvariants hinvariant hnull l, fun _ _ => ?_⟩
  split <;> simp [hnull]

/-- The errors of a call that was cut off: too many levels, or too many rounds of bumping. -/
def ScpError.isCutOff : ScpError → Bool
  | .maxTransitions => true
  | .bumpLoop => true
  | _ => false

/-- The statement passes the checks of `processEnvelope`. -/
structure Passes (ctx : Context) (s : BallotState) (st : SCPStatement) (own : Bool) : Prop where
  sane : isStatementSane ctx st own = true
  newer : ∀ old, s.latestEnvelopes.lookup st.nodeID = some old → isNewerStatement old st = true
  valid : validateValues ctx st ≠ .invalidValue

theorem isNewerThanLatest_iff : isNewerThanLatest s st = true ↔
    ∀ old, s.latestEnvelopes.lookup st.nodeID = some old → isNewerStatement old st = true := by
  unfold isNewerThanLatest
  cases s.latestEnvelopes.lookup st.nodeID <;> simp

/-- `processEnvelope` rejects a statement, or records it and advances the slot. In the final phase
it only records the statements on the value of `c`. -/
theorem processEnvelope_rule {Q : EnvelopeState → BallotState → Prop}
    {E : ScpError → BallotState → Prop} {self : Bool}
    (hreject : ¬ Passes ctx s st self → Q .invalid s)
    (hadvance : Passes ctx s st self → s.phase ≠ .externalize → ∀ fullyValidated,
      wp (advance st) (fun _ => Q .valid) E { s with
        fullyValidated
        latestEnvelopes := s.latestEnvelopes.insert st.nodeID st
        statementsHistory := s.statementsHistory ++ [st] })
    (hfinal : Passes ctx s st self → s.phase = .externalize → ∀ c, s.commit = some c →
      (c.value = (getWorkingBallot st).value → Q .valid { s with
        latestEnvelopes := s.latestEnvelopes.insert st.nodeID st
        statementsHistory := s.statementsHistory ++ [st] }) ∧
      (c.value ≠ (getWorkingBallot st).value → Q .invalid s))
    (hnull : Passes ctx s st self → s.phase = .externalize → s.commit = none → E .nullBallot s) :
    wp (processEnvelope ctx advance st self) Q E s := by
  unfold processEnvelope
  simp only [wp_bind, wp_get, wp_ite, wp_pure, wp_modify, wp_runExcept, recordEnvelope,
    Bool.not_eq_true', Bool.not_eq_false]
  refine ⟨fun hnot => hreject fun h => ?_, fun hsane => ⟨fun hnot => hreject fun h => ?_,
    fun hnew => ⟨fun hnot => hreject fun h => h.valid hnot, fun hvalid => ?_⟩⟩⟩
  · rw [h.sane] at hnot
    cases hnot
  · rw [isNewerThanLatest_iff.2 h.newer] at hnot
    cases hnot
  have hpasses : Passes ctx s st self := ⟨hsane, isNewerThanLatest_iff.1 hnew, hvalid⟩
  refine ⟨fun hphase => ⟨fun _ => hadvance hpasses hphase false, fun _ => ?_⟩, fun hphase => ?_⟩
  · exact hadvance hpasses hphase s.fullyValidated
  · refine ⟨fun c hc => hfinal hpasses (not_not.1 hphase) c (deref_eq_ok.1 hc), fun e he => ?_⟩
    cases hc : s.commit with
    | none =>
      rw [hc] at he
      cases he
      exact hnull hpasses (not_not.1 hphase) hc
    | some c =>
      rw [hc] at he
      cases he

section EmitRule

variable {Q : BallotState → Prop} {E : ScpError → BallotState → Prop} {k₀ : Core} {u : Update}

/-- Processing the statement about a pending change records it and advances the slot, unless
the change cannot be published. -/
theorem processOwn_rule (h : Pending ctx k₀ u s)
    (hcreate : createStatement ctx (u.apply k₀.loc) = .ok st)
    (hnew : k₀.envs.lookup ctx.nodeID ≠ some st)
    (hadvance : ∀ t, Recorded ctx k₀ u s st t → t.phase ≠ .externalize →
      wp (advance st) (fun _ => Q) E t)
    (hfinal : ∀ t, Recorded ctx k₀ u s st t → t.phase = .externalize → Q t) :
    wp (processEnvelope ctx advance st true)
      (fun res t => res = .valid ∧ Q t ∨
        res = .invalid ∧ t = s ∧ ¬ ∃ st, Publishable ctx k₀ (u.apply k₀.loc) st) E s := by
  have hloc : s.toLocalState = u.apply k₀.loc := congrArg Core.loc h.core
  have henvs : s.latestEnvelopes = k₀.envs := congrArg Core.envs h.core
  obtain ⟨hinv, hdesc⟩ := createStatement_eq_ok.1 hcreate
  have hself := hdesc.nodeID_eq
  -- the statement about the change is unique, so what fails for it fails for the change
  have hfails : ¬ Publishable ctx k₀ (u.apply k₀.loc) st →
      ¬ ∃ st, Publishable ctx k₀ (u.apply k₀.loc) st := by
    rintro hnot ⟨st', hst'⟩
    obtain rfl : st' = st := Except.ok.inj (hst'.1.symm.trans hcreate)
    exact hnot hst'
  have hpublishable : Passes ctx s st true ↔ Publishable ctx k₀ (u.apply k₀.loc) st := by
    refine ⟨fun hpasses => ⟨hcreate, fun _ => ⟨hpasses.sane, ?_, hpasses.valid⟩⟩, fun hpub => ?_⟩
    · rw [← hself, ← henvs]
      exact hpasses.newer
    · obtain ⟨hsane, hnewer, hvalid⟩ := hpub.2 hnew
      rw [← hself, ← henvs] at hnewer
      exact ⟨hsane, hnewer, hvalid⟩
  have hrecorded : Passes ctx s st true → ∀ t : BallotState, t.core = s.core.record st →
      t.lastEnvelope = s.lastEnvelope → t.driverCalls = s.driverCalls →
      t.currentMessageLevel = s.currentMessageLevel → Recorded ctx k₀ u s st t := by
    intro hpasses t hcore hlast hcalls hlevel
    obtain ⟨hact, hinv', hem⟩ := h.recorded (hpublishable.1 hpasses) hnew hcore hlast hcalls
    have hlocal : t.toLocalState = s.toLocalState := congrArg Core.loc hcore
    have hlatest : t.latestEnvelopes = s.latestEnvelopes.insert st.nodeID st :=
      congrArg Core.envs hcore
    have hhistory : t.statementsHistory = s.statementsHistory ++ [st] :=
      congrArg Core.history hcore
    exact
      { act := hact
        loc := hlocal.trans hloc
        inv := hinv'
        emissions := hem
        self := hself
        latest := by rw [hlatest, ← hself, FMap.lookup_insert_self]
        history := by simp [hhistory]
        new := hnew
        level := hlevel }
  have hcommit : s.phase = .externalize →
      ∃ c, s.commit = some c ∧ c.value = (getWorkingBallot st).value := by
    rw [hloc]
    intro hphase
    cases hdesc with
    | prepare hp => simp [hphase] at hp
    | confirm _ _ _ _ hp => simp [hphase] at hp
    | externalize c _ _ hc _ => exact ⟨c, hc, rfl⟩
  refine processEnvelope_rule (fun hnot => .inr ⟨rfl, rfl, hfails (mt hpublishable.2 hnot)⟩)
    (fun hpasses hphase _ => ?_) (fun hpasses hphase c hc => ?_) fun _ hphase hnone => ?_
  · exact wp_imp (hadvance _ (hrecorded hpasses _ rfl rfl rfl rfl) hphase)
      fun _ r hr => .inl ⟨rfl, hr⟩
  -- the final statement is recorded without advancing the slot
  · obtain ⟨c', hc', hvalue⟩ := hcommit hphase
    obtain rfl : c' = c := Option.mem_unique hc' hc
    exact ⟨fun _ => .inl ⟨rfl, hfinal _ (hrecorded hpasses _ rfl rfl rfl rfl) hphase⟩,
      fun hne => absurd hvalue hne⟩
  · obtain ⟨c, hc, _⟩ := hcommit hphase
    rw [hnone] at hc
    cases hc

/-- Publishing a pending change: the statement about it is the latest own one already, or it is
recorded and the slot advances, unless it is the final one. -/
theorem emit_rule (h : Pending ctx k₀ u s)
    (hquiet : ∀ t r, Q t → Quiet ctx t r → Q r)
    (hsame : ∀ st, createStatement ctx (u.apply k₀.loc) = .ok st →
      k₀.envs.lookup ctx.nodeID = some st → Act ctx u k₀ s.core → Q s)
    (hadvance : ∀ st t, Recorded ctx k₀ u s st t → t.phase ≠ .externalize →
      wp (advance st) (fun _ r => Q r ∧ Emissions ctx r ∧ st ∈ r.statementsHistory) E t)
    (hfinal : ∀ st t, Recorded ctx k₀ u s st t → t.phase = .externalize → Q t)
    (hfail : ∀ e, e.isCutOff = false → (¬ ∃ st, Publishable ctx k₀ (u.apply k₀.loc) st) → E e s) :
    wp (emitCurrentStateStatement ctx advance) (fun _ => Q) E s := by
  have hloc : s.toLocalState = u.apply k₀.loc := congrArg Core.loc h.core
  have henvs : s.latestEnvelopes = k₀.envs := congrArg Core.envs h.core
  unfold emitCurrentStateStatement
  simp only [wp_bind, wp_get, wp_runExcept]
  constructor
  swap
  · -- the statement cannot be created
    intro e he
    refine hfail e (raises_createStatement (P := (ScpError.isCutOff · = false)) rfl rfl _ e he)
      fun hex => ?_
    obtain ⟨st, hcreate, _⟩ := hex
    rw [← hloc, he] at hcreate
    cases hcreate
  intro st hcreate
  rw [hloc] at hcreate
  rw [wp_ite, henvs]
  constructor
  · -- the latest own statement already says so
    intro hlatest
    have hact := Act.perform st h.guard ⟨hcreate, fun hnew => absurd hlatest hnew⟩
    unfold Core.publish at hact
    rw [if_pos hlatest, ← h.core] at hact
    exact wp_pure.2 (hsame st hcreate hlatest hact)
  intro hnew
  simp only [wp_bind]
  refine wp_imp (processOwn_rule (Q := fun t => Q t ∧ Emissions ctx t ∧ st ∈ t.statementsHistory)
    h hcreate hnew (hadvance st) fun t ht hext => ⟨hfinal st t ht hext, ht.emissions, ht.history⟩)
    (fun res t ht => ?_)
  rw [wp_ite]
  rcases ht with ⟨rfl, hQ, hem, hmem⟩ | ⟨rfl, rfl, hnot⟩
  · refine ⟨fun _ => ?_, fun hne => absurd rfl hne⟩
    simp only [wp_bind, wp_get]
    rw [wp_ite, wp_pure]
    refine ⟨fun _ => ?_, fun _ => hQ⟩
    have hself := (createStatement_eq_ok.1 hcreate).2.nodeID_eq
    exact wp_total (queue_quiet hmem hself hem) (fun _ r hr => hquiet t r hQ hr)
  · exact ⟨fun h => absurd h (by decide), fun _ => wp_throw.2 (hfail _ rfl hnot)⟩

end EmitRule

/-- The method stopped with an error in `P` after a run of steps from `k₀`. -/
def FailsIn (ctx : Context) (P : ScpError → Prop) (k₀ : Core) (e : ScpError) (t : BallotState) :
    Prop :=
  Fails ctx k₀ e t ∧ P e

theorem FailsIn.of_steps {k₁ : Core} (hsteps : ReflTransGen (OwnStep ctx) k₀ k₁)
    (h : FailsIn ctx P k₁ e t) : FailsIn ctx P k₀ e t := by
  obtain ⟨⟨hem, k, hk, hlog, hhistory, hfail⟩, he⟩ := h
  exact ⟨⟨hem, k, hsteps.trans hk, hlog, hhistory, hfail⟩, he⟩

/-- What is assumed of the recursive `advanceSlot` at a level, on own statements. The errors in
`P` are at least those of a call that was not cut off. -/
structure AdvanceFrom (ctx : Context) (advance : SCPStatement → SlotM Unit) (P : ScpError → Prop)
    (level : Nat) : Prop where
  other : ∀ e, e.isCutOff = false → P e
  spec : ∀ hint s, s.core.Inv ctx → Emissions ctx s →
    s.latestEnvelopes.lookup hint.nodeID = some hint → s.phase ≠ .externalize →
    hint.nodeID = ctx.nodeID → s.currentMessageLevel = level →
    wp (advance hint) (fun _ => Returns ctx (LevelStep ctx level) s) (FailsIn ctx P s.core) s

theorem AdvanceSpec.from (h : AdvanceSpec ctx advance) (level : Nat) :
    AdvanceFrom ctx advance (fun _ => True) level where
  other := fun _ _ => trivial
  spec := by
    rintro hint s hinv hem hhint - - rfl
    exact wp_mono (h hint s hinv hem hhint) (fun _ _ ht => ht) fun _ _ he => ⟨he, trivial⟩

theorem emit_spec (hadv : AdvanceFrom ctx advance P s.currentMessageLevel)
    (h : Pending ctx k₀ u s) :
    wp (emitCurrentStateStatement ctx advance) (fun _ => Publishes ctx k₀ u s)
      (FailsIn ctx P k₀) s := by
  have hloc : s.toLocalState = u.apply k₀.loc := congrArg Core.loc h.core
  refine emit_rule h (fun t r ht hr => ?_) (fun st _ _ hact => ?_) (fun st t ht hphase => ?_)
    (fun st t ht _ => ?_) (fun e he hnot => ⟨h.fails hnot, hadv.other e he⟩)
  · exact
      { steps := by rw [hr.core]; exact ht.steps
        inv := by rw [hr.core]; exact ht.inv
        emissions := hr.emissions ht.emissions
        level := hr.level.trans ht.level }
  · exact ⟨⟨s.core, hact, hloc, .refl⟩, hact.inv h.inv, h.emissions, rfl⟩
  · have hlookup : t.latestEnvelopes.lookup st.nodeID = some st := by
      rw [ht.self]
      exact ht.latest
    refine wp_mono (hadv.spec st t ht.inv ht.emissions hlookup hphase ht.self ht.level)
      (fun _ r hr => ?_) (fun _ _ hr => hr.of_steps (.single ⟨u, ht.act⟩))
    exact ⟨⟨⟨t.core, ht.act, ht.loc, hr.steps⟩, hr.inv, hr.emissions, hr.level.trans ht.level⟩,
      hr.emissions, (history_grows (steps_of_own (own_of_level hr.steps))).subset ht.history⟩
  · exact ⟨⟨t.core, ht.act, ht.loc, .refl⟩, ht.inv, ht.emissions, ht.level⟩

end SpnCore.Scp
