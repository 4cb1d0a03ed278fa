import SpnCore.Scp.Refinement

/-!
# The `set` methods and `bumpState` take steps

Each `set` method logs its change, brings the local state to what `Update.apply` says, and
publishes it. `bumpState` does the same for a move of the current ballot, when it is allowed.
-/

namespace SpnCore.Scp

open Lib Relation List

variable {ctx : Context} {advance : SCPStatement → SlotM Unit} {s : BallotState}

/-- Only the local state changed, to `l`. -/
structure Moves (ctx : Context) (l : LocalState) (s t : BallotState) : Prop where
  core : t.core = { s.core with loc := l }
  level : t.currentMessageLevel = s.currentMessageLevel
  emissions : Emissions ctx s → Emissions ctx t

variable {r s t : BallotState} {l l' : LocalState} {k : Core} {u : Update}
  {ballot h newC newH c : SCPBallot} {P : ScpError → Prop}

theorem Quiet.moves (h : Quiet ctx s t) : Moves ctx s.toLocalState s t :=
  ⟨h.core, h.level, h.emissions⟩

theorem Moves.quiet (h : Moves ctx l s t) (hr : Quiet ctx t r) : Moves ctx l s r :=
  ⟨hr.core.trans h.core, hr.level.trans h.level, hr.emissions ∘ h.emissions⟩

theorem Moves.trans (h₁ : Moves ctx l s t) (h₂ : Moves ctx l' t r) : Moves ctx l' s r where
  core := by rw [h₂.core, h₁.core]
  level := h₂.level.trans h₁.level
  emissions := h₂.emissions ∘ h₁.emissions

theorem Moves.congr (h : Moves ctx l s t) (hl : l = l') : Moves ctx l' s t :=
  hl ▸ h

theorem Moves.loc (h : Moves ctx l s t) : t.toLocalState = l :=
  congrArg Core.loc h.core

/-- A change of the local state together with notices to the driver. -/
theorem moves_of_notices (calls : List DriverCall) (hcore : t.core = { s.core with loc := l })
    (hlevel : t.currentMessageLevel = s.currentMessageLevel)
    (hlast : t.lastEnvelope = s.lastEnvelope) (hdriver : t.driverCalls = s.driverCalls ++ calls)
    (hcalls : calls.all DriverCall.isNotice = true) : Moves ctx l s t :=
  ⟨hcore, hlevel, fun h => h.notices calls hcalls hlast hdriver
    (congrArg Core.history hcore) (congrArg Core.log hcore)⟩

theorem moves_setLocal (l : LocalState) (s : BallotState) :
    Moves ctx l s { s with toLocalState := l } :=
  ⟨rfl, rfl, fun h => h.mono rfl rfl (List.Subset.refl _) (List.Subset.refl _)⟩

/-- The change `u` was logged and made, and nothing is published yet. -/
abbrev Applied (ctx : Context) (u : Update) (s t : BallotState) : Prop :=
  Moves ctx (u.apply s.toLocalState) { s with log := s.log ++ [(s.toLocalState, u)] } t

/-- Publishing the change `u` ends as said. -/
abbrev EmitEnds (ctx : Context) (advance : SCPStatement → SlotM Unit) (u : Update)
    (s : BallotState) (Q : BallotState → Prop) (E : ScpError → BallotState → Prop) : Prop :=
  ∀ s₁, Applied ctx u s s₁ → wp (emitCurrentStateStatement ctx advance) (fun _ t => Q t) E s₁

theorem guard_push {u' : Update} (h : Guard ctx k u) : Guard ctx (k.push u') u := by
  cases u <;> exact h

/-- A logged change whose local state was reached is pending. -/
theorem pending_of_moves (hinv : s.core.Inv ctx) (hem : Emissions ctx s)
    (hguard : Guard ctx s.core u)
    (ht : Applied ctx u s t) :
    Pending ctx (s.core.push u) u t where
  inv := hinv.push u
  guard := guard_push hguard
  logged := fun _ => mem_append_right _ (mem_singleton_self _)
  core := ht.core
  emissions := ht.emissions (hem.mono rfl rfl (List.Subset.refl _)
    (subset_append_left _ _))

/-- Logging a change is a step, so failing after it is failing. -/
theorem fails_of_push {e : ScpError} (hguard : Guard ctx k u) 
    (h : FailsIn ctx P (k.push u) e t) : FailsIn ctx P k e t :=
  h.of_steps (.single ⟨u, .enter hguard⟩)

/-- The method made the change `u` and returned after further steps. -/
structure Made (ctx : Context) (R : Core → Core → Prop) (u : Update) (s t : BallotState) : Prop
    extends Returns ctx R s t where
  after : ∃ k₁, k₁.loc = u.apply s.toLocalState ∧ ReflTransGen R k₁ t.core
  logged : (s.toLocalState, u) ∈ t.log

theorem InnerStep.level {level : Nat} {k' : Core} (h : InnerStep ctx k k') :
    LevelStep ctx level k k' := by
  unfold LevelStep
  split
  · exact h.own
  · exact h

/-- Publishing the local state after an inner change makes the change. -/
theorem publish_spec (hadv : AdvanceFrom ctx advance P s.currentMessageLevel)
    (hinv : s.core.Inv ctx) (hem : Emissions ctx s) (hguard : Guard ctx s.core u)
    (hinner : u.isInner = true) {s₁ : BallotState} (hs₁ : Applied ctx u s s₁) :
    wp (emitCurrentStateStatement ctx advance)
      (fun _ => Made ctx (LevelStep ctx s.currentMessageLevel) u s)
      (FailsIn ctx P s.core) s₁ := by
  have hlevel : s₁.currentMessageLevel = s.currentMessageLevel := hs₁.level
  refine wp_mono (emit_spec (hlevel ▸ hadv) (pending_of_moves hinv hem hguard hs₁))
    (fun _ t ht => ?_) (fun _ _ h => fails_of_push hguard h)
  obtain ⟨k₁, hact, hloc, hsteps⟩ := ht.steps
  rw [hlevel] at hsteps
  have henter : InnerStep ctx s.core (s.core.push u) := ⟨u, hinner, .enter hguard⟩
  have hperform : InnerStep ctx (s.core.push u) k₁ := ⟨u, hinner, hact⟩
  have hrun := ReflTransGen.head hperform.level hsteps
  have hlogged : (s.toLocalState, u) ∈ (s.core.push u).log :=
    mem_append_right _ (mem_singleton_self _)
  exact
    { steps := .head henter.level hrun
      __ := ht
      level := ht.level.trans hlevel
      after := ⟨k₁, hloc, hsteps⟩
      logged := (log_grows (steps_of_own (own_of_level hrun))).subset hlogged }

/-! ### The current ballot -/

/-- `bumpToBallot` moves the local state and only gives notices, unless the phase is final or the
ballot decreases. -/
theorem bumpToBallot_rule {check : Bool} {Q : BallotState → Prop}
    {E : ScpError → BallotState → Prop}
    (hmoved : ∀ heard calls, calls.all DriverCall.isNotice = true →
      Q { s with
        toLocalState := s.toLocalState.bumpTo ballot
        heardFromQuorum := heard
        driverCalls := s.driverCalls ++ calls })
    (hfinal : s.phase = .externalize → E .bumpAfterExternalize s)
    (hdecreased : ∀ b, check = true → s.currentBallot = some b → ballot < b →
      E .ballotDecreased s) :
    wp (bumpToBallot ballot check) (fun _ => Q) E s := by
  have hsilent : ∀ heard, Q { s with
      toLocalState := s.toLocalState.bumpTo ballot, heardFromQuorum := heard } := fun heard => by
    simpa using hmoved heard [] rfl
  unfold bumpToBallot
  simp only [wp_bind, wp_get, wp_ensure, wp_ite, wp_pure, wp_modify, tell, setLocalState]
  refine ⟨fun _ => ⟨fun _ => ?_, fun hlt => ?_⟩, fun hext => hfinal ?_⟩
  · exact ⟨fun _ => ⟨fun _ => hmoved _ _ rfl, fun _ => hmoved _ _ rfl⟩,
      fun _ => ⟨fun _ => hsilent _, fun _ => hsilent _⟩⟩
  · simp only [Bool.or_eq_false_iff, Bool.not_eq_false', Option.all_eq_false] at hlt
    obtain ⟨hcheck, b, hb, hcompare⟩ := hlt
    rw [decide_eq_false_iff_not, not_not, compareBallots_eq, compare_lt_iff_lt] at hcompare
    exact hdecreased b hcheck hb hcompare
  · exact not_not.1 (of_decide_eq_false hext)

theorem bumpToBallot_spec (ctx : Context) {check : Bool} (hphase : s.phase ≠ .externalize)
    (hle : check = true → ∀ b, s.currentBallot = some b → b ≤ ballot) :
    wp (bumpToBallot ballot check)
      (fun _ => Moves ctx (s.toLocalState.bumpTo ballot) s) (fun _ _ => False) s :=
  bumpToBallot_rule (fun _ calls hcalls => moves_of_notices calls rfl rfl rfl rfl hcalls)
    (fun h => hphase h) fun b hcheck hb hlt => not_lt.2 (hle hcheck b hb) hlt

theorem updateCurrentIfNeeded_spec (ctx : Context) (hphase : s.phase ≠ .externalize) :
    wp (updateCurrentIfNeeded h)
      (fun r t => Moves ctx (s.toLocalState.raiseTo h) s t ∧
        (r = false → s.toLocalState.raiseTo h = s.toLocalState)) (fun _ _ => False) s := by
  have hall : (s.currentBallot.all fun b => compareBallots b h = .lt) =
      s.currentBallot.all (· < h) := by
    cases s.currentBallot <;> simp [compareBallots_eq, compare_lt_iff_lt]
  unfold updateCurrentIfNeeded LocalState.raiseTo
  simp only [wp_bind, wp_get, wp_ite, wp_pure, hall]
  constructor
  · intro hlt
    rw [if_pos hlt]
    have hle : ∀ b, s.currentBallot = some b → b ≤ h := by
      intro b hb
      simp only [hb, Option.all_some, decide_eq_true_eq] at hlt
      exact hlt.le
    exact wp_imp (bumpToBallot_spec ctx hphase fun _ => hle)
      (fun _ t ht => ⟨ht, fun h => absurd h (by decide)⟩)
  · intro hlt
    rw [if_neg hlt]
    exact ⟨(Quiet.refl s).moves, fun _ => rfl⟩

/-! ### The `set` methods -/

section Rules

-- each rule reduces a method to the publication of the local state it moved to

variable {Q : BallotState → Prop} {E : ScpError → BallotState → Prop}

theorem setPreparedAccept_rule (hinv : s.core.Inv ctx)
    (hguard : Guard ctx s.core (.preparedAccept ballot))
    (hemit : EmitEnds ctx advance (.preparedAccept ballot) s Q E) :
    wp (setPreparedAccept ctx advance ballot) (fun _ => Q) E s := by
  obtain ⟨hext, hconfirm, hprime, hcovered, _⟩ := id hguard
  obtain ⟨l', hset⟩ : ∃ l', setPrepared s.toLocalState ballot = (l', true) := by
    rcases setPrepared_cases hprime hcovered with ⟨q, hset, _⟩ | ⟨p, _, _, _, hset⟩ <;>
      exact ⟨_, hset⟩
  -- c is only cleared in the PREPARE phase
  have hprepare : l'.abortsCommit = true → l'.phase = .prepare := by
    intro habort
    have hphase : l'.phase = s.phase := by
      simpa [hset] using (setPrepared_frame s.toLocalState ballot).1
    rw [hphase]
    cases hp : s.phase with
    | prepare => rfl
    | externalize => exact absurd hp hext
    | confirm =>
      obtain ⟨p, c, hp', hc, hle, hpval, hcval⟩ := hconfirm hp
      have hnone := (hinv.consistent.confirm (by simp [BallotState.core, hp])).2
      have hkeep := (hinv.invariants.preparedAccept_keeps_commit hp' hnone hc hle hpval hcval).1
      rw [show s.core.loc = s.toLocalState from rfl, hset] at hkeep
      simp [habort] at hkeep
  have happly : (Update.preparedAccept ballot).apply s.toLocalState =
      if l'.abortsCommit then { l' with commit := none } else l' := by
    simp only [Update.apply, hset]
  unfold setPreparedAccept
  simp only [wp_bind, wp_get, wp_modify, logUpdate, hset, setLocalState, tell]
  by_cases habort : l'.abortsCommit = true
  · rw [if_pos habort] at happly ⊢
    simp only [wp_bind, wp_ensure, wp_modify, wp_pure, if_true]
    refine ⟨fun _ => hemit _ ?_, fun h => absurd (hprepare habort) (of_decide_eq_false h)⟩
    rw [Applied, happly]
    exact moves_of_notices [.acceptedBallotPrepared ballot] rfl rfl rfl rfl rfl
  · rw [if_neg habort] at happly ⊢
    simp only [wp_bind, wp_modify, wp_pure, if_true]
    refine hemit _ ?_
    rw [Applied, happly]
    exact moves_of_notices [.acceptedBallotPrepared ballot] rfl rfl rfl rfl rfl

/-- The end of `setPreparedConfirmed`: the current ballot moves up to `newH`, and the change is
published if there was one. -/
theorem raiseAndPublish_rule (hguard : Guard ctx s.core (.preparedConfirmed newC newH))
    (hemit : EmitEnds ctx advance (.preparedConfirmed newC newH) s Q E)
    (hidle : ∀ s₁, (Update.preparedConfirmed newC newH).apply s.toLocalState = s.toLocalState →
      Moves ctx s.toLocalState
        { s with log := s.log ++ [(s.toLocalState, .preparedConfirmed newC newH)] } s₁ → Q s₁)
    (didWork : Bool) (s₁ : BallotState)
    (hs₁ : Moves ctx (s.toLocalState.confirmOn newC newH)
      { s with log := s.log ++ [(s.toLocalState, .preparedConfirmed newC newH)] } s₁)
    (hkeep : didWork = false → s.toLocalState.confirmOn newC newH = s.toLocalState) :
    wp (do
        let bumped ← updateCurrentIfNeeded newH
        if bumped || didWork then emitCurrentStateStatement ctx advance else pure ()
        pure (bumped || didWork) : SlotM Bool)
      (fun _ => Q) E s₁ := by
  have hne : s₁.phase ≠ .externalize := by
    rw [show s₁.phase = s₁.toLocalState.phase from rfl, hs₁.loc, confirmOn_phase]
    exact hguard.not_externalize
  simp only [wp_bind, wp_ite, wp_pure]
  refine wp_total (updateCurrentIfNeeded_spec ctx hne) (fun bumped s₂ h₂ => ?_)
  obtain ⟨hs₂, hkept⟩ := h₂
  rw [hs₁.loc] at hs₂ hkept
  have hmoves := hs₁.trans hs₂
  refine ⟨fun _ => hemit s₂ hmoves, fun hnot => ?_⟩
  simp only [Bool.or_eq_true, not_or, Bool.not_eq_true] at hnot
  have hsame : (Update.preparedConfirmed newC newH).apply s.toLocalState = s.toLocalState := by
    rw [Update.apply, hkept hnot.1, hkeep hnot.2]
  exact hidle s₂ hsame (hmoves.congr hsame)

theorem setPreparedConfirmed_rule (hguard : Guard ctx s.core (.preparedConfirmed newC newH))
    (hemit : EmitEnds ctx advance (.preparedConfirmed newC newH) s Q E)
    (hidle : ∀ s₁, (Update.preparedConfirmed newC newH).apply s.toLocalState = s.toLocalState →
      Moves ctx s.toLocalState
        { s with log := s.log ++ [(s.toLocalState, .preparedConfirmed newC newH)] } s₁ → Q s₁) :
    wp (setPreparedConfirmed ctx advance newC newH) (fun _ => Q) E s := by
  obtain ⟨hphase, _, hhigh, _, hnewC⟩ := id hguard
  have hrest := raiseAndPublish_rule hguard hemit hidle
  simp only [wp_bind, wp_ite, wp_pure] at hrest
  unfold setPreparedConfirmed
  simp only [wp_bind, wp_get, wp_modify, wp_set, logUpdate]
  by_cases hcur : ∀ b, s.currentBallot = some b → b.value = newH.value
  · have hcompat : s.currentBallot.all (areBallotsCompatible · newH) = true := by
      cases hb : s.currentBallot with
      | none => rfl
      | some b => simpa using hcur b hb
    have hraise : s.highBallot.all (fun h => compareBallots newH h = .gt) = true := by
      cases hh : s.highBallot with
      | none => rfl
      | some h => simpa [compareBallots_eq, compare_gt_iff_gt] using hhigh h hh
    have hconfirm := confirmOn_of_compatible newC hcur hhigh
    rw [if_pos hcompat]
    simp only [hraise, if_true, wp_bind, wp_pure, wp_ensure, wp_modify, setLocalState, tell, wp_ite,
      Bool.true_or]
    refine ⟨fun hset => ⟨fun _ => ?_, fun hsome => ?_⟩, fun hunset => ?_⟩
    · refine hrest true _ ?_ (fun h => absurd h (by decide))
      rw [hconfirm, if_pos hset]
      exact moves_of_notices [.confirmedBallotPrepared newH] rfl rfl rfl rfl rfl
    · have hnone : s.commit = none := (hnewC hset).1
      simp [hnone] at hsome
    · refine hrest true _ ?_ (fun h => absurd h (by decide))
      rw [hconfirm, if_neg hunset]
      exact moves_of_notices [.confirmedBallotPrepared newH] rfl rfl rfl rfl rfl
  · have hincompat : ¬ s.currentBallot.all (areBallotsCompatible · newH) = true := by
      intro hall
      refine hcur fun b hb => ?_
      simpa [hb] using hall
    push Not at hcur
    obtain ⟨b, hb, hval⟩ := hcur
    have hconfirm := confirmOn_of_incompatible newC hb hval
    rw [if_neg hincompat]
    simp only [wp_bind, wp_pure, wp_ite]
    refine hrest false _ ?_ (fun _ => hconfirm)
    rw [hconfirm]
    exact moves_of_notices [] rfl rfl rfl (append_nil _).symm rfl

theorem moveToConfirm_spec (ctx : Context) (s : BallotState) (h : SCPBallot) :
    wp (moveToConfirm h)
      (fun _ t => Moves ctx
        { (if s.currentBallot.any fun b => !areBallotsLessAndCompatible h b then
            s.toLocalState.bumpTo h else s.toLocalState) with
          phase := .confirm
          preparedPrime := none } s t) (fun _ _ => False) s := by
  unfold moveToConfirm
  simp only [wp_bind, wp_modify, wp_get, wp_onlyIf]
  refine ⟨fun hbump => ?_, fun hkeep => ?_⟩
  · refine wp_imp (bumpToBallot_spec ctx (by simp) (fun h => absurd h (by decide))) fun _ t ht => ?_
    rw [if_pos hbump]
    have hclear : Moves ctx { t.toLocalState with preparedPrime := none } t
        { t with preparedPrime := none } :=
      moves_of_notices [] rfl rfl rfl (append_nil _).symm rfl
    have hloc : ({ t.toLocalState with preparedPrime := none } : LocalState) =
        { s.toLocalState.bumpTo h with phase := .confirm, preparedPrime := none } := by
      rw [ht.loc]
      rfl
    exact ((moves_setLocal _ s).trans (ht.trans hclear)).congr hloc
  · rw [if_neg (by simp [hkeep])]
    exact moves_of_notices [] rfl rfl rfl (append_nil _).symm rfl

/-- The end of `setAcceptCommit`: with `h` set, the current ballot moves up to it, and the change
is published. -/
theorem raiseHigh_rule
    (hemit : EmitEnds ctx advance (.acceptCommit c h) s Q E)
    {s₁ : BallotState}
    (hs₁ : Moves ctx l { s with log := s.log ++ [(s.toLocalState, .acceptCommit c h)] } s₁)
    (hhigh : l.highBallot = some h) (hne : l.phase ≠ .externalize)
    (hl : (Update.acceptCommit c h).apply s.toLocalState = l.raiseTo h) :
    wp (do
        let high ← runExcept (deref (← get).highBallot)
        let _ ← updateCurrentIfNeeded high
        tell (.acceptedCommit h)
        emitCurrentStateStatement ctx advance : SlotM Unit)
      (fun _ => Q) E s₁ := by
  have hhigh₁ : s₁.highBallot = some h := by
    rw [show s₁.highBallot = s₁.toLocalState.highBallot from rfl, hs₁.loc, hhigh]
  have hne₁ : s₁.phase ≠ .externalize := by
    rwa [show s₁.phase = s₁.toLocalState.phase from rfl, hs₁.loc]
  simp only [wp_bind, wp_get, wp_runExcept, hhigh₁, deref, Except.ok.injEq, forall_eq',
    reduceCtorEq, false_implies, implies_true, and_true]
  refine wp_total (updateCurrentIfNeeded_spec ctx hne₁) (fun _ s₂ h₂ => ?_)
  have hs₂ := h₂.1
  rw [hs₁.loc, ← hl] at hs₂
  simp only [tell, wp_modify]
  exact hemit _ ((hs₁.trans hs₂).quiet (Quiet.tell (.refl s₂) (.acceptedCommit h) rfl))

theorem setAcceptCommit_rule (hguard : Guard ctx s.core (.acceptCommit c h))
    (hemit : EmitEnds ctx advance (.acceptCommit c h) s Q E) :
    wp (setAcceptCommit ctx advance c h) (fun _ => Q) E s := by
  obtain ⟨hext, _, _, _, _, _, hconfirm⟩ := id hguard
  -- in the CONFIRM phase h grows, so there is always something to do
  have hwork : (!(s.highBallot = some h && s.commit = some c) || decide (s.phase = .prepare)) =
      true := by
    cases hphase : s.phase with
    | prepare => simp
    | externalize => exact absurd hphase hext
    | confirm =>
      obtain ⟨h₀, hh₀, _, hlt⟩ := hconfirm hphase
      have hne : s.highBallot ≠ some h := by
        intro hh
        rw [show s.highBallot = some h₀ from hh₀] at hh
        exact absurd (congrArg SCPBallot.counter (Option.some.inj hh)) hlt.ne
      simp [hne]
  set s₀ : BallotState := { s with log := s.log ++ [(s.toLocalState, .acceptCommit c h)] }
  set l : LocalState := { s.toLocalState with commit := some c, highBallot := some h } with hl
  unfold setAcceptCommit
  simp only [wp_bind, wp_get, wp_set, wp_modify, logUpdate, wp_pure, hwork]
  refine wp_mono (Q := fun _ s₁ => Moves ctx l s₀ s₁) ?_ (fun _ s₁ hs₁ => ?_) (fun _ _ h => h)
  · rw [wp_onlyIf, setLocalState, wp_modify]
    refine ⟨fun _ => moves_of_notices [] rfl rfl rfl (append_nil _).symm rfl, fun hkeep => ?_⟩
    simp only [Bool.not_eq_false', Bool.and_eq_true, decide_eq_true_eq] at hkeep
    have hsame : l = s.toLocalState := by rw [hl, ← hkeep.1, ← hkeep.2]
    rw [hsame]
    exact moves_of_notices [] rfl rfl rfl (append_nil _).symm rfl
  have hfinish : ∀ (s₂ : BallotState) (l₂ : LocalState), Moves ctx l₂ s₀ s₂ →
      l₂.highBallot = some h → l₂.phase ≠ .externalize →
      (Update.acceptCommit c h).apply s.toLocalState = l₂.raiseTo h → _ :=
    fun s₂ l₂ hs₂ hhigh hne happly => raiseHigh_rule hemit hs₂ hhigh hne happly
  rw [wp_onlyIf]
  refine ⟨fun hphase => ?_, fun hphase => ?_⟩
  · have hphase : s.phase = .prepare := of_decide_eq_true hphase
    refine wp_total (moveToConfirm_spec ctx s₁ h) (fun _ s₂ hs₂ => ?_)
    rw [show s₁.currentBallot = s₁.toLocalState.currentBallot from rfl, hs₁.loc] at hs₂
    rw [wp_onlyIf]
    refine ⟨fun _ => hfinish s₂ _ (hs₁.trans hs₂) ?_ (by simp) ?_, fun h => absurd h (by decide)⟩
    · split
      · simp [hl, LocalState.bumpTo]
      · rfl
    · simp only [Update.apply, if_pos hphase, hl]
  · have hphase : s.phase ≠ .prepare := of_decide_eq_false hphase
    rw [wp_onlyIf]
    refine ⟨fun _ => hfinish s₁ l hs₁ rfl hext ?_, fun h => absurd h (by decide)⟩
    simp only [Update.apply, if_neg hphase, hl]

theorem setConfirmCommit_rule (hguard : Guard ctx s.core (.confirmCommit c h))
    (hemit : ∀ s₁, Applied ctx (.confirmCommit c h) s s₁ →
      wp (emitCurrentStateStatement ctx advance)
        (fun _ t => t.commit = some c ∧ Q { t with
          driverCalls := t.driverCalls ++ [.stopNomination] ++ [.valueExternalized c.value] })
        E s₁) :
    wp (setConfirmCommit ctx advance c h) (fun _ => Q) E s := by
  have hext : s.phase ≠ .externalize := hguard.not_externalize
  unfold setConfirmCommit
  simp only [wp_bind, wp_get, wp_modify, logUpdate, setLocalState]
  refine wp_total (updateCurrentIfNeeded_spec ctx hext) (fun _ s₁ h₁ => ?_)
  have hs₁ := h₁.1
  have hmoves : Moves ctx ((Update.confirmCommit c h).apply s.toLocalState)
      { s with log := s.log ++ [(s.toLocalState, .confirmCommit c h)] }
      { s₁ with phase := .externalize } := by
    have hfinal : Moves ctx { s₁.toLocalState with phase := .externalize } s₁
        { s₁ with phase := .externalize } :=
      moves_of_notices [] rfl rfl rfl (append_nil _).symm rfl
    refine ((moves_setLocal _ _).trans (hs₁.trans hfinal)).congr ?_
    rw [hs₁.loc]
    rfl
  refine wp_imp (hemit _ hmoves) fun _ t ht => ?_
  simp only [tell, wp_modify, wp_runExcept, ht.1, deref, Except.ok.injEq, forall_eq', wp_pure,
    reduceCtorEq, false_implies, implies_true, and_true]
  exact ht.2

end Rules

/-- A logged change that turned out to change nothing. -/
theorem returns_of_idle (hinv : s.core.Inv ctx) (hem : Emissions ctx s)
    (hguard : Guard ctx s.core u) (hinner : u.isInner = true)
    (ht : Moves ctx s.toLocalState { s with log := s.log ++ [(s.toLocalState, u)] } t) :
    Returns ctx (LevelStep ctx s.currentMessageLevel) s t := by
  have hcore : t.core = s.core.push u := ht.core
  have henter : InnerStep ctx s.core (s.core.push u) := ⟨u, hinner, .enter hguard⟩
  exact
    { steps := by rw [hcore]; exact .single henter.level
      inv := by rw [hcore]; exact hinv.push u
      emissions := ht.emissions (hem.mono rfl rfl (List.Subset.refl _)
        (subset_append_left _ _))
      level := ht.level }

/-- Handing the value of a logged commit to the driver. -/
theorem Emissions.tell_externalized (h : Emissions ctx s) {ch : SCPBallot}
    (hlog : (l, .confirmCommit c ch) ∈ s.log) :
    Emissions ctx { s with driverCalls := s.driverCalls ++ [.valueExternalized c.value] } where
  last := h.last
  emitted := by
    intro st hst
    rcases mem_append.1 hst with hst | hst
    · exact h.emitted st hst
    · simp at hst
  externalized := by
    intro v hv
    rcases mem_append.1 hv with hv | hv
    · exact h.externalized v hv
    · obtain rfl : v = c.value := by simpa using hv
      exact ⟨l, c, ch, hlog, rfl⟩

/-- The externalized state is final. -/
theorem Made.final {level : Nat} (ht : Made ctx (LevelStep ctx level) (.confirmCommit c h) s t) :
    t.core.loc = (Update.confirmCommit c h).apply s.toLocalState := by
  obtain ⟨k₁, hloc, hsteps⟩ := ht.after
  exact (loc_eq_of_externalize (steps_of_own (own_of_level hsteps)) (by rw [hloc]; rfl)).trans hloc

/-- `updateCurrentValue` moves to a higher ballot that `c` allows, and checks the invariants. -/
theorem updateCurrentValue_rule {Q : Bool → BallotState → Prop} {E : ScpError → BallotState → Prop}
    (hstay : Q false s)
    (hbump : s.phase ≠ .externalize → (∀ b, s.currentBallot = some b →
        b < ballot ∧ ∀ c, s.commit = some c → c.value = ballot.value) →
      wp (bumpToBallot ballot true)
        (fun _ t => (checkInvariants t.toLocalState = .ok () → Q true t) ∧
          ∀ e, checkInvariants t.toLocalState = .error e → E e t) E s)
    (hdecreased : ∀ b, s.currentBallot = some b → ballot < b → E .ballotDecreased s)
    (hcheck : ∀ e, checkInvariants s.toLocalState = .error e → E e s) :
    wp (updateCurrentValue ballot) Q E s := by
  unfold updateCurrentValue
  simp only [wp_bind, wp_get, wp_ite, wp_pure]
  refine ⟨fun _ => hstay, fun hext => ?_⟩
  cases hb : s.currentBallot with
  | none =>
    simp only [wp_bind, wp_get, wp_runExcept, wp_pure]
    refine wp_imp (hbump hext fun b hb' => ?_) fun _ t ht => ⟨fun _ => ht.1, ht.2⟩
    rw [hb] at hb'
    cases hb'
  | some b =>
    simp only [wp_bind, wp_ensure, wp_ite, wp_pure, decide_eq_true_eq, decide_eq_false_iff_not,
      not_not]
    refine ⟨fun hle => ⟨fun _ => hstay, fun hcompat => ?_⟩, fun hgt => hdecreased b hb ?_⟩
    · cases hcmp : compareBallots b ballot with
      | gt => exact absurd hcmp hle
      | eq =>
        simp only [wp_bind, wp_runExcept, wp_pure]
        exact ⟨fun _ _ => hstay, hcheck⟩
      | lt =>
        simp only [wp_bind, wp_get, wp_runExcept, wp_pure]
        refine wp_imp (hbump hext fun b' hb' => ?_) fun _ t ht => ⟨fun _ => ht.1, ht.2⟩
        obtain rfl : b = b' := Option.mem_unique hb hb'
        refine ⟨by rwa [compareBallots_eq, compare_lt_iff_lt] at hcmp, fun c hc => ?_⟩
        simpa [hc] using hcompat
    · rwa [compareBallots_eq, compare_gt_iff_gt] at hgt

/-- Whether the current ballot may move to `ballot`. -/
theorem updateCurrentValue_spec (hinv : s.core.Inv ctx) (hext : s.phase ≠ .externalize)
    (hpos : s.currentBallot = none → 0 < ballot.counter) :
    wp (updateCurrentValue ballot)
      (fun r t => r = true ∧ Guard ctx s.core (.bump ballot) ∧
          Moves ctx (s.toLocalState.bumpTo ballot) s t ∨ r = false ∧ t = s)
      (fun e t => e = .ballotDecreased ∧ t = s) s := by
  have hl : s.toLocalState.Invariants := hinv.invariants
  refine updateCurrentValue_rule (.inr ⟨rfl, rfl⟩) (fun _ hmay => ?_) (fun _ _ _ => ⟨rfl, rfl⟩)
    fun e he => ?_
  · have hguard : Guard ctx s.core (.bump ballot) := by
      refine ⟨hext, ?_, fun b hb => (hmay b hb).1, fun c hc => ?_⟩
      · cases hb : s.currentBallot with
        | none => exact hpos hb
        | some b =>
          have hne := hl.current b hb
          have hle := SCPBallot.counter_le (hmay b hb).1.le
          omega
      · obtain ⟨h, hh, _⟩ := hl.commit c hc
        obtain ⟨b, hb, _⟩ := hl.high h hh
        exact (hmay b hb).2 c hc
    obtain ⟨_, hpos', hlt, hval⟩ := id hguard
    refine wp_total (bumpToBallot_spec ctx hext fun _ b hb => (hlt b hb).le) (fun _ t ht => ?_)
    -- the moved ballot satisfies the assertions
    have hok : checkInvariants t.toLocalState = .ok () := by
      rw [ht.loc]
      exact checkInvariants_eq_ok.2 (hl.bump hext hpos' hlt hval)
    refine ⟨fun _ => .inl ⟨rfl, hguard, ht⟩, fun e he => ?_⟩
    rw [hok] at he
    cases he
  · rw [checkInvariants_eq_ok.2 hl] at he
    cases he

/-- The current ballot moved to counter `n`, and steps followed. -/
def Bumped (ctx : Context) (n : Nat) (k k' : Core) : Prop :=
  ∃ k₁, OwnStep ctx k k₁ ∧ k₁.loc.phase = k.loc.phase ∧
    (∃ b, k₁.loc.currentBallot = some b ∧ b.counter = n) ∧ ReflTransGen (OwnStep ctx) k₁ k'

variable (hadv : AdvanceFrom ctx advance P s.currentMessageLevel) (hinv : s.core.Inv ctx)
  (hem : Emissions ctx s)
include hadv hinv hem

theorem setPreparedAccept_spec (hguard : Guard ctx s.core (.preparedAccept ballot)) :
    wp (setPreparedAccept ctx advance ballot)
      (fun _ => Made ctx (LevelStep ctx s.currentMessageLevel) (.preparedAccept ballot) s)
      (FailsIn ctx P s.core) s :=
  setPreparedAccept_rule hinv hguard fun _ hs₁ => publish_spec hadv hinv hem hguard rfl hs₁

theorem setPreparedConfirmed_spec (hguard : Guard ctx s.core (.preparedConfirmed newC newH)) :
    wp (setPreparedConfirmed ctx advance newC newH)
      (fun _ => Returns ctx (LevelStep ctx s.currentMessageLevel) s)
      (FailsIn ctx P s.core) s := by
  refine setPreparedConfirmed_rule hguard (fun s₁ hs₁ => ?_) (fun s₁ _ hs₁ => ?_)
  · exact wp_imp (publish_spec hadv hinv hem hguard rfl hs₁) (fun _ t ht => ht.toReturns)
  · exact returns_of_idle hinv hem hguard rfl hs₁

theorem setAcceptCommit_spec (hguard : Guard ctx s.core (.acceptCommit c h)) :
    wp (setAcceptCommit ctx advance c h)
      (fun _ => Returns ctx (LevelStep ctx s.currentMessageLevel) s)
      (FailsIn ctx P s.core) s :=
  setAcceptCommit_rule hguard fun _ hs₁ => wp_imp (publish_spec hadv hinv hem hguard rfl hs₁)
    (fun _ _ ht => ht.toReturns)

theorem setConfirmCommit_spec (hguard : Guard ctx s.core (.confirmCommit c h)) :
    wp (setConfirmCommit ctx advance c h)
      (fun _ => Returns ctx (LevelStep ctx s.currentMessageLevel) s)
      (FailsIn ctx P s.core) s := by
  refine setConfirmCommit_rule hguard fun s₁ hs₁ => ?_
  refine wp_imp (publish_spec hadv hinv hem hguard rfl hs₁) (fun _ t ht => ⟨?_, ?_⟩)
  · rw [show t.commit = t.core.loc.commit from rfl, ht.final]
    simp [Update.apply]
  · have hem' := ht.emissions.tell_notice .stopNomination rfl
    exact ⟨ht.steps, ht.inv, hem'.tell_externalized ht.logged, ht.level⟩

/-! ### Moving the current ballot -/

theorem bumpStateTo_spec {value : Value} {n : Nat} (hpos : s.currentBallot = none → 0 < n) :
    wp (bumpStateTo ctx advance value n)
      (fun r t => Returns ctx (OwnStep ctx) s t ∧ (r = true → Bumped ctx n s.core t.core))
      (FailsIn ctx P s.core) s := by
  have hidle : Returns ctx (OwnStep ctx) s s := ⟨.refl, hinv, hem, rfl⟩
  unfold bumpStateTo
  simp only [wp_bind, wp_get, wp_ite, wp_pure]
  refine ⟨fun _ => ⟨hidle, fun h => absurd h (by decide)⟩, fun hext => ?_⟩
  refine wp_mono (updateCurrentValue_spec hinv hext hpos) (fun r s₁ hs₁ => ?_) (fun e t he => ?_)
  · rcases hs₁ with ⟨rfl, hguard, hs₁⟩ | ⟨rfl, rfl⟩
    · refine ⟨fun _ => ?_, fun h => absurd rfl h⟩
      have hpending : Pending ctx s.core (.bump ⟨n, s.valueOverride.getD value⟩) s₁ :=
        ⟨hinv, hguard, fun h => absurd h Bool.false_ne_true, hs₁.core, hs₁.emissions hem⟩
      refine wp_imp (emit_spec (hs₁.level ▸ hadv) hpending) fun _ t ht => ?_
      refine wp_total (checkHeardFromQuorum_quiet t) (fun _ r hr => ?_)
      obtain ⟨k₁, hact, hloc, hsteps⟩ := ht.steps
      have hrun := own_of_level hsteps
      rw [← hr.core] at hrun
      refine ⟨⟨.head ⟨_, hact⟩ hrun, ?_, hr.emissions ht.emissions, ?_⟩, fun _ => ?_⟩
      · rw [hr.core]
        exact ht.inv
      · exact hr.level.trans (ht.level.trans hs₁.level)
      · exact ⟨k₁, ⟨_, hact⟩, by rw [hloc]; rfl, ⟨_, by rw [hloc]; rfl, rfl⟩, hrun⟩
    · exact ⟨fun h => absurd h (by decide), fun _ => ⟨hidle, fun h => absurd h (by decide)⟩⟩
  · obtain ⟨rfl, rfl⟩ := he
    exact ⟨⟨hem, t.core, .refl, rfl, rfl, .inr (.inl rfl)⟩, hadv.other _ rfl⟩

theorem bumpState_spec (value : Value) (force : Bool) :
    wp (bumpState ctx advance value force) (fun _ t => Returns ctx (OwnStep ctx) s t)
      (FailsIn ctx P s.core) s := by
  unfold bumpState
  simp only [wp_bind, wp_get, wp_ite, wp_pure]
  refine ⟨fun _ => ⟨.refl, hinv, hem, rfl⟩, fun _ => ?_⟩
  refine wp_imp (bumpStateTo_spec hadv hinv hem fun hnone => ?_) (fun _ t ht => ht.1)
  simp [hnone]

theorem abandonBallot_spec (n : Nat) : wp (abandonBallot ctx advance n)
      (fun r t => Returns ctx (OwnStep ctx) s t ∧
        (n ≠ 0 → r = true → Bumped ctx n s.core t.core))
      (FailsIn ctx P s.core) s := by
  unfold abandonBallot
  simp only [wp_bind, wp_get, wp_ite, wp_pure]
  refine ⟨fun _ => ⟨⟨.refl, hinv, hem, rfl⟩, fun _ h => absurd h (by decide)⟩, fun _ =>
    ⟨fun hzero => ?_, fun hne => ?_⟩⟩
  · exact wp_imp (bumpState_spec hadv hinv hem _ true) (fun _ t ht => ⟨ht, fun h => absurd hzero h⟩)
  · exact wp_imp (bumpStateTo_spec hadv hinv hem fun _ => Nat.pos_of_ne_zero hne)
      (fun _ t ht => ⟨ht.1, fun _ => ht.2⟩)

end SpnCore.Scp
