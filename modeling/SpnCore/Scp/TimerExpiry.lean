import SpnCore.Scp.Searches

/-!
# Expiry of the ballot timer

When the ballot timer expires, the node moves to the next counter. The counter is a 32-bit one: at
the largest counter the next one is zero, and the assertion of `updateCurrentValue` that the ballot
does not decrease fails. Peers that have externalized bring the node to the largest counter. At
every other counter the assertion holds, also in all that follows the move.
-/

namespace SpnCore.Scp

open Lib

/-- The assertions on the order of ballots do not fail. -/
abbrev Ascends {α : Type} (x : SlotM α) : Prop := Avoids ScpError.ballotDecreased x

theorem checkInvariants_orderly (l : LocalState) : Orderly (checkInvariants l) :=
  raises_checkInvariants (by decide) (by decide) l

/-! ### Methods -/

section Methods

variable {ctx : Context} {advance : SCPStatement → SlotM Unit} {s : BallotState}

theorem ascends_sendLatestEnvelope : Ascends sendLatestEnvelope := by
  refine avoids_bind avoids_get fun s => ?_
  split
  · exact avoids_ite (avoids_bind avoids_set fun _ => avoids_modify) avoids_pure
  · exact avoids_pure

theorem ascends_checkHeardFromQuorum : Ascends (checkHeardFromQuorum ctx) :=
  fun _ => checkHeardFromQuorum_rule fun _ _ _ => trivial

/-- Moving to a ballot that is not below the current one. -/
theorem bumpToBallot_ascends {ballot : SCPBallot} {check : Bool}
    (h : check = true → ∀ b, s.currentBallot = some b → b ≤ ballot) :
    wp (bumpToBallot ballot check) (fun _ _ => True) (fun e _ => e ≠ .ballotDecreased) s := by
  refine bumpToBallot_rule (fun _ _ _ => trivial) (fun _ => by decide) fun b hcheck hb hlt => ?_
  exact absurd hlt (not_lt.2 (h hcheck b hb))

/-- The current ballot only moves up to `h`. -/
theorem ascends_updateCurrentIfNeeded (h : SCPBallot) : Ascends (updateCurrentIfNeeded h) := by
  intro s
  refine wp_get_bind.2 (wp_ite.2 ⟨fun hlt => ?_, fun _ => avoids_pure s⟩)
  refine wp_bind_avoids (bumpToBallot_ascends fun _ b hb => ?_) fun _ => avoids_pure
  rw [hb] at hlt
  exact (compare_lt_iff_lt.1 ((compareBallots_eq b h).symm.trans (of_decide_eq_true hlt))).le

theorem ascends_moveToConfirm (h : SCPBallot) : Ascends (moveToConfirm h) := by
  refine avoids_bind avoids_modify fun _ => avoids_bind avoids_get fun s => ?_
  refine avoids_bind (avoids_onlyIf fun t => ?_) fun _ => avoids_modify
  exact bumpToBallot_ascends fun hcheck => by cases hcheck

/-- Moving up to a ballot. -/
theorem updateCurrentValue_ascends {ballot : SCPBallot}
    (h : ∀ b, s.currentBallot = some b → b ≤ ballot) :
    wp (updateCurrentValue ballot) (fun _ _ => True) (fun e _ => e ≠ .ballotDecreased) s := by
  refine updateCurrentValue_rule trivial (fun _ _ => ?_)
    (fun b hb hlt => absurd hlt (not_lt.2 (h b hb))) (checkInvariants_orderly _)
  exact wp_imp (bumpToBallot_ascends fun _ => h)
    fun _ t _ => ⟨fun _ => trivial, checkInvariants_orderly _⟩

section

variable (hadvance : ∀ st, Ascends (advance st))
include hadvance

theorem ascends_processEnvelope (st : SCPStatement) (self : Bool) :
    Ascends (processEnvelope ctx advance st self) := by
  exact fun s => processEnvelope_rule (fun _ => trivial) (fun _ _ _ => hadvance st _)
    (fun _ _ _ _ => ⟨fun _ => trivial, fun _ => trivial⟩) fun _ _ _ => by decide

theorem ascends_emitCurrentStateStatement : Ascends (emitCurrentStateStatement ctx advance) := by
  refine avoids_bind avoids_get fun s => ?_
  have hcreate : Orderly (createStatement ctx s.toLocalState) :=
    raises_createStatement (by decide) (by decide) _
  refine avoids_bind (avoids_runExcept hcreate) fun st => avoids_ite avoids_pure ?_
  refine avoids_bind (ascends_processEnvelope hadvance st true) fun res => ?_
  refine avoids_ite (avoids_bind avoids_get fun s' => ?_) (avoids_throw (by decide))
  exact avoids_ite (avoids_bind avoids_set fun _ => ascends_sendLatestEnvelope) avoids_pure

theorem ascends_setPreparedAccept (ballot : SCPBallot) :
    Ascends (setPreparedAccept ctx advance ballot) := by
  refine avoids_bind avoids_modify fun _ => avoids_bind avoids_get fun s => ?_
  refine avoids_bind avoids_modify fun _ => ?_
  extract_lets finish
  have hfinish : ∀ didWork, Ascends (finish didWork) := fun didWork =>
    avoids_ite (avoids_bind avoids_modify fun _ =>
      avoids_bind (ascends_emitCurrentStateStatement hadvance) fun _ => avoids_pure)
      avoids_pure
  refine avoids_ite (avoids_bind (avoids_ensure (by decide)) fun _ => ?_) (hfinish _)
  exact avoids_bind avoids_modify fun _ => hfinish true

theorem ascends_setPreparedConfirmed (newC newH : SCPBallot) :
    Ascends (setPreparedConfirmed ctx advance newC newH) := by
  refine avoids_bind avoids_modify fun _ => avoids_bind avoids_get fun s => ?_
  refine avoids_bind avoids_set fun _ => ?_
  extract_lets finish raise didWork worked told commit
  have hfinish : ∀ didWork, Ascends (finish didWork) := fun didWork =>
    avoids_bind (ascends_updateCurrentIfNeeded newH) fun bumped =>
      avoids_ite (avoids_bind (ascends_emitCurrentStateStatement hadvance) fun _ => avoids_pure)
        avoids_pure
  refine avoids_ite ?_ (hfinish false)
  have htold : Ascends (told ()) :=
    avoids_ite (avoids_bind avoids_modify fun _ => hfinish didWork) (hfinish didWork)
  have hcommit : Ascends (commit ()) :=
    avoids_ite (avoids_bind (avoids_ensure (by decide)) fun _ =>
      avoids_bind avoids_modify fun _ => htold) htold
  exact avoids_ite (avoids_bind avoids_modify fun _ => hcommit) hcommit

theorem ascends_setAcceptCommit (c h : SCPBallot) :
    Ascends (setAcceptCommit ctx advance c h) := by
  refine avoids_bind avoids_modify fun _ => avoids_bind avoids_get fun s => ?_
  refine avoids_bind avoids_set fun _ => avoids_bind (avoids_onlyIf avoids_modify) fun _ => ?_
  refine avoids_bind (avoids_onlyIf (ascends_moveToConfirm h)) fun _ => ?_
  refine avoids_bind (avoids_onlyIf ?_) fun _ => avoids_pure
  refine avoids_bind avoids_get fun t => avoids_bind (avoids_runExcept (by simp)) fun high => ?_
  refine avoids_bind (ascends_updateCurrentIfNeeded high) fun _ => ?_
  exact avoids_bind avoids_modify fun _ => ascends_emitCurrentStateStatement hadvance

theorem ascends_setConfirmCommit (c h : SCPBallot) :
    Ascends (setConfirmCommit ctx advance c h) := by
  refine avoids_bind avoids_modify fun _ => avoids_bind avoids_get fun s => ?_
  refine avoids_bind avoids_modify fun _ => ?_
  refine avoids_bind (ascends_updateCurrentIfNeeded h) fun _ => ?_
  refine avoids_bind avoids_modify fun _ => ?_
  refine avoids_bind (ascends_emitCurrentStateStatement hadvance) fun _ => ?_
  refine avoids_bind avoids_modify fun _ => avoids_bind avoids_get fun t => ?_
  refine avoids_bind (avoids_runExcept (by simp)) fun _ => ?_
  exact avoids_bind avoids_modify fun _ => avoids_pure

/-- A bump to a higher counter. -/
theorem bumpStateTo_ascends {value : Value} {n : Nat} (hn : s.toLocalState.counter < n) :
    wp (bumpStateTo ctx advance value n) (fun _ _ => True) (fun e _ => e ≠ .ballotDecreased) s := by
  refine wp_get_bind.2 (wp_ite.2 ⟨fun _ => avoids_pure s, fun _ => ?_⟩)
  refine wp_bind_avoids (updateCurrentValue_ascends fun b hb => ?_) fun updated => ?_
  · simp only [LocalState.counter, hb, Option.map_some, Option.getD_some] at hn
    exact (SCPBallot.lt_iff.2 (Or.inl hn)).le
  · refine avoids_ite ?_ avoids_pure
    refine avoids_bind (ascends_emitCurrentStateStatement hadvance) fun _ => ?_
    exact avoids_bind ascends_checkHeardFromQuorum fun _ => avoids_pure

end

/-- Whatever a statement leads to, the current ballot only moves up. -/
theorem ascends_advanceSlot (ctx : Context) (fuel : Nat) (hint : SCPStatement) :
    Ascends (advanceSlot ctx fuel hint) := by
  refine fun s => advanceSlot_keeps ctx (I := fun _ => True) (fun advance h => ?_)
    (fun _ _ _ => trivial) (fun s _ => ascends_sendLatestEnvelope s) (fun _ _ => by decide)
    fuel hint s trivial
  have hadvance : ∀ st, Ascends (advance st) := fun st s => h st s trivial
  exact
    { preparedAccept := fun ballot s _ _ => ascends_setPreparedAccept hadvance ballot s
      preparedConfirmed := fun c h s _ _ => ascends_setPreparedConfirmed hadvance c h s
      acceptCommit := fun c h s _ _ => ascends_setAcceptCommit hadvance c h s
      confirmCommit := fun c h s _ _ => ascends_setConfirmCommit hadvance c h s
      bump := fun _ _ _ _ hn => bumpStateTo_ascends hadvance hn
      heard := fun s _ => ascends_checkHeardFromQuorum s
      error := fun _ _ _ he => he }

end Methods

/-! ### The timer -/

section Timer

/-- At the largest counter the increment wraps around to zero. -/
theorem bumpState_decreases {ctx : Context} {advance : SCPStatement → SlotM Unit}
    {s : BallotState} {value : Value} (hphase : s.phase ≠ .externalize)
    (hmax : s.toLocalState.counter = UINT32_MAX) :
    wp (bumpState ctx advance value true) (fun _ _ => False)
      (fun e _ => e = .ballotDecreased) s := by
  obtain ⟨b, hb⟩ : ∃ b, s.currentBallot = some b := by
    refine Option.ne_none_iff_exists'.1 fun hnone => ?_
    simp [LocalState.counter, hnone, UINT32_MAX] at hmax
  have hcounter : b.counter = UINT32_MAX := by
    simpa only [LocalState.counter, hb, Option.map_some, Option.getD_some] using hmax
  have hgreater : compareBallots b ⟨0, s.valueOverride.getD value⟩ = .gt := by
    rw [compareBallots_eq, compare_gt_iff_gt, SCPBallot.lt_iff]
    exact Or.inl (hcounter ▸ Nat.zero_lt_succ _)
  refine wp_get_bind.2 (wp_ite.2 ⟨fun hnot => absurd hnot (by simp), fun _ => ?_⟩)
  rw [hb, Option.map_some, Option.getD_some, hcounter]
  refine wp_get_bind.2 (wp_ite.2 ⟨fun hext => absurd hext hphase, fun _ => wp_bind.2 ?_⟩)
  refine wp_get_bind.2 (wp_ite.2 ⟨fun hext => absurd hext hphase, fun _ => ?_⟩)
  rw [hb]
  refine wp_bind.2 (wp_check.2 ⟨fun hnot => absurd hgreater hnot, fun _ => rfl⟩)

/-- When the timer expires, the current ballot does not move down, neither in the move itself nor in
what follows from it, unless a value is voted for at the largest counter. -/
theorem timer_expiry_ascends (ctx : Context) (s : BallotState)
    (hfit : s.toLocalState.counter ≤ UINT32_MAX) :
    (∀ t, Call.abandonBallot.run ctx s ≠ .error .ballotDecreased t) ↔
      (s.phase = .externalize ∨ s.toLocalState.counter < UINT32_MAX ∨ pickedValue s = []) := by
  have hadvance := ascends_advanceSlot ctx maxAdvanceSlotRecursion
  constructor
  · intro hascends
    by_contra hnot
    obtain ⟨hphase, hcounter, hvalue⟩ := not_or.1 hnot |>.imp_right not_or.1
    have hmax : s.toLocalState.counter = UINT32_MAX := le_antisymm hfit (not_lt.1 hcounter)
    have hrun : wp (Call.abandonBallot.run ctx) (fun _ _ => False)
        (fun e _ => e = .ballotDecreased) s := by
      refine wp_bind.2 (wp_get_bind.2 (wp_ite.2 ⟨fun hempty => absurd hempty hvalue, fun _ => ?_⟩))
      refine wp_ite.2 ⟨fun _ => ?_, fun hnot => absurd rfl hnot⟩
      exact wp_imp (bumpState_decreases hphase hmax) fun _ _ hfalse => hfalse.elim
    cases hx : Call.abandonBallot.run ctx s with
    | ok _ t => exact wp_ok hrun hx
    | error e t => exact hascends t (hx.trans (by rw [wp_error hrun hx]))
  · intro hcondition t hfails
    have hrun : wp (Call.abandonBallot.run ctx) (fun _ _ => True)
        (fun e _ => e ≠ .ballotDecreased) s := by
      refine wp_bind_avoids ?_ fun _ => avoids_pure
      refine wp_get_bind.2 (wp_ite.2 ⟨fun _ => avoids_pure s, fun hvalue => ?_⟩)
      refine wp_ite.2 ⟨fun _ => ?_, fun hnonzero => absurd rfl hnonzero⟩
      refine wp_get_bind.2 (wp_ite.2 ⟨fun _ => avoids_pure s, fun _ => ?_⟩)
      rcases hcondition with hphase | hcounter | hempty
      · exact wp_get_bind.2 (wp_ite.2 ⟨fun _ => avoids_pure s, fun hnot => absurd hphase hnot⟩)
      · refine bumpStateTo_ascends hadvance ?_
        -- the increment does not wrap around
        cases hb : s.currentBallot with
        | none =>
          simp [LocalState.counter, hb]
        | some b =>
          simp only [LocalState.counter, hb, Option.map_some, Option.getD_some, UINT32_MAX]
            at hcounter ⊢
          omega
      · exact absurd hempty hvalue
    exact wp_error hrun hfails rfl

theorem timer_expiry_ascends_overtaken :
    overtaken.toLocalState.counter < UINT32_MAX ∧
      ∀ t, Call.abandonBallot.run threeOfFour overtaken ≠ .error .ballotDecreased t := by
  have hcounter : overtaken.toLocalState.counter < UINT32_MAX := by decide
  exact ⟨hcounter, (timer_expiry_ascends threeOfFour overtaken hcounter.le).2
    (Or.inr (Or.inl hcounter))⟩

/-- Two peers have externalized different values, and the local node is on a third one. -/
def splitCalls : List Call :=
  [.bumpState [3] true,
    .recvSCPEnvelope ⟨1, .externalize ⟨⟨1, [1]⟩, 1, 7⟩⟩,
    .recvSCPEnvelope ⟨2, .externalize ⟨⟨1, [2]⟩, 1, 7⟩⟩]

/-- The last thing that was done with the ballot timer. -/
def lastTimerCall (s : BallotState) : Option DriverCall :=
  s.driverCalls.findRev? fun
    | .setupTimer _ => true
    | .stopTimer => true
    | _ => false

set_option maxRecDepth 100000 in
/-- The peers bring the node to the largest counter, where a quorum has arrived and the timer runs.
When it expires, the current ballot would move down to counter zero. -/
theorem timer_expiry_decreases :
    (stateAfter threeOfFour splitCalls).map
        (fun s => (s.phase, s.toLocalState.counter, lastTimerCall s)) =
      some (.prepare, UINT32_MAX, some (.setupTimer UINT32_MAX)) ∧
    faultOf threeOfFour (splitCalls ++ [.abandonBallot]) = some .ballotDecreased := by
  decide +kernel

end Timer

end SpnCore.Scp
