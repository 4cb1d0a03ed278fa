import SpnCore.Scp.RefineAdvance

/-!
# The asserted invariants along every run

Every state between calls satisfies `checkInvariants`, and no call fails in `createStatement` or
`emitCurrentStateStatement`, as long as `setPreparedConfirmed` is not called in one of the two
situations of `Breaks`. Both situations can be reached: `bumpToBallot` drops `h` when the value
changes but leaves `c` set.
-/

namespace SpnCore.Scp

open Lib Relation

/-- A fresh slot satisfies the invariant of the node. -/
theorem init_inv (ctx : Context) : (BallotState.init ctx).core.Inv ctx where
  consistent := consistent_default
  synced := .inl ⟨rfl, FMap.lookup_empty _⟩
  keys := by
    intro v st hst
    exact absurd hst (by simp [BallotState.core, BallotState.init])

theorem init_emissions (ctx : Context) : Emissions ctx (BallotState.init ctx) := by
  constructor <;> simp [BallotState.init]

/-- An error that is not about the state of the ballots: too many nested transitions, a counter
that wraps around, or a ballot incompatible with `c` in the `CONFIRM` phase. -/
def ScpError.isOutside : ScpError → Bool
  | .maxTransitions => true
  | .ballotDecreased => true
  | .incompatibleWithCommit => true
  | _ => false

/-- A call can only fail inside of `emitCurrentStateStatement` after a logged change of
`Breaks`. -/
theorem isOutside_of_failure {ctx : Context} {k : Core} {e : ScpError} (hctx : ctx.QSetSane)
    (hvalid : ∀ v, ctx.validateValue v = .fullyValidatedValue) (hk : k.Inv ctx)
    (hclean : ∀ l u, (l, u) ∈ k.log → ¬ Breaks l u) (h : Failure ctx k e) :
    e.isOutside = true := by
  rcases h with rfl | rfl | rfl | ⟨u, hguard, hlogged, hnot⟩
  · rfl
  · rfl
  · rfl
  · refine absurd (publishable_of_guard hctx hvalid hk hguard fun hbreaks => ?_) hnot
    cases u with
    | preparedConfirmed newC newH => exact hclean _ _ (hlogged rfl) hbreaks
    | preparedAccept | acceptCommit | confirmCommit | bump => exact hbreaks

/-- For every sequence of calls on a fresh slot: the state between calls satisfies
`checkInvariants`, and as long as `setPreparedConfirmed` was not called in a situation of
`Breaks`, no call derefences an unset ballot, fails an assertion of `checkInvariants` or throws
that it moved to a bad state. -/
theorem runCalls_invariants {ctx : Context} (hctx : ctx.QSetSane)
    (hvalid : ∀ v, ctx.validateValue v = .fullyValidatedValue) (calls : List Call) :
    wp (runCalls ctx calls)
      (fun _ t => checkInvariants t.toLocalState = .ok ())
      (fun e t => (∀ l u, (l, u) ∈ t.log → ¬ Breaks l u) → e.isOutside = true)
      (BallotState.init ctx) := by
  refine wp_mono (runCalls_spec calls (init_inv ctx) (init_emissions ctx)) (fun _ t ht => ?_)
    (fun e t ht hclean => ?_)
  · exact checkInvariants_eq_ok.2 (inv_of_steps ht (init_inv ctx)).invariants
  · obtain ⟨k₁, hrun₁, _, k, hrun, hlog, _, hfail⟩ := ht
    have hk := inv_of_steps (hrun₁.trans (steps_of_own hrun)) (init_inv ctx)
    rw [← hlog] at hclean
    exact isOutside_of_failure hctx hvalid hk hclean hfail

section Conflict

/-- A node in a network of three where any two form a quorum. -/
def twoOfThree : Context where
  nodeID := 0
  isValidator := true
  qSet := ⟨2, [0, 1, 2], []⟩
  qSetHash := 7
  getQSet := fun h => if h = 7 then some ⟨2, [0, 1, 2], []⟩ else none
  validateValue := fun _ => .fullyValidatedValue

/-- A `PREPARE` statement of a peer that votes for `ballot` and has accepted `prepared`. -/
def preparing (node : NodeID) (ballot : SCPBallot) (prepared : Option SCPBallot) : SCPStatement :=
  ⟨node, .prepare
    { quorumSetHash := 7
      ballot := ballot
      prepared := prepared
      preparedPrime := none
      nC := 0
      nH := 0 }⟩

/-- The node votes to commit on the value `[1]` and then hears that both peers have accepted a
higher ballot on `[2]`, while they still vote for `[1]`. -/
def conflictingCalls : List Call :=
  [.bumpState [1] true,
    .recvSCPEnvelope (preparing 1 ⟨1, [1]⟩ none),
    .recvSCPEnvelope (preparing 1 ⟨1, [1]⟩ (some ⟨1, [1]⟩)),
    .recvSCPEnvelope (preparing 1 ⟨3, [1]⟩ (some ⟨2, [2]⟩)),
    .recvSCPEnvelope (preparing 2 ⟨3, [1]⟩ (some ⟨2, [2]⟩))]

/-- A peer has accepted a ballot with counter zero. -/
def zeroCalls : List Call :=
  [.recvSCPEnvelope (preparing 1 ⟨1, [1]⟩ (some ⟨0, [1]⟩)),
    .recvSCPEnvelope (preparing 2 ⟨1, [1]⟩ (some ⟨0, [1]⟩))]

/-- How a sequence of calls on a fresh slot fails. -/
def faultOf (ctx : Context) (calls : List Call) : Option ScpError :=
  match runCalls ctx calls (BallotState.init ctx) with
  | .ok _ _ => none
  | .error e _ => some e

set_option maxRecDepth 100000 in
theorem conflict_faults :
    (∀ st, .recvSCPEnvelope st ∈ conflictingCalls ++ zeroCalls →
        st.nodeID ≠ twoOfThree.nodeID ∧ isStatementSane twoOfThree st false = true ∧
          validateValues twoOfThree st = .fullyValidatedValue) ∧
      faultOf twoOfThree conflictingCalls = some .nullBallot ∧
      faultOf twoOfThree zeroCalls = some .invariant := by
  refine ⟨?_, by decide +kernel, by decide +kernel⟩
  intro st hst
  simp only [conflictingCalls, zeroCalls, List.cons_append, List.nil_append, List.mem_cons,
    reduceCtorEq, Call.recvSCPEnvelope.injEq, List.not_mem_nil, false_or, or_false] at hst
  rcases hst with rfl | rfl | rfl | rfl | rfl | rfl <;>
    exact ⟨by decide, by decide +kernel, by decide +kernel⟩

theorem runCalls_invariants_twoOfThree :
    twoOfThree.QSetSane ∧ (∀ v, twoOfThree.validateValue v = .fullyValidatedValue) ∧
      wp (runCalls twoOfThree conflictingCalls.dropLast)
        (fun _ t => checkInvariants t.toLocalState = .ok ())
        (fun e t => (∀ l u, (l, u) ∈ t.log → ¬ Breaks l u) → e.isOutside = true)
        (BallotState.init twoOfThree) := by
  have hctx : twoOfThree.QSetSane := ⟨⟨2, [0, 1, 2], []⟩, rfl, by decide +kernel⟩
  exact ⟨hctx, fun _ => rfl, runCalls_invariants hctx (fun _ => rfl) _⟩

end Conflict

end SpnCore.Scp
