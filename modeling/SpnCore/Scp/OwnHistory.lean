import SpnCore.Scp.Candidates

/-!
# The statements of one node

What holds between the statements a node has made, whatever it was told by others. The current
ballot never decreases in the `PREPARE` phase, and when a node starts to vote for committing,
the lowest ballot it votes for is not below its current ballot. So every earlier `PREPARE`
statement is on the same value or not above that ballot.
-/

namespace SpnCore.Scp

open Lib Relation List

variable {ctx : Context} {k k' : Core}

/-- The statements a node has made, oldest first. -/
def Core.own (ctx : Context) (k : Core) : List SCPStatement :=
  k.history.filter fun st => st.nodeID = ctx.nodeID

variable {st : SCPStatement} {u : Update} {l : LocalState}

theorem mem_own : st ∈ k.own ctx ↔ st ∈ k.history ∧ st.nodeID = ctx.nodeID := by
  simp [Core.own]

theorem own_record_other (h : st.nodeID ≠ ctx.nodeID) : (k.record st).own ctx = k.own ctx := by
  simp [Core.own, Core.record, filter_append, h]

/-- A change adds nothing to the own statements, or the statement about the new state. -/
theorem Act.own_cases (h : Act ctx u k k') :
    k'.own ctx = k.own ctx ∨
      k'.loc.Invariants ∧
        ∃ st, Describes ctx k'.loc st ∧ k'.own ctx = k.own ctx ++ [st] := by
  cases h with
  | enter => exact .inl rfl
  | perform st _ hpublish =>
    have hself := hpublish.nodeID_eq
    have hdesc := createStatement_eq_ok.1 hpublish.1
    rw [publish_loc]
    unfold Core.publish
    split
    · exact .inl rfl
    · refine .inr ⟨hdesc.1, st, hdesc.2, ?_⟩
      simp [Core.own, Core.record, filter_append, hself]

/-- After a change the node's envelopes are those from before, or its own new statement. -/
theorem Act.lookup_cases (h : Act ctx u k k') {w : NodeID} (hst : k'.envs.lookup w = some st) :
    k.envs.lookup w = some st ∨ w = ctx.nodeID ∧ st ∈ k'.own ctx := by
  cases h with
  | enter => exact .inl hst
  | perform st' hguard hpublish =>
    have hself := hpublish.nodeID_eq
    by_cases hsame : k.envs.lookup ctx.nodeID = some st'
    · unfold Core.publish at hst
      rw [if_pos hsame] at hst
      exact .inl hst
    · rw [publish_lookup hself] at hst
      split at hst
      case isTrue hw =>
        obtain rfl := Option.some.inj hst
        refine .inr ⟨hw, mem_own.2 ⟨?_, hself⟩⟩
        simp [Core.publish, if_neg hsame, Core.record]
      case isFalse => exact .inl hst

theorem Step.own_grows (h : Step ctx k k') : k.own ctx <+: k'.own ctx :=
  h.history_grows.filter _

/-! ### Commit votes come after lower ballots -/

/-- The later statement, when it votes for committing, is on the value of the earlier one or
starts at a ballot that is not below it. -/
def CommitAfter (st₁ st₂ : SCPStatement) : Prop :=
  ∀ q₁ q₂, st₁.pledges = .prepare q₁ → st₂.pledges = .prepare q₂ → q₂.nC ≠ 0 →
    q₁.ballot.value = q₂.ballot.value ∨ q₁.ballot ≤ ⟨q₂.nC, q₂.ballot.value⟩

/-- The statement names the quorum set of its node. -/
def NamesQSet (ctx : Context) (st : SCPStatement) : Prop :=
  match st.pledges with
  | .prepare q => q.quorumSetHash = ctx.qSetHash
  | .confirm c => c.quorumSetHash = ctx.qSetHash
  | .externalize _ => True

/-- The order of the own statements, and what the current ballot and `c` say about them. -/
structure Core.Ordered (ctx : Context) (k : Core) : Prop where
  names : ∀ st ∈ k.own ctx, NamesQSet ctx st
  below : k.loc.phase = .prepare → ∀ st ∈ k.own ctx, ∀ q, st.pledges = .prepare q →
    q.ballot ≤ k.loc.currentBallot.getD {}
  commit : k.loc.phase = .prepare → ∀ c, k.loc.commit = some c → ∀ st ∈ k.own ctx, ∀ q,
    st.pledges = .prepare q → q.ballot.value = c.value ∨ q.ballot ≤ c
  pairs : (k.own ctx).Pairwise CommitAfter

theorem Describes.namesQSet (h : Describes ctx l st) : NamesQSet ctx st := by
  cases h with
  | prepare => rfl
  | confirm => rfl
  | externalize => trivial

/-- A `PREPARE` statement about a local state is its pledge. -/
theorem Describes.prepare_inv {q : SCPPrepare} (h : Describes ctx l st)
    (hq : st.pledges = .prepare q) : l.phase = .prepare ∧ q = preparePledge ctx l := by
  cases h with
  | prepare hphase =>
    simp only [SCPPledges.prepare.injEq] at hq
    exact ⟨hphase, hq.symm⟩
  | confirm => cases hq
  | externalize => cases hq

/-- The ballots behind a set `c`. -/
theorem LocalState.Invariants.of_commit (hl : l.Invariants) {c : SCPBallot}
    (hc : l.commit = some c) :
    ∃ h b, l.highBallot = some h ∧ l.currentBallot = some b ∧ c ≤ h ∧ h ≤ b ∧
      c.value = h.value ∧ h.value = b.value := by
  obtain ⟨h, hh, hle, hval⟩ := hl.commit c hc
  obtain ⟨b, hb, hle', hval'⟩ := hl.high h hh
  exact ⟨h, b, hh, hb, hle, hle', hval, hval'⟩

/-- A pledge that votes for committing names `c` and `h`. -/
theorem preparePledge_commit (hl : l.Invariants) (hnC : (preparePledge ctx l).nC ≠ 0) :
    l.commit = some ⟨(preparePledge ctx l).nC, (preparePledge ctx l).ballot.value⟩ ∧
      l.highBallot = some ⟨(preparePledge ctx l).nH, (preparePledge ctx l).ballot.value⟩ := by
  cases hc : l.commit with
  | none => simp [preparePledge, hc] at hnC
  | some c =>
    obtain ⟨h, b, hh, hb, _, _, hch, hhb⟩ := hl.of_commit hc
    have hc' : c = ⟨c.counter, b.value⟩ := by rw [← hhb, ← hch]
    have hh' : h = ⟨h.counter, b.value⟩ := by rw [← hhb]
    simp only [preparePledge, hc, hh, hb, Option.map_some, Option.getD_some]
    exact ⟨congrArg some hc', congrArg some hh'⟩

/-- A change that leaves `c` set keeps it, or sets it not below the current ballot. -/
theorem apply_commit_cases (hguard : Guard ctx k u) {c : SCPBallot}
    (hphase : (u.apply k.loc).phase = .prepare) (hc : (u.apply k.loc).commit = some c) :
    k.loc.commit = some c ∨ k.loc.currentBallot.getD {} ≤ c := by
  cases u with
  | preparedAccept ballot => exact .inl (preparedAccept_commit hc)
  | preparedConfirmed newC newH =>
    obtain ⟨_, _, _, _, hnewC⟩ := hguard
    simp only [Update.apply, raiseTo_commit, LocalState.confirmOn] at hc
    split at hc
    · simp only at hc
      split at hc
      case isTrue hne =>
        obtain rfl := Option.some.inj hc
        exact .inr (hnewC hne).2.2.2
      case isFalse => exact .inl hc
    · exact .inl hc
  | acceptCommit c' h =>
    simp only [Update.apply, raiseTo_phase] at hphase
    split at hphase
    · cases hphase
    case isFalse hne => exact absurd hphase hne
  | confirmCommit c' h => simp [Update.apply] at hphase
  | bump ballot => exact .inl hc

/-- In the `PREPARE` phase the current ballot does not decrease. -/
theorem apply_current_getD_le (hguard : Guard ctx k u) (hphase : (u.apply k.loc).phase = .prepare)
    (hphase₀ : k.loc.phase = .prepare) :
    k.loc.currentBallot.getD {} ≤ (u.apply k.loc).currentBallot.getD {} := by
  cases hb : k.loc.currentBallot with
  | none => exact default_le _
  | some b =>
    obtain ⟨b', hb', hle⟩ := apply_current_le hguard (hphase.trans hphase₀.symm) hb
    simpa [hb'] using hle

theorem Act.prepare_of_prepare (h : Act ctx u k k') (hphase : k'.loc.phase = .prepare) :
    k.loc.phase = .prepare := by
  have hle := h.ahead.phase
  rw [hphase] at hle
  exact SCPPhase.rank_injective (Nat.le_zero.1 hle)

theorem Act.ordered (h : Act ctx u k k') (hk : k.Ordered ctx) : k'.Ordered ctx := by
  have hown := h.own_cases
  have hprepare := h.prepare_of_prepare
  -- what the change does to the statements made before
  have hbelow : k'.loc.phase = .prepare → ∀ st ∈ k.own ctx, ∀ q, st.pledges = .prepare q →
      q.ballot ≤ k'.loc.currentBallot.getD {} := by
    intro hphase st hst q hq
    refine (hk.below (hprepare hphase) st hst q hq).trans ?_
    cases h with
    | enter => exact le_rfl
    | perform st hguard =>
      rw [publish_loc] at hphase ⊢
      exact apply_current_getD_le hguard hphase (hprepare (by rwa [publish_loc]))
  have hcommit : k'.loc.phase = .prepare → ∀ c, k'.loc.commit = some c → ∀ st ∈ k.own ctx, ∀ q,
      st.pledges = .prepare q → q.ballot.value = c.value ∨ q.ballot ≤ c := by
    intro hphase c hc st hst q hq
    have hphase₀ := hprepare hphase
    cases h with
    | enter => exact hk.commit hphase₀ c hc st hst q hq
    | perform st hguard =>
      rw [publish_loc] at hphase hc
      rcases apply_commit_cases hguard hphase hc with hold | hle
      · exact hk.commit hphase₀ c hold _ hst q hq
      · exact .inr ((hk.below hphase₀ _ hst q hq).trans hle)
  rcases hown with hsame | ⟨hinv, st, hdesc, hnew⟩
  · exact
      { names := hsame ▸ hk.names
        below := hsame ▸ hbelow
        commit := hsame ▸ hcommit
        pairs := hsame ▸ hk.pairs }
  · have hmem : ∀ st', st' ∈ k'.own ctx → st' ∈ k.own ctx ∨ st' = st := by
      intro st' hst'
      rw [hnew] at hst'
      exact (mem_append.1 hst').imp_right mem_singleton.1
    constructor
    case names =>
      intro st' hst'
      rcases hmem st' hst' with hold | rfl
      · exact hk.names st' hold
      · exact hdesc.namesQSet
    case below =>
      intro hphase st' hst' q hq
      rcases hmem st' hst' with hold | rfl
      · exact hbelow hphase st' hold q hq
      · rw [(hdesc.prepare_inv hq).2]
        exact le_rfl
    case commit =>
      intro hphase c hc st' hst' q hq
      rcases hmem st' hst' with hold | rfl
      · exact hcommit hphase c hc st' hold q hq
      · obtain ⟨h, b, _, hb, _, _, hch, hhb⟩ := hinv.of_commit hc
        rw [(hdesc.prepare_inv hq).2]
        simp [preparePledge, hb, hch, hhb]
    case pairs =>
      rw [hnew, pairwise_append]
      refine ⟨hk.pairs, pairwise_singleton _ _, fun st₁ hst₁ st₂ hst₂ q₁ q₂ hq₁ hq₂ hnC => ?_⟩
      obtain rfl := mem_singleton.1 hst₂
      obtain ⟨hphase, rfl⟩ := hdesc.prepare_inv hq₂
      exact hcommit hphase _ (preparePledge_commit hinv hnC).1 st₁ hst₁ q₁ hq₁

theorem Core.Ordered.record (hk : k.Ordered ctx) (h : st.nodeID ≠ ctx.nodeID) :
    (k.record st).Ordered ctx := by
  have hsame := own_record_other (k := k) h
  exact
    { names := hsame ▸ hk.names
      below := hsame ▸ hk.below
      commit := hsame ▸ hk.commit
      pairs := hsame ▸ hk.pairs }

end SpnCore.Scp
