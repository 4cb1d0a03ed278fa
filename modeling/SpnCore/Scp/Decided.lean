import SpnCore.Scp.OwnHistory

/-!
# Following a decided ballot

A ballot is decided when a quorum has voted for committing it. This module fixes a ballot and
says what it means for a node to follow it: no incompatible ballot above it is accepted as
prepared, and no other value is accepted for committing. One change of a node keeps this up
when the change itself follows the ballot; that it does is a matter of quorums.
-/

namespace SpnCore.Scp

open Lib Relation List Option

variable {ctx : Context} {k k' : Core} {decided : Option SCPBallot}

/-- Accepting or confirming `x` as prepared does not abort the decided ballot. -/
def Harmless (decided : Option SCPBallot) (x : SCPBallot) : Prop :=
  ∀ b, decided = some b → x.value = b.value ∨ x ≤ b

/-- The value is that of the decided ballot. -/
def Agrees (decided : Option SCPBallot) (v : Value) : Prop :=
  ∃ b, decided = some b ∧ v = b.value

/-- The statement votes for committing `b` from the `PREPARE` phase. -/
def VotesFor (b : SCPBallot) (st : SCPStatement) : Prop :=
  ∃ q, st.pledges = .prepare q ∧ q.nC ≠ 0 ∧ q.nC ≤ b.counter ∧ b.counter ≤ q.nH ∧
    q.ballot.value = b.value

/-- The local state follows the decided ballot. -/
structure LocalState.Follows (decided : Option SCPBallot) (l : LocalState) : Prop where
  prepared : ∀ p, l.prepared = some p → Harmless decided p
  preparedPrime : ∀ p, l.preparedPrime = some p → Harmless decided p
  high : ∀ h, l.highBallot = some h → Harmless decided h
  commit : l.phase ≠ .prepare → ∀ c, l.commit = some c → Agrees decided c.value

/-- The statement follows the decided ballot. -/
def SCPStatement.Follows (decided : Option SCPBallot) (st : SCPStatement) : Prop :=
  match st.pledges with
  | .prepare q =>
    (∀ p, q.prepared = some p → Harmless decided p) ∧
      (∀ p, q.preparedPrime = some p → Harmless decided p) ∧
      (q.nC ≠ 0 → Harmless decided ⟨q.nH, q.ballot.value⟩)
  | .confirm c => Agrees decided c.ballot.value
  | .externalize e => Agrees decided e.commit.value

/-- The change follows the decided ballot. -/
def Update.Follows (decided : Option SCPBallot) : Update → Prop
  | .preparedAccept ballot => Harmless decided ballot
  | .preparedConfirmed _ newH => Harmless decided newH
  | .acceptCommit _ h => Agrees decided h.value
  | .confirmCommit _ _ => True
  | .bump _ => True

/-- After the earlier statement voted for the decided ballot, the later one stays on its
value. -/
def KeepsValue (decided : Option SCPBallot) (st₁ st₂ : SCPStatement) : Prop :=
  ∀ b, decided = some b → VotesFor b st₁ → ∀ q, st₂.pledges = .prepare q → q.ballot.value = b.value

/-- A node that voted for the decided ballot still holds `c`, and `h` covers the ballot. -/
def LocalState.Holds (l : LocalState) (b : SCPBallot) : Prop :=
  ∃ c h, l.commit = some c ∧ l.highBallot = some h ∧ h.value = b.value ∧ b ≤ h

/-- The node follows the decided ballot, and so did all its statements. -/
structure Core.Follows (ctx : Context) (decided : Option SCPBallot) (k : Core) : Prop where
  loc : k.loc.Follows decided
  own : ∀ st ∈ k.own ctx, st.Follows decided
  holds : k.loc.phase = .prepare → ∀ b, decided = some b → (∃ st ∈ k.own ctx, VotesFor b st) →
    k.loc.Holds b
  keeps : (k.own ctx).Pairwise (KeepsValue decided)
  log : ∀ l c h, (l, .confirmCommit c h) ∈ k.log → Agrees decided c.value

variable {l : LocalState} {st : SCPStatement} {b x : SCPBallot} {u : Update}

/-- A statement about a local state that follows the ballot follows it. -/
theorem Describes.follows (h : Describes ctx l st) (hl : l.Invariants)
    (hfollows : l.Follows decided) : st.Follows decided := by
  cases h with
  | prepare hphase =>
    refine ⟨hfollows.prepared, hfollows.preparedPrime, fun hnC => ?_⟩
    exact hfollows.high _ (preparePledge_commit hl hnC).2
  | confirm b p c h hphase hb hp hc hh =>
    have hagrees := hfollows.commit (by simp [hphase]) c hc
    rw [hl.commit_value_eq_current hc hb] at hagrees
    exact hagrees
  | externalize c h hphase hc hh => exact hfollows.commit (by simp [hphase]) c hc

/-- A `PREPARE` statement about a local state that holds the ballot is on its value. -/
theorem LocalState.Holds.current (h : l.Holds b) (hl : l.Invariants) :
    ∃ b₀, l.currentBallot = some b₀ ∧ b₀.value = b.value := by
  obtain ⟨c, h, _, hh, hval, _⟩ := h
  obtain ⟨b₀, hb₀, _, hval₀⟩ := hl.high h hh
  exact ⟨b₀, hb₀, hval₀.symm.trans hval⟩

/-- A statement that votes for the ballot describes a state that holds it. -/
theorem VotesFor.holds (h : VotesFor b st) (hdesc : Describes ctx l st) (hl : l.Invariants) :
    l.Holds b := by
  obtain ⟨q, hq, hnC, _, hle, hval⟩ := h
  obtain ⟨_, rfl⟩ := hdesc.prepare_inv hq
  obtain ⟨hc, hh⟩ := preparePledge_commit hl hnC
  refine ⟨_, _, hc, hh, hval, ?_⟩
  have hval' : b.value = (⟨(preparePledge ctx l).nH, (preparePledge ctx l).ballot.value⟩ :
      SCPBallot).value := hval.symm
  exact (SCPBallot.le_iff_counter hval').2 hle

/-- A harmless ballot that is not below the decided one is on its value. -/
theorem Harmless.value_eq {h : SCPBallot} (hx : Harmless decided x) (hb : decided = some b)
    (hval : h.value = b.value) (hle : b ≤ h) (hhx : h ≤ x) : x.value = h.value := by
  rcases hx b hb with heq | hxb
  · exact heq.trans hval.symm
  · have : x = h := le_antisymm (hxb.trans hle) hhx
    rw [this]

theorem Agrees.harmless (h : Agrees decided x.value) : Harmless decided x := by
  obtain ⟨b, hb, hval⟩ := h
  intro b' hb'
  obtain rfl : b = b' := mem_unique hb hb'
  exact .inl hval

theorem Harmless.of_le {y : SCPBallot} (hy : Harmless decided y) (hle : x ≤ y)
    (hval : x.value = y.value) : Harmless decided x := fun b hb =>
  (hy b hb).imp hval.trans hle.trans

/-- What a following statement accepts as prepared is harmless. -/
theorem SCPStatement.Follows.harmless_of_prepared (h : st.Follows decided)
    (hx : hasPreparedBallot x st = true) : Harmless decided x := by
  unfold SCPStatement.Follows at h
  cases hp : st.pledges with
  | prepare q =>
    simp only [hp] at h
    simp only [hasPreparedBallot, hp, Bool.or_eq_true, any_eq_true_iff_get,
      areBallotsLessAndCompatible_iff] at hx
    rcases hx with ⟨hsome, hle, hval⟩ | ⟨hsome, hle, hval⟩
    · exact (h.1 _ (some_get hsome).symm).of_le hle hval
    · exact (h.2.1 _ (some_get hsome).symm).of_le hle hval
  | confirm c =>
    simp only [hp] at h
    simp only [hasPreparedBallot, hp, areBallotsLessAndCompatible_iff] at hx
    exact Agrees.harmless (by rwa [hx.2])
  | externalize e =>
    simp only [hp] at h
    simp only [hasPreparedBallot, hp, areBallotsCompatible_iff] at hx
    exact Agrees.harmless (by rwa [hx])

/-- What a following statement votes to prepare is harmless, or it is a vote of the `PREPARE`
phase. -/
theorem SCPStatement.Follows.harmless_of_votes (h : st.Follows decided)
    (hx : votesPreparedBallot x st = true) :
    Harmless decided x ∨
      ∃ q, st.pledges = .prepare q ∧ x ≤ q.ballot ∧ x.value = q.ballot.value := by
  unfold SCPStatement.Follows at h
  cases hp : st.pledges with
  | prepare q =>
    simp only [votesPreparedBallot, hp, areBallotsLessAndCompatible_iff] at hx
    exact .inr ⟨q, rfl, hx⟩
  | confirm c =>
    simp only [hp] at h
    simp only [votesPreparedBallot, hp, areBallotsCompatible_iff] at hx
    exact .inl (Agrees.harmless (by rwa [hx]))
  | externalize e =>
    simp only [hp] at h
    simp only [votesPreparedBallot, hp, areBallotsCompatible_iff] at hx
    exact .inl (Agrees.harmless (by rwa [hx]))

/-- A following statement that votes for a commit is on the decided value, or it is a vote of
the `PREPARE` phase for all ballots of the interval. -/
theorem SCPStatement.Follows.agrees_of_commit {cur : Interval} (h : st.Follows decided)
    (hx : (commitPredicate x cur st || votesCommit x cur st) = true) (hcur : cur.1 ≤ cur.2) :
    Agrees decided x.value ∨
      VotesFor ⟨cur.1, x.value⟩ st ∧
        ∃ n, cur.1 ≤ n ∧ Harmless decided ⟨n, x.value⟩ := by
  unfold SCPStatement.Follows at h
  cases hp : st.pledges with
  | prepare q =>
    simp only [hp] at h
    simp only [commitPredicate, votesCommit, hp, Bool.false_or, Bool.and_eq_true,
      areBallotsCompatible_iff, decide_eq_true_eq] at hx
    obtain ⟨hval, hne, hlo, hhi⟩ := hx
    refine .inr ⟨⟨q, hp, hne, hlo, hcur.trans hhi, hval.symm⟩, q.nH, hcur.trans hhi, ?_⟩
    rw [hval]
    exact h.2.2 hne
  | confirm c =>
    simp only [hp] at h
    simp only [commitPredicate, votesCommit, hp, Bool.or_eq_true, Bool.and_eq_true,
      areBallotsCompatible_iff] at hx
    have hval : x.value = c.ballot.value := by tauto
    exact .inl (by rwa [hval])
  | externalize e =>
    simp only [hp] at h
    simp only [commitPredicate, votesCommit, hp, Bool.or_self, Bool.and_eq_true,
      areBallotsCompatible_iff] at hx
    exact .inl (by rwa [hx.1])

/-! ### One change -/

/-- A change that follows the decided ballot leaves a local state that follows it. -/
theorem apply_follows (hguard : Guard ctx k u) (hk : k.loc.Follows decided)
    (hu : u.Follows decided) : (u.apply k.loc).Follows decided := by
  cases u with
  | preparedAccept ballot =>
    obtain ⟨_, _, hprime, hcovered, _⟩ := hguard
    have hcases := preparedAccept_cases hprime hcovered
    constructor
    case prepared =>
      intro p hp
      rcases hcases with ⟨hp', _⟩ | ⟨p', hold, _, _, hp', _⟩
      · exact mem_unique hp' hp ▸ hu
      · exact hk.prepared p (hold.trans (hp'.symm.trans hp))
    case preparedPrime =>
      intro p hp
      rcases hcases with ⟨_, ⟨_, hsame⟩ | ⟨p', hold, _, ⟨_, hsame⟩ | ⟨_, hsame⟩⟩⟩ |
        ⟨_, _, _, _, _, hsame⟩
      · exact hk.preparedPrime p (hsame.symm.trans hp)
      · exact hk.preparedPrime p (hsame.symm.trans hp)
      · exact hk.prepared p (hold.trans (hsame.symm.trans hp))
      · exact mem_unique hsame hp ▸ hu
    case high =>
      rw [preparedAccept_highBallot]
      exact hk.high
    case commit =>
      rw [preparedAccept_phase]
      exact fun hphase c hc => hk.commit hphase c (preparedAccept_commit hc)
  | preparedConfirmed newC newH =>
    have hphase := hguard.1
    constructor
    case prepared => simpa [Update.apply] using hk.prepared
    case preparedPrime => simpa [Update.apply] using hk.preparedPrime
    case high =>
      intro h hh
      have hh := raiseTo_highBallot hh
      unfold LocalState.confirmOn at hh
      split at hh
      · split at hh
        · exact some.inj hh ▸ hu
        · exact hk.high h hh
      · exact hk.high h hh
    case commit => simp [Update.apply, hphase]
  | acceptCommit c h =>
    have hval : c.value = h.value := hguard.2.2.1
    constructor
    case prepared =>
      simp only [Update.apply, raiseTo_prepared]
      split
      · split <;> exact hk.prepared
      · exact hk.prepared
    case preparedPrime =>
      simp only [Update.apply, raiseTo_preparedPrime]
      split
      · simp
      · exact hk.preparedPrime
    case high =>
      intro h' hh'
      have hh' := raiseTo_highBallot hh'
      have heq : h = h' := by
        split at hh'
        · split at hh'
          · have hboth : h = h' ∧ h.value = h'.value := by simpa [LocalState.bumpTo] using hh'
            exact hboth.1
          · exact some.inj hh'
        · exact some.inj hh'
      exact heq ▸ hu.harmless
    case commit =>
      intro _ c' hc'
      simp only [Update.apply, raiseTo_commit] at hc'
      have heq : c = c' := by
        split at hc'
        · split at hc' <;> exact some.inj hc'
        · exact some.inj hc'
      rw [← heq, hval]
      exact hu
  | confirmCommit c h =>
    obtain ⟨hphase, hval, _, _, ⟨c₀, hc₀, hval₀⟩, _⟩ := hguard
    have hagrees : Agrees decided c.value := hval₀ ▸ hk.commit (by simp [hphase]) c₀ hc₀
    constructor
    case prepared => simpa [Update.apply] using hk.prepared
    case preparedPrime => simpa [Update.apply] using hk.preparedPrime
    case high =>
      intro h' hh'
      obtain rfl : h = h' := some.inj (raiseTo_highBallot hh')
      exact Agrees.harmless (hval ▸ hagrees)
    case commit =>
      intro _ c' hc'
      simp only [Update.apply, raiseTo_commit, some.injEq] at hc'
      exact hc' ▸ hagrees
  | bump ballot =>
    exact
      { hk with
        high := fun h hh => hk.high h (bumpTo_highBallot.1 hh).1 }

/-- A node that holds the decided ballot keeps holding it as long as it is in the `PREPARE`
phase. -/
theorem LocalState.Holds.apply (h : k.loc.Holds b) (hguard : Guard ctx k u)
    (hl : k.loc.Invariants) (hk : k.loc.Follows decided) (hu : u.Follows decided)
    (hb : decided = some b) (hphase : (u.apply k.loc).phase = .prepare) :
    (u.apply k.loc).Holds b := by
  have hfollows := apply_follows hguard hk hu
  obtain ⟨c, h, hc, hh, hval, hle⟩ := h
  obtain ⟨_, b₀, hh', hb₀, _, _, hch, hhb⟩ := hl.of_commit hc
  obtain rfl : h = _ := mem_unique hh hh'
  cases u with
  | preparedAccept ballot =>
    -- c would only be cleared for an incompatible ballot above h
    have habort : ¬ (setPrepared k.loc ballot).1.abortsCommit = true := by
      intro habort
      have hframe := setPrepared_frame k.loc ballot
      have hharmless : ∀ p, ((setPrepared k.loc ballot).1.prepared = some p ∨
          (setPrepared k.loc ballot).1.preparedPrime = some p) → Harmless decided p := by
        intro p hp
        rcases hp with hp | hp
        · refine hfollows.prepared p ?_
          simp only [Update.apply]
          split <;> exact hp
        · refine hfollows.preparedPrime p ?_
          simp only [Update.apply]
          split <;> exact hp
      have hnot : ∀ p, Harmless decided p → areBallotsLessAndIncompatible h p ≠ true := by
        intro p hp hless
        obtain ⟨hhp, hne⟩ := areBallotsLessAndIncompatible_iff.1 hless
        exact hne (hp.value_eq hb hval hle hhp).symm
      rw [LocalState.abortsCommit, hframe.2.2.2, hframe.2.2.1, hc, hh] at habort
      simp only [Bool.or_eq_true, any_eq_true_iff_get] at habort
      rcases habort with ⟨hsome, hless⟩ | ⟨hsome, hless⟩
      · exact hnot _ (hharmless _ (.inl (some_get hsome).symm)) hless
      · exact hnot _ (hharmless _ (.inr (some_get hsome).symm)) hless
    refine ⟨c, h, ?_, ?_, hval, hle⟩
    · simp only [Update.apply, if_neg habort]
      rw [(setPrepared_frame k.loc ballot).2.2.2, hc]
    · rw [preparedAccept_highBallot, hh]
  | preparedConfirmed newC newH =>
    obtain ⟨_, _, hhigh, _, hnewC⟩ := hguard
    have hlt := hhigh h hh
    have hnew : newH.value = h.value := Harmless.value_eq hu hb hval hle hlt.le
    have hzero : ¬ newC.counter ≠ 0 := fun hne => by simp [(hnewC hne).1] at hc
    have hcur : ∀ b', k.loc.currentBallot = some b' → b'.value = newH.value := by
      intro b' hb'
      obtain rfl : b₀ = b' := mem_unique hb₀ hb'
      rw [hnew, hhb]
    have hconfirm := confirmOn_of_compatible newC hcur hhigh
    have hraise := (Invariants.raiseTo_high (l := k.loc.confirmOn newC newH) (h := newH)
      (by rw [hconfirm]) (by rw [confirmOn_currentBallot]; exact hcur)).1
    refine ⟨c, newH, ?_, hraise, hnew.trans hval, hle.trans hlt.le⟩
    simp only [Update.apply, raiseTo_commit, hconfirm, if_neg hzero, hc]
  | acceptCommit c' h' =>
    simp only [Update.apply, raiseTo_phase] at hphase
    split at hphase
    · cases hphase
    case isFalse hne => exact absurd hphase hne
  | confirmCommit c' h' => simp [Update.apply] at hphase
  | bump ballot =>
    refine ⟨c, h, hc, bumpTo_highBallot.2 ⟨hh, ?_⟩, hval, hle⟩
    rw [← hguard.2.2.2 c hc, hch]

/-- Only a commit on the decided value is confirmed. -/
theorem Guard.confirm_agrees {c h : SCPBallot} (hguard : Guard ctx k (.confirmCommit c h))
    (hk : k.loc.Follows decided) : Agrees decided c.value := by
  obtain ⟨hphase, _, _, _, ⟨c₀, hc₀, hval₀⟩, _⟩ := hguard
  exact hval₀ ▸ hk.commit (by simp [hphase]) c₀ hc₀

/-- A change that follows the decided ballot leaves a node that follows it. -/
theorem Act.follows (h : Act ctx u k k') (hinv : k.Inv ctx) (hk : k.Follows ctx decided)
    (hu : u.Follows decided) : k'.Follows ctx decided := by
  have hown := h.own_cases
  cases h with
  | enter hguard =>
    refine ⟨hk.loc, hk.own, hk.holds, hk.keeps, fun l c ch hmem => ?_⟩
    rcases mem_append.1 hmem with hold | hnew
    · exact hk.log l c ch hold
    · obtain ⟨_, rfl⟩ := Prod.mk.inj (mem_singleton.1 hnew)
      exact hguard.confirm_agrees hk.loc
  | perform st hguard hpublish =>
    have hloc := apply_follows hguard hk.loc hu
    have hl' := (createStatement_eq_ok.1 hpublish.1).1
    have hlog := publish_log ctx k (u.apply k.loc) st
    have hprepare := (Act.perform st hguard hpublish).prepare_of_prepare
    rw [publish_loc] at hown hprepare
    -- a ballot held before is held after
    have hheld : (u.apply k.loc).phase = .prepare → ∀ b, decided = some b →
        (∃ st ∈ k.own ctx, VotesFor b st) → (u.apply k.loc).Holds b := by
      intro hphase b hb hvoted
      exact (hk.holds (hprepare hphase) b hb hvoted).apply hguard hinv.invariants hk.loc hu hb
        hphase
    rcases hown with hsame | ⟨_, st', hdesc, hnew⟩
    · constructor
      case loc => rwa [publish_loc]
      case own => exact hsame ▸ hk.own
      case holds => rw [publish_loc, hsame]; exact hheld
      case keeps => exact hsame ▸ hk.keeps
      case log => rw [hlog]; exact hk.log
    · constructor
      case loc => rwa [publish_loc]
      case own =>
        intro st₁ hst₁
        rw [hnew] at hst₁
        rcases mem_append.1 hst₁ with hold | hst₁
        · exact hk.own st₁ hold
        · obtain rfl := mem_singleton.1 hst₁
          exact hdesc.follows hl' hloc
      case holds =>
        rw [publish_loc, hnew]
        rintro hphase b hb ⟨st₁, hst₁, hvotes⟩
        rcases mem_append.1 hst₁ with hold | hst₁
        · exact hheld hphase b hb ⟨st₁, hold, hvotes⟩
        · obtain rfl := mem_singleton.1 hst₁
          exact hvotes.holds hdesc hl'
      case keeps =>
        rw [hnew, pairwise_append]
        refine ⟨hk.keeps, pairwise_singleton _ _, ?_⟩
        intro st₁ hst₁ st₂ hst₂ b hb hvotes q hq
        obtain rfl := mem_singleton.1 hst₂
        obtain ⟨hphase, rfl⟩ := hdesc.prepare_inv hq
        obtain ⟨b₀, hb₀, hval⟩ := (hheld hphase b hb ⟨st₁, hst₁, hvotes⟩).current hl'
        simp [preparePledge, hb₀, hval]
      case log => rw [hlog]; exact hk.log

theorem Core.Follows.record (hk : k.Follows ctx decided) (h : st.nodeID ≠ ctx.nodeID) :
    (k.record st).Follows ctx decided := by
  have hsame := own_record_other (k := k) h
  exact
    { hk with
      own := hsame ▸ hk.own
      holds := hsame ▸ hk.holds
      keeps := hsame ▸ hk.keeps }

end SpnCore.Scp
