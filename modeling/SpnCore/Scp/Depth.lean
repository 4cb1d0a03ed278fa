import SpnCore.Scp.Finality
import SpnCore.Scp.Ranking

/-!
# The recursion of `advanceSlot` is bounded

Every nested `advanceSlot` works on a statement the node has just published, and the changes it
makes leave fewer moves. So the levels never reach `maxAdvanceSlotRecursion`, for any statements
of any number of peers.
-/

namespace SpnCore.Scp

open Lib Relation

variable {ctx : Context} {advance : SCPStatement → SlotM Unit} {s t : BallotState} {k k' r : Core}
  {st st' hint : SCPStatement} {x : SCPBallot} {R : Core → Core → Prop}

/-- What a nested `advanceSlot` on the statement about `k` leaves in `r`. -/
structure Rested (ctx : Context) (k r : Core) : Prop where
  raised : r.loc.phase = .prepare → RaiseDone ctx r
  accepted : r.loc.phase = .prepare → RaiseDone ctx k → AcceptDone ctx k → AcceptDone ctx r
  prepared : r.loc.phase = .prepare → ∀ p, k.loc.prepared = some p → r.current < p →
    r.loc.prepared = some p
  committed : k.loc.phase = .confirm → r.loc.phase = .confirm →
    (AcceptDone ctx k → AcceptDone ctx r) ∧ (CommitDone ctx k → CommitDone ctx r)

theorem phase_prepare_of_ahead (h : Ahead ctx k r) (hphase : r.loc.phase = .prepare) :
    k.loc.phase = .prepare := by
  have hle := h.phase
  rw [hphase] at hle
  exact SCPPhase.rank_injective (Nat.le_zero.1 hle)

/-- In the `PREPARE` phase the current ballot does not decrease. -/
theorem current_le_of_ahead (h : Ahead ctx k r) (hphase : r.loc.phase = .prepare) :
    k.current ≤ r.current := by
  cases hb : k.loc.currentBallot with
  | none =>
    rw [Core.current, hb]
    exact default_le _
  | some b =>
    obtain ⟨b', hb', hle⟩ :=
      h.current (hphase.trans (phase_prepare_of_ahead h hphase).symm) b hb
    rw [Core.current, Core.current, hb, hb']
    exact hle

theorem Rested.trans {k₁ k₂ k₃ : Core} (h₁ : Rested ctx k₁ k₂) (h₂ : Rested ctx k₂ k₃)
    (hahead₁ : Ahead ctx k₁ k₂) (hahead₂ : Ahead ctx k₂ k₃) : Rested ctx k₁ k₃ where
  raised := h₂.raised
  accepted := by
    intro hphase hraise haccept
    have hphase₂ := phase_prepare_of_ahead hahead₂ hphase
    exact h₂.accepted hphase (h₁.raised hphase₂) (h₁.accepted hphase₂ hraise haccept)
  prepared := by
    intro hphase p hp hlt
    have hphase₂ := phase_prepare_of_ahead hahead₂ hphase
    have hle := current_le_of_ahead hahead₂ hphase
    exact h₂.prepared hphase p (h₁.prepared hphase₂ p hp (hle.trans_lt hlt)) hlt
  committed := by
    intro hphase hphase₃
    have hphase₂ : k₂.loc.phase = .confirm := by
      have hle₁ := hahead₁.phase
      have hle₂ := hahead₂.phase
      rw [hphase] at hle₁
      rw [hphase₃] at hle₂
      exact SCPPhase.rank_injective (le_antisymm hle₂ hle₁)
    obtain ⟨haccept₁, hcommit₁⟩ := h₁.committed hphase hphase₂
    obtain ⟨haccept₂, hcommit₂⟩ := h₂.committed hphase₂ hphase₃
    exact ⟨haccept₂ ∘ haccept₁, hcommit₂ ∘ hcommit₁⟩

/-- Only the log differs. -/
theorem rested_of_same (hloc : r.loc = k.loc) (henvs : r.envs = k.envs)
    (hraise : k.loc.phase = .prepare → RaiseDone ctx k) : Rested ctx k r := by
  obtain ⟨loc, envs, history, log⟩ := r
  subst hloc henvs
  exact ⟨hraise, fun _ _ h => h, fun _ p hp _ => hp, fun _ _ => ⟨id, id⟩⟩

/-- After the `PREPARE` phase only what is done in the `CONFIRM` phase has to be kept. -/
theorem rested_of_phase (hphase : r.loc.phase ≠ .prepare)
    (hconfirm : k.loc.phase = .confirm → r.loc.phase = .confirm →
      (AcceptDone ctx k → AcceptDone ctx r) ∧ (CommitDone ctx k → CommitDone ctx r)) :
    Rested ctx k r :=
  ⟨(absurd · hphase), (absurd · hphase), (absurd · hphase), hconfirm⟩

/-- In the `CONFIRM` phase no moves are added. -/
theorem Rested.movesLeft_le (h : Rested ctx k r) (hahead : Ahead ctx k r)
    (hphase : r.loc.phase = .confirm) : movesLeft ctx r ≤ movesLeft ctx k := by
  have hrank := hahead.phase
  rw [hphase] at hrank
  cases hphase₀ : k.loc.phase with
  | externalize => simp [hphase₀, SCPPhase.rank] at hrank
  | prepare =>
    have haccept := pending_le (AcceptDone ctx r)
    have hcommit := pending_le (CommitDone ctx r)
    simp only [movesLeft, hphase, hphase₀]
    omega
  | confirm =>
    obtain ⟨haccept, hcommit⟩ := h.committed hphase₀ hphase
    have haccept := pending_mono haccept
    have hcommit := pending_mono hcommit
    simp only [movesLeft, hphase, hphase₀]
    omega

section

variable (h : Accepts ctx k k' st st' x) (hrest : Rested ctx k' r) (hahead : Ahead ctx k' r)
include h hrest hahead

theorem Accepts.rested : Rested ctx k r where
  raised := hrest.raised
  accepted := fun _ _ hdone => absurd h.acceptable (hdone st h.before.own x h.mem)
  prepared := by
    intro hphase p hp hlt
    have hphase' := phase_prepare_of_ahead hahead hphase
    have hle := current_le_of_ahead hahead hphase
    exact hrest.prepared hphase p
      (h.prepared_eq (h.phase_eq.symm.trans hphase') hp (hle.trans_lt hlt)) hlt
  committed := by
    intro hphase hphase_r
    have hphase' := h.phase_eq.trans hphase
    obtain ⟨hcur, hhigh, hcommit, _⟩ := h.confirm_cases hphase
    refine ⟨fun hdone => absurd h.acceptable (hdone st h.before.own x h.mem), fun hdone => ?_⟩
    exact (hrest.committed hphase' hphase_r).2
      (commitDone_of_same h.before h.after h.peers hphase hphase' hcur hhigh hcommit hdone)

omit h hrest hahead in
/-- An acceptance changes the own statement. -/
theorem Accepts.statement_ne (h : Accepts ctx k k' st st' x) (hext : k.loc.phase ≠ .externalize) :
    st ≠ st' := by
  intro hsame
  cases hphase : k.loc.phase with
  | externalize => exact hext hphase
  | prepare =>
    rw [h.before.describes.eq_prepare hphase,
      h.after.describes.eq_prepare (h.phase_eq.trans hphase)] at hsame
    simp only [SCPStatement.mk.injEq, SCPPledges.prepare.injEq, preparePledge, SCPPrepare.mk.injEq,
      true_and] at hsame
    have hprepared : k.loc.IsPrepared x := by
      rcases h.cases hphase with ⟨hp, _⟩ | ⟨_, _, _, _, hp'⟩
      · exact .inl (hsame.2.1.trans hp)
      · exact .inr (hsame.2.2.1.trans hp')
    exact h.acceptable.not_covered hphase hprepared ⟨le_rfl, rfl⟩
  | confirm =>
    obtain ⟨_, p, c, _, _, hp, hc, _, hst⟩ := h.before.describes.eq_confirm hphase
    obtain ⟨_, p', _, _, _, hp', _, _, hst'⟩ :=
      h.after.describes.eq_confirm (h.phase_eq.trans hphase)
    obtain rfl : p' = x :=
      Option.some.inj (hp'.symm.trans (h.confirm_cases hphase).2.2.2)
    have hnone := (h.before.inv.consistent.confirm (by simp [hphase])).2
    obtain ⟨hlt, hval, _⟩ := (acceptable_confirm hphase hp hc hnone).1 h.acceptable
    rw [hst, hst'] at hsame
    simp only [SCPStatement.mk.injEq, SCPPledges.confirm.injEq, SCPConfirm.mk.injEq,
      true_and] at hsame
    exact hlt.ne (congrArg₂ SCPBallot.mk hsame.2.1 hval)

/-- A ratified ballot that the statement before the acceptance covers does not move the current
ballot any more. -/
theorem Accepts.not_raised (hphase : r.loc.phase = .prepare) {y : SCPBallot}
    (hmem : y ∈ getPrepareCandidates r.envs st) (hrat : Ratified ctx r y) : ¬ r.current < y := by
  intro hlt
  have hphase' := phase_prepare_of_ahead hahead hphase
  have hphase₀ := h.phase_eq.symm.trans hphase'
  have hcur := current_le_of_ahead hahead hphase
  rw [h.current_eq] at hcur
  rw [h.before.describes.eq_prepare hphase₀] at hmem
  obtain ⟨top, htop, _, _, _, hbelow⟩ := mem_getPrepareCandidates.1 hmem
  obtain ⟨hle, hval⟩ := preparedBelow_le hbelow
  rcases mem_hintBallots_preparePledge.1 htop with rfl | hp | hp
  · exact absurd (hcur.trans_lt hlt) (not_lt.2 hle)
  · have hkept := (h.rested hrest hahead).prepared hphase top hp (hlt.trans_le hle)
    exact hrest.raised hphase y top (.inl hkept) hlt hle hval hrat
  · have hxtop := ((acceptable_prepare hphase₀).1 h.acceptable).1 top hp
    have hxcur := (h.le_current hphase₀).1
    exact absurd (hlt.trans_le (hle.trans hxtop.le)) (not_lt.2 (hxcur.trans hcur))

/-- The rank of a state in which `h` was raised after a ballot was accepted. -/
theorem Accepts.movesLeft_of_high (hphase : r.loc.phase = .prepare) {n m : Nat}
    (hm : m ≤ 5 + 2 * pending (AcceptDone ctx r)) (hn : movesLeft ctx k ≤ n + 1) : m ≤ n := by
  have hphase₀ := h.phase_eq.symm.trans (phase_prepare_of_ahead hahead hphase)
  have hnot : ¬ AcceptDone ctx k := fun hdone => hdone st h.before.own x h.mem h.acceptable
  simp only [movesLeft, hphase₀, pending_of_not hnot] at hn
  by_cases hraise : RaiseDone ctx k
  · have hdone := hrest.accepted hphase (h.raiseDone hphase₀ hraise) (h.acceptDone hphase₀)
    rw [pending_of hdone] at hm
    omega
  · have hle := pending_le (AcceptDone ctx r)
    rw [pending_of_not hraise] at hn
    omega

end

theorem Confirms.rested {newC newH : SCPBallot} (h : Confirms ctx k k' st st' newC newH)
    (hraise : RaiseDone ctx k') (hnot : RaiseDone ctx k → ¬ k.current < newH) :
    Rested ctx k k' where
  raised := fun _ => hraise
  accepted := by
    intro _ hdone haccept
    refine h.samePrepared.acceptDone ?_ haccept
    rcases h.cases with ⟨_, hlt⟩ | ⟨b, hb, _, _, hb', _⟩ | ⟨hloc, _⟩
    · exact absurd hlt (hnot hdone)
    · rw [Core.current, Core.current, hb, hb']
    · rw [Core.current, Core.current, hloc]
  prepared := fun _ p hp _ => h.samePrepared.prepared.trans hp
  committed := fun hphase => absurd (hphase.symm.trans h.guard.1) (by decide)

/-- The errors of a call that was not cut off. -/
def CutFree (e : ScpError) (_ : BallotState) : Prop := e.isCutOff = false

/-- What is assumed of the recursive `advanceSlot` on own statements: with at most `n` moves left
it does not run out of levels. -/
def AdvanceWithin (ctx : Context) (advance : SCPStatement → SlotM Unit) (n : Nat) : Prop :=
  ∀ hint s, Published ctx s.core hint → Emissions ctx s → s.phase ≠ .externalize →
    0 < s.currentMessageLevel → movesLeft ctx s.core ≤ n →
    s.currentMessageLevel + n + 1 < maxAdvanceSlotRecursion →
    wp (advance hint) (fun _ t => Rested ctx s.core t.core) CutFree s

/-- The change `u` was made at `k` and published with the statement `st'`. -/
structure Performs (ctx : Context) (u : Update) (k k' : Core) (st' : SCPStatement) : Prop where
  after : Published ctx k' st'
  peers : SamePeers ctx k k'
  loc : k'.loc = u.apply k.loc
  ahead : Ahead ctx k k'

/-- How publishing a change at a state with the own statement `st` ends: with a new statement, on
which the nested levels came to rest, or without advancing the slot. -/
inductive Outcome (ctx : Context) (u : Update) (k : Core) (st : SCPStatement) (r : Core) : Prop
  | advanced (k' : Core) (st' : SCPStatement) (h : Performs ctx u k k' st') (hne : st' ≠ st)
      (hrested : Rested ctx k' r) (hahead : Ahead ctx k' r)
  | still (st' : SCPStatement) (h : Performs ctx u k r st')
      (hwhy : st' = st ∨ r.loc.phase = .externalize)

/-- At most `n` further levels are needed, and they are there. -/
structure Room (ctx : Context) (n : Nat) (s : BallotState) : Prop where
  emissions : Emissions ctx s
  level : 0 < s.currentMessageLevel
  bound : s.currentMessageLevel + n + 1 < maxAdvanceSlotRecursion

theorem Room.of_returns {n : Nat} (h : Room ctx n s) (ht : Returns ctx R s t) : Room ctx n t where
  emissions := ht.emissions
  level := by rw [ht.level]; exact h.level
  bound := by rw [ht.level]; exact h.bound

section Within

variable {n : Nat} (hadv : AdvanceSpec ctx advance) (hnest : AdvanceWithin ctx advance n)

include hadv hnest

/-- Publishing an inner change that leaves at most `n` moves. -/
theorem publish_within (hk : Published ctx s.core st) (hroom : Room ctx n s) {u : Update}
    (hguard : Guard ctx s.core u) {s₁ : BallotState} (hs₁ : Applied ctx u s s₁)
    (hrank : ∀ k' st', Performs ctx u s.core k' st' → st' ≠ st → k'.loc.phase ≠ .externalize →
      movesLeft ctx k' ≤ n) :
    wp (emitCurrentStateStatement ctx advance) (fun _ t => Outcome ctx u s.core st t.core)
      CutFree s₁ := by
  have hlevel₁ : s₁.currentMessageLevel = s.currentMessageLevel := hs₁.level
  have hpending := pending_of_moves hk.inv hroom.emissions hguard hs₁
  have henter : Ahead ctx s.core (s.core.push u) := (Act.enter hguard).ahead
  have hperforms : ∀ st' t, Recorded ctx (s.core.push u) u s₁ st' t →
      Performs ctx u s.core t.core st' ∧ st' ≠ st := fun st' t ht =>
    ⟨⟨⟨ht.inv, ht.latest⟩, ht.act.ahead.others, ht.loc, henter.trans ht.act.ahead⟩,
      fun hsame => ht.new (hsame ▸ hk.own)⟩
  refine emit_rule (Q := fun t => Outcome ctx u s.core st t.core) hpending (fun t r ht hr => ?_)
    (fun st' _ hlatest hact => ?_) (fun st' t ht hphase => ?_) (fun st' t ht hphase => ?_)
    (fun e he _ => he)
  · rw [hr.core]
    exact ht
  · have hsame : st' = st := Option.mem_unique hlatest hk.own
    have hown : s₁.core.envs.lookup ctx.nodeID = some st' := by
      rw [hs₁.core]
      exact hlatest
    exact .still st' ⟨⟨hact.inv (hk.inv.push u), hown⟩, hact.ahead.others, hs₁.loc,
      henter.trans hact.ahead⟩ (.inl hsame)
  · obtain ⟨hperf, hne⟩ := hperforms st' t ht
    have hlevel : t.currentMessageLevel = s.currentMessageLevel := ht.level.trans hlevel₁
    have hlookup : t.latestEnvelopes.lookup st'.nodeID = some st' := by
      rw [ht.self]
      exact ht.latest
    have hwithin := hnest st' t hperf.after ht.emissions hphase
      (by rw [hlevel]; exact hroom.level) (hrank _ st' hperf hne hphase)
      (by rw [hlevel]; exact hroom.bound)
    refine wp_with hwithin (hadv st' t ht.inv ht.emissions hlookup)
      (fun _ r hr => ?_)
    have hsteps := own_of_level hr.2.steps
    exact ⟨.advanced t.core st' hperf hne hr.1 (ahead_of_own hsteps), hr.2.emissions,
      (history_grows (steps_of_own hsteps)).subset ht.history⟩
  · exact .still st' (hperforms st' t ht).1 (.inr hphase)

/-! ### One level -/

/-- Accepting on the own statement: nothing is acceptable, or a ballot is accepted and the nested
levels come to rest. -/
theorem attemptPreparedAccept_within (hk : Published ctx s.core hint) (hroom : Room ctx n s)
    (hext : s.phase ≠ .externalize) (hrank : movesLeft ctx s.core ≤ n + 1) :
    wp (attemptPreparedAccept ctx advance hint)
      (fun _ t => t = s ∨ ∃ k' st' x, Accepts ctx s.core k' hint st' x ∧
        Rested ctx k' t.core ∧ Ahead ctx k' t.core) CutFree s := by
  refine attemptPreparedAccept_rule hk.inv (fun _ => .inl rfl) (fun x hmem hcan hmax hguard => ?_)
    rfl
  have haccepts : ∀ {k' st'}, Performs ctx (.preparedAccept x) s.core k' st' →
      Accepts ctx s.core k' hint st' x := fun h =>
    ⟨hk, h.after, h.peers, h.loc, hmem, hcan, hmax⟩
  refine setPreparedAccept_rule hk.inv hguard fun s₁ hs₁ => ?_
  refine wp_imp (publish_within hadv hnest hk hroom hguard hs₁ fun k' st' h _ _ => ?_)
    (fun _ t ht => .inr ?_)
  · have hlt := (haccepts h).movesLeft_lt hext
    omega
  · cases ht with
    | advanced k' st' h _ hrested hahead => exact ⟨k', st', x, haccepts h, hrested, hahead⟩
    | still st' h hwhy =>
      rcases hwhy with hsame | hphase
      · exact absurd hsame.symm ((haccepts h).statement_ne hext)
      · exact absurd ((haccepts h).phase_eq.symm.trans hphase) hext

theorem setPreparedConfirmed_within (hk : Published ctx s.core st) (hroom : Room ctx n s)
    {newC newH : SCPBallot} (hguard : Guard ctx s.core (.preparedConfirmed newC newH))
    (hraise : ∀ k' st', Confirms ctx s.core k' st st' newC newH → RaiseDone ctx k')
    (hnot : RaiseDone ctx s.core → ¬ s.core.current < newH)
    (hrank : ∀ k' st', Confirms ctx s.core k' st st' newC newH → k'.loc ≠ s.core.loc →
      movesLeft ctx k' ≤ n) :
    wp (setPreparedConfirmed ctx advance newC newH) (fun _ t => Rested ctx s.core t.core)
      CutFree s := by
  have hconfirms : ∀ {k' st'}, Performs ctx (.preparedConfirmed newC newH) s.core k' st' →
      Confirms ctx s.core k' st st' newC newH := fun h => ⟨hk, h.after, h.peers, hguard, h.loc⟩
  have hrested : ∀ {k' st'}, Confirms ctx s.core k' st st' newC newH → Rested ctx s.core k' :=
    fun h => h.rested (hraise _ _ h) hnot
  refine setPreparedConfirmed_rule hguard (fun s₁ hs₁ => ?_) (fun s₁ hidle hs₁ => ?_)
  · refine wp_imp (publish_within hadv hnest hk hroom hguard hs₁ fun k' st' h hne _ => ?_)
      (fun _ t ht => ?_)
    · exact hrank k' st' (hconfirms h) fun hloc => hne (hk.unique h.after hloc)
    · cases ht with
      | advanced k' st' h _ hrest hahead => exact (hrested (hconfirms h)).trans hrest h.ahead hahead
      | still st' h _ => exact hrested (hconfirms h)
  · have hcore : s₁.core = s.core.push (.preparedConfirmed newC newH) := hs₁.core
    rw [hcore]
    exact hrested ⟨hk, ⟨hk.inv.push _, hk.own⟩, fun _ _ => rfl, hguard, hidle.symm⟩

/-- Confirming on the statement the level was entered with, when nothing was accepted. -/
theorem attemptPreparedConfirmed_within (hk : Published ctx s.core hint) (hroom : Room ctx n s)
    (hscan : Scanned ctx hint s.core s.core) (hrank : movesLeft ctx s.core ≤ n + 1) :
    wp (attemptPreparedConfirmed ctx advance hint) (fun _ t => Rested ctx s.core t.core)
      CutFree s := by
  refine attemptPreparedConfirmed_rule hk.inv hscan (fun hnone => ?_)
    (fun newC newH rest hfound hguard => ?_)
  · exact rested_of_same rfl rfl fun hphase => raiseDone_of_scan hk hphase (hnone hphase)
  · obtain ⟨hmem, _, hrat⟩ := findNewH_spec hfound
    have hhighest := (findNewH_highest descending_pairwise).1 newH rest hfound
    refine setPreparedConfirmed_within hadv hnest hk hroom hguard
      (fun _ _ h => h.raiseDone hhighest)
      (fun hdone => hdone.not_current_lt hk hguard.1 hmem hrat) (fun k' st' h hmoved => ?_)
    have hlt := h.movesLeft_lt hmem hhighest hmoved
    omega

/-- Confirming on a statement that is not the latest own one any more: the current ballot does
not move. -/
theorem attemptPreparedConfirmed_stale (hinv : s.core.Inv ctx) (hroom : Room ctx n s) {k₀ : Core}
    (hscan : Scanned ctx hint k₀ s.core)
    (hraised : s.phase = .prepare → RaiseDone ctx s.core)
    (hnot : s.phase = .prepare → ∀ y ∈ getPrepareCandidates s.latestEnvelopes hint,
      Ratified ctx s.core y → ¬ s.core.current < y)
    (hrank : s.phase = .prepare → ∀ m, m ≤ 5 + 2 * pending (AcceptDone ctx s.core) → m ≤ n) :
    wp (attemptPreparedConfirmed ctx advance hint) (fun _ t => Rested ctx s.core t.core)
      CutFree s := by
  refine attemptPreparedConfirmed_rule hinv hscan (fun _ => rested_of_same rfl rfl hraised)
    (fun newC newH rest hfound hguard => ?_)
  obtain ⟨hphase, ⟨p, hp, _⟩, _⟩ := id hguard
  obtain ⟨hmem, _, hrat⟩ := findNewH_spec hfound
  obtain ⟨st, hk⟩ := published_of_prepared hinv (by simp [hp])
  have hle := hnot hphase newH hmem hrat
  refine setPreparedConfirmed_within hadv hnest hk hroom hguard (fun k' st' h => ?_)
    (fun _ => hle) (fun k' st' h hmoved => ?_)
  · refine h.samePrepared.raiseDone ?_ (hraised hphase)
    rcases h.cases with ⟨_, hlt⟩ | ⟨b, hb, _, _, hb', _⟩ | ⟨hloc, _⟩
    · exact absurd hlt hle
    · rw [Core.current, Core.current, hb, hb']
    · rw [Core.current, Core.current, hloc]
  · rcases h.cases with ⟨_, hlt⟩ | ⟨b, hb, _, _, hb', _⟩ | ⟨hloc, _⟩
    · exact absurd hlt hle
    · exact hrank hphase _ (h.movesLeft_of_high hb hb' (hraised hphase)).2.2
    · exact absurd hloc hmoved

/-- Accepting a commit, on any statement. -/
theorem attemptAcceptCommit_within (hinv : s.core.Inv ctx) (hroom : Room ctx n s) {k₀ : Core}
    (hscan : Scanned ctx hint k₀ s.core)
    (hprepare : s.phase = .prepare → 3 ≤ n)
    (hconfirm : ∀ k' st st' ballot, Commits ctx s.core k' st st' ballot → movesLeft ctx k' ≤ n)
    (hrest : Rested ctx s.core s.core) :
    wp (attemptAcceptCommit ctx advance hint) (fun _ t => Rested ctx s.core t.core) CutFree s := by
  refine attemptAcceptCommit_rule hinv hscan hrest (fun ballot hguard => ?_)
  obtain ⟨hext, hp, _⟩ := id hguard
  obtain ⟨st, hk⟩ := published_of_prepared hinv hp
  set u : Update := .acceptCommit ⟨(acceptedInterval ctx s.latestEnvelopes ballot).1, ballot.value⟩
    ⟨(acceptedInterval ctx s.latestEnvelopes ballot).2, ballot.value⟩ with hu
  have hcommits : ∀ {k' st'}, Performs ctx u s.core k' st' → s.phase = .confirm →
      Commits ctx s.core k' st st' ballot := fun h hphase =>
    ⟨hk, h.after, h.peers, hphase, hguard, h.loc⟩
  have hphase' : ∀ {k' st'}, Performs ctx u s.core k' st' → k'.loc.phase = .confirm := by
    intro k' st' h
    cases hphase : s.core.loc.phase with
    | externalize => exact absurd hphase hext
    | confirm => exact (hcommits h hphase).phase_eq
    | prepare => simp [h.loc, hu, Update.apply, hphase]
  have hrested : ∀ {k' st'}, Performs ctx u s.core k' st' → Rested ctx s.core k' := fun h =>
    rested_of_phase (by rw [hphase' h]; decide) fun hphase _ =>
      ⟨(hcommits h hphase).acceptDone, fun _ => (hcommits h hphase).commitDone⟩
  refine setAcceptCommit_rule hguard fun s₁ hs₁ => ?_
  refine wp_imp (publish_within hadv hnest hk hroom hguard hs₁ fun k' st' h _ _ => ?_)
    (fun _ t ht => ?_)
  · cases hphase : s.phase with
    | externalize => exact absurd hphase hext
    | confirm => exact hconfirm k' st st' ballot (hcommits h hphase)
    | prepare =>
      have haccept := pending_le (AcceptDone ctx k')
      have hcommit := pending_le (CommitDone ctx k')
      have hn := hprepare hphase
      simp only [movesLeft, hphase' h]
      omega
  · cases ht with
    | advanced k' st' h _ hrest hahead => exact (hrested h).trans hrest h.ahead hahead
    | still st' h _ => exact hrested h

/-- Externalizing on any statement. -/
theorem attemptConfirmCommit_within (hinv : s.core.Inv ctx) (hroom : Room ctx n s)
    (hrest : Rested ctx s.core s.core) :
    wp (attemptConfirmCommit ctx advance hint) (fun _ t => Rested ctx s.core t.core) CutFree s := by
  refine attemptConfirmCommit_rule hrest fun c h hguard => ?_
  obtain ⟨st, hk⟩ := published_of_prepared hinv
    (hinv.consistent.confirm (by rw [hguard.1]; decide)).1
  refine setConfirmCommit_rule hguard fun s₁ hs₁ => ?_
  have hwithin := publish_within hadv hnest hk hroom hguard hs₁ fun k' st' h' _ hext =>
    absurd (by rw [h'.loc]; rfl) hext
  refine wp_with hwithin (publish_spec (hadv.from _) hinv hroom.emissions hguard rfl hs₁)
    (fun _ t ht => ?_)
  have hfinal := ht.2.final
  have hphase : t.phase = .externalize := by
    rw [show t.phase = t.core.loc.phase from rfl, hfinal]
    rfl
  refine ⟨?_, ?_⟩
  · rw [show t.commit = t.core.loc.commit from rfl, hfinal]
    simp [Update.apply]
  · exact rested_of_phase (fun hprep => absurd (hprep.symm.trans hphase) (by decide))
      fun _ hconf => absurd (hconf.symm.trans hphase) (by decide)

/-- A nested level comes to rest, with one move less for the levels inside of it. -/
theorem advanceBody_within (hk : Published ctx s.core hint) (hroom : Room ctx n s)
    (hlevel : s.currentMessageLevel ≠ 1) (hself : hint.nodeID = ctx.nodeID)
    (hext : s.phase ≠ .externalize) (hrank : movesLeft ctx s.core ≤ n + 1) :
    wp (advanceBody ctx advance hint) (fun _ t => Rested ctx s.core t.core) CutFree s := by
  have hpos : s.currentMessageLevel ≠ 0 := hroom.level.ne'
  have hhint : s.latestEnvelopes.lookup hint.nodeID = some hint := by
    rw [hself]
    exact hk.own
  unfold advanceBody
  simp only [wp_bind, wp_pure]
  refine wp_with (attemptPreparedAccept_within hadv hnest hk hroom hext hrank)
    (attemptPreparedAccept_spec (hadv.from _) hk.inv hroom.emissions hpos hhint) fun _ s₁ hs₁ => ?_
  obtain ⟨haccept, h₁, hscan₁⟩ := hs₁
  have hroom₁ := hroom.of_returns h₁
  have hpos₁ : s₁.currentMessageLevel ≠ 0 := hroom₁.level.ne'
  -- the second attempt sees the statement of the level, or a later one
  have hconfirm : wp (attemptPreparedConfirmed ctx advance hint)
      (fun _ t => Rested ctx s.core t.core) CutFree s₁ := by
    rcases haccept with rfl | ⟨k', st', x, haccepts, hrest, hahead⟩
    · exact attemptPreparedConfirmed_within hadv hnest hk hroom hscan₁ hrank
    · have hrested := haccepts.rested hrest hahead
      refine wp_with (attemptPreparedConfirmed_stale hadv hnest h₁.inv hroom₁ hscan₁
        hrest.raised (fun hphase y hmem hrat => haccepts.not_raised hrest hahead hphase hmem hrat)
        (fun hphase m hm => haccepts.movesLeft_of_high hrest hahead hphase hm hrank))
        (attemptPreparedConfirmed_spec (hadv.from _) h₁.inv h₁.emissions hpos₁ hscan₁)
        (fun _ t ht => ?_)
      exact hrested.trans ht.1 (ahead_of_own (own_of_inner h₁.steps))
        (ahead_of_own (own_of_inner ht.2.steps))
  refine wp_with hconfirm
    (attemptPreparedConfirmed_spec (hadv.from _) h₁.inv h₁.emissions hpos₁ hscan₁)
    fun _ s₂ hs₂ => ?_
  obtain ⟨hrest₂, hreturns₂⟩ := hs₂
  have h₂ := h₁.trans hreturns₂
  have hahead₂ := ahead_of_own (own_of_inner h₂.steps)
  have hroom₂ := hroom.of_returns h₂
  have hpos₂ : s₂.currentMessageLevel ≠ 0 := hroom₂.level.ne'
  have hscan₂ := hscan₁.trans hreturns₂.steps
  have hfour : s.core.loc.phase = .prepare → 3 ≤ n := by
    intro hphase
    simp only [movesLeft, hphase] at hrank
    omega
  refine wp_with (attemptAcceptCommit_within hadv hnest h₂.inv hroom₂ hscan₂
    (fun hphase => hfour (phase_prepare_of_ahead hahead₂ hphase)) (fun k' st st' ballot h => ?_)
    (rested_of_same rfl rfl hrest₂.raised))
    (attemptAcceptCommit_spec (hadv.from _) h₂.inv h₂.emissions hpos₂ hscan₂) (fun _ s₃ hs₃ => ?_)
  · have hlt := h.movesLeft_lt
    have hle : movesLeft ctx s₂.core ≤ n + 1 := (hrest₂.movesLeft_le hahead₂ h.phase).trans hrank
    omega
  have hreturns₃ := hs₃.2
  have hahead₃ := ahead_of_own (own_of_inner hreturns₃.steps)
  have hrest₃ := hrest₂.trans hs₃.1 hahead₂ hahead₃
  have h₃ := h₂.trans hreturns₃
  have hroom₃ := hroom.of_returns h₃
  have hpos₃ : s₃.currentMessageLevel ≠ 0 := hroom₃.level.ne'
  refine wp_with (attemptConfirmCommit_within hadv hnest h₃.inv hroom₃
    (rested_of_same rfl rfl hrest₃.raised))
    (attemptConfirmCommit_spec (hadv.from _) h₃.inv h₃.emissions hpos₃) (fun _ s₄ hs₄ => ?_)
  have hreturns₄ := hs₄.2
  have hrest₄ := hrest₃.trans hs₄.1 (hahead₂.trans hahead₃)
    (ahead_of_own (own_of_inner hreturns₄.steps))
  have hlevel₄ : s₄.currentMessageLevel ≠ 1 := by
    rw [(h₃.trans hreturns₄).level]
    exact hlevel
  simp only [bumpAtFirstLevel, wp_bind, wp_get, wp_ite, wp_pure]
  exact ⟨fun hone => absurd hone hlevel₄, fun _ => hrest₄⟩

end Within

theorem movesLeft_pos (ctx : Context) (hext : k.loc.phase ≠ .externalize) :
    0 < movesLeft ctx k := by
  unfold movesLeft
  split
  · omega
  · omega
  case h_3 hphase => exact absurd hphase hext

/-- Nested levels: the moves that are left bound the levels that are needed. -/
theorem advanceSlot_within (ctx : Context) (n : Nat) (fuel : Nat) (hfuel : n < fuel) :
    AdvanceWithin ctx (advanceSlot ctx fuel) n := by
  induction n generalizing fuel with
  | zero =>
    intro hint s _ _ hext _ hrank _
    exact absurd (movesLeft_pos ctx (k := s.core) hext) (by omega)
  | succ n ih =>
    intro hint s hk hem hext hlevel hrank hbound
    obtain ⟨fuel, rfl⟩ : ∃ m, fuel = m + 1 := ⟨fuel - 1, by omega⟩
    have hem' : Emissions ctx { s with currentMessageLevel := s.currentMessageLevel + 1 } :=
      hem.mono rfl rfl (List.Subset.refl _) (List.Subset.refl _)
    have hroom : Room ctx n { s with currentMessageLevel := s.currentMessageLevel + 1 } :=
      ⟨hem', Nat.succ_pos _, show s.currentMessageLevel + 1 + n + 1 < _ by omega⟩
    have hself := hk.describes.nodeID_eq
    simp only [advanceSlot, wp_bind, wp_modify, wp_get, wp_ensure, wp_ite, wp_pure,
      decide_eq_true_eq, decide_eq_false_iff_not]
    refine ⟨fun _ => ?_, fun hnot => absurd (by omega) hnot⟩
    have hbody := advanceBody_within (advanceSlot_spec ctx fuel) (ih fuel (by omega)) (s := { s with
      currentMessageLevel := s.currentMessageLevel + 1 }) hk hroom (by simp; omega) hself hext hrank
    have hspec := advanceBody_spec (s := { s with
      currentMessageLevel := s.currentMessageLevel + 1 })
      ((advanceSlot_spec ctx fuel).from _) hk.inv hem' rfl (by rw [hself]; exact hk.own)
    refine wp_with hbody hspec (fun _ t ht => ⟨fun _ => ?_, fun _ => ht.1⟩)
    have hemt : Emissions ctx { t with currentMessageLevel := t.currentMessageLevel - 1 } :=
      ht.2.emissions.mono rfl rfl (List.Subset.refl _) (List.Subset.refl _)
    refine wp_total (sendLatestEnvelope_quiet _ hemt) (fun _ r hr => ?_)
    rw [hr.core]
    exact ht.1

/-! ### The first level -/

/-- A call of `advanceSlot` from outside, on a recorded statement of any node. -/
theorem advanceSlot_succ_free {fuel : Nat} (hfuel : 11 < fuel) (hinv : s.core.Inv ctx)
    (hem : Emissions ctx s) (hlevel : s.currentMessageLevel = 0)
    (hhint : s.latestEnvelopes.lookup hint.nodeID = some hint) :
    wp (advanceSlot ctx (fuel + 1) hint)
      (fun _ => Returns ctx (LevelStep ctx s.currentMessageLevel) s)
      (FailsIn ctx (·.isCutOff = false) s.core) s := by
  have hbound : s.currentMessageLevel + 1 < maxAdvanceSlotRecursion := by
    rw [hlevel]
    decide
  refine advanceSlot_succ_spec ⟨fun _ he => he, ?_⟩ (fun h => absurd hbound (not_lt.2 h)) hinv hem
    hhint
  -- whatever own statement the first level publishes, 11 more levels are enough
  intro hint t hinv hem hlookup hext hself hone
  have hk : Published ctx t.core hint := ⟨hinv, hself ▸ hlookup⟩
  have hwithin := advanceSlot_within ctx 11 fuel hfuel hint t hk hem hext (by omega)
    (movesLeft_le ctx t.core) (by rw [hone, hlevel]; decide)
  exact wp_mono (wp_and (advanceSlot_spec ctx fuel hint t hinv hem hlookup) hwithin)
    (fun _ _ h => hone ▸ h.1) fun _ _ h => h

theorem advanceSlot_free (hinv : s.core.Inv ctx) (hem : Emissions ctx s)
    (hlevel : s.currentMessageLevel = 0)
    (hhint : s.latestEnvelopes.lookup hint.nodeID = some hint) :
    wp (advanceSlot ctx maxAdvanceSlotRecursion hint)
      (fun _ => Returns ctx (LevelStep ctx s.currentMessageLevel) s)
      (FailsIn ctx (·.isCutOff = false) s.core) s :=
  advanceSlot_succ_free (show 11 < 49 by decide) hinv hem hlevel hhint

/-! ### Calls -/

/-- A slot between two calls. -/
structure Resting (ctx : Context) (s : BallotState) : Prop where
  inv : s.core.Inv ctx
  emissions : Emissions ctx s
  level : s.currentMessageLevel = 0

theorem Resting.of_returns (hs : Resting ctx s) (ht : Returns ctx R s t) : Resting ctx t :=
  ⟨ht.inv, ht.emissions, ht.level.trans hs.level⟩

theorem processPeer_resting (hs : Resting ctx s) (hother : st.nodeID ≠ ctx.nodeID) :
    wp (processEnvelope ctx (advanceSlot ctx maxAdvanceSlotRecursion) st false)
      (fun _ t => Resting ctx t) CutFree s := by
  have hrest : ∀ s₁, Received ctx st s s₁ → Resting ctx s₁ := fun s₁ h₁ =>
    ⟨h₁.inv, h₁.emissions, h₁.level.trans hs.level⟩
  refine processPeer_rule hs.inv hs.emissions hother hs (fun s₁ h₁ => ?_) hrest
  exact wp_mono (advanceSlot_free h₁.inv h₁.emissions (hrest s₁ h₁).level h₁.lookup)
    (fun _ t ht => (hrest s₁ h₁).of_returns ht) fun _ _ he => he.2

theorem run_resting (hs : Resting ctx s) (call : Call) :
    wp (call.run ctx) (fun _ t => Resting ctx t) CutFree s := by
  have hadv : AdvanceFrom ctx (advanceSlot ctx maxAdvanceSlotRecursion) (·.isCutOff = false)
      s.currentMessageLevel := by
    refine ⟨fun _ he => he, ?_⟩
    rintro hint t hinv hem hhint - - hlevel
    rw [← hlevel]
    exact advanceSlot_free hinv hem (hlevel.trans hs.level) hhint
  cases call with
  | recvSCPEnvelope st =>
    simp only [Call.run, wp_ite, wp_bind, wp_pure]
    exact ⟨fun _ => hs, fun hother => processPeer_resting hs hother⟩
  | bumpState value force =>
    simp only [Call.run, wp_bind, wp_pure]
    exact wp_mono (bumpState_spec hadv hs.inv hs.emissions value force)
      (fun _ t ht => hs.of_returns ht) fun _ _ he => he.2
  | abandonBallot =>
    simp only [Call.run, wp_bind, wp_pure]
    exact wp_mono (abandonBallot_spec hadv hs.inv hs.emissions 0)
      (fun _ t ht => hs.of_returns ht.1) fun _ _ he => he.2
  | compositeCandidate value =>
    simp only [Call.run, wp_modify]
    exact ⟨hs.inv, hs.emissions.mono rfl rfl (List.Subset.refl _) (List.Subset.refl _), hs.level⟩

theorem resting_answering {answers : Value → ValidationLevel} :
    Resting (ctx.answering answers) s ↔ Resting ctx s :=
  ⟨fun h => ⟨inv_answering.1 h.inv, emissions_answering.1 h.emissions, h.level⟩,
    fun h => ⟨inv_answering.2 h.inv, emissions_answering.2 h.emissions, h.level⟩⟩

theorem runSession_resting (session : Session) (hs : Resting ctx s) :
    wp (runSession ctx session) (fun _ t => Resting ctx t) CutFree s := by
  induction session generalizing s with
  | nil => exact wp_pure.2 hs
  | cons step session ih =>
    obtain ⟨answers, call⟩ := step
    simp only [runSession, wp_bind]
    exact wp_imp (run_resting (resting_answering.2 hs) call)
      (fun _ t ht => ih (resting_answering.1 ht))

/-- Whatever statements of whichever nodes a slot has recorded, processing another one never
reaches the limit of nested `advanceSlot` calls, and the loop around `attemptBump` ends. -/
theorem runSession_not_cut_off (ctx : Context) (session : Session) :
    wp (runSession ctx session) (fun _ _ => True)
      (fun e _ => e ≠ .maxTransitions ∧ e ≠ .bumpLoop) (BallotState.init ctx) := by
  have hinit := init_ready ctx
  refine wp_mono (runSession_resting session ⟨hinit.inv, hinit.emissions, rfl⟩)
    (fun _ _ _ => trivial) (fun e _ he => ?_)
  constructor
  · rintro rfl
    cases he
  · rintro rfl
    cases he

end SpnCore.Scp
