import Mathlib.Data.Finset.Max
import SpnCore.Scp.CommitIntervals
import SpnCore.Scp.Progress

/-!
# Prepare candidates

What the scans over `getPrepareCandidates` find. Two facts tie the steps of one `advanceSlot`
together: a ballot is only confirmed prepared when `p` already covers it, and a commit is only
accepted when some ballot was accepted as prepared before. Both rest on the scan for acceptable
ballots that ran first on the same hint.
-/

namespace SpnCore.Scp

open Lib Relation List Option

variable {ctx : Context} {l : LocalState} {envs : FMap NodeID SCPStatement} {hint : SCPStatement}

variable {x ballot top : SCPBallot} {st : SCPStatement}

theorem mem_getPrepareCandidates :
    x ∈ getPrepareCandidates envs hint ↔
      ∃ top ∈ hintBallots hint, ∃ v st, envs.lookup v = some st ∧ x ∈ preparedBelow top st := by
  simp only [getPrepareCandidates, mem_descending, mem_flatMap]
  constructor
  · rintro ⟨top, htop, ⟨v, st⟩, hst, hx⟩
    exact ⟨top, htop, v, st, FMap.mem_entries.1 hst, hx⟩
  · rintro ⟨top, htop, v, st, hst, hx⟩
    exact ⟨top, htop, ⟨v, st⟩, FMap.mem_entries.2 hst, hx⟩

/-- Candidates below a vote are below it and compatible with it. -/
theorem preparedBelow_le (hx : x ∈ preparedBelow top st) : x ≤ top ∧ x.value = top.value := by
  cases hst : st.pledges with
  | prepare q =>
    simp only [preparedBelow, hst, mem_filter, areBallotsLessAndCompatible_iff] at hx
    exact hx.2
  | confirm c =>
    simp only [preparedBelow, hst] at hx
    split at hx
    · rcases mem_cons.1 hx with rfl | hx
      · exact ⟨le_rfl, rfl⟩
      · split at hx
        case isTrue hlt =>
          obtain rfl := mem_singleton.1 hx
          exact ⟨SCPBallot.le_iff.2 (.inl hlt), rfl⟩
        case isFalse => simp at hx
    · simp at hx
  | externalize e =>
    simp only [preparedBelow, hst] at hx
    split at hx
    · obtain rfl := mem_singleton.1 hx
      exact ⟨le_rfl, rfl⟩
    · simp at hx

/-! ### Acceptable ballots -/

theorem isAlreadyPrepared_eq_false :
    isAlreadyPrepared l ballot = false ↔
      (∀ p', l.preparedPrime = some p' → p' < ballot) ∧
        ∀ p, l.prepared = some p → ¬ (ballot ≤ p ∧ ballot.value = p.value) := by
  simp only [isAlreadyPrepared, Bool.or_eq_false_iff]
  refine and_congr ?_ ?_
  · cases l.preparedPrime <;> simp [compareBallots_eq, compare_gt_iff_gt]
  · cases l.prepared with
    | none => simp
    | some p => simp [← Bool.not_eq_true]

theorem isConsidered_eq_true :
    isConsidered l ballot = .ok true ↔
      (l.phase = .confirm → ∃ p c, l.prepared = some p ∧ l.commit = some c ∧
        p ≤ ballot ∧ p.value = ballot.value ∧ c.value = ballot.value) := by
  unfold isConsidered
  cases l.phase with
  | prepare => simp
  | externalize => simp
  | confirm =>
    cases l.prepared with
    | none => simp [bind_eq_ok]
    | some p =>
      cases l.commit with
      | none =>
        simp only [bind_eq_ok, deref_eq_ok, some.injEq, exists_eq_left']
        split <;> simp [bind_eq_ok]
      | some c =>
        simp only [bind_eq_ok, deref_eq_ok, some.injEq, exists_eq_left']
        split
        case isTrue h =>
          simp only [Bool.not_eq_true', ← Bool.not_eq_true,
            areBallotsLessAndCompatible_iff] at h
          simp
          tauto
        case isFalse h =>
          simp only [Bool.not_eq_true', Bool.not_eq_false,
            areBallotsLessAndCompatible_iff] at h
          simp [bind_eq_ok, h.1, h.2]

theorem canAcceptPrepared_eq_true :
    canAcceptPrepared ctx l envs ballot = .ok true ↔
      (l.phase = .confirm → ∃ p c, l.prepared = some p ∧ l.commit = some c ∧
        p ≤ ballot ∧ p.value = ballot.value ∧ c.value = ballot.value) ∧
      (∀ p', l.preparedPrime = some p' → p' < ballot) ∧
      (∀ p, l.prepared = some p → ¬ (ballot ≤ p ∧ ballot.value = p.value)) ∧
      federatedAccept ctx envs (votesPreparedBallot ballot) (hasPreparedBallot ballot) = true := by
  rw [← isConsidered_eq_true, ← and_assoc (c := federatedAccept _ _ _ _ = true),
    ← isAlreadyPrepared_eq_false, canAcceptPrepared, bind_eq_ok]
  constructor
  · rintro ⟨considered, hcons, hres⟩
    simp only [Except.ok.injEq, Bool.and_eq_true, Bool.not_eq_true'] at hres
    exact ⟨hres.1.1 ▸ hcons, hres.1.2, hres.2⟩
  · rintro ⟨hcons, hprep, hacc⟩
    exact ⟨true, hcons, by simp [hprep, hacc]⟩

/-- With `p` and `c` set in the `CONFIRM` phase, the scan can only fail on a ballot that is
incompatible with `c`. -/
theorem canAcceptPrepared_error {e : ScpError}
    (hset : l.phase = .confirm → l.prepared.isSome ∧ l.commit.isSome)
    (h : canAcceptPrepared ctx l envs ballot = .error e) : e = .incompatibleWithCommit := by
  have hcons : isConsidered l ballot = .error e := by
    unfold canAcceptPrepared at h
    cases hc : isConsidered l ballot with
    | error e' => simpa [hc, bind, Except.bind] using h
    | ok b => simp [hc, bind, Except.bind] at h
  unfold isConsidered at hcons
  cases hphase : l.phase with
  | prepare => simp [hphase] at hcons
  | externalize => simp [hphase] at hcons
  | confirm =>
    obtain ⟨hp, hc⟩ := hset hphase
    obtain ⟨p, hp⟩ := isSome_iff_exists.1 hp
    obtain ⟨c, hc⟩ := isSome_iff_exists.1 hc
    simp only [hphase, hp, hc, deref, bind, Except.bind] at hcons
    split at hcons
    · cases hcons
    · cases hcompat : areBallotsCompatible c ballot <;>
        simp [hcompat, dbgAssert] at hcons
      exact hcons.symm

/-- What the scan for an acceptable ballot finds. -/
theorem findAcceptable_spec (ctx : Context) (l : LocalState) (envs : FMap NodeID SCPStatement)
    {cands : List SCPBallot} (hsorted : cands.Pairwise (· > ·)) :
    (∀ x, findAcceptable ctx l envs cands = .ok (some x) →
      x ∈ cands ∧ canAcceptPrepared ctx l envs x = .ok true ∧
        ∀ y ∈ cands, canAcceptPrepared ctx l envs y = .ok true → y ≤ x) ∧
    (findAcceptable ctx l envs cands = .ok none →
      ∀ y ∈ cands, canAcceptPrepared ctx l envs y ≠ .ok true) ∧
    (∀ e, findAcceptable ctx l envs cands = .error e →
      ∃ y, canAcceptPrepared ctx l envs y = .error e) := by
  induction cands with
  | nil => simp [findAcceptable]
  | cons ballot rest ih =>
    obtain ⟨hhead, hrest⟩ := pairwise_cons.1 hsorted
    obtain ⟨hsome, hnone, herror⟩ := ih hrest
    simp only [findAcceptable]
    cases hcan : canAcceptPrepared ctx l envs ballot with
    | error e =>
      simp only [bind, Except.bind, reduceCtorEq, false_implies, implies_true,
        Except.error.injEq, true_and]
      rintro _ rfl
      exact ⟨ballot, hcan⟩
    | ok b =>
      cases b with
      | true =>
        simp only [bind, Except.bind, if_true, Except.ok.injEq, some.injEq,
          reduceCtorEq, false_implies, implies_true, and_true]
        rintro _ rfl
        refine ⟨mem_cons_self, hcan, fun y hy _ => ?_⟩
        rcases mem_cons.1 hy with rfl | hy
        · exact le_rfl
        · exact (hhead y hy).le
      | false =>
        refine ⟨fun x hx => ⟨mem_cons_of_mem _ (hsome x hx).1, (hsome x hx).2.1,
          fun y hy hacc => ?_⟩, fun h y hy => ?_, herror⟩
        · rcases mem_cons.1 hy with rfl | hy
          · simp [hcan] at hacc
          · exact (hsome x hx).2.2 y hy hacc
        · rcases mem_cons.1 hy with rfl | hy
          · simp [hcan]
          · exact hnone h y hy

/-! ### Confirmed ballots are covered by `p` -/

section Confirmed

variable {k k₀ k₁ : Core}

/-- In the `PREPARE` phase, what the latest own statement accepts as prepared is covered by
`p`. -/
theorem le_prepared_of_own {p : SCPBallot} (hk : k.Inv ctx) (hphase : k.loc.phase = .prepare)
    (hp : k.loc.prepared = some p) (hst : k.envs.lookup ctx.nodeID = some st) :
    (hasPreparedBallot x st = true → x ≤ p) ∧
      ∀ top, x ∈ preparedBelow top st → x ≤ p ∨ x = k.loc.currentBallot.getD {} := by
  have hprime : ∀ p', k.loc.preparedPrime = some p' → p' ≤ p := fun p' hp' =>
    (hk.invariants.primes p p' hp hp').1
  rcases hk.synced with ⟨_, hnone⟩ | ⟨st', hcreate, hlookup⟩
  · simp [hnone] at hst
  · obtain rfl : st' = st := mem_unique hlookup hst
    obtain rfl := (createStatement_eq_ok.1 hcreate).2.eq_prepare hphase
    constructor
    · simp only [hasPreparedBallot, preparePledge, hp, any_some, Bool.or_eq_true,
        areBallotsLessAndCompatible_iff]
      rintro (⟨hle, _⟩ | hany)
      · exact hle
      · cases hp' : k.loc.preparedPrime with
        | none => simp [hp'] at hany
        | some p' =>
          simp only [hp', any_some, areBallotsLessAndCompatible_iff] at hany
          exact hany.1.trans (hprime p' hp')
    · intro top hx
      simp only [preparedBelow, preparePledge, mem_filter, mem_cons,
        mem_append, mem_toList, hp] at hx
      rcases hx.1 with rfl | hx' | hx'
      · exact .inr rfl
      · exact .inl (some.inj hx').ge
      · exact .inl (hprime x hx')

/-- The current ballot is a candidate for every vote above it. -/
theorem current_mem_candidates {b : SCPBallot} (hk : k.Inv ctx) (hphase : k.loc.phase = .prepare)
    (hb : k.loc.currentBallot = some b) (htop : top ∈ hintBallots hint)
    (hle : b ≤ top ∧ b.value = top.value) : b ∈ getPrepareCandidates k.envs hint := by
  rcases hk.synced with ⟨hloc, _⟩ | ⟨st, hcreate, hlookup⟩
  · simp [hloc] at hb
  · refine mem_getPrepareCandidates.2 ⟨top, htop, ctx.nodeID, st, hlookup, ?_⟩
    rw [(createStatement_eq_ok.1 hcreate).2.eq_prepare hphase]
    simp [preparedBelow, preparePledge, hb, hle.1, hle.2]

/-- The unset ballot is below every other. -/
theorem default_le (b : SCPBallot) : ({} : SCPBallot) ≤ b := by
  refine SCPBallot.le_iff.2 ?_
  rcases Nat.eq_zero_or_pos b.counter with h | h
  · refine .inr ⟨h.symm, ?_⟩
    exact not_lt.1 (not_lt_nil b.value)
  · exact .inl h

/-- A candidate that a quorum has prepared is covered by `p`, once every candidate that was
acceptable before is. Between the two scans only own statements changed. -/
theorem confirmed_le_prepared (hk₀ : k₀.Inv ctx) (hk₁ : k₁.Inv ctx) (hahead : Ahead ctx k₀ k₁)
    (hphase : k₁.loc.phase = .prepare)
    (hcurrent : k₁.loc.currentBallot = k₀.loc.currentBallot ∨
      ∃ b p, k₁.loc.currentBallot = some b ∧ k₁.loc.prepared = some p ∧ b ≤ p)
    (hscan : ∀ y ∈ getPrepareCandidates k₀.envs hint,
      canAcceptPrepared ctx k₀.loc k₀.envs y = .ok true →
        ∃ p, k₁.loc.prepared = some p ∧ y ≤ p)
    {p newH : SCPBallot} (hp : k₁.loc.prepared = some p)
    (hcand : newH ∈ getPrepareCandidates k₁.envs hint)
    (hratified : federatedRatify ctx k₁.envs (hasPreparedBallot newH) = true) : newH ≤ p := by
  have hphase₀ : k₀.loc.phase = .prepare := by
    have hle := hahead.phase
    rw [hphase] at hle
    exact SCPPhase.rank_injective (Nat.le_zero.1 hle)
  by_cases hown : ∃ st, k₁.envs.lookup ctx.nodeID = some st ∧ hasPreparedBallot newH st = true
  · obtain ⟨st, hst, hhas⟩ := hown
    exact (le_prepared_of_own hk₁ hphase hp hst).1 hhas
  · -- only peers prepared the ballot, so it could already be accepted at the first scan
    have haccept : federatedAccept ctx k₀.envs (votesPreparedBallot newH)
        (hasPreparedBallot newH) = true := by
      simp only [federatedAccept, Bool.or_eq_true]
      refine .inr (isQuorum_transfer hratified fun v st hst hhas => ?_)
      have hv : v ≠ ctx.nodeID := by
        rintro rfl
        exact hown ⟨st, hst, hhas⟩
      exact ⟨st, (hahead.others v hv).symm.trans hst, by simp [hhas], rfl⟩
    have hcand₀ : newH ≤ p ∨ newH ∈ getPrepareCandidates k₀.envs hint := by
      obtain ⟨top, htop, v, st, hst, hx⟩ := mem_getPrepareCandidates.1 hcand
      by_cases hv : v = ctx.nodeID
      · subst hv
        rcases (le_prepared_of_own hk₁ hphase hp hst).2 top hx with hle | hcur
        · exact .inl hle
        · cases hb : k₁.loc.currentBallot with
          | none =>
            rw [hcur, hb]
            exact .inl (default_le p)
          | some b =>
            rw [hb, getD_some] at hcur
            subst hcur
            rcases hcurrent with hsame | ⟨b', p', hb', hp', hle⟩
            · have hb₀ : k₀.loc.currentBallot = some newH := hsame.symm.trans hb
              exact .inr (current_mem_candidates hk₀ hphase₀ hb₀ htop (preparedBelow_le hx))
            · obtain rfl : newH = b' := mem_unique hb hb'
              obtain rfl : p = p' := mem_unique hp hp'
              exact .inl hle
      · rw [hahead.others v hv] at hst
        exact .inr (mem_getPrepareCandidates.2 ⟨top, htop, v, st, hst, hx⟩)
    rcases hcand₀ with hle | hcand₀
    · exact hle
    · by_cases hcan : canAcceptPrepared ctx k₀.loc k₀.envs newH = .ok true
      · obtain ⟨p', hp', hle⟩ := hscan newH hcand₀ hcan
        exact mem_unique hp' hp ▸ hle
      · -- it was skipped because p or p' already covered it
        have hskip : ∃ p₀, k₀.loc.prepared = some p₀ ∧ newH ≤ p₀ := by
          by_contra hnot
          refine hcan (canAcceptPrepared_eq_true.2 ⟨by simp [hphase₀], ?_, ?_, haccept⟩)
          · intro p' hp'
            obtain ⟨p₀, hp₀⟩ := isSome_iff_exists.1 (hk₀.consistent.prime (by simp [hp']))
            refine not_le.1 fun hle => hnot ⟨p₀, hp₀, ?_⟩
            exact hle.trans (hk₀.invariants.primes p₀ p' hp₀ hp').1
          · exact fun p₀ hp₀ hcov => hnot ⟨p₀, hp₀, hcov.1⟩
        obtain ⟨p₀, hp₀, hle₀⟩ := hskip
        obtain ⟨p₁, hp₁, hle₁⟩ := hahead.prepared p₀ hp₀
        exact mem_unique hp₁ hp ▸ hle₀.trans hle₁

/-- A hint that may get a commit accepted votes for a ballot on its value that is itself a
candidate. -/
theorem exists_top_of_commitHint (h : commitHint hint = some ballot) :
    ∃ top ∈ hintBallots hint, top.value = ballot.value ∧ top ∈ preparedBelow top hint := by
  cases hst : hint.pledges with
  | prepare q =>
    simp only [commitHint, hst] at h
    split at h
    · obtain rfl := some.inj h
      exact ⟨q.ballot, by simp [hintBallots, hst], rfl, by simp [preparedBelow, hst]⟩
    · cases h
  | confirm c =>
    simp only [commitHint, hst, some.injEq] at h
    subst h
    exact ⟨⟨UINT32_MAX, c.ballot.value⟩, by simp [hintBallots, hst], rfl,
      by simp [preparedBelow, hst]⟩
  | externalize e =>
    simp only [commitHint, hst, some.injEq] at h
    subst h
    exact ⟨⟨UINT32_MAX, e.commit.value⟩, by simp [hintBallots, hst], rfl,
      by simp [preparedBelow, hst]⟩

/-- While nothing is accepted as prepared, a hint that gets a commit accepted also gets a ballot
accepted as prepared: the lowest candidate on its value. -/
theorem exists_acceptable_of_commit {cur : Interval} (hk : k.Inv ctx)
    (hphase : k.loc.phase = .prepare) (hnone : k.loc.prepared = none)
    (hhint : k.envs.lookup hint.nodeID = some hint) (hballot : commitHint hint = some ballot)
    (hacc : federatedAccept ctx k.envs (votesCommit ballot cur) (commitPredicate ballot cur) =
      true) :
    ∃ y ∈ getPrepareCandidates k.envs hint,
      canAcceptPrepared ctx k.loc k.envs y = .ok true := by
  obtain ⟨top, htop, hval, hself⟩ := exists_top_of_commitHint hballot
  have hmem : ∀ v st x, k.envs.lookup v = some st → x ∈ preparedBelow top st →
      x ∈ getPrepareCandidates k.envs hint := fun v st x hst hx =>
    mem_getPrepareCandidates.2 ⟨top, htop, v, st, hst, hx⟩
  have htopmem := hmem _ _ _ hhint hself
  obtain ⟨x, hx, hmin⟩ := Finset.exists_min_image
    ((getPrepareCandidates k.envs hint).filter (·.value = ballot.value)).toFinset id
    ⟨top, by simp [htopmem, hval]⟩
  simp only [List.mem_toFinset, List.mem_filter, decide_eq_true_eq, id, and_imp] at hx hmin
  have hxtop : x ≤ top := hmin top htopmem hval
  have hxbelow : ∀ v st y, k.envs.lookup v = some st → y ∈ preparedBelow top st → x ≤ y :=
    fun v st y hst hy => hmin y (hmem v st y hst hy) ((preparedBelow_le hy).2.trans hval)
  refine ⟨x, hx.1, canAcceptPrepared_eq_true.2 ⟨by simp [hphase], ?_, by simp [hnone], ?_⟩⟩
  · intro p' hp'
    have := hk.consistent.prime (by simp [hp'])
    simp [hnone] at this
  simp only [federatedAccept, Bool.or_eq_true] at hacc ⊢
  rcases hacc with hblock | hquorum
  · refine .inl (isVBlockingWith_transfer hblock fun v st hst hpred => ⟨st, hst, ?_⟩)
    cases hpl : st.pledges with
    | prepare q => simp [commitPredicate, hpl] at hpred
    | confirm c =>
      simp only [commitPredicate, hpl, Bool.and_eq_true, areBallotsCompatible_iff] at hpred
      have hcval : top.value = c.ballot.value := hval.trans hpred.1
      simp only [hasPreparedBallot, hpl, areBallotsLessAndCompatible_iff]
      refine ⟨?_, hx.2.trans hpred.1⟩
      by_cases hlt : c.nPrepared < top.counter
      · have hle := hxbelow v st ⟨c.nPrepared, top.value⟩ hst
          (by simp [preparedBelow, hpl, hcval, hlt])
        rwa [hcval] at hle
      · exact hxtop.trans ((SCPBallot.le_iff_counter
          (b := ⟨c.nPrepared, c.ballot.value⟩) hcval).2 (not_lt.1 hlt))
    | externalize e =>
      simp only [commitPredicate, hpl, Bool.and_eq_true, areBallotsCompatible_iff] at hpred
      simpa [hasPreparedBallot, hpl] using hx.2.trans hpred.1
  · refine .inr (isQuorum_transfer hquorum fun v st hst hpred => ⟨st, hst, ?_, rfl⟩)
    have hvotes : votesPreparedBallot x st = true := by
      cases hpl : st.pledges with
      | prepare q =>
        simp only [commitPredicate, votesCommit, hpl, Bool.false_or, Bool.and_eq_true,
          areBallotsCompatible_iff] at hpred
        have hqval : q.ballot.value = top.value := (hval.trans hpred.1).symm
        simp only [votesPreparedBallot, hpl, areBallotsLessAndCompatible_iff]
        refine ⟨?_, hx.2.trans hpred.1⟩
        rcases le_or_gt q.ballot top with hle | hlt
        · exact hxbelow v st q.ballot hst (by simp [preparedBelow, hpl, hle, hqval])
        · exact hxtop.trans hlt.le
      | confirm c =>
        have hcval : ballot.value = c.ballot.value := by
          simp only [commitPredicate, votesCommit, hpl, Bool.or_eq_true, Bool.and_eq_true,
            areBallotsCompatible_iff] at hpred
          tauto
        simpa [votesPreparedBallot, hpl] using hx.2.trans hcval
      | externalize e =>
        have hcval : ballot.value = e.commit.value := by
          simp only [commitPredicate, votesCommit, hpl, Bool.or_eq_true, Bool.and_eq_true,
            areBallotsCompatible_iff] at hpred
          tauto
        simpa [votesPreparedBallot, hpl] using hx.2.trans hcval
    simp [hvotes]

end Confirmed

/-! ### The other scans -/

/-- The ballot found for `h` is ratified and above the present `h`. -/
theorem findNewH_spec {cands rest : List SCPBallot} {newH : SCPBallot}
    (h : findNewH ctx l envs cands = newH :: rest) :
    newH ∈ cands ∧ (∀ h, l.highBallot = some h → h < newH) ∧
      federatedRatify ctx envs (hasPreparedBallot newH) = true := by
  induction cands with
  | nil => simp [findNewH] at h
  | cons ballot cands ih =>
    simp only [findNewH] at h
    split at h
    · cases h
    case isFalse hhigh =>
      split at h
      case isTrue hratified =>
        obtain ⟨rfl, rfl⟩ := List.cons.inj h
        refine ⟨mem_cons_self, fun h hh => ?_, hratified⟩
        simpa [hh, compareBallots_eq, compare_lt_iff_lt] using hhigh
      case isFalse =>
        obtain ⟨hmem, hrest⟩ := ih h
        exact ⟨mem_cons_of_mem _ hmem, hrest⟩

/-- The ballot found for `c` is unset, or lies between `b` and `newH` on the value of `newH`. -/
theorem findNewC_spec (ctx : Context) (envs : FMap NodeID SCPStatement) (b newH newC : SCPBallot)
    (cands : List SCPBallot) :
    findNewC ctx envs b newH newC cands = newC ∨
      b ≤ findNewC ctx envs b newH newC cands ∧
        findNewC ctx envs b newH newC cands ≤ newH ∧
        (findNewC ctx envs b newH newC cands).value = newH.value := by
  induction cands generalizing newC with
  | nil => exact .inl rfl
  | cons ballot cands ih =>
    simp only [findNewC]
    split
    · exact .inl rfl
    case isFalse hge =>
      have hge : b ≤ ballot := by simpa [compareBallots_eq, compare_lt_iff_lt] using hge
      split
      · exact ih newC
      case isFalse hcompat =>
        have hcompat : ballot ≤ newH ∧ ballot.value = newH.value := by simpa using hcompat
        split
        · refine .inr ?_
          rcases ih ballot with h | h
          · rw [h]
            exact ⟨hge, hcompat⟩
          · exact h
        · exact .inl rfl

/-- Only the value of the ballot matters for commit votes. -/
theorem votesCommit_congr {a b : SCPBallot} (h : a.value = b.value) (cur : Interval) :
    votesCommit a cur = votesCommit b cur ∧ commitPredicate a cur = commitPredicate b cur := by
  constructor <;> funext st <;>
    cases hst : st.pledges <;> simp [votesCommit, commitPredicate, hst, areBallotsCompatible, h]

end SpnCore.Scp
