import SpnCore.Scp.RefineUpdates

/-!
# `advanceSlot` takes steps

The `attempt` methods only make changes whose guard holds, so `advanceSlot` is a run of steps at
every level. The loop around `attemptBump` ends: each round passes the counter of a peer, or the
phase advances. A call of a slot is therefore a run of steps, too.
-/

namespace SpnCore.Scp

open Lib Relation List

variable {ctx : Context} {advance : SCPStatement → SlotM Unit} {s : BallotState}
  {hint : SCPStatement}

/-! ### Steps that accept -/

/-- Between two points of one `advanceSlot` on `hint`: it was recorded when the slot was entered
at `k₀`, and every ballot that could be accepted as prepared then is covered by `p` now. -/
structure Scanned (ctx : Context) (hint : SCPStatement) (k₀ k : Core) : Prop where
  inv : k₀.Inv ctx
  recorded : k₀.envs.lookup hint.nodeID = some hint
  run : ReflTransGen (InnerStep ctx) k₀ k
  covered : k₀.loc.phase = .prepare → ∀ y ∈ getPrepareCandidates k₀.envs hint,
    canAcceptPrepared ctx k₀.loc k₀.envs y = .ok true → ∃ p, k.loc.prepared = some p ∧ y ≤ p

variable {k k₀ : Core} {t : BallotState} {ballot : SCPBallot} {P : ScpError → Prop}
  {Q : BallotState → Prop} {E : ScpError → BallotState → Prop} {R : Core → Core → Prop}

theorem Scanned.trans {k' : Core} (h : Scanned ctx hint k₀ k)
    (hrun : ReflTransGen (InnerStep ctx) k k') : Scanned ctx hint k₀ k' where
  __ := h
  run := h.run.trans hrun
  covered := by
    intro hphase y hy hcan
    obtain ⟨p, hp, hle⟩ := h.covered hphase y hy hcan
    obtain ⟨p', hp', hle'⟩ := (ahead_of_own (own_of_inner hrun)).prepared p hp
    exact ⟨p', hp', hle.trans hle'⟩

theorem Returns.inner (hlevel : s.currentMessageLevel ≠ 0)
    (h : Returns ctx (LevelStep ctx s.currentMessageLevel) s t) : Returns ctx (InnerStep ctx) s t :=
  ⟨inner_of_level hlevel h.steps, h.inv, h.emissions, h.level⟩

theorem Returns.refl (hinv : s.core.Inv ctx) (hem : Emissions ctx s) : Returns ctx R s s :=
  ⟨.refl, hinv, hem, rfl⟩

theorem Returns.trans {s r : BallotState} (h₁ : Returns ctx R s t) (h₂ : Returns ctx R t r) :
    Returns ctx R s r :=
  ⟨h₁.steps.trans h₂.steps, h₂.inv, h₂.emissions, h₂.level.trans h₁.level⟩

theorem Returns.quiet {s r : BallotState} (h : Returns ctx R s t) (hr : Quiet ctx t r) :
    Returns ctx R s r :=
  ⟨hr.core ▸ h.steps, hr.core ▸ h.inv, hr.emissions h.emissions, hr.level.trans h.level⟩

theorem Returns.own (h : Returns ctx (InnerStep ctx) s t) : Returns ctx (OwnStep ctx) s t :=
  ⟨own_of_inner h.steps, h.inv, h.emissions, h.level⟩

theorem Returns.fails {r : BallotState} {e : ScpError} (h : Returns ctx (OwnStep ctx) s t)
    (hr : FailsIn ctx P t.core e r) : FailsIn ctx P s.core e r :=
  hr.of_steps h.steps

theorem Returns.advances (h : Returns ctx R s t)
    (hadv : AdvanceFrom ctx advance P s.currentMessageLevel) :
    AdvanceFrom ctx advance P t.currentMessageLevel :=
  h.level ▸ hadv

/-- A ballot found acceptable meets the guard. -/
theorem guard_of_canAcceptPrepared (hext : k.loc.phase ≠ .externalize)
    (h : canAcceptPrepared ctx k.loc k.envs ballot = .ok true) :
    Guard ctx k (.preparedAccept ballot) :=
  ⟨hext, canAcceptPrepared_eq_true.1 h⟩

/-- After a ballot was accepted, `p` covers it. -/
theorem le_prepared_of_apply {k' : Core} (hguard : Guard ctx k (.preparedAccept ballot))
    (hloc : k'.loc = (Update.preparedAccept ballot).apply k.loc) :
    ∃ p, k'.loc.prepared = some p ∧ ballot ≤ p := by
  obtain ⟨_, _, hprime, hcovered, _⟩ := hguard
  rw [hloc]
  rcases preparedAccept_cases hprime hcovered with ⟨hp, _⟩ | ⟨p, _, hlt, _, hp, _⟩
  · exact ⟨ballot, hp, le_rfl⟩
  · exact ⟨p, hp, hlt.le⟩

theorem attemptPreparedAccept_rule (hinv : s.core.Inv ctx)
    (hidle : (s.phase ≠ .externalize → ∀ y ∈ getPrepareCandidates s.latestEnvelopes hint,
      canAcceptPrepared ctx s.toLocalState s.latestEnvelopes y ≠ .ok true) → Q s)
    (hset : ∀ x ∈ getPrepareCandidates s.latestEnvelopes hint,
      canAcceptPrepared ctx s.toLocalState s.latestEnvelopes x = .ok true →
      (∀ y ∈ getPrepareCandidates s.latestEnvelopes hint,
        canAcceptPrepared ctx s.toLocalState s.latestEnvelopes y = .ok true → y ≤ x) →
      Guard ctx s.core (.preparedAccept x) →
      wp (setPreparedAccept ctx advance x) (fun _ => Q) E s)
    (herror : E .incompatibleWithCommit s) :
    wp (attemptPreparedAccept ctx advance hint) (fun _ => Q) E s := by
  have hsorted : (getPrepareCandidates s.latestEnvelopes hint).Pairwise (· > ·) :=
    descending_pairwise
  obtain ⟨hsome, hnone, hfail⟩ :=
    findAcceptable_spec ctx s.toLocalState s.latestEnvelopes hsorted
  unfold attemptPreparedAccept
  simp only [wp_bind, wp_get, wp_ite, wp_pure, wp_runExcept]
  refine ⟨fun hext => hidle fun h => absurd hext h,
    fun hext => ⟨fun found hfound => ?_, fun e he => ?_⟩⟩
  · cases found with
    | none => exact wp_pure.2 (hidle fun _ => hnone hfound)
    | some x =>
      obtain ⟨hmem, hcan, hmax⟩ := hsome x hfound
      exact hset x hmem hcan hmax (guard_of_canAcceptPrepared hext hcan)
  · obtain ⟨y, hy⟩ := hfail e he
    rw [canAcceptPrepared_error (fun hphase => ⟨(hinv.consistent.confirm (by simp [hphase])).1,
      hinv.invariants.confirm hphase⟩) hy]
    exact herror

/-- The ballot that is confirmed prepared meets the guard. -/
theorem guard_preparedConfirmed (hscan : Scanned ctx hint k₀ k) (hinv : k.Inv ctx)
    (hphase : k.loc.phase = .prepare) (hprepared : k.loc.prepared.isSome) {newH : SCPBallot}
    {rest : List SCPBallot}
    (hfound : findNewH ctx k.loc k.envs (getPrepareCandidates k.envs hint) = newH :: rest) :
    Guard ctx k (.preparedConfirmed
      (if mayVoteCommit k.loc newH then
        findNewC ctx k.envs (k.loc.currentBallot.getD {}) newH {} (newH :: rest)
      else {}) newH) := by
  obtain ⟨p, hp⟩ := Option.isSome_iff_exists.1 hprepared
  obtain ⟨hmem, hhigh, hratified⟩ := findNewH_spec hfound
  have hahead := ahead_of_own (own_of_inner hscan.run)
  have hphase₀ : k₀.loc.phase = .prepare := by
    have hle := hahead.phase
    rw [hphase] at hle
    exact SCPPhase.rank_injective (Nat.le_zero.1 hle)
  have hle : newH ≤ p := confirmed_le_prepared hscan.inv hinv hahead hphase
    (current_of_inner hscan.run hphase) (hscan.covered hphase₀) hp hmem hratified
  refine ⟨hphase, ⟨p, hp, hle⟩, hhigh, hratified, fun hne => ?_⟩
  split at hne
  case isFalse => exact absurd rfl hne
  case isTrue hmay =>
    rw [if_pos hmay]
    simp only [mayVoteCommit, Bool.and_eq_true, Option.isNone_iff_eq_none] at hmay
    rcases findNewC_spec ctx k.envs (k.loc.currentBallot.getD {}) newH {} (newH :: rest) with
      heq | ⟨hge, hle, hval⟩
    · rw [heq] at hne
      exact absurd rfl hne
    · exact ⟨hmay.1.1, hle, hval, hge⟩

theorem attemptPreparedConfirmed_rule (hinv : s.core.Inv ctx) (hscan : Scanned ctx hint k₀ s.core)
    (hidle : (s.phase = .prepare → s.prepared.isSome →
      findNewH ctx s.toLocalState s.latestEnvelopes
        (getPrepareCandidates s.latestEnvelopes hint) = []) → Q s)
    (hset : ∀ newC newH rest, findNewH ctx s.toLocalState s.latestEnvelopes
        (getPrepareCandidates s.latestEnvelopes hint) = newH :: rest →
      Guard ctx s.core (.preparedConfirmed newC newH) →
      wp (setPreparedConfirmed ctx advance newC newH) (fun _ => Q) E s) :
    wp (attemptPreparedConfirmed ctx advance hint) (fun _ => Q) E s := by
  unfold attemptPreparedConfirmed
  simp only [wp_bind, wp_get, wp_ite, wp_pure]
  refine ⟨fun h => hidle fun hphase => absurd hphase h, fun hphase =>
    ⟨fun hnone => hidle fun _ hsome => ?_, fun hprepared => ?_⟩⟩
  · simp [Option.isNone_iff_eq_none.1 hnone] at hsome
  rw [not_not] at hphase
  rw [Option.isNone_iff_eq_none, ← ne_eq, Option.ne_none_iff_isSome] at hprepared
  split
  case h_1 hfound => exact wp_pure.2 (hidle fun _ _ => hfound)
  case h_2 newH rest hfound =>
    exact hset _ newH rest hfound (guard_preparedConfirmed hscan hinv hphase hprepared hfound)

/-! ### Steps that commit -/

/-- When a commit is accepted, some ballot was accepted as prepared before. -/
theorem prepared_of_acceptCommit (hscan : Scanned ctx hint k₀ k) (hinv : k.Inv ctx) {cur : Interval}
    (hballot : commitHint hint = some ballot) (hacc : federatedAccept ctx k.envs (votesCommit
      ballot cur) (commitPredicate ballot cur) = true) : k.loc.prepared.isSome := by
  by_cases hphase : k.loc.phase = .prepare
  swap
  · exact (hinv.consistent.confirm hphase).1
  rw [← Option.ne_none_iff_isSome]
  intro hnone
  -- nothing changed since the slot was entered, so the scan would have found a ballot
  obtain ⟨hloc, henvs⟩ := unchanged_of_prepared_none hscan.run hscan.inv hnone
  rw [hloc] at hnone hphase
  rw [henvs] at hacc
  obtain ⟨y, hy, hcan⟩ :=
    exists_acceptable_of_commit hscan.inv hphase hnone hscan.recorded hballot hacc
  obtain ⟨p, hp, _⟩ := hscan.covered hphase y hy hcan
  rw [hloc, hnone] at hp
  cases hp

/-- The interval whose commit is accepted meets the guard. -/
theorem guard_acceptCommit (hscan : Scanned ctx hint k₀ k) (hinv : k.Inv ctx)
    (hext : k.loc.phase ≠ .externalize) (hballot : commitHint hint = some ballot)
    (hset : (acceptedInterval ctx k.envs ballot).1 ≠ 0) (hconfirm : k.loc.phase = .confirm → ∃ h₀,
      k.loc.highBallot = some h₀ ∧ ballot.value = h₀.value ∧ h₀.counter < (acceptedInterval ctx
      k.envs ballot).2) :
    Guard ctx k (.acceptCommit ⟨(acceptedInterval ctx k.envs ballot).1, ballot.value⟩
      ⟨(acceptedInterval ctx k.envs ballot).2, ballot.value⟩) := by
  obtain ⟨hacc, hle⟩ := (acceptedInterval_largest hset).passes
  refine ⟨hext, prepared_of_acceptCommit hscan hinv hballot hacc, rfl, Nat.pos_of_ne_zero hset,
    hle, ?_, fun hphase => ?_⟩
  · exact hacc
  · obtain ⟨h₀, hh₀, hval, hlt⟩ := hconfirm hphase
    exact ⟨h₀, hh₀, hval.symm, hlt⟩

theorem isOnHighBallot_eq_true {l : LocalState} :
    isOnHighBallot l ballot = .ok true ↔
      (l.phase = .confirm → ∃ h, l.highBallot = some h ∧ ballot.value = h.value) := by
  unfold isOnHighBallot
  cases l.phase with
  | prepare => simp
  | externalize => simp
  | confirm => simp [bind_eq_ok]

theorem attemptAcceptCommit_rule (hinv : s.core.Inv ctx) (hscan : Scanned ctx hint k₀ s.core)
    (hidle : Q s)
    (hset : ∀ ballot, Guard ctx s.core
        (.acceptCommit ⟨(acceptedInterval ctx s.latestEnvelopes ballot).1, ballot.value⟩
          ⟨(acceptedInterval ctx s.latestEnvelopes ballot).2, ballot.value⟩) →
      wp (setAcceptCommit ctx advance
        ⟨(acceptedInterval ctx s.latestEnvelopes ballot).1, ballot.value⟩
        ⟨(acceptedInterval ctx s.latestEnvelopes ballot).2, ballot.value⟩) (fun _ => Q) E s) :
    wp (attemptAcceptCommit ctx advance hint) (fun _ => Q) E s := by
  unfold attemptAcceptCommit
  simp only [wp_bind, wp_get, wp_ite, wp_pure]
  refine ⟨fun _ => hidle, fun hext => ?_⟩
  split
  · exact wp_pure.2 hidle
  case h_2 ballot hballot =>
    simp only [wp_bind, wp_runExcept, wp_ite, wp_pure]
    refine ⟨fun compatible hcompat => ⟨fun hfound => hset ballot ?_, fun _ => hidle⟩,
      fun e he => ?_⟩
    · obtain ⟨rfl, hgood, hgrows⟩ := hfound
      refine guard_acceptCommit hscan hinv hext hballot hgood fun hphase => ?_
      obtain ⟨h₀, hh₀, hval⟩ := isOnHighBallot_eq_true.1 hcompat hphase
      have hlt := hgrows.resolve_left (not_not.2 hphase)
      rw [show s.highBallot = some h₀ from hh₀] at hlt
      have hlt' : h₀.counter < (acceptedInterval ctx s.latestEnvelopes ballot).2 := by
        simpa using hlt
      exact ⟨h₀, hh₀, hval, hlt'⟩
    · -- h is set in the CONFIRM phase
      exfalso
      unfold isOnHighBallot at he
      cases hphase : s.phase with
      | prepare => simp [hphase] at he
      | externalize => exact hext hphase
      | confirm =>
        obtain ⟨c, hc⟩ := Option.isSome_iff_exists.1 (hinv.invariants.confirm hphase)
        obtain ⟨h, hh, _⟩ := hinv.invariants.commit c hc
        have hh' : s.highBallot = some h := hh
        simp [hphase, hh', deref, bind, Except.bind] at he

/-- The interval whose commit is confirmed meets the guard. -/
theorem guard_confirmCommit (hphase : k.loc.phase = .confirm) {c : SCPBallot}
    (hc : k.loc.commit = some c) (hcompat : ballot.value = c.value)
    (hset : (ratifiedInterval ctx k.envs ballot).1 ≠ 0) :
    Guard ctx k (.confirmCommit ⟨(ratifiedInterval ctx k.envs ballot).1, ballot.value⟩
      ⟨(ratifiedInterval ctx k.envs ballot).2, ballot.value⟩) := by
  obtain ⟨hratified, hle⟩ := (ratifiedInterval_largest hset).passes
  refine ⟨hphase, rfl, Nat.pos_of_ne_zero hset, hle, ⟨c, hc, hcompat.symm⟩, ?_⟩
  exact hratified

theorem attemptConfirmCommit_rule (hidle : Q s)
    (hset : ∀ c h, Guard ctx s.core (.confirmCommit c h) →
      wp (setConfirmCommit ctx advance c h) (fun _ => Q) E s) :
    wp (attemptConfirmCommit ctx advance hint) (fun _ => Q) E s := by
  unfold attemptConfirmCommit
  simp only [wp_bind, wp_get, wp_ite, wp_pure]
  refine ⟨fun _ => hidle, fun hphase => ?_⟩
  rw [not_not] at hphase
  split
  case h_1 h c ballot _ hc _ =>
    rw [wp_ite, wp_pure]
    refine ⟨fun hfound => hset _ _ ?_, fun _ => hidle⟩
    exact guard_confirmCommit hphase hc (by simpa using hfound.1) hfound.2
  · exact wp_pure.2 hidle

/-! ### The loop around `attemptBump` -/

/-- The peers whose statement is above a counter. -/
def peersAbove (ctx : Context) (k : Core) (n : Nat) : Finset NodeID :=
  (FMap.keysWhere (fun st => n < bumpCounter st) k.envs).toFinset.erase ctx.nodeID

/-- All peers with a statement. -/
def peers (ctx : Context) (k : Core) : Finset NodeID :=
  (FMap.keysWhere (fun _ => true) k.envs).toFinset.erase ctx.nodeID

/-- The counter of the current ballot. -/
def LocalState.counter (l : LocalState) : Nat :=
  (l.currentBallot.map SCPBallot.counter).getD 0

/-- An upper bound on the remaining rounds of the loop around `attemptBump`: in one phase every
round passes the counter of a peer. -/
def roundsLeft (ctx : Context) (k : Core) : Nat :=
  match k.loc.phase with
  | .prepare => (peers ctx k).card + 2 + (peersAbove ctx k k.loc.counter).card
  | .confirm => 1 + (peersAbove ctx k k.loc.counter).card
  | .externalize => 0

section Rounds

variable {k k' : Core} {n : Nat} {v : NodeID}

theorem mem_peersAbove : v ∈ peersAbove ctx k n ↔
    v ≠ ctx.nodeID ∧ ∃ st, k.envs.lookup v = some st ∧ n < bumpCounter st := by
  simp [peersAbove]

theorem mem_peers : v ∈ peers ctx k ↔ v ≠ ctx.nodeID ∧ ∃ st, k.envs.lookup v = some st := by
  simp [peers]

theorem peersAbove_subset {n : Nat} : peersAbove ctx k n ⊆ peers ctx k := by
  intro v hv
  obtain ⟨hne, st, hst, _⟩ := mem_peersAbove.1 hv
  exact mem_peers.2 ⟨hne, st, hst⟩

theorem peers_eq_of_ahead (h : Ahead ctx k k') : peers ctx k' = peers ctx k := by
  ext v
  simp only [mem_peers]
  exact and_congr_right fun hne => by rw [h.others v hne]

theorem peersAbove_eq_of_ahead (h : Ahead ctx k k') (n : Nat) :
    peersAbove ctx k' n = peersAbove ctx k n := by
  ext v
  simp only [mem_peersAbove]
  exact and_congr_right fun hne => by rw [h.others v hne]

/-- The loop starts with fewer rounds left than its bound. -/
theorem roundsLeft_lt (ctx : Context) (k : Core) :
    roundsLeft ctx k < 2 * k.envs.entries.length + 3 := by
  have hpeers : (peers ctx k).card ≤ k.envs.entries.length := by
    calc (peers ctx k).card
        ≤ (FMap.keysWhere (fun _ => true) k.envs).toFinset.card :=
          Finset.card_le_card (Finset.erase_subset _ _)
      _ ≤ (FMap.keysWhere (fun _ => true) k.envs).length := toFinset_card_le _
      _ ≤ k.envs.entries.length := by
          rw [FMap.keysWhere, length_map]
          exact length_filter_le _ _
  have habove : (peersAbove ctx k k.loc.counter).card ≤ (peers ctx k).card :=
    Finset.card_le_card peersAbove_subset
  unfold roundsLeft
  split <;> omega

/-- The counter of the latest own statement is that of the current ballot. -/
theorem bumpCounter_own {st : SCPStatement} (hk : k.Inv ctx) (hext : k.loc.phase ≠ .externalize)
    (hst : k.envs.lookup ctx.nodeID = some st) : bumpCounter st = k.loc.counter := by
  rcases hk.synced with ⟨_, hnone⟩ | ⟨st', hcreate, hlookup⟩
  · simp [hnone] at hst
  · obtain rfl : st' = st := Option.mem_unique hlookup hst
    cases (createStatement_eq_ok.1 hcreate).2 with
    | prepare =>
      cases hb : k.loc.currentBallot <;>
        simp [bumpCounter, preparePledge, LocalState.counter, hb]
    | confirm b _ _ _ _ hb => simp [bumpCounter, LocalState.counter, hb]
    | externalize _ _ hphase => exact absurd hphase hext

/-- The scan finds a counter of the list that is above the target. -/
theorem scanCounters_spec {envs : FMap NodeID SCPStatement} {target : Nat} {ns : List Nat}
    (h : scanCounters ctx envs target ns = some n) : target < n ∧ n ∈ ns := by
  induction ns with
  | nil => simp [scanCounters] at h
  | cons m ns ih =>
    simp only [scanCounters] at h
    split at h
    · cases h
    case isFalse hge =>
      split at h
      · exact (ih h).imp_right (mem_cons_of_mem _)
      · split at h
        · cases h
        case isFalse hne =>
          obtain rfl := Option.some.inj h
          exact ⟨by omega, mem_cons_self⟩

variable (hk : k.Inv ctx) (hext : k.loc.phase ≠ .externalize)
  (h : bumpTarget ctx k.loc k.envs = some n)
include hk hext h

/-- `attemptBump` moves to the counter of a peer above the current one. -/
theorem bumpTarget_spec : k.loc.counter < n ∧
      ∃ v st, v ≠ ctx.nodeID ∧ k.envs.lookup v = some st ∧ bumpCounter st = n := by
  obtain ⟨hlt, hmem⟩ := scanCounters_spec h
  refine ⟨hlt, ?_⟩
  simp only [mem_ascending, mem_cons, mem_map] at hmem
  rcases hmem with rfl | ⟨⟨v, st⟩, hst, rfl⟩
  · exact absurd hlt (lt_irrefl _)
  · have hst' := FMap.mem_entries.1 hst
    refine ⟨v, st, ?_, hst', rfl⟩
    rintro rfl
    exact absurd hlt (bumpCounter_own hk hext hst' ▸ lt_irrefl _)

/-- A round that moved leaves fewer rounds. -/
theorem roundsLeft_of_bumped (hbumped : Bumped ctx n k k') :
    roundsLeft ctx k' < roundsLeft ctx k := by
  obtain ⟨hlt, v, st, hne, hst, hn⟩ := bumpTarget_spec hk hext h
  obtain ⟨k₁, hstep, hphase₁, ⟨b₁, hb₁, hcounter₁⟩, hrun⟩ := hbumped
  have hahead₁ := ahead_of_own hrun
  have hahead := (ahead_of_own (.single hstep)).trans hahead₁
  have hpeers : (peers ctx k').card = (peers ctx k).card := by rw [peers_eq_of_ahead hahead]
  have hbound : (peersAbove ctx k' k'.loc.counter).card ≤ (peers ctx k').card :=
    Finset.card_le_card peersAbove_subset
  -- in the same phase the peer at n is passed
  have hpassed : k'.loc.phase = k.loc.phase →
      (peersAbove ctx k' k'.loc.counter).card < (peersAbove ctx k k.loc.counter).card := by
    intro hphase
    obtain ⟨b', hb', hle⟩ := hahead₁.current (hphase.trans hphase₁.symm) b₁ hb₁
    have hcounter : n ≤ k'.loc.counter := by
      have := SCPBallot.counter_le hle
      simp only [LocalState.counter, hb', Option.map_some, Option.getD_some]
      omega
    rw [peersAbove_eq_of_ahead hahead]
    refine Finset.card_lt_card ⟨fun w hw => ?_, fun hsub => ?_⟩
    · obtain ⟨hw, st', hst', hlt'⟩ := mem_peersAbove.1 hw
      exact mem_peersAbove.2 ⟨hw, st', hst', by omega⟩
    · obtain ⟨_, st', hst', hlt'⟩ :=
        mem_peersAbove.1 (hsub (mem_peersAbove.2 ⟨hne, st, hst, by omega⟩))
      obtain rfl : st = st' := Option.mem_unique hst hst'
      omega
  have hrank := hahead.phase
  cases hp : k.loc.phase with
  | externalize => exact absurd hp hext
  | prepare =>
    cases hp' : k'.loc.phase with
    | prepare =>
      have := hpassed (hp'.trans hp.symm)
      simp only [roundsLeft, hp, hp']
      omega
    | confirm | externalize =>
      simp only [roundsLeft, hp, hp']
      omega
  | confirm =>
    cases hp' : k'.loc.phase with
    | prepare => simp [hp, hp', SCPPhase.rank] at hrank
    | confirm =>
      have := hpassed (hp'.trans hp.symm)
      simp only [roundsLeft, hp, hp']
      omega
    | externalize =>
      simp only [roundsLeft, hp, hp']
      omega

end Rounds

section

variable (hadv : AdvanceFrom ctx advance P s.currentMessageLevel) (hinv : s.core.Inv ctx)
  (hem : Emissions ctx s)
include hadv hinv hem

theorem attemptPreparedAccept_spec (hlevel : s.currentMessageLevel ≠ 0)
    (hhint : s.latestEnvelopes.lookup hint.nodeID = some hint) :
    wp (attemptPreparedAccept ctx advance hint)
      (fun _ t => Returns ctx (InnerStep ctx) s t ∧ Scanned ctx hint s.core t.core)
      (FailsIn ctx P s.core) s := by
  refine attemptPreparedAccept_rule hinv (fun hnone => ?_) (fun x _ hcan hmax hguard => ?_) ?_
  · refine ⟨.refl hinv hem, hinv, hhint, .refl, fun hphase y hy hcan => ?_⟩
    exact absurd hcan (hnone (by rw [show s.phase = .prepare from hphase]; decide) y hy)
  · refine wp_imp (setPreparedAccept_spec hadv hinv hem hguard) fun _ t ht => ?_
    have hreturns := ht.toReturns.inner hlevel
    refine ⟨hreturns, hinv, hhint, hreturns.steps, fun _ y hy hy' => ?_⟩
    obtain ⟨k₁, hloc, hrun⟩ := ht.after
    obtain ⟨p, hp, hle⟩ := le_prepared_of_apply hguard hloc
    obtain ⟨p', hp', hle'⟩ := (ahead_of_own (own_of_level hrun)).prepared p hp
    exact ⟨p', hp', (hmax y hy hy').trans (hle.trans hle')⟩
  · exact ⟨⟨hem, s.core, .refl, rfl, rfl, .inr (.inr (.inl rfl))⟩, hadv.other _ rfl⟩

theorem attemptPreparedConfirmed_spec (hlevel : s.currentMessageLevel ≠ 0)
    (hscan : Scanned ctx hint k₀ s.core) :
    wp (attemptPreparedConfirmed ctx advance hint)
      (fun _ => Returns ctx (InnerStep ctx) s) (FailsIn ctx P s.core) s :=
  attemptPreparedConfirmed_rule hinv hscan (fun _ => .refl hinv hem) fun _ _ _ _ hguard =>
    wp_imp (setPreparedConfirmed_spec hadv hinv hem hguard) (fun _ _ ht => ht.inner hlevel)

theorem attemptAcceptCommit_spec (hlevel : s.currentMessageLevel ≠ 0)
    (hscan : Scanned ctx hint k₀ s.core) :
    wp (attemptAcceptCommit ctx advance hint)
      (fun _ => Returns ctx (InnerStep ctx) s) (FailsIn ctx P s.core) s :=
  attemptAcceptCommit_rule hinv hscan (.refl hinv hem) fun _ hguard =>
    wp_imp (setAcceptCommit_spec hadv hinv hem hguard) (fun _ _ ht => ht.inner hlevel)

theorem attemptConfirmCommit_spec (hlevel : s.currentMessageLevel ≠ 0) :
    wp (attemptConfirmCommit ctx advance hint)
      (fun _ => Returns ctx (InnerStep ctx) s) (FailsIn ctx P s.core) s :=
  attemptConfirmCommit_rule (.refl hinv hem) fun _ _ hguard =>
    wp_imp (setConfirmCommit_spec hadv hinv hem hguard) (fun _ _ ht => ht.inner hlevel)

theorem attemptBump_spec : wp (attemptBump ctx advance)
      (fun r t => Returns ctx (OwnStep ctx) s t ∧
        (r = true → roundsLeft ctx t.core < roundsLeft ctx s.core))
      (FailsIn ctx P s.core) s := by
  unfold attemptBump
  simp only [wp_bind, wp_get, wp_ite, wp_pure]
  refine ⟨fun _ => ⟨.refl hinv hem, fun h => absurd h (by decide)⟩, fun hext => ?_⟩
  split
  case h_1 n htarget =>
    refine wp_imp (abandonBallot_spec hadv hinv hem n) (fun r t ht => ⟨ht.1, fun hr => ?_⟩)
    have hlt := (bumpTarget_spec hinv hext htarget).1
    exact roundsLeft_of_bumped hinv hext htarget (ht.2 (by omega) hr)
  · exact wp_pure.2 ⟨.refl hinv hem, fun h => absurd h (by decide)⟩

omit hadv hinv hem in
/-- The loop ends before it is cut off. -/
theorem bumpLoop_spec (fuel : Nat) (s : BallotState)
    (hadv : AdvanceFrom ctx advance P s.currentMessageLevel) (hinv : s.core.Inv ctx)
    (hem : Emissions ctx s) (hfuel : roundsLeft ctx s.core < fuel) :
    wp (bumpLoop ctx advance fuel) (fun _ => Returns ctx (OwnStep ctx) s)
      (FailsIn ctx P s.core) s := by
  induction fuel generalizing s with
  | zero => exact absurd hfuel (Nat.not_lt_zero _)
  | succ fuel ih =>
    simp only [bumpLoop, wp_bind, wp_ite, wp_pure]
    refine wp_imp (attemptBump_spec hadv hinv hem) (fun r t ht => ⟨fun hr => ?_, fun _ => ht.1⟩)
    have hless := ht.2 hr
    exact wp_mono (ih t (ht.1.advances hadv) ht.1.inv ht.1.emissions (by omega))
      (fun _ t' ht' => ht.1.trans ht') (fun _ _ h => ht.1.fails h)

theorem bumpAtFirstLevel_spec : wp (bumpAtFirstLevel ctx advance)
      (fun _ t => Returns ctx (OwnStep ctx) s t ∧ (s.currentMessageLevel ≠ 1 → t = s))
      (FailsIn ctx P s.core) s := by
  unfold bumpAtFirstLevel
  simp only [wp_bind, wp_get, wp_ite, wp_pure]
  refine ⟨fun hone => ?_, fun _ => ⟨.refl hinv hem, fun _ => trivial⟩⟩
  have hrounds : roundsLeft ctx s.core < 2 * s.latestEnvelopes.entries.length + 3 :=
    roundsLeft_lt ctx s.core
  refine wp_imp (bumpLoop_spec _ s hadv hinv hem hrounds) fun _ t ht => ?_
  refine wp_total (checkHeardFromQuorum_quiet t) (fun _ r hr => ?_)
  exact ⟨ht.quiet hr, fun h => absurd hone h⟩

/-! ### The whole slot -/

/-- The steps of a body at a level are those its caller may take. -/
theorem advanceBody_spec {level : Nat} (hlevel : s.currentMessageLevel = level + 1)
    (hhint : s.latestEnvelopes.lookup hint.nodeID = some hint) : wp (advanceBody ctx advance hint)
      (fun _ => Returns ctx (LevelStep ctx level) s) (FailsIn ctx P s.core) s := by
  unfold advanceBody
  simp only [wp_bind, wp_pure]
  refine wp_imp (attemptPreparedAccept_spec hadv hinv hem (by omega) hhint)
    (fun _ s₁ hs₁ => ?_)
  obtain ⟨h₁, hscan₁⟩ := hs₁
  have hlevel₁ := h₁.level.trans hlevel
  refine wp_mono
    (attemptPreparedConfirmed_spec (h₁.advances hadv) h₁.inv h₁.emissions (by omega) hscan₁)
    (fun _ s₂ hs₂ => ?_) (fun _ _ h => h₁.own.fails h)
  have h₂ := h₁.trans hs₂
  have hscan₂ := hscan₁.trans hs₂.steps
  have hlevel₂ := h₂.level.trans hlevel
  refine wp_mono (attemptAcceptCommit_spec (h₂.advances hadv) h₂.inv h₂.emissions (by omega) hscan₂)
    (fun _ s₃ hs₃ => ?_) (fun _ _ h => h₂.own.fails h)
  have h₃ := h₂.trans hs₃
  have hlevel₃ := h₃.level.trans hlevel
  refine wp_mono (attemptConfirmCommit_spec (h₃.advances hadv) h₃.inv h₃.emissions (by omega))
    (fun _ s₄ hs₄ => ?_) (fun _ _ h => h₃.own.fails h)
  have h₄ := h₃.trans hs₄
  have hlevel₄ := h₄.level.trans hlevel
  refine wp_mono (bumpAtFirstLevel_spec (h₄.advances hadv) h₄.inv h₄.emissions) (fun _ t ht => ?_)
    (fun _ _ h => h₄.own.fails h)
  unfold LevelStep
  split
  case isTrue => exact h₄.own.trans ht.1
  case isFalse hne =>
    obtain rfl := ht.2 (by omega)
    exact h₄

end

/-- A level takes steps, and ends with an error in `P` when the levels inside of it do. -/
theorem advanceSlot_succ_spec {fuel : Nat}
    (hadv : AdvanceFrom ctx (advanceSlot ctx fuel) P (s.currentMessageLevel + 1))
    (hcut : maxAdvanceSlotRecursion ≤ s.currentMessageLevel + 1 → P .maxTransitions)
    (hinv : s.core.Inv ctx) (hem : Emissions ctx s)
    (hhint : s.latestEnvelopes.lookup hint.nodeID = some hint) :
    wp (advanceSlot ctx (fuel + 1) hint)
      (fun _ => Returns ctx (LevelStep ctx s.currentMessageLevel) s) (FailsIn ctx P s.core) s := by
  have hem' : Emissions ctx { s with currentMessageLevel := s.currentMessageLevel + 1 } :=
    hem.mono rfl rfl (List.Subset.refl _) (List.Subset.refl _)
  simp only [advanceSlot, wp_bind, wp_modify, wp_get, wp_ensure, wp_ite, wp_pure]
  refine ⟨fun _ => ?_, fun hfull => ?_⟩
  swap
  · exact ⟨⟨hem', s.core, .refl, rfl, rfl, .inl rfl⟩, hcut (not_lt.1 (of_decide_eq_false hfull))⟩
  refine wp_imp (advanceBody_spec (s := { s with
    currentMessageLevel := s.currentMessageLevel + 1 }) hadv hinv hem' rfl hhint) fun _ t ht => ?_
  have hleave : Returns ctx (LevelStep ctx s.currentMessageLevel) s
      { t with currentMessageLevel := t.currentMessageLevel - 1 } :=
    ⟨ht.steps, ht.inv, ht.emissions.mono rfl rfl (List.Subset.refl _) (List.Subset.refl _),
      by simp [ht.level]⟩
  refine ⟨fun _ => ?_, fun _ => hleave⟩
  exact wp_total (sendLatestEnvelope_quiet _ hleave.emissions) fun _ r hr => hleave.quiet hr

/-- At every level `advanceSlot` takes steps of that level. -/
theorem advanceSlot_spec (ctx : Context) (fuel : Nat) : AdvanceSpec ctx (advanceSlot ctx fuel) := by
  induction fuel with
  | zero =>
    intro hint s hinv hem hhint
    exact wp_throw.2 ⟨hem, s.core, .refl, rfl, rfl, .inl rfl⟩
  | succ fuel ih =>
    intro hint s hinv hem hhint
    exact wp_mono (advanceSlot_succ_spec (ih.from _) (fun _ => trivial) hinv hem hhint)
      (fun _ _ ht => ht) fun _ _ he => he.1

/-! ### What every change keeps -/

section Keeping

variable {I : BallotState → Prop}

/-- The changes keep `I`, and what fails ends in `E`. -/
structure Keeping (ctx : Context) (advance : SCPStatement → SlotM Unit) (I : BallotState → Prop)
    (E : ScpError → BallotState → Prop) : Prop where
  preparedAccept : ∀ ballot s, I s → s.phase ≠ .externalize →
    wp (setPreparedAccept ctx advance ballot) (fun _ => I) E s
  preparedConfirmed : ∀ newC newH s, I s → s.phase ≠ .externalize →
    wp (setPreparedConfirmed ctx advance newC newH) (fun _ => I) E s
  acceptCommit : ∀ c h s, I s → s.phase ≠ .externalize →
    wp (setAcceptCommit ctx advance c h) (fun _ => I) E s
  confirmCommit : ∀ c h s, I s → s.phase ≠ .externalize →
    wp (setConfirmCommit ctx advance c h) (fun _ => I) E s
  bump : ∀ value n s, I s → s.toLocalState.counter < n →
    wp (bumpStateTo ctx advance value n) (fun _ => I) E s
  heard : ∀ s, I s → wp (checkHeardFromQuorum ctx) (fun _ => I) E s
  error : ∀ e s, I s → e ≠ .ballotDecreased → E e s

/-- The computation raises other errors only. -/
abbrev Orderly {α : Type} (x : Except ScpError α) : Prop := Raises (· ≠ .ballotDecreased) x

theorem findAcceptable_orderly (l : LocalState) (envs : FMap NodeID SCPStatement)
    (ballots : List SCPBallot) : Orderly (findAcceptable ctx l envs ballots) := by
  have hconsidered : ∀ ballot, Orderly (isConsidered l ballot) := by
    intro ballot
    unfold isConsidered
    split <;> simp
  induction ballots with
  | nil => exact raises_ok
  | cons ballot rest ih => simp [findAcceptable, canAcceptPrepared, hconsidered, ih]

theorem isOnHighBallot_orderly (l : LocalState) (ballot : SCPBallot) :
    Orderly (isOnHighBallot l ballot) := by
  unfold isOnHighBallot
  split <;> simp

namespace Keeping

variable (h : Keeping ctx advance I E) (hs : I s)
include h hs

theorem attemptPreparedAccept :
    wp (Scp.attemptPreparedAccept ctx advance hint) (fun _ => I) E s := by
  simp only [Scp.attemptPreparedAccept, wp_bind, wp_get, wp_ite, wp_pure, wp_runExcept]
  refine ⟨fun _ => hs, fun hphase => ⟨fun found _ => ?_, fun e he => ?_⟩⟩
  · cases found with
    | none => exact wp_pure.2 hs
    | some ballot => exact h.preparedAccept ballot s hs hphase
  · exact h.error e s hs (findAcceptable_orderly _ _ _ e he)

theorem attemptPreparedConfirmed :
    wp (Scp.attemptPreparedConfirmed ctx advance hint) (fun _ => I) E s := by
  simp only [Scp.attemptPreparedConfirmed, wp_bind, wp_get, wp_ite, wp_pure]
  refine ⟨fun _ => hs, fun hphase => ⟨fun _ => hs, fun _ => ?_⟩⟩
  split
  · exact wp_pure.2 hs
  · refine h.preparedConfirmed _ _ s hs ?_
    rw [not_not.1 hphase]
    decide

theorem attemptAcceptCommit :
    wp (Scp.attemptAcceptCommit ctx advance hint) (fun _ => I) E s := by
  simp only [Scp.attemptAcceptCommit, wp_bind, wp_get, wp_ite, wp_pure]
  refine ⟨fun _ => hs, fun hphase => ?_⟩
  split
  · exact wp_pure.2 hs
  · simp only [wp_bind, wp_runExcept, wp_ite, wp_pure]
    refine ⟨fun _ _ => ⟨fun _ => h.acceptCommit _ _ s hs hphase, fun _ => hs⟩, fun e he => ?_⟩
    exact h.error e s hs (isOnHighBallot_orderly _ _ e he)

theorem attemptBump : wp (Scp.attemptBump ctx advance) (fun _ => I) E s := by
  simp only [Scp.attemptBump, wp_bind, wp_get, wp_ite, wp_pure]
  refine ⟨fun _ => hs, fun _ => ?_⟩
  split
  case h_1 n htarget =>
    have hn : s.toLocalState.counter < n := (scanCounters_spec htarget).1
    simp only [abandonBallot, wp_bind, wp_get, wp_ite, wp_pure]
    exact ⟨fun _ => hs, fun _ => ⟨fun hzero => by omega, fun _ => h.bump _ n s hs hn⟩⟩
  case h_2 => exact wp_pure.2 hs

omit hs in
theorem bumpLoop (fuel : Nat) (s : BallotState) (hs : I s) :
    wp (Scp.bumpLoop ctx advance fuel) (fun _ => I) E s := by
  induction fuel generalizing s with
  | zero => exact wp_throw.2 (h.error _ s hs (by decide))
  | succ fuel ih =>
    simp only [Scp.bumpLoop, wp_bind, wp_ite, wp_pure]
    exact wp_imp (h.attemptBump hs) fun _ t ht => ⟨fun _ => ih t ht, fun _ => ht⟩

theorem advanceBody : wp (Scp.advanceBody ctx advance hint) (fun _ => I) E s := by
  simp only [Scp.advanceBody, bumpAtFirstLevel, wp_bind, wp_get, wp_ite, wp_pure]
  refine wp_imp (h.attemptPreparedAccept hs) fun _ s₁ h₁ => ?_
  refine wp_imp (h.attemptPreparedConfirmed h₁) fun _ s₂ h₂ => ?_
  refine wp_imp (h.attemptAcceptCommit h₂) fun _ s₃ h₃ => ?_
  refine wp_imp (attemptConfirmCommit_rule h₃ fun c h' hguard => ?_) fun _ s₄ h₄ => ?_
  · refine h.confirmCommit c h' s₃ h₃ ?_
    rw [show s₃.phase = .confirm from hguard.1]
    decide
  · exact ⟨fun _ => wp_imp (h.bumpLoop _ s₄ h₄) fun _ => h.heard, fun _ => h₄⟩

end Keeping

/-- What the changes keep at every level, `advanceSlot` keeps. -/
theorem advanceSlot_keeps (ctx : Context)
    (hkeep : ∀ advance, (∀ hint s, I s → wp (advance hint) (fun _ => I) E s) →
      Keeping ctx advance I E)
    (hlevel : ∀ s n, I s → I { s with currentMessageLevel := n })
    (hsend : ∀ s, I s → wp sendLatestEnvelope (fun _ => I) E s)
    (hcut : ∀ s, I s → E .maxTransitions s) (fuel : Nat) (hint : SCPStatement) (s : BallotState)
    (hs : I s) : wp (advanceSlot ctx fuel hint) (fun _ => I) E s := by
  induction fuel generalizing hint s with
  | zero => exact wp_throw.2 (hcut s hs)
  | succ fuel ih =>
    simp only [advanceSlot, wp_bind, wp_modify, wp_get, wp_ensure, wp_ite, wp_pure]
    refine ⟨fun _ => ?_, fun _ => hcut _ (hlevel s _ hs)⟩
    refine wp_imp ((hkeep _ ih).advanceBody (hlevel s _ hs)) fun _ t ht => ?_
    exact ⟨fun _ => hsend _ (hlevel t _ ht), fun _ => hlevel t _ ht⟩

end Keeping

/-! ### Calls -/

/-- What a call may do before the slot advances: record the statement it delivers. -/
inductive Admits (ctx : Context) (call : Call) (k : Core) : Core → Prop
  | skip : Admits ctx call k k
  | receive (st : SCPStatement) (hcall : call = .recvSCPEnvelope st)
      (hother : st.nodeID ≠ ctx.nodeID) (hsane : isStatementSane ctx st false = true) :
      Admits ctx call k (k.record st)

/-- The call returned: after what it admits, the node made changes of its own. -/
def CallReturns (ctx : Context) (call : Call) (s t : BallotState) : Prop :=
  ∃ k₁, Admits ctx call s.core k₁ ∧ ReflTransGen (OwnStep ctx) k₁ t.core ∧ Emissions ctx t

/-- The call failed, in the same way. -/
def CallFails (ctx : Context) (call : Call) (s : BallotState) (e : ScpError) (t : BallotState) :
    Prop :=
  ∃ k₁, Admits ctx call s.core k₁ ∧ Fails ctx k₁ e t

theorem Admits.steps {call : Call} {k₁ : Core} (h : Admits ctx call k k₁) :
    ReflTransGen (Step ctx) k k₁ := by
  cases h with
  | skip => exact .refl
  | receive st _ hother hsane => exact .single (.receive st hother hsane)

theorem CallReturns.steps {call : Call} (h : CallReturns ctx call s t) :
    ReflTransGen (Step ctx) s.core t.core := by
  obtain ⟨k₁, hadmits, hrun, _⟩ := h
  exact hadmits.steps.trans (steps_of_own hrun)

/-- The statement of a peer was recorded. -/
structure Received (ctx : Context) (st : SCPStatement) (s s₁ : BallotState) : Prop where
  admits : Admits ctx (.recvSCPEnvelope st) s.core s₁.core
  inv : s₁.core.Inv ctx
  emissions : Emissions ctx s₁
  lookup : s₁.latestEnvelopes.lookup st.nodeID = some st
  level : s₁.currentMessageLevel = s.currentMessageLevel

section Peer

variable (hinv : s.core.Inv ctx) (hem : Emissions ctx s) {st : SCPStatement}
  (hother : st.nodeID ≠ ctx.nodeID)
include hinv hem hother

/-- The statement of a peer is skipped, or recorded and the slot advances. -/
theorem processPeer_rule (hskip : Q s)
    (hadvance : ∀ s₁, Received ctx st s s₁ → wp (advance st) (fun _ => Q) E s₁)
    (hrecord : ∀ s₁, Received ctx st s s₁ → Q s₁) :
    wp (processEnvelope ctx advance st false) (fun _ => Q) E s := by
  have hreceived : isStatementSane ctx st false = true → ∀ s₁ : BallotState,
      s₁.core = s.core.record st → s₁.lastEnvelope = s.lastEnvelope →
      s₁.driverCalls = s.driverCalls → s₁.currentMessageLevel = s.currentMessageLevel →
      Received ctx st s s₁ := by
    intro hsane s₁ hcore hlast hcalls hlevel
    have henvs : s₁.latestEnvelopes = s.latestEnvelopes.insert st.nodeID st :=
      congrArg Core.envs hcore
    refine ⟨?_, hcore ▸ hinv.record hother, hem.mono hlast hcalls ?_ ?_, ?_, hlevel⟩
    · rw [hcore]
      exact .receive st rfl hother hsane
    · rw [show s₁.statementsHistory = s.statementsHistory ++ [st] from congrArg Core.history hcore]
      exact subset_append_left _ _
    · rw [show s₁.log = s.log from congrArg Core.log hcore]
      exact List.Subset.refl _
    · rw [henvs, FMap.lookup_insert_self]
  refine processEnvelope_rule (fun _ => hskip)
    (fun hpasses _ _ => hadvance _ (hreceived hpasses.sane _ rfl rfl rfl rfl))
    (fun hpasses _ c _ => ⟨fun _ => hrecord _ (hreceived hpasses.sane _ rfl rfl rfl rfl),
      fun _ => hskip⟩) fun _ hext hnone => ?_
  have hsome : s.commit.isSome := (hinv.invariants.externalize hext).1
  simp [hnone] at hsome

theorem processPeer_spec (hadv : AdvanceSpec ctx advance) :
    wp (processEnvelope ctx advance st false)
      (fun _ t => CallReturns ctx (.recvSCPEnvelope st) s t)
      (CallFails ctx (.recvSCPEnvelope st) s) s := by
  refine processPeer_rule hinv hem hother ⟨s.core, .skip, .refl, hem⟩ (fun s₁ h₁ => ?_)
    fun s₁ h₁ => ⟨s₁.core, h₁.admits, .refl, h₁.emissions⟩
  refine wp_mono (hadv st s₁ h₁.inv h₁.emissions h₁.lookup) (fun _ t ht => ?_)
    fun _ _ h => ⟨s₁.core, h₁.admits, h⟩
  exact ⟨s₁.core, h₁.admits, own_of_level ht.steps, ht.emissions⟩

end Peer

/-- A call is a run of steps. -/
theorem run_spec (hinv : s.core.Inv ctx) (hem : Emissions ctx s) (call : Call) :
    wp (call.run ctx) (fun _ => CallReturns ctx call s) (CallFails ctx call s) s := by
  have hadv := advanceSlot_spec ctx maxAdvanceSlotRecursion
  have hown : ∀ t, Returns ctx (OwnStep ctx) s t → CallReturns ctx call s t := fun t ht =>
    ⟨s.core, .skip, ht.steps, ht.emissions⟩
  have hfails : ∀ e t, Fails ctx s.core e t → CallFails ctx call s e t := fun e t ht =>
    ⟨s.core, .skip, ht⟩
  cases call with
  | recvSCPEnvelope st =>
    simp only [Call.run, wp_ite, wp_bind, wp_pure]
    exact ⟨fun _ => hown s (.refl hinv hem),
      fun hother => processPeer_spec hinv hem hother hadv⟩
  | bumpState value force =>
    simp only [Call.run, wp_bind, wp_pure]
    exact wp_mono (bumpState_spec (hadv.from _) hinv hem value force) (fun _ t ht => hown t ht)
      fun e t he => hfails e t he.1
  | abandonBallot =>
    simp only [Call.run, wp_bind, wp_pure]
    exact wp_mono (abandonBallot_spec (hadv.from _) hinv hem 0) (fun _ t ht => hown t ht.1)
      fun e t he => hfails e t he.1
  | compositeCandidate value =>
    simp only [Call.run, wp_modify]
    exact hown _ ⟨.refl, hinv, hem.mono rfl rfl (List.Subset.refl _) (List.Subset.refl _), rfl⟩

/-- Calls, one after the other, are a run of steps. -/
theorem runCalls_spec (calls : List Call) (hinv : s.core.Inv ctx) (hem : Emissions ctx s) :
    wp (runCalls ctx calls) (fun _ t => ReflTransGen (Step ctx) s.core t.core)
      (fun e t => ∃ k₁, ReflTransGen (Step ctx) s.core k₁ ∧ Fails ctx k₁ e t) s := by
  induction calls generalizing s with
  | nil => exact wp_pure.2 .refl
  | cons call calls ih =>
    simp only [runCalls, wp_bind]
    refine wp_mono (run_spec hinv hem call) (fun _ t ht => ?_) (fun e t ht => ?_)
    · have hrun := ht.steps
      obtain ⟨_, _, _, hem'⟩ := ht
      refine wp_mono (ih (inv_of_steps hrun hinv) hem') (fun _ r hr => hrun.trans hr)
        (fun e r hr => ?_)
      obtain ⟨k₁, hk₁, hfails⟩ := hr
      exact ⟨k₁, hrun.trans hk₁, hfails⟩
    · obtain ⟨k₁, hadmits, hfails⟩ := ht
      exact ⟨k₁, hadmits.steps, hfails⟩

end SpnCore.Scp
