import SpnCore.Scp.RefineAdvance

/-!
# How far a slot moves on its own statements

A nested `advanceSlot` works on a statement of the node itself. What it can still do is bounded:
in the `PREPARE` phase it accepts at most one ballot below each current ballot, moves the current
ballot at most once, and raises `h` at most once in between; in the `CONFIRM` phase it raises `p`
and `h` at most once each. `movesLeft` counts what is left, whatever the peers have said.
-/

namespace SpnCore.Scp

open Lib Relation List Option

/-! ### Published states -/

/-- `st` is the latest statement of the node, and describes its local state. -/
structure Published (ctx : Context) (k : Core) (st : SCPStatement) : Prop where
  inv : k.Inv ctx
  own : k.envs.lookup ctx.nodeID = some st

/-- The current ballot as own statements show it. -/
def Core.current (k : Core) : SCPBallot := k.loc.currentBallot.getD {}

/-- A quorum has accepted `y` as prepared. -/
def Ratified (ctx : Context) (k : Core) (y : SCPBallot) : Prop :=
  federatedRatify ctx k.envs (hasPreparedBallot y) = true

/-- `y` can be accepted as prepared and raises `p` or `p'`. -/
def Acceptable (ctx : Context) (k : Core) (y : SCPBallot) : Prop :=
  canAcceptPrepared ctx k.loc k.envs y = .ok true

/-- `top` is `p` or `p'`. -/
def LocalState.IsPrepared (l : LocalState) (top : SCPBallot) : Prop :=
  l.prepared = some top ∨ l.preparedPrime = some top

variable {ctx : Context} {k k' : Core} {st st' : SCPStatement} {x y ballot : SCPBallot}
  {envs : FMap NodeID SCPStatement}

section

variable (hk : Published ctx k st)
include hk

theorem Published.create : createStatement ctx k.loc = .ok st := by
  rcases hk.inv.synced with ⟨_, hnone⟩ | ⟨st₀, hcreate, hlookup⟩
  · have := hk.own
    simp [hnone] at this
  · obtain rfl : st₀ = st := mem_unique hlookup hk.own
    exact hcreate

theorem Published.describes : Describes ctx k.loc st :=
  (createStatement_eq_ok.1 hk.create).2

/-- The statement is determined by the local state. -/
theorem Published.unique (hk' : Published ctx k' st') (hloc : k'.loc = k.loc) : st' = st :=
  Except.ok.inj (hk'.create.symm.trans (hloc ▸ hk.create))

omit hk in
/-- A node that accepted a ballot has published a statement. -/
theorem published_of_prepared (hk : k.Inv ctx) (hp : k.loc.prepared.isSome) :
    ∃ st, Published ctx k st := by
  rcases hk.synced with ⟨hloc, _⟩ | ⟨st, _, hlookup⟩
  · rw [hloc] at hp
    cases hp
  · exact ⟨st, hk, hlookup⟩

/-- Until a value is externalized, own statements name the local quorum set. -/
theorem Published.qSet (hphase : k.loc.phase ≠ .externalize) :
    getQuorumSetFromStatement ctx st = ctx.getQSet ctx.qSetHash := by
  cases hk.describes with
  | prepare | confirm => rfl
  | externalize _ _ h => exact absurd h hphase

end

/-- The statements of peers are the same in both states. -/
def SamePeers (ctx : Context) (k k' : Core) : Prop :=
  ∀ v, v ≠ ctx.nodeID → k'.envs.lookup v = k.envs.lookup v

section

variable (hpeers : SamePeers ctx k k') (hk : Published ctx k st) (hk' : Published ctx k' st')
include hpeers hk hk'

/-- What one of the statements shows, one of the other state shows if the own statement there
does. -/
theorem SamePeers.exists_lookup {P : SCPStatement → Prop} (hown : P st' → P st) {v : NodeID}
    {w : SCPStatement} (hw : k'.envs.lookup v = some w) (hP : P w) :
    ∃ w, k.envs.lookup v = some w ∧ P w := by
  by_cases hv : v = ctx.nodeID
  · subst hv
    obtain rfl : w = st' := mem_unique hw hk'.own
    exact ⟨st, hk.own, hown hP⟩
  · exact ⟨w, (hpeers v hv).symm.trans hw, hP⟩

variable (hphase : k.loc.phase ≠ .externalize)
include hphase

/-- A quorum stays one when only the own statement changed, and that in favour of it. -/
theorem SamePeers.ratify (hphase' : k'.loc.phase ≠ .externalize) {voted : SCPStatement → Bool}
    (hown : voted st' = true → voted st = true) (h : federatedRatify ctx k'.envs voted = true) :
    federatedRatify ctx k.envs voted = true := by
  refine isQuorum_transfer h fun v w hw hvoted => ?_
  by_cases hv : v = ctx.nodeID
  · subst hv
    obtain rfl : w = st' := mem_unique hw hk'.own
    exact ⟨st, hk.own, hown hvoted, by rw [hk.qSet hphase, hk'.qSet hphase']⟩
  · exact ⟨w, (hpeers v hv).symm.trans hw, hvoted, rfl⟩

theorem SamePeers.accept (hphase' : k'.loc.phase ≠ .externalize)
    {voted accepted : SCPStatement → Bool} (haccepted : accepted st' = true → accepted st = true)
    (hvoted : voted st' = true → voted st = true)
    (h : federatedAccept ctx k'.envs voted accepted = true) :
    federatedAccept ctx k.envs voted accepted = true := by
  simp only [federatedAccept, Bool.or_eq_true] at h ⊢
  rcases h with h | h
  · exact .inl (isVBlockingWith_transfer h fun _ _ =>
      hpeers.exists_lookup (P := (accepted · = true)) hk hk' haccepted)
  · refine .inr (hpeers.ratify hk hk' hphase hphase' (fun hor => ?_) h)
    simp only [Bool.or_eq_true] at hor ⊢
    exact hor.imp haccepted hvoted

end

/-! ### What is left in the `PREPARE` phase -/

/-- Nothing can be accepted as prepared on the own statement. -/
def AcceptDone (ctx : Context) (k : Core) : Prop :=
  ∀ st, k.envs.lookup ctx.nodeID = some st →
    ∀ y ∈ getPrepareCandidates k.envs st, ¬ Acceptable ctx k y

/-- No ballot that the node has accepted as prepared moves the current ballot. -/
def RaiseDone (ctx : Context) (k : Core) : Prop :=
  ∀ y top, k.loc.IsPrepared top → k.current < y → y ≤ top → y.value = top.value →
    ¬ Ratified ctx k y

/-- No ballot raises `h` below the current ballot. -/
def HighDone (ctx : Context) (k : Core) : Prop :=
  ∀ b y, k.loc.currentBallot = some b → y ≤ b → y.value = b.value →
    (∀ h, k.loc.highBallot = some h → h < y) → ¬ Ratified ctx k y

section Prepare

variable {l : LocalState} {top : SCPBallot}

theorem hasPrepared_preparePledge :
    hasPreparedBallot y ⟨ctx.nodeID, .prepare (preparePledge ctx l)⟩ = true ↔
      ∃ top, l.IsPrepared top ∧ y ≤ top ∧ y.value = top.value := by
  simp only [hasPreparedBallot, preparePledge, Bool.or_eq_true, Option.any_eq_true,
    areBallotsLessAndCompatible_iff, LocalState.IsPrepared]
  constructor
  · rintro (⟨top, htop, hle⟩ | ⟨top, htop, hle⟩)
    · exact ⟨top, .inl htop, hle⟩
    · exact ⟨top, .inr htop, hle⟩
  · rintro ⟨top, htop | htop, hle⟩
    · exact .inl ⟨top, htop, hle⟩
    · exact .inr ⟨top, htop, hle⟩

theorem mem_hintBallots_preparePledge :
    top ∈ hintBallots ⟨ctx.nodeID, .prepare (preparePledge ctx l)⟩ ↔
      top = l.currentBallot.getD {} ∨ l.IsPrepared top := by
  simp [hintBallots, preparePledge, LocalState.IsPrepared, mem_toList]

theorem mem_preparedBelow_preparePledge :
    y ∈ preparedBelow top ⟨ctx.nodeID, .prepare (preparePledge ctx l)⟩ ↔
      (y = l.currentBallot.getD {} ∨ l.IsPrepared y) ∧ y ≤ top ∧ y.value = top.value := by
  simp [preparedBelow, preparePledge, LocalState.IsPrepared, mem_toList]

theorem acceptable_prepare (hphase : k.loc.phase = .prepare) :
    Acceptable ctx k y ↔
      (∀ p', k.loc.preparedPrime = some p' → p' < y) ∧
      (∀ p, k.loc.prepared = some p → ¬ (y ≤ p ∧ y.value = p.value)) ∧
      federatedAccept ctx k.envs (votesPreparedBallot y) (hasPreparedBallot y) = true := by
  rw [Acceptable, canAcceptPrepared_eq_true]
  simp [hphase]

/-- An acceptable ballot is not covered by what was accepted before. -/
theorem Acceptable.not_covered (hphase : k.loc.phase = .prepare) (hy : Acceptable ctx k y)
    (htop : k.loc.IsPrepared top) : ¬ (y ≤ top ∧ y.value = top.value) := by
  obtain ⟨hprime, hprepared, _⟩ := (acceptable_prepare hphase).1 hy
  rcases htop with htop | htop
  · exact hprepared top htop
  · exact fun h => absurd h.1 (not_le.2 (hprime top htop))

/-- On its own statement a node only accepts ballots that its current ballot covers. -/
theorem acceptable_le_current (hk : Published ctx k st) (hphase : k.loc.phase = .prepare)
    (hmem : y ∈ getPrepareCandidates k.envs st) (hy : Acceptable ctx k y) :
    y ≤ k.current ∧ y.value = k.current.value := by
  rw [hk.describes.eq_prepare hphase] at hmem
  obtain ⟨top, htop, v, w, hw, hbelow⟩ := mem_getPrepareCandidates.1 hmem
  have hle := preparedBelow_le hbelow
  rcases mem_hintBallots_preparePledge.1 htop with rfl | htop
  · exact hle
  · exact absurd hle (hy.not_covered hphase htop)

/-- A candidate for the own statement: a ballot of some statement that one of its ballots
covers. -/
theorem mem_candidates_prepare (hk : Published ctx k st) (hphase : k.loc.phase = .prepare) :
    y ∈ getPrepareCandidates k.envs st ↔
      ∃ top, (top = k.current ∨ k.loc.IsPrepared top) ∧
        ((y = k.current ∨ k.loc.IsPrepared y) ∧ y ≤ top ∧ y.value = top.value ∨
          ∃ v w, v ≠ ctx.nodeID ∧ k.envs.lookup v = some w ∧ y ∈ preparedBelow top w) := by
  have hst := hk.describes.eq_prepare hphase
  rw [mem_getPrepareCandidates]
  constructor
  · rintro ⟨top, htop, v, w, hw, hy⟩
    rw [hst] at htop
    refine ⟨top, mem_hintBallots_preparePledge.1 htop, ?_⟩
    by_cases hv : v = ctx.nodeID
    · subst hv
      obtain rfl : w = st := mem_unique hw hk.own
      rw [hst] at hy
      exact .inl (mem_preparedBelow_preparePledge.1 hy)
    · exact .inr ⟨v, w, hv, hw, hy⟩
  · rintro ⟨top, htop, hy | ⟨v, w, _, hw, hy⟩⟩
    · refine ⟨top, by rw [hst]; exact mem_hintBallots_preparePledge.2 htop, _, st, hk.own, ?_⟩
      rw [hst]
      exact mem_preparedBelow_preparePledge.2 hy
    · exact ⟨top, by rw [hst]; exact mem_hintBallots_preparePledge.2 htop, v, w, hw, hy⟩

/-- A state that an accepted ballot `x` was just added to, from one whose own statement was
published. -/
structure Accepts (ctx : Context) (k k' : Core) (st st' : SCPStatement) (x : SCPBallot) : Prop where
  before : Published ctx k st
  after : Published ctx k' st'
  peers : SamePeers ctx k k'
  loc : k'.loc = (Update.preparedAccept x).apply k.loc
  mem : x ∈ getPrepareCandidates k.envs st
  acceptable : Acceptable ctx k x
  highest : ∀ y ∈ getPrepareCandidates k.envs st, Acceptable ctx k y → y ≤ x

namespace Accepts

variable (h : Accepts ctx k k' st st' x)

include h

theorem current_eq : k'.current = k.current := by
  rw [Core.current, Core.current, h.loc, preparedAccept_currentBallot]

theorem phase_eq : k'.loc.phase = k.loc.phase := by
  rw [h.loc, preparedAccept_phase]

variable (hphase : k.loc.phase = .prepare)
include hphase

theorem le_current : x ≤ k.current ∧ x.value = k.current.value :=
  acceptable_le_current h.before hphase h.mem h.acceptable

/-- What happened to `p` and `p'`. -/
theorem cases : k'.loc.prepared = some x ∧ (∀ p', k'.loc.preparedPrime = some p' → p' < x) ∧
        (∀ p, k.loc.IsPrepared p → p < x) ∨
      ∃ p, k.loc.prepared = some p ∧ x < p ∧ k'.loc.prepared = some p ∧
        k'.loc.preparedPrime = some x := by
  obtain ⟨hprime, hcovered, _⟩ := (acceptable_prepare hphase).1 h.acceptable
  have hcases := preparedAccept_cases hprime hcovered
  rw [← h.loc] at hcases
  rcases hcases with ⟨hp, hold⟩ | ⟨p, hp, hlt, _, hp', hprime'⟩
  · refine .inl ⟨hp, ?_, ?_⟩
    · rcases hold with ⟨_, heq⟩ | ⟨p, _, hlt, ⟨_, heq⟩ | ⟨_, heq⟩⟩
      · rwa [heq]
      · rwa [heq]
      · intro p' hp'
        rw [heq] at hp'
        exact some.inj hp' ▸ hlt
    · rintro q (hq | hq)
      · rcases hold with ⟨hnone, _⟩ | ⟨p, hp₀, hlt, _⟩
        · simp [hnone] at hq
        · exact mem_unique hp₀ hq ▸ hlt
      · exact hprime q hq
  · exact .inr ⟨p, hp, hlt, hp', hprime'⟩

/-- What cannot be accepted any more could not be accepted before. -/
theorem not_covered_before (hy : Acceptable ctx k' y) :
    (∀ p', k.loc.preparedPrime = some p' → p' < y) ∧
      ∀ p, k.loc.prepared = some p → ¬ (y ≤ p ∧ y.value = p.value) := by
  have hphase' := h.phase_eq.trans hphase
  obtain ⟨hprime', hcovered', _⟩ := (acceptable_prepare hphase').1 hy
  obtain ⟨hprime, hcovered, _⟩ := (acceptable_prepare hphase).1 h.acceptable
  have hcases := preparedAccept_cases hprime hcovered
  rw [← h.loc] at hcases
  rcases hcases with
    ⟨hp, ⟨hnone, _⟩ | ⟨p, hp₀, hlt, ⟨hval, heq⟩ | ⟨hval, heq⟩⟩⟩ | ⟨p, hp₀, hlt, _, hp, heq⟩
  · have hnone' : k.loc.preparedPrime = none := by
      cases hq : k.loc.preparedPrime with
      | none => rfl
      | some q =>
        have := h.before.inv.consistent.prime (by simp [hq])
        simp [hnone] at this
    simp [hnone, hnone']
  · rw [heq] at hprime'
    refine ⟨hprime', fun q hq hle => ?_⟩
    obtain rfl : p = q := mem_unique hp₀ hq
    exact hcovered' x hp ⟨hle.1.trans hlt.le, hle.2.trans hval⟩
  · have hpy := hprime' p heq
    refine ⟨fun q hq => ?_, fun q hq hle => ?_⟩
    · exact (h.before.inv.invariants.primes p q hp₀ hq).1.trans_lt hpy
    · obtain rfl : p = q := mem_unique hp₀ hq
      exact absurd hle.1 (not_le.2 hpy)
  · have hxy := hprime' x heq
    refine ⟨fun q hq => (hprime q hq).trans hxy, fun q hq => ?_⟩
    obtain rfl : p = q := mem_unique hp₀ hq
    exact hcovered' p hp

/-- The highest acceptable ballot below the current one was taken, so no other is left. -/
theorem acceptDone : AcceptDone ctx k' := by
  intro w hw y hmem hy
  obtain rfl : w = st' := mem_unique hw h.after.own
  have hphase' := h.phase_eq.trans hphase
  obtain ⟨hle, hval⟩ := acceptable_le_current h.after hphase' hmem hy
  rw [h.current_eq] at hle hval
  -- y was a candidate before
  have hmem₀ : y ∈ getPrepareCandidates k.envs st := by
    refine (mem_candidates_prepare h.before hphase).2 ⟨k.current, .inl rfl, ?_⟩
    obtain ⟨top, htop, hy'⟩ := (mem_candidates_prepare h.after hphase').1 hmem
    rcases hy' with ⟨hown, _⟩ | ⟨v, w, hv, hw, hbelow⟩
    · rcases hown with hcur | hprep
      · exact .inl ⟨.inl (hcur.trans h.current_eq), hle, hval⟩
      · exact absurd ⟨le_rfl, rfl⟩ (hy.not_covered hphase' hprep)
    · rw [h.peers v hv] at hw
      rcases htop with rfl | htop
      · rw [h.current_eq] at hbelow
        exact .inr ⟨v, w, hv, hw, hbelow⟩
      · exact absurd (preparedBelow_le hbelow) (hy.not_covered hphase' htop)
  -- and acceptable, since the own vote for it has not changed
  have hst := h.before.describes.eq_prepare hphase
  have hst' := h.after.describes.eq_prepare hphase'
  have hacc₀ : Acceptable ctx k y := by
    obtain ⟨hprime, hcovered⟩ := h.not_covered_before hphase hy
    refine (acceptable_prepare hphase).2 ⟨hprime, hcovered, ?_⟩
    refine h.peers.accept h.before h.after (by simp [hphase]) (by simp [hphase']) ?_ ?_
      ((acceptable_prepare hphase').1 hy).2.2
    · intro hhas
      rw [hst', hasPrepared_preparePledge] at hhas
      obtain ⟨top, htop, hcov⟩ := hhas
      exact absurd hcov (hy.not_covered hphase' htop)
    · intro _
      rw [hst]
      simpa [votesPreparedBallot, preparePledge] using ⟨hle, hval⟩
  have hyx := h.highest y hmem₀ hacc₀
  have hsame : y.value = x.value := hval.trans (h.le_current hphase).2.symm
  rcases h.cases hphase with ⟨hp, _⟩ | ⟨p, _, _, _, hp'⟩
  · exact hy.not_covered hphase' (.inl hp) ⟨hyx, hsame⟩
  · exact hy.not_covered hphase' (.inr hp') ⟨hyx, hsame⟩

theorem raiseDone (hdone : RaiseDone ctx k) : RaiseDone ctx k' := by
  intro y top htop hlt hle hval hrat
  have hphase' := h.phase_eq.trans hphase
  rw [h.current_eq] at hlt
  have hx := (h.le_current hphase).1
  -- only a ballot above the current one is left, and that is the old p
  rcases h.cases hphase with ⟨hp, hprime, _⟩ | ⟨p, hp₀, _, hp, hprime⟩
  · have htop' : top ≤ x := by
      rcases htop with htop | htop
      · exact (mem_unique htop hp).le
      · exact (hprime top htop).le
    exact absurd (hlt.trans_le hle) (not_lt.2 (htop'.trans hx))
  · have hne : top = p := by
      rcases htop with htop | htop
      · exact mem_unique htop hp
      · obtain rfl := mem_unique htop hprime
        exact absurd (hlt.trans_le hle) (not_lt.2 hx)
    subst hne
    refine hdone y top (.inl hp₀) hlt hle hval ?_
    refine h.peers.ratify h.before h.after (by simp [hphase]) (by simp [hphase']) (fun _ => ?_) hrat
    rw [h.before.describes.eq_prepare hphase, hasPrepared_preparePledge]
    exact ⟨top, .inl hp₀, hle, hval⟩

/-- A `p` above the current ballot stays. -/
theorem prepared_eq {p : SCPBallot} (hp : k.loc.prepared = some p) (hlt : k'.current < p) :
    k'.loc.prepared = some p := by
  rw [h.current_eq] at hlt
  rcases h.cases hphase with ⟨_, _, hbelow⟩ | ⟨q, hq, _, hq', _⟩
  · exact absurd ((hbelow p (.inl hp)).trans_le (h.le_current hphase).1) (not_lt.2 hlt.le)
  · rw [hq', ← hq, hp]

end Accepts

/-! ### Confirming -/

/-- A ratified ballot that the hint covers has a ratified candidate on its value that is not
below it: the lowest candidate above it. -/
theorem exists_ratified_candidate (hk : Published ctx k st) (hphase : k.loc.phase = .prepare)
    (htop : top = k.current ∨ k.loc.IsPrepared top) (hle : y ≤ top) (hval : y.value = top.value)
    (hrat : Ratified ctx k y) : ∃ z ∈ getPrepareCandidates k.envs st, y ≤ z ∧ Ratified ctx k z := by
  have hst := hk.describes.eq_prepare hphase
  have hhint : top ∈ hintBallots st := by
    rw [hst]
    exact mem_hintBallots_preparePledge.2 htop
  have hmem : ∀ v w z, k.envs.lookup v = some w → z ∈ preparedBelow top w →
      z ∈ getPrepareCandidates k.envs st := fun v w z hw hz =>
    mem_getPrepareCandidates.2 ⟨top, hhint, v, w, hw, hz⟩
  have htopmem : top ∈ getPrepareCandidates k.envs st :=
    (mem_candidates_prepare hk hphase).2 ⟨top, htop, .inl ⟨htop, le_rfl, rfl⟩⟩
  obtain ⟨z, hz, hmin⟩ := Finset.exists_min_image
    ((getPrepareCandidates k.envs st).filter fun z => y ≤ z ∧ z.value = y.value).toFinset id
    ⟨top, by simp [htopmem, hle, hval]⟩
  simp only [List.mem_toFinset, List.mem_filter, Bool.decide_and, Bool.and_eq_true,
    decide_eq_true_eq, id, and_imp] at hz hmin
  obtain ⟨hzmem, hyz, hzval⟩ := hz
  have hztop : z ≤ top := hmin top htopmem hle hval.symm
  have hzbelow : ∀ v w q, k.envs.lookup v = some w → q ∈ preparedBelow top w → y ≤ q → z ≤ q :=
    fun v w q hw hq hyq => hmin q (hmem v w q hw hq) hyq ((preparedBelow_le hq).2.trans hval.symm)
  refine ⟨z, hzmem, hyz, ?_⟩
  refine isQuorum_transfer hrat fun v w hw hhas => ⟨w, hw, ?_, rfl⟩
  cases hpl : w.pledges with
  | prepare q =>
    -- a ballot of the statement above y is itself a candidate, or above the hint
    have hcover : ∀ r, (q.prepared = some r ∨ q.preparedPrime = some r) → y ≤ r →
        y.value = r.value → z ≤ r ∧ z.value = r.value := by
      intro r hr hyr hrval
      refine ⟨?_, hzval.trans hrval⟩
      rcases le_or_gt r top with hrtop | hrtop
      · refine hzbelow v w r hw ?_ hyr
        simp only [preparedBelow, hpl, mem_filter, mem_cons, mem_append,
          mem_toList, areBallotsLessAndCompatible_iff]
        exact ⟨.inr hr, hrtop, hrval.symm.trans hval⟩
      · exact hztop.trans hrtop.le
    simp only [hasPreparedBallot, hpl, Bool.or_eq_true, Option.any_eq_true,
      areBallotsLessAndCompatible_iff] at hhas ⊢
    rcases hhas with ⟨r, hr, hyr, hrval⟩ | ⟨r, hr, hyr, hrval⟩
    · exact .inl ⟨r, hr, hcover r (.inl hr) hyr hrval⟩
    · exact .inr ⟨r, hr, hcover r (.inr hr) hyr hrval⟩
  | confirm c =>
    simp only [hasPreparedBallot, hpl, areBallotsLessAndCompatible_iff] at hhas ⊢
    have hcval : top.value = c.ballot.value := hval.symm.trans hhas.2
    refine ⟨?_, hzval.trans hhas.2⟩
    by_cases hlt : c.nPrepared < top.counter
    · have hle' := hzbelow v w ⟨c.nPrepared, top.value⟩ hw
        (by simp [preparedBelow, hpl, hcval, hlt]) (by rw [hcval]; exact hhas.1)
      rwa [hcval] at hle'
    · exact hztop.trans ((SCPBallot.le_iff_counter
        (b := ⟨c.nPrepared, c.ballot.value⟩) hcval).2 (not_lt.1 hlt))
  | externalize e =>
    simp only [hasPreparedBallot, hpl, areBallotsCompatible_iff] at hhas ⊢
    exact hzval.trans hhas

/-- The scan for `h` finds the highest ratified candidate, or none above `h` is ratified. -/
theorem findNewH_highest {cands : List SCPBallot} (hsorted : cands.Pairwise (· > ·)) :
    (∀ newH rest, findNewH ctx l envs cands = newH :: rest →
      ∀ z ∈ cands, federatedRatify ctx envs (hasPreparedBallot z) = true → z ≤ newH) ∧
    (findNewH ctx l envs cands = [] →
      ∀ z ∈ cands, federatedRatify ctx envs (hasPreparedBallot z) = true →
        ∃ h, l.highBallot = some h ∧ z ≤ h) := by
  induction cands with
  | nil => simp [findNewH]
  | cons ballot rest ih =>
    obtain ⟨hhead, hrest⟩ := pairwise_cons.1 hsorted
    obtain ⟨hsome, hnone⟩ := ih hrest
    simp only [findNewH]
    split
    case isTrue hhigh =>
      refine ⟨fun _ _ h => absurd h (by simp), fun _ z hz _ => ?_⟩
      obtain ⟨h, hh, hle⟩ := (any_eq_true _ _).1 hhigh
      have hle' : ballot ≤ h := by simpa [compareBallots_eq, compare_lt_iff_lt] using hle
      refine ⟨h, hh, ?_⟩
      rcases mem_cons.1 hz with rfl | hz
      · exact hle'
      · exact (hhead z hz).le.trans hle'
    case isFalse =>
      split
      case isTrue hrat =>
        refine ⟨fun newH rest' h z hz _ => ?_, fun h => absurd h (by simp)⟩
        obtain ⟨rfl, _⟩ := List.cons.inj h
        rcases mem_cons.1 hz with rfl | hz
        · exact le_rfl
        · exact (hhead z hz).le
      case isFalse hrat =>
        refine ⟨fun newH rest' h z hz hz' => ?_, fun h z hz hz' => ?_⟩
        · rcases mem_cons.1 hz with rfl | hz
          · exact absurd hz' hrat
          · exact hsome newH rest' h z hz hz'
        · rcases mem_cons.1 hz with rfl | hz
          · exact absurd hz' hrat
          · exact hnone h z hz hz'

/-- What confirming `newH` does: the current ballot moves up to it, or `h` is raised below it, or
nothing changes. -/
theorem preparedConfirmed_cases {newC newH : SCPBallot}
    (hhigh : ∀ h, l.highBallot = some h → h < newH)
    (hl' : ((Update.preparedConfirmed newC newH).apply l).Invariants) :
    let l' := (Update.preparedConfirmed newC newH).apply l
    (l'.currentBallot = some newH ∧ l.currentBallot.getD {} < newH) ∨
      (∃ b, l.currentBallot = some b ∧ newH ≤ b ∧ newH.value = b.value ∧
        l'.currentBallot = some b ∧ l'.highBallot = some newH) ∨
      l' = l ∧ newH ≤ l.currentBallot.getD {} := by
  simp only [Update.apply] at hl' ⊢
  rcases raiseTo_currentBallot (l.confirmOn newC newH) newH with
    ⟨b, hb, hle, hraise⟩ | ⟨hlt, hraise⟩
  · rw [confirmOn_currentBallot] at hb
    refine .inr ?_
    by_cases hval : b.value = newH.value
    · refine .inl ⟨b, hb, hle, hval.symm, by rw [hraise, confirmOn_currentBallot, hb], ?_⟩
      rw [hraise, confirmOn_of_compatible newC (fun b' hb' => ?_) hhigh]
      exact mem_unique hb hb' ▸ hval
    · exact .inr ⟨by rw [hraise, confirmOn_of_incompatible newC hb hval], by simpa [hb] using hle⟩
  · rw [hraise] at hl' ⊢
    refine .inl ⟨rfl, ?_⟩
    cases hb : l.currentBallot with
    | none => exact default_lt (Nat.pos_of_ne_zero (hl'.current newH rfl))
    | some b => exact hlt b (by rw [confirmOn_currentBallot, hb])

/-- Two published states of the `PREPARE` phase with the same `p` and `p'`. -/
structure SamePrepared (ctx : Context) (k k' : Core) (st st' : SCPStatement) : Prop where
  before : Published ctx k st
  after : Published ctx k' st'
  peers : SamePeers ctx k k'
  phase : k.loc.phase = .prepare
  phase' : k'.loc.phase = .prepare
  prepared : k'.loc.prepared = k.loc.prepared
  preparedPrime : k'.loc.preparedPrime = k.loc.preparedPrime

namespace SamePrepared

variable (h : SamePrepared ctx k k' st st')

include h

theorem isPrepared : k'.loc.IsPrepared top ↔ k.loc.IsPrepared top := by
  rw [LocalState.IsPrepared, LocalState.IsPrepared, h.prepared, h.preparedPrime]

theorem ratified (hrat : Ratified ctx k' y) : Ratified ctx k y := by
  refine h.peers.ratify h.before h.after (by simp [h.phase]) (by simp [h.phase']) (fun hhas => ?_)
    hrat
  rw [h.after.describes.eq_prepare h.phase', hasPrepared_preparePledge] at hhas
  rw [h.before.describes.eq_prepare h.phase, hasPrepared_preparePledge]
  obtain ⟨top, htop, hle⟩ := hhas
  exact ⟨top, h.isPrepared.1 htop, hle⟩

/-- No ratified candidate is above the new current ballot. -/
theorem raiseDone_of_bound
    (hbound : ∀ z ∈ getPrepareCandidates k.envs st, Ratified ctx k z → z ≤ k'.current) :
    RaiseDone ctx k' := by
  intro y top htop hlt hle hval hrat
  obtain ⟨z, hz, hyz, hratz⟩ := exists_ratified_candidate h.before h.phase
    (.inr (h.isPrepared.1 htop)) hle hval (h.ratified hrat)
  exact absurd (hlt.trans_le hyz) (not_lt.2 (hbound z hz hratz))

/-- No ratified candidate is above the new `h`. -/
theorem highDone_of_bound {newH : SCPBallot} (hcur : k'.loc.currentBallot = k.loc.currentBallot)
    (hhigh : k'.loc.highBallot = some newH)
    (hbound : ∀ z ∈ getPrepareCandidates k.envs st, Ratified ctx k z → z ≤ newH) :
    HighDone ctx k' := by
  intro b y hb hle hval habove hrat
  have hb' : b = k.current := by rw [Core.current, ← hcur, hb, getD_some]
  obtain ⟨z, hz, hyz, hratz⟩ := exists_ratified_candidate h.before h.phase (.inl hb') hle hval
    (h.ratified hrat)
  exact absurd ((habove newH hhigh).trans_le hyz) (not_lt.2 (hbound z hz hratz))

theorem raiseDone (hcur : k'.current = k.current) (hdone : RaiseDone ctx k) :
    RaiseDone ctx k' := by
  intro y top htop hlt hle hval hrat
  rw [hcur] at hlt
  exact hdone y top (h.isPrepared.1 htop) hlt hle hval (h.ratified hrat)

theorem acceptDone (hcur : k'.current = k.current) (hdone : AcceptDone ctx k) :
    AcceptDone ctx k' := by
  intro w hw y hmem hy
  obtain rfl : w = st' := mem_unique hw h.after.own
  refine hdone st h.before.own y ?_ ?_
  · rw [mem_candidates_prepare h.before h.phase]
    obtain ⟨top, htop, hcand⟩ := (mem_candidates_prepare h.after h.phase').1 hmem
    rw [hcur, h.isPrepared] at htop hcand
    refine ⟨top, htop, hcand.imp_right ?_⟩
    rintro ⟨v, w, hv, hw, hbelow⟩
    exact ⟨v, w, hv, (h.peers v hv).symm.trans hw, hbelow⟩
  · rw [acceptable_prepare h.phase'] at hy
    rw [acceptable_prepare h.phase, ← h.prepared, ← h.preparedPrime]
    refine ⟨hy.1, hy.2.1, h.peers.accept h.before h.after (by simp [h.phase]) (by simp [h.phase'])
      (fun hhas => ?_) (fun hvotes => ?_) hy.2.2⟩
    · rw [h.after.describes.eq_prepare h.phase', hasPrepared_preparePledge] at hhas
      rw [h.before.describes.eq_prepare h.phase, hasPrepared_preparePledge]
      obtain ⟨top, htop, hle⟩ := hhas
      exact ⟨top, h.isPrepared.1 htop, hle⟩
    · rw [h.after.describes.eq_prepare h.phase'] at hvotes
      rw [h.before.describes.eq_prepare h.phase]
      have hcur' : k.loc.currentBallot.getD {} = k'.loc.currentBallot.getD {} := hcur.symm
      simpa [votesPreparedBallot, preparePledge, hcur'] using hvotes

end SamePrepared

end Prepare

/-! ### What is left in the `CONFIRM` phase -/

/-- No counter above `h` can be accepted as committed. -/
def CommitDone (ctx : Context) (k : Core) : Prop :=
  ∀ h n, k.loc.highBallot = some h → n ∈ getCommitBoundariesFromStatements k.envs h →
    h.counter < n →
    ¬ federatedAccept ctx k.envs (votesCommit h (n, n)) (commitPredicate h (n, n)) = true

section Confirm

theorem mem_commitBoundaries {n : Nat} :
    n ∈ getCommitBoundariesFromStatements envs ballot ↔
      ∃ v w, envs.lookup v = some w ∧ n ∈ commitBoundaries ballot w := by
  simp only [getCommitBoundariesFromStatements, mem_descending, mem_flatMap]
  constructor
  · rintro ⟨⟨v, w⟩, hw, hn⟩
    exact ⟨v, w, FMap.mem_entries.1 hw, hn⟩
  · rintro ⟨v, w, hw, hn⟩
    exact ⟨⟨v, w⟩, FMap.mem_entries.2 hw, hn⟩

/-- Only the value of the ballot matters for the boundaries. -/
theorem commitBoundaries_congr {a b : SCPBallot} (h : a.value = b.value) :
    commitBoundaries a = commitBoundaries b := by
  funext w
  cases hw : w.pledges <;> simp [commitBoundaries, hw, areBallotsCompatible, h]

/-- The latest own statement of the `CONFIRM` phase, and what its ballots have in common. -/
theorem Published.confirm_values (hk : Published ctx k st) (hphase : k.loc.phase = .confirm) :
    ∃ b p c h, k.loc.currentBallot = some b ∧ k.loc.prepared = some p ∧ k.loc.commit = some c ∧
      k.loc.highBallot = some h ∧ c ≤ h ∧ c.value = h.value ∧ h.value = b.value ∧
      st = ⟨ctx.nodeID, .confirm
        { ballot := b
          nPrepared := p.counter
          nCommit := c.counter
          nH := h.counter
          quorumSetHash := ctx.qSetHash }⟩ := by
  obtain ⟨b, p, c, h, hb, hp, hc, hh, hst⟩ := hk.describes.eq_confirm hphase
  obtain ⟨h', hh', hle, hval⟩ := hk.inv.invariants.commit c hc
  obtain rfl : h = h' := mem_unique hh hh'
  obtain ⟨b', hb', _, hval'⟩ := hk.inv.invariants.high h hh
  obtain rfl : b = b' := mem_unique hb hb'
  exact ⟨b, p, c, h, hb, hp, hc, hh, hle, hval, hval', hst⟩

theorem acceptable_confirm (hphase : k.loc.phase = .confirm) {p c : SCPBallot}
    (hp : k.loc.prepared = some p) (hc : k.loc.commit = some c)
    (hnone : k.loc.preparedPrime = none) :
    Acceptable ctx k y ↔ p < y ∧ p.value = y.value ∧ c.value = y.value ∧
      federatedAccept ctx k.envs (votesPreparedBallot y) (hasPreparedBallot y) = true := by
  rw [Acceptable, canAcceptPrepared_eq_true]
  simp only [hphase, hp, hc, hnone, some.injEq, forall_const, exists_eq_left',
    exists_and_left, reduceCtorEq, false_implies, implies_true, true_and, forall_eq']
  constructor
  · rintro ⟨⟨hle, hval, hcval⟩, hnot, hacc⟩
    refine ⟨lt_of_le_of_ne hle fun heq => hnot ⟨heq.ge, hval.symm⟩, hval, hcval, hacc⟩
  · rintro ⟨hlt, hval, hcval, hacc⟩
    exact ⟨⟨hlt.le, hval, hcval⟩, fun h => absurd h.1 (not_le.2 hlt), hacc⟩

namespace Accepts

variable (h : Accepts ctx k k' st st' x)

include h

/-- In the `CONFIRM` phase an accepted ballot is the new `p`, and nothing else changes. -/
theorem confirm_cases (hphase : k.loc.phase = .confirm) :
    k'.loc.currentBallot = k.loc.currentBallot ∧ k'.loc.highBallot = k.loc.highBallot ∧
      k'.loc.commit = k.loc.commit ∧ k'.loc.prepared = some x := by
  have hphase' := h.phase_eq.trans hphase
  obtain ⟨_, p, c, _, _, hp, hc, _⟩ := h.before.describes.eq_confirm hphase
  obtain ⟨_, _, c', _, _, _, hc', _⟩ := h.after.describes.eq_confirm hphase'
  have hnone := (h.before.inv.consistent.confirm (by simp [hphase])).2
  obtain ⟨hlt, _⟩ := (acceptable_confirm hphase hp hc hnone).1 h.acceptable
  refine ⟨by rw [h.loc, preparedAccept_currentBallot], by rw [h.loc, preparedAccept_highBallot],
    ?_, ?_⟩
  · rw [hc', preparedAccept_commit (h.loc ▸ hc')]
  · have hprime : ∀ q, k.loc.preparedPrime = some q → q < x := by simp [hnone]
    have hcases := preparedAccept_cases hprime fun q hq hle =>
      absurd hle.1 (not_le.2 (mem_unique hp hq ▸ hlt))
    rw [← h.loc] at hcases
    rcases hcases with ⟨hp', _⟩ | ⟨q, hq, hgt, _⟩
    · exact hp'
    · obtain rfl : p = q := mem_unique hp hq
      exact absurd hgt (not_lt.2 hlt.le)

theorem acceptDone_confirm (hphase : k.loc.phase = .confirm) : AcceptDone ctx k' := by
  intro w hw y hmem hy
  obtain rfl : st' = w := mem_unique h.after.own hw
  have hphase' := h.phase_eq.trans hphase
  obtain ⟨hcur, hhigh, hcommit, hprep⟩ := h.confirm_cases hphase
  obtain ⟨b, p, c, hb', hb, hp, hc, hh, hle, hval, hval', hst⟩ := h.before.confirm_values hphase
  obtain ⟨b₁, p₁, c₁, h₁, hb₁, hp₁, hc₁, hh₁, _, _, _, hst'⟩ := h.after.confirm_values hphase'
  obtain rfl : b = b₁ := some.inj (hb.symm.trans (hcur ▸ hb₁))
  obtain rfl : x = p₁ := mem_unique hprep hp₁
  obtain rfl : c = c₁ := some.inj (hc.symm.trans (hcommit ▸ hc₁))
  have hnone := (h.before.inv.consistent.confirm (by simp [hphase])).2
  have hnone' := (h.after.inv.consistent.confirm (by simp [hphase'])).2
  obtain ⟨hxy, _, hcy, hacc⟩ := (acceptable_confirm hphase' hp₁ hc₁ hnone').1 hy
  obtain ⟨hpx, hpval, hcx, _⟩ := (acceptable_confirm hphase hp hc hnone).1 h.acceptable
  have hxb : x.value = b.value := hcx.symm.trans (hval.trans hval')
  have hyb : y.value = b.value := hcy.symm.trans (hval.trans hval')
  -- y is above the new p, so it was a candidate before
  have hmem₀ : y ∈ getPrepareCandidates k.envs st := by
    obtain ⟨top, htop, v, w, hw, hbelow⟩ := mem_getPrepareCandidates.1 hmem
    rw [hst'] at htop
    simp only [hintBallots, mem_cons, not_mem_nil, or_false] at htop
    have htop' : top = ⟨UINT32_MAX, b.value⟩ := by
      refine htop.resolve_left fun htop => ?_
      have hle := (preparedBelow_le hbelow).1
      rw [htop, ← hxb] at hle
      exact absurd hle (not_le.2 hxy)
    refine mem_getPrepareCandidates.2 ⟨top, by rw [hst]; simp [hintBallots, htop'], v,
      h.peers.exists_lookup h.before h.after (fun hbelow => ?_) hw hbelow⟩
    rw [hst', htop'] at hbelow
    simp only [preparedBelow, areBallotsCompatible, decide_true, if_true, mem_cons] at hbelow
    rcases hbelow with rfl | hbelow
    · rw [hst, htop']
      simp [preparedBelow]
    · have hyx : y = ⟨x.counter, b.value⟩ := by
        split at hbelow
        · exact mem_singleton.1 hbelow
        · simp at hbelow
      rw [hyx, ← hxb] at hxy
      exact absurd hxy (lt_irrefl x)
  refine absurd (h.highest y hmem₀ ?_) (not_le.2 hxy)
  refine (acceptable_confirm hphase hp hc hnone).2
    ⟨hpx.trans hxy, hpval.trans (hxb.trans hyb.symm), hcy, ?_⟩
  refine h.peers.accept h.before h.after (by simp [hphase]) (by simp [hphase']) ?_ ?_ hacc
  · intro hhas
    rw [hst'] at hhas
    simp only [hasPreparedBallot, areBallotsLessAndCompatible_iff, ← hxb] at hhas
    exact absurd hhas.1 (not_le.2 hxy)
  · intro _
    rw [hst]
    simpa [votesPreparedBallot] using hyb

end Accepts

/-- Published states of the `CONFIRM` phase with the same `h` and `c`. -/
theorem commitDone_of_same (hk : Published ctx k st) (hk' : Published ctx k' st')
    (hpeers : SamePeers ctx k k') (hphase : k.loc.phase = .confirm)
    (hphase' : k'.loc.phase = .confirm) (hcur : k'.loc.currentBallot = k.loc.currentBallot)
    (hhigh : k'.loc.highBallot = k.loc.highBallot) (hcommit : k'.loc.commit = k.loc.commit)
    (hdone : CommitDone ctx k) : CommitDone ctx k' := by
  obtain ⟨b, p, c, h, hb, _, hc, hh, hst⟩ := hk.describes.eq_confirm hphase
  obtain ⟨b', p', c', h', hb', _, hc', hh', hst'⟩ := hk'.describes.eq_confirm hphase'
  obtain rfl : b = b' := some.inj (hb.symm.trans (hcur ▸ hb'))
  obtain rfl : c = c' := some.inj (hc.symm.trans (hcommit ▸ hc'))
  obtain rfl : h = h' := some.inj (hh.symm.trans (hhigh ▸ hh'))
  intro h₁ n hh₁ hn hlt hacc
  refine hdone h₁ n (hhigh ▸ hh₁) ?_ hlt ?_
  · obtain ⟨v, w, hw, hn⟩ := mem_commitBoundaries.1 hn
    refine mem_commitBoundaries.2 ⟨v, hpeers.exists_lookup hk hk' (fun hn => ?_) hw hn⟩
    rw [hst'] at hn
    rw [hst]
    exact hn
  · refine hpeers.accept hk hk' (by simp [hphase]) (by simp [hphase']) ?_ ?_ hacc
    · rw [hst, hst']
      exact id
    · rw [hst, hst']
      exact id

/-- A state of the `CONFIRM` phase in which a longer commit interval was just accepted. -/
structure Commits (ctx : Context) (k k' : Core) (st st' : SCPStatement) (ballot : SCPBallot) :
    Prop where
  before : Published ctx k st
  after : Published ctx k' st'
  peers : SamePeers ctx k k'
  phase : k.loc.phase = .confirm
  guard : Guard ctx k (.acceptCommit ⟨(acceptedInterval ctx k.envs ballot).1, ballot.value⟩
    ⟨(acceptedInterval ctx k.envs ballot).2, ballot.value⟩)
  loc : k'.loc = (Update.acceptCommit ⟨(acceptedInterval ctx k.envs ballot).1, ballot.value⟩
    ⟨(acceptedInterval ctx k.envs ballot).2, ballot.value⟩).apply k.loc

namespace Commits

variable {ballot : SCPBallot} (h : Commits ctx k k' st st' ballot)

include h

theorem phase_eq : k'.loc.phase = .confirm := by
  simp [h.loc, Update.apply, h.phase]

theorem prepared_eq : k'.loc.prepared = k.loc.prepared := by
  simp [h.loc, Update.apply, h.phase]

theorem commit_eq :
    k'.loc.commit = some ⟨(acceptedInterval ctx k.envs ballot).1, ballot.value⟩ := by
  simp [h.loc, Update.apply, h.phase]

theorem high_eq :
    k'.loc.highBallot = some ⟨(acceptedInterval ctx k.envs ballot).2, ballot.value⟩ := by
  obtain ⟨h₁, hh₁, _⟩ := h.after.inv.invariants.commit _ h.commit_eq
  rw [hh₁]
  rw [h.loc] at hh₁
  simp only [Update.apply, h.phase, reduceCtorEq, if_false] at hh₁
  exact (raiseTo_highBallot hh₁).symm

/-- The old `h` is on the value, and below the new one. -/
theorem old_high : ∃ h₀, k.loc.highBallot = some h₀ ∧ h₀.value = ballot.value ∧
    h₀.counter < (acceptedInterval ctx k.envs ballot).2 :=
  h.guard.2.2.2.2.2.2 h.phase

theorem highest :
    LargestInterval (acceptsCommit ctx k.envs ballot)
      (getCommitBoundariesFromStatements k.envs ballot) (acceptedInterval ctx k.envs ballot) :=
  acceptedInterval_largest h.guard.2.2.2.1.ne'

theorem not_done : ¬ CommitDone ctx k := by
  obtain ⟨h₀, hh₀, hval, hlt⟩ := h.old_high
  obtain ⟨⟨hmem, hacc⟩, _⟩ := h.highest.upper
  intro hdone
  refine hdone h₀ _ hh₀ ?_ hlt ?_
  · rw [getCommitBoundariesFromStatements, commitBoundaries_congr hval]
    exact hmem
  · obtain ⟨hvotes, hpred⟩ := votesCommit_congr hval ((acceptedInterval ctx k.envs ballot).2,
      (acceptedInterval ctx k.envs ballot).2)
    rw [hvotes, hpred]
    exact hacc

theorem commitDone : CommitDone ctx k' := by
  intro h₁ n hh₁ hn hlt hacc
  obtain rfl := mem_unique hh₁ h.high_eq
  obtain ⟨b, p, c, h₀, hb, _, hc, hh₀, hle, hcval, hhval, hst⟩ := h.before.confirm_values h.phase
  obtain ⟨b', p', c', h', hb', _, hc', hh', hle', hcval', hhval', hst'⟩ :=
    h.after.confirm_values h.phase_eq
  obtain rfl := mem_unique hh' h.high_eq
  obtain ⟨h₂, hh₂, hval₂, hlt₂⟩ := h.old_high
  obtain rfl : h₀ = h₂ := mem_unique hh₀ hh₂
  simp only at hlt hcval' hhval'
  have hc'le : c'.counter ≤ (acceptedInterval ctx k.envs ballot).2 := SCPBallot.counter_le hle'
  have hcle : c.counter ≤ h₀.counter := SCPBallot.counter_le hle
  refine absurd (h.highest.upper.2 ⟨?_, ?_⟩) (not_le.2 hlt)
  · obtain ⟨v, w, hw, hn⟩ := mem_commitBoundaries.1 hn
    by_cases hv : v = ctx.nodeID
    · -- the own boundaries are not above the new h
      subst hv
      obtain rfl : st' = w := mem_unique h.after.own hw
      rw [hst'] at hn
      simp only [commitBoundaries] at hn
      split at hn
      · simp only [mem_cons, not_mem_nil, or_false] at hn
        omega
      · simp at hn
    · exact mem_commitBoundaries.2 ⟨v, w, (h.peers v hv).symm.trans hw, hn⟩
  · refine h.peers.accept h.before h.after (by simp [h.phase]) (by simp [h.phase_eq]) ?_ ?_ hacc
    · intro hown
      rw [hst'] at hown
      simp only [commitPredicate, Bool.and_eq_true, decide_eq_true_eq] at hown
      omega
    · -- the node votes for everything from c on
      intro _
      rw [hst]
      simp only [votesCommit, Bool.and_eq_true, areBallotsCompatible_iff, decide_eq_true_eq]
      exact ⟨hval₂.symm.trans hhval, by omega⟩

theorem acceptDone (hdone : AcceptDone ctx k) : AcceptDone ctx k' := by
  intro w hw y hmem hy
  obtain rfl : st' = w := mem_unique h.after.own hw
  obtain ⟨b, p, c, h₀, hb, hp, hc, hh₀, _, hcval, hhval, hst⟩ := h.before.confirm_values h.phase
  obtain ⟨b', p', c', h', hb', hp', hc', hh', _, hcval', hhval', hst'⟩ :=
    h.after.confirm_values h.phase_eq
  obtain rfl : p = p' := some.inj (hp.symm.trans (h.prepared_eq ▸ hp'))
  obtain rfl := mem_unique hh' h.high_eq
  obtain ⟨h₂, hh₂, hval₂, _⟩ := h.old_high
  obtain rfl : h₀ = h₂ := mem_unique hh₀ hh₂
  have hbval : b.value = b'.value := hhval.symm.trans (hval₂.trans hhval')
  have hcc' : c.value = c'.value := hcval.trans (hval₂.trans hcval'.symm)
  have hnone := (h.before.inv.consistent.confirm (by simp [h.phase])).2
  have hnone' := (h.after.inv.consistent.confirm (by simp [h.phase_eq])).2
  obtain ⟨hlt, hpval, hcy, hacc⟩ := (acceptable_confirm h.phase_eq hp' hc' hnone').1 hy
  refine hdone st h.before.own y ?_ ((acceptable_confirm h.phase hp hc hnone).2
    ⟨hlt, hpval, hcc'.trans hcy, ?_⟩)
  · obtain ⟨top, htop, v, w, hw, hbelow⟩ := mem_getPrepareCandidates.1 hmem
    refine mem_getPrepareCandidates.2 ⟨top, ?_, v,
      h.peers.exists_lookup h.before h.after (fun hbelow => ?_) hw hbelow⟩
    · rw [hst'] at htop
      rw [hst]
      simpa [hintBallots, hbval] using htop
    · rw [hst'] at hbelow
      rw [hst]
      simpa [preparedBelow, areBallotsCompatible, hbval] using hbelow
  · refine h.peers.accept h.before h.after (by simp [h.phase]) (by simp [h.phase_eq]) ?_ ?_ hacc
    · rw [hst, hst']
      simp [hasPreparedBallot, hbval]
    · rw [hst, hst']
      simp [votesPreparedBallot, hbval]

end Commits

end Confirm

/-! ### The rank -/

open Classical in
/-- One when the condition does not hold yet. -/
noncomputable def pending (p : Prop) : Nat := if p then 0 else 1

variable {p : Prop}

theorem pending_of (h : p) : pending p = 0 := if_pos h

theorem pending_of_not (h : ¬ p) : pending p = 1 := if_neg h

theorem pending_le (p : Prop) : pending p ≤ 1 := by
  unfold pending
  split <;> omega

theorem pending_mono {q : Prop} (h : p → q) : pending q ≤ pending p := by
  by_cases hp : p
  · rw [pending_of (h hp)]
    exact Nat.zero_le _
  · rw [pending_of_not hp]
    exact pending_le q

/-- How many changes the node can still make one inside the other, on its own statements. -/
noncomputable def movesLeft (ctx : Context) (k : Core) : Nat :=
  match k.loc.phase with
  | .prepare =>
    4 + 4 * pending (RaiseDone ctx k) + 2 * pending (AcceptDone ctx k) +
      pending (HighDone ctx k)
  | .confirm => 1 + pending (AcceptDone ctx k) + pending (CommitDone ctx k)
  | .externalize => 0

theorem movesLeft_le (ctx : Context) (k : Core) : movesLeft ctx k ≤ 11 := by
  have := pending_le (RaiseDone ctx k)
  have := pending_le (AcceptDone ctx k)
  have := pending_le (HighDone ctx k)
  have := pending_le (CommitDone ctx k)
  unfold movesLeft
  split <;> omega

theorem Accepts.movesLeft_lt (h : Accepts ctx k k' st st' x)
    (hext : k.loc.phase ≠ .externalize) : movesLeft ctx k' < movesLeft ctx k := by
  have hphase' := h.phase_eq
  have hnot : ¬ AcceptDone ctx k := fun hdone => hdone st h.before.own x h.mem h.acceptable
  cases hphase : k.loc.phase with
  | externalize => exact absurd hphase hext
  | prepare =>
    have hraise := pending_mono (h.raiseDone hphase)
    have hhigh := pending_le (HighDone ctx k')
    simp only [movesLeft, hphase, hphase', pending_of (h.acceptDone hphase), pending_of_not hnot]
    omega
  | confirm =>
    rw [hphase] at hphase'
    obtain ⟨hcur, hhigh, hcommit, _⟩ := h.confirm_cases hphase
    have hdone := pending_mono (commitDone_of_same h.before h.after h.peers hphase hphase' hcur
      hhigh hcommit)
    simp only [movesLeft, hphase, hphase', pending_of (h.acceptDone_confirm hphase),
      pending_of_not hnot]
    omega

theorem Commits.movesLeft_lt (h : Commits ctx k k' st st' ballot) :
    movesLeft ctx k' < movesLeft ctx k := by
  have hdone := pending_mono h.acceptDone
  simp only [movesLeft, h.phase, h.phase_eq, pending_of h.commitDone, pending_of_not h.not_done]
  omega

/-- A ratified candidate of the own statement does not move the current ballot. -/
theorem RaiseDone.not_current_lt (hdone : RaiseDone ctx k) (hk : Published ctx k st)
    (hphase : k.loc.phase = .prepare) (hmem : y ∈ getPrepareCandidates k.envs st)
    (hrat : Ratified ctx k y) : ¬ k.current < y := by
  intro hlt
  obtain ⟨top, htop, hcand⟩ := (mem_candidates_prepare hk hphase).1 hmem
  have hle : y ≤ top ∧ y.value = top.value := by
    rcases hcand with ⟨_, hle⟩ | ⟨v, w, _, _, hbelow⟩
    · exact hle
    · exact preparedBelow_le hbelow
  rcases htop with rfl | htop
  · exact absurd hle.1 (not_le.2 hlt)
  · exact hdone y top htop hlt hle.1 hle.2 hrat

/-- A state in which `newH` was just confirmed prepared. -/
structure Confirms (ctx : Context) (k k' : Core) (st st' : SCPStatement) (newC newH : SCPBallot) :
    Prop where
  before : Published ctx k st
  after : Published ctx k' st'
  peers : SamePeers ctx k k'
  guard : Guard ctx k (.preparedConfirmed newC newH)
  loc : k'.loc = (Update.preparedConfirmed newC newH).apply k.loc

namespace Confirms

variable {newC newH : SCPBallot} (h : Confirms ctx k k' st st' newC newH)

include h

theorem samePrepared : SamePrepared ctx k k' st st' where
  __ := h
  phase := h.guard.1
  phase' := by simp [h.loc, Update.apply, h.guard.1]
  prepared := by simp [h.loc, Update.apply]
  preparedPrime := by simp [h.loc, Update.apply]

theorem cases :
    (k'.loc.currentBallot = some newH ∧ k.current < newH) ∨
      (∃ b, k.loc.currentBallot = some b ∧ newH ≤ b ∧ newH.value = b.value ∧
        k'.loc.currentBallot = some b ∧ k'.loc.highBallot = some newH) ∨
      k'.loc = k.loc ∧ newH ≤ k.current := by
  have hl' := h.after.inv.invariants
  rw [h.loc] at hl' ⊢
  exact preparedConfirmed_cases h.guard.2.2.1 hl'

theorem le_current : newH ≤ k'.current := by
  rcases h.cases with ⟨hb, _⟩ | ⟨b, _, hle, _, hb, _⟩ | ⟨hloc, hle⟩
  · rw [Core.current, hb, getD_some]
  · rw [Core.current, hb, getD_some]
    exact hle
  · rwa [Core.current, hloc]

/-- A scan of the own statement that chose the highest ratified candidate leaves none above the
current ballot. -/
theorem raiseDone (hhighest : ∀ z ∈ getPrepareCandidates k.envs st, Ratified ctx k z → z ≤ newH) :
    RaiseDone ctx k' :=
  h.samePrepared.raiseDone_of_bound fun z hz hrat => (hhighest z hz hrat).trans h.le_current

/-- Raising `h` below the current ballot. -/
theorem movesLeft_of_high {b : SCPBallot} (hb : k.loc.currentBallot = some b)
    (hb' : k'.loc.currentBallot = some b) (hdone : RaiseDone ctx k) :
    RaiseDone ctx k' ∧ (AcceptDone ctx k → AcceptDone ctx k') ∧
      movesLeft ctx k' ≤ 5 + 2 * pending (AcceptDone ctx k) := by
  have hcur : k'.current = k.current := by rw [Core.current, Core.current, hb, hb']
  have hsame := h.samePrepared
  have hraise := hsame.raiseDone hcur hdone
  have haccept := pending_mono (hsame.acceptDone hcur)
  have hhigh := pending_le (HighDone ctx k')
  refine ⟨hraise, hsame.acceptDone hcur, ?_⟩
  simp only [movesLeft, hsame.phase', pending_of hraise]
  omega

/-- On its own statement the node either moves its current ballot or raises `h`, and has fewer
moves left. -/
theorem movesLeft_lt (hmem : newH ∈ getPrepareCandidates k.envs st)
    (hhighest : ∀ z ∈ getPrepareCandidates k.envs st, Ratified ctx k z → z ≤ newH)
    (hmoved : k'.loc ≠ k.loc) : movesLeft ctx k' < movesLeft ctx k := by
  obtain ⟨hphase, _, habove, hrat, _⟩ := h.guard
  have hsame := h.samePrepared
  have hraise' := pending_of (h.raiseDone hhighest)
  simp only [movesLeft, hphase, hsame.phase', hraise']
  rcases h.cases with ⟨_, hlt⟩ | ⟨b, hb, hle, hval, hb', hhigh⟩ | ⟨hloc, _⟩
  · have hnot : ¬ RaiseDone ctx k := fun hdone =>
      hdone.not_current_lt h.before hphase hmem hrat hlt
    have haccept := pending_le (AcceptDone ctx k')
    have hhigh := pending_le (HighDone ctx k')
    simp only [pending_of_not hnot]
    omega
  · have hcur : k'.current = k.current := by rw [Core.current, Core.current, hb, hb']
    have hnot : ¬ HighDone ctx k := fun hdone => hdone b newH hb hle hval habove hrat
    have hdone' := hsame.highDone_of_bound (hb'.trans hb.symm) hhigh hhighest
    have haccept := pending_mono (hsame.acceptDone hcur)
    simp only [pending_of hdone', pending_of_not hnot]
    omega
  · exact absurd hloc hmoved

end Confirms

/-- A scan of the own statement that found nothing leaves no ratified ballot above the current
one. -/
theorem raiseDone_of_scan (hk : Published ctx k st) (hphase : k.loc.phase = .prepare)
    (hnone : k.loc.prepared.isSome →
      findNewH ctx k.loc k.envs (getPrepareCandidates k.envs st) = []) : RaiseDone ctx k := by
  intro y top htop
  have hsome : k.loc.prepared.isSome := by
    rcases htop with htop | htop
    · simp [htop]
    · exact hk.inv.consistent.prime (by simp [htop])
  have hbound : ∀ z ∈ getPrepareCandidates k.envs st, Ratified ctx k z → z ≤ k.current := by
    intro z hz hrat
    obtain ⟨h, hh, hle⟩ := (findNewH_highest descending_pairwise).2 (hnone hsome) z hz hrat
    obtain ⟨b, hb, hhb, _⟩ := hk.inv.invariants.high h hh
    rw [Core.current, hb, getD_some]
    exact hle.trans hhb
  exact SamePrepared.raiseDone_of_bound ⟨hk, hk, fun _ _ => rfl, hphase, hphase, rfl, rfl⟩ hbound
    y top htop

end SpnCore.Scp
