import SpnCore.Scp.Publish

/-!
# Runs of steps

What holds between the ends of a run of steps: the invariant of the node is kept, history and
log only grow, only own statements change during a nested `advanceSlot`, phases never go back,
`p` never decreases, and an externalized state is final.
-/

namespace SpnCore.Scp

open Lib Relation List

variable {ctx : Context} {k k' : Core}

/-! ### Recording and publishing -/

@[simp] theorem publish_loc (l : LocalState) (st : SCPStatement) :
    (k.publish ctx l st).loc = l := by
  unfold Core.publish; split <;> rfl

@[simp] theorem publish_log (ctx : Context) (k : Core) (l : LocalState) (st : SCPStatement) :
    (k.publish ctx l st).log = k.log := by
  unfold Core.publish; split <;> rfl

theorem publish_history (ctx : Context) (k : Core) (l : LocalState) (st : SCPStatement) :
    (k.publish ctx l st).history = k.history ∨
      (k.publish ctx l st).history = k.history ++ [st] := by
  unfold Core.publish
  split
  · exact .inl rfl
  · exact .inr rfl

variable {st : SCPStatement} {u : Update}

/-- Publishing makes the statement the latest own one and leaves the others alone. -/
theorem publish_lookup {l : LocalState} (hst : st.nodeID = ctx.nodeID) (v : NodeID) :
    (k.publish ctx l st).envs.lookup v =
      if v = ctx.nodeID then some st else k.envs.lookup v := by
  unfold Core.publish
  split
  case isTrue h =>
    split
    case isTrue hv => rw [hv]; exact h
    case isFalse => rfl
  case isFalse => simp only [Core.record, FMap.lookup_insert, hst]

/-! ### The invariant of the node -/

theorem Core.Inv.push (hk : k.Inv ctx) (u : Update) : (k.push u).Inv ctx :=
  ⟨hk.consistent, hk.synced, hk.keys⟩

theorem Publishable.nodeID_eq {l : LocalState} (h : Publishable ctx k l st) :
    st.nodeID = ctx.nodeID :=
  (createStatement_eq_ok.1 h.1).2.nodeID_eq

theorem Act.inv (h : Act ctx u k k') (hk : k.Inv ctx) : k'.Inv ctx := by
  cases h with
  | enter => exact hk.push u
  | perform st hguard hpublish =>
    have hlookup := publish_lookup (k := k) (l := u.apply k.loc) hpublish.nodeID_eq
    refine ⟨?_, .inr ⟨st, ?_, ?_⟩, ?_⟩
    · rw [publish_loc]
      exact apply_consistent hguard hk.consistent
    · rw [publish_loc]
      exact hpublish.1
    · rw [hlookup, if_pos rfl]
    · intro v st' hst'
      rw [hlookup] at hst'
      split at hst'
      case isTrue hv =>
        obtain rfl := Option.some.inj hst'
        rw [hv, hpublish.nodeID_eq]
      case isFalse => exact hk.keys v st' hst'

theorem Core.Inv.record (hk : k.Inv ctx) (hother : st.nodeID ≠ ctx.nodeID) :
    (k.record st).Inv ctx where
  consistent := hk.consistent
  synced := by
    have hlookup : (k.record st).envs.lookup ctx.nodeID = k.envs.lookup ctx.nodeID := by
      exact FMap.lookup_insert_of_ne hother.symm
    rw [hlookup]
    exact hk.synced
  keys := by
    intro v st' hst'
    simp only [Core.record, FMap.lookup_insert] at hst'
    split at hst'
    case isTrue hv =>
      obtain rfl := Option.some.inj hst'
      exact hv.symm
    case isFalse => exact hk.keys v st' hst'

theorem Step.inv (h : Step ctx k k') (hk : k.Inv ctx) : k'.Inv ctx := by
  cases h with
  | act u _ hact => exact hact.inv hk
  | receive st hother => exact hk.record hother

/-- Every run of steps keeps the invariant of the node. -/
theorem inv_of_steps (h : ReflTransGen (Step ctx) k k') (hk : k.Inv ctx) : k'.Inv ctx := by
  induction h with
  | refl => exact hk
  | tail _ hstep ih => exact hstep.inv ih

theorem own_of_inner (h : ReflTransGen (InnerStep ctx) k k') : ReflTransGen (OwnStep ctx) k k' :=
  ReflTransGen.mono (show InnerStep ctx ≤ OwnStep ctx from fun _ _ => InnerStep.own) _ _ h

theorem steps_of_own (h : ReflTransGen (OwnStep ctx) k k') : ReflTransGen (Step ctx) k k' :=
  ReflTransGen.mono (show OwnStep ctx ≤ Step ctx from fun _ _ => OwnStep.step) _ _ h

theorem inv_of_inner (h : ReflTransGen (InnerStep ctx) k k') (hk : k.Inv ctx) : k'.Inv ctx :=
  inv_of_steps (steps_of_own (own_of_inner h)) hk

/-! ### History and log -/

theorem Step.history_grows (h : Step ctx k k') : k.history <+: k'.history := by
  cases h with
  | receive st => exact prefix_append _ _
  | act u _ hact =>
    cases hact with
    | enter => exact prefix_rfl
    | perform st =>
      rcases publish_history ctx k (u.apply k.loc) st with h | h
      · exact h ▸ prefix_rfl
      · exact h ▸ prefix_append _ _

theorem Step.log_grows (h : Step ctx k k') : k.log <+: k'.log := by
  cases h with
  | receive st => exact prefix_rfl
  | act u _ hact =>
    cases hact with
    | enter => exact prefix_append _ _
    | perform st => exact (publish_log ctx k _ st).symm ▸ prefix_rfl

/-- History only grows. -/
theorem history_grows (h : ReflTransGen (Step ctx) k k') : k.history <+: k'.history := by
  induction h with
  | refl => exact prefix_rfl
  | tail _ hstep ih => exact ih.trans hstep.history_grows

/-- The log only grows. -/
theorem log_grows (h : ReflTransGen (Step ctx) k k') : k.log <+: k'.log := by
  induction h with
  | refl => exact prefix_rfl
  | tail _ hstep ih => exact ih.trans hstep.log_grows

/-! ### Phases and ballots -/

/-- The position of a phase. -/
def SCPPhase.rank : SCPPhase → Nat
  | .prepare => 0
  | .confirm => 1
  | .externalize => 2

theorem apply_phase_le (hguard : Guard ctx k u) :
    k.loc.phase.rank ≤ (u.apply k.loc).phase.rank := by
  cases u with
  | preparedAccept ballot => simp
  | preparedConfirmed newC newH => simp [Update.apply]
  | acceptCommit c h =>
    simp only [Update.apply, raiseTo_phase]
    split
    case isTrue hphase => simp [hphase, SCPPhase.rank]
    case isFalse => exact le_rfl
  | confirmCommit c h =>
    rw [hguard.1]
    simp [Update.apply, SCPPhase.rank]
  | bump ballot => exact le_rfl

/-- A change that keeps the phase does not decrease the current ballot. -/
theorem apply_current_le (hguard : Guard ctx k u) (hphase : (u.apply k.loc).phase = k.loc.phase)
    {b : SCPBallot} (hb : k.loc.currentBallot = some b) :
    ∃ b', (u.apply k.loc).currentBallot = some b' ∧ b ≤ b' := by
  have hraise : ∀ (l : LocalState) (h : SCPBallot), l.currentBallot = some b →
      ∃ b', (l.raiseTo h).currentBallot = some b' ∧ b ≤ b' := by
    intro l h hl
    rcases raiseTo_currentBallot l h with ⟨_, _, _, hr⟩ | ⟨hlt, hr⟩
    · exact ⟨b, by rw [hr, hl], le_rfl⟩
    · exact ⟨h, by rw [hr]; rfl, (hlt b hl).le⟩
  cases u with
  | preparedAccept ballot => exact ⟨b, by simpa using hb, le_rfl⟩
  | preparedConfirmed newC newH => exact hraise _ _ (by simpa using hb)
  | acceptCommit c h =>
    have hne : k.loc.phase ≠ .prepare := by
      intro hp
      simp [Update.apply, hp] at hphase
    simp only [Update.apply, if_neg hne]
    exact hraise _ _ hb
  | confirmCommit c h =>
    rw [hguard.1] at hphase
    simp [Update.apply] at hphase
  | bump ballot => exact ⟨ballot, rfl, (hguard.2.2.1 b hb).le⟩

/-- No change decreases `p`. -/
theorem apply_prepared_le (hguard : Guard ctx k u) {p : SCPBallot} (hp : k.loc.prepared = some p) :
    ∃ p', (u.apply k.loc).prepared = some p' ∧ p ≤ p' := by
  cases u with
  | preparedAccept ballot =>
    obtain ⟨_, _, hprime, hcovered, _⟩ := hguard
    rcases preparedAccept_cases hprime hcovered with ⟨hp', hold⟩ | ⟨q, hq, _, _, hp', _⟩
    · rcases hold with ⟨hnone, _⟩ | ⟨q, hq, hlt, _⟩
      · simp [hnone] at hp
      · obtain rfl : p = q := Option.mem_unique hp hq
        exact ⟨ballot, hp', hlt.le⟩
    · obtain rfl : p = q := Option.mem_unique hp hq
      exact ⟨p, hp', le_rfl⟩
  | preparedConfirmed newC newH => exact ⟨p, by simpa [Update.apply] using hp, le_rfl⟩
  | acceptCommit c h =>
    refine ⟨p, ?_, le_rfl⟩
    simp only [Update.apply, raiseTo_prepared]
    split
    · split <;> exact hp
    · exact hp
  | confirmCommit c h => exact ⟨p, by simpa [Update.apply] using hp, le_rfl⟩
  | bump ballot => exact ⟨p, hp, le_rfl⟩

/-- What the ends of a run without statements of peers have in common: the statements of peers
are the same, phases only advance, `p` does not decrease, and as long as the phase stays the
current ballot does not decrease. -/
structure Ahead (ctx : Context) (k k' : Core) : Prop where
  others : ∀ v, v ≠ ctx.nodeID → k'.envs.lookup v = k.envs.lookup v
  phase : k.loc.phase.rank ≤ k'.loc.phase.rank
  prepared : ∀ p, k.loc.prepared = some p → ∃ p', k'.loc.prepared = some p' ∧ p ≤ p'
  current : k'.loc.phase = k.loc.phase → ∀ b, k.loc.currentBallot = some b →
    ∃ b', k'.loc.currentBallot = some b' ∧ b ≤ b'

theorem SCPPhase.rank_injective {a b : SCPPhase} (h : a.rank = b.rank) : a = b := by
  cases a <;> cases b <;> simp_all [SCPPhase.rank]

theorem Ahead.refl (k : Core) : Ahead ctx k k where
  others := fun _ _ => rfl
  phase := le_rfl
  prepared := fun p hp => ⟨p, hp, le_rfl⟩
  current := fun _ b hb => ⟨b, hb, le_rfl⟩

theorem Ahead.trans {k₁ k₂ k₃ : Core} (h₁ : Ahead ctx k₁ k₂) (h₂ : Ahead ctx k₂ k₃) :
    Ahead ctx k₁ k₃ where
  others := fun v hv => (h₂.others v hv).trans (h₁.others v hv)
  phase := h₁.phase.trans h₂.phase
  prepared := by
    intro p hp
    obtain ⟨p₂, hp₂, hle₂⟩ := h₁.prepared p hp
    obtain ⟨p₃, hp₃, hle₃⟩ := h₂.prepared p₂ hp₂
    exact ⟨p₃, hp₃, hle₂.trans hle₃⟩
  current := by
    intro hphase b hb
    have h₁₂ := h₁.phase
    have h₂₃ := h₂.phase
    rw [hphase] at h₂₃
    have hsame : k₂.loc.phase = k₁.loc.phase := SCPPhase.rank_injective (le_antisymm h₂₃ h₁₂)
    obtain ⟨b₂, hb₂, hle₂⟩ := h₁.current hsame b hb
    obtain ⟨b₃, hb₃, hle₃⟩ := h₂.current (hphase.trans hsame.symm) b₂ hb₂
    exact ⟨b₃, hb₃, hle₂.trans hle₃⟩

theorem Act.ahead (h : Act ctx u k k') : Ahead ctx k k' := by
  cases h with
  | enter =>
    exact
      { others := fun _ _ => rfl
        phase := le_rfl
        prepared := fun p hp => ⟨p, hp, le_rfl⟩
        current := fun _ b hb => ⟨b, hb, le_rfl⟩ }
  | perform st hguard hpublish =>
    constructor
    case others =>
      intro v hv
      rw [publish_lookup hpublish.nodeID_eq, if_neg hv]
    case phase => rw [publish_loc]; exact apply_phase_le hguard
    case prepared =>
      intro p hp
      rw [publish_loc]
      exact apply_prepared_le hguard hp
    case current =>
      intro hphase b hb
      rw [publish_loc] at hphase ⊢
      exact apply_current_le hguard hphase hb

theorem ahead_of_own (h : ReflTransGen (OwnStep ctx) k k') : Ahead ctx k k' := by
  induction h with
  | refl => exact .refl k
  | tail _ hstep ih =>
    obtain ⟨u, hact⟩ := hstep
    exact ih.trans hact.ahead

/-- No change is made once a value is externalized. -/
theorem Guard.not_externalize (hguard : Guard ctx k u) : k.loc.phase ≠ .externalize := by
  cases u with
  | preparedAccept | acceptCommit | bump => exact hguard.1
  | preparedConfirmed | confirmCommit =>
    rw [hguard.1]
    decide

/-- An externalized local state is final. -/
theorem loc_eq_of_externalize (h : ReflTransGen (Step ctx) k k')
    (hphase : k.loc.phase = .externalize) : k'.loc = k.loc := by
  induction h with
  | refl => rfl
  | tail _ hstep ih =>
    cases hstep with
    | receive st => exact ih
    | act u _ hact =>
      cases hact with
      | enter => exact ih
      | perform st hguard =>
        have := hguard.not_externalize
        rw [ih] at this
        exact absurd hphase this

/-- In the `PREPARE` phase a nested `advanceSlot` leaves the current ballot alone or moves it to
a ballot that `p` covers. -/
theorem current_of_inner (h : ReflTransGen (InnerStep ctx) k k')
    (hphase : k'.loc.phase = .prepare) :
    k'.loc.currentBallot = k.loc.currentBallot ∨
      ∃ b p, k'.loc.currentBallot = some b ∧ k'.loc.prepared = some p ∧ b ≤ p := by
  induction h with
  | refl => exact .inl rfl
  | @tail k₁ k₂ _ hstep ih =>
    obtain ⟨u, hinner, hact⟩ := hstep
    have hphase₁ : k₁.loc.phase = .prepare := by
      have hle := hact.ahead.phase
      rw [hphase] at hle
      exact SCPPhase.rank_injective (Nat.le_zero.1 hle)
    have hcov : (∃ b p, k₁.loc.currentBallot = some b ∧ k₁.loc.prepared = some p ∧ b ≤ p) →
        k₂.loc.currentBallot = k₁.loc.currentBallot →
        ∃ b p, k₂.loc.currentBallot = some b ∧ k₂.loc.prepared = some p ∧ b ≤ p := by
      rintro ⟨b, p, hb, hp, hle⟩ hsame
      obtain ⟨p', hp', hle'⟩ := hact.ahead.prepared p hp
      exact ⟨b, p', hsame.trans hb, hp', hle.trans hle'⟩
    have hkeep : k₂.loc.currentBallot = k₁.loc.currentBallot →
        k₂.loc.currentBallot = k.loc.currentBallot ∨
          ∃ b p, k₂.loc.currentBallot = some b ∧ k₂.loc.prepared = some p ∧ b ≤ p := by
      intro hsame
      exact (ih hphase₁).imp hsame.trans fun hb => hcov hb hsame
    cases hact with
    | enter => exact hkeep rfl
    | perform st hguard hpublish =>
      rw [publish_loc] at hphase hkeep ⊢
      cases u with
      | preparedAccept ballot => exact hkeep (by simp)
      | preparedConfirmed newC newH =>
        obtain ⟨_, ⟨p, hp, hle⟩, _⟩ := hguard
        simp only [Update.apply] at hkeep ⊢
        rcases raiseTo_currentBallot (k₁.loc.confirmOn newC newH) newH with
          ⟨b, _, _, hraise⟩ | ⟨_, hraise⟩
        · exact hkeep (by rw [hraise, confirmOn_currentBallot])
        · refine .inr ⟨newH, p, by rw [hraise]; rfl, ?_, hle⟩
          rw [raiseTo_prepared, confirmOn_prepared, hp]
      | acceptCommit c h => simp [Update.apply, hphase₁] at hphase
      | confirmCommit c h => simp [Update.apply] at hphase
      | bump ballot => simp [Update.isInner] at hinner

/-- As long as `p` is unset, a nested `advanceSlot` changes nothing. -/
theorem unchanged_of_prepared_none (h : ReflTransGen (InnerStep ctx) k k')
    (hk : k.Inv ctx) (hnone : k'.loc.prepared = none) : k'.loc = k.loc ∧ k'.envs = k.envs := by
  induction h with
  | refl => exact ⟨rfl, rfl⟩
  | @tail k₁ k₂ hrun hstep ih =>
    obtain ⟨u, hinner, hact⟩ := hstep
    cases hact with
    | enter => exact ih hnone
    | perform st hguard hpublish =>
      exfalso
      rw [publish_loc] at hnone
      have hnone₁ : k₁.loc.prepared = none := by
        cases hp : k₁.loc.prepared with
        | none => rfl
        | some p =>
          obtain ⟨p', hp', _⟩ := apply_prepared_le hguard hp
          simp [hnone] at hp'
      cases u with
      | preparedAccept ballot =>
        obtain ⟨_, _, hprime, hcovered, _⟩ := hguard
        rcases preparedAccept_cases hprime hcovered with ⟨hp, _⟩ | ⟨_, _, _, _, hp, _⟩ <;>
          simp [hnone] at hp
      | preparedConfirmed newC newH =>
        obtain ⟨_, ⟨p, hp, _⟩, _⟩ := hguard
        simp [hnone₁] at hp
      | acceptCommit c h =>
        have hsome := hguard.2.1
        simp [hnone₁] at hsome
      | confirmCommit c h =>
        have hcons := ((inv_of_inner hrun hk).consistent.confirm (by simp [hguard.1])).1
        simp [hnone₁] at hcons
      | bump ballot => simp [Update.isInner] at hinner

end SpnCore.Scp
