import SpnCore.Scp.OwnHistory
import SpnCore.Scp.Outbox
import SpnCore.Scp.Invariants

/-!
# Phases, values and decisions of one slot

Along every run of a slot, with any answers of the driver about values, the phase never moves
back, the values of `b`, `h` and `c` are equal and fixed from the `CONFIRM` phase on, and a value
is externalized at most once. After that the local state is frozen, and only statements on the
externalized value are recorded.
-/

namespace SpnCore.Scp

open Lib Relation List

/-! ### Sessions -/

/-- The node while its driver gives these answers about values. -/
def Context.answering (ctx : Context) (answers : Value → ValidationLevel) : Context :=
  { ctx with validateValue := answers }

/-- Calls, each with the answers of the driver while it runs. -/
abbrev Session := List ((Value → ValidationLevel) × Call)

/-- Runs the calls of a session one after the other. -/
def runSession (ctx : Context) : Session → SlotM Unit
  | [] => pure ()
  | (answers, call) :: session => do
      call.run (ctx.answering answers)
      runSession ctx session

/-! ### Local states in the course of a run -/

namespace LocalState

/-- `b`, `h` and `c` are set, and all three are on the value `v`. -/
structure On (l : LocalState) (v : Value) : Prop where
  current : ∃ b, l.currentBallot = some b ∧ b.value = v
  high : ∃ h, l.highBallot = some h ∧ h.value = v
  commit : ∃ c, l.commit = some c ∧ c.value = v

/-- The local state `l'` may come after `l`: the phase is not before that of `l`, from the
`CONFIRM` phase on the value stays, and the final phase is never left. -/
structure Precedes (l l' : LocalState) : Prop where
  phase : l.phase.rank ≤ l'.phase.rank
  value : l.phase ≠ .prepare → ∃ v, l.On v ∧ l'.On v
  final : l.phase = .externalize → l' = l

variable {l l' l'' : LocalState} {v v' : Value}

theorem On.eq (h : l.On v) (h' : l.On v') : v = v' := by
  obtain ⟨c, hc, rfl⟩ := h.commit
  obtain ⟨c', hc', rfl⟩ := h'.commit
  rw [Option.mem_unique hc hc']

theorem Invariants.on_commit (hl : l.Invariants) {c : SCPBallot} (hc : l.commit = some c) :
    l.On c.value := by
  obtain ⟨h, b, hh, hb, _, _, hval, hval'⟩ := hl.of_commit hc
  exact ⟨⟨b, hb, (hval.trans hval').symm⟩, ⟨h, hh, hval.symm⟩, ⟨c, hc, rfl⟩⟩

/-- Outside of the `PREPARE` phase `c` is set. -/
theorem Invariants.exists_commit (hl : l.Invariants) (hphase : l.phase ≠ .prepare) :
    ∃ c, l.commit = some c := by
  refine Option.isSome_iff_exists.1 ?_
  cases hp : l.phase with
  | prepare => exact absurd hp hphase
  | confirm => exact hl.confirm hp
  | externalize => exact (hl.externalize hp).1

theorem Precedes.refl (hl : l.Invariants) : l.Precedes l where
  phase := le_rfl
  value := by
    intro hphase
    obtain ⟨c, hc⟩ := hl.exists_commit hphase
    exact ⟨c.value, hl.on_commit hc, hl.on_commit hc⟩
  final := fun _ => rfl

theorem rank_ne_prepare (hphase : l.phase ≠ .prepare) (hle : l.phase.rank ≤ l'.phase.rank) :
    l'.phase ≠ .prepare := by
  intro hp
  rw [hp] at hle
  exact hphase (SCPPhase.rank_injective (Nat.le_zero.1 hle))

theorem Precedes.trans (h₁ : l.Precedes l') (h₂ : l'.Precedes l'') : l.Precedes l'' where
  phase := h₁.phase.trans h₂.phase
  value := by
    intro hphase
    obtain ⟨v, hv, hv'⟩ := h₁.value hphase
    obtain ⟨w, hw, hw'⟩ := h₂.value (rank_ne_prepare hphase h₁.phase)
    obtain rfl := hw.eq hv'
    exact ⟨w, hv, hw'⟩
  final := by
    intro hphase
    have heq := h₁.final hphase
    rw [← heq]
    exact h₂.final (by rw [heq]; exact hphase)

end LocalState

open LocalState

variable {ctx : Context} {k k' : Core} {s t r : BallotState}

/-- A change outside of the `PREPARE` phase is on the value of `c`. -/
theorem apply_commit_value {u : Update} (hguard : Guard ctx k u) (hl : k.loc.Invariants)
    (hl' : (u.apply k.loc).Invariants) {c : SCPBallot} (hphase : k.loc.phase ≠ .prepare)
    (hc : k.loc.commit = some c) : (u.apply k.loc).On c.value := by
  have hconfirm : k.loc.phase = .confirm := by
    have hext := hguard.not_externalize
    cases hp : k.loc.phase with
    | prepare => exact absurd hp hphase
    | confirm => rfl
    | externalize => exact absurd hp hext
  obtain ⟨h, b, hh, hb, _, _, hval, hval'⟩ := hl.of_commit hc
  cases u with
  | preparedAccept ballot =>
    -- the current ballot stays, and c is on its value
    obtain ⟨c', hc'⟩ := hl'.exists_commit (by simp [hconfirm])
    have hb' : ((Update.preparedAccept ballot).apply k.loc).currentBallot = some b := by
      simpa using hb
    have hsame := hl'.commit_value_eq_current hc' hb'
    rw [hval, hval', ← hsame]
    exact hl'.on_commit hc'
  | preparedConfirmed newC newH => exact absurd hguard.1 hphase
  | acceptCommit c' h' =>
    obtain ⟨_, _, hc'h', _, _, _, hhigh⟩ := hguard
    obtain ⟨h₀, hh₀, hval₀, _⟩ := hhigh hconfirm
    obtain rfl : h = h₀ := Option.mem_unique hh hh₀
    have hc' : ((Update.acceptCommit c' h').apply k.loc).commit = some c' := by
      simp [Update.apply, hphase]
    rw [hval, hval₀, ← hc'h']
    exact hl'.on_commit hc'
  | confirmCommit c' h' =>
    obtain ⟨_, _, _, _, ⟨c₀, hc₀, hval₀⟩, _⟩ := hguard
    obtain rfl : c = c₀ := Option.mem_unique hc hc₀
    have hc' : ((Update.confirmCommit c' h').apply k.loc).commit = some c' := by
      simp [Update.apply]
    rw [hval₀]
    exact hl'.on_commit hc'
  | bump ballot => exact hl'.on_commit hc

theorem Act.precedes {u : Update} (h : Act ctx u k k') (hk : k.Inv ctx) :
    k.loc.Precedes k'.loc := by
  have hl := hk.invariants
  have hl' := (h.inv hk).invariants
  cases h with
  | enter => exact .refl hl
  | perform st hguard hpublish =>
    rw [publish_loc] at hl' ⊢
    refine ⟨apply_phase_le hguard, fun hphase => ?_, fun hext => absurd hext hguard.not_externalize⟩
    obtain ⟨c, hc⟩ := hl.exists_commit hphase
    exact ⟨c.value, hl.on_commit hc, apply_commit_value hguard hl hl' hphase hc⟩

/-- The log of a node: the local states of its lines precede the present one, and a line of
`confirmCommit` was written in the `CONFIRM` phase with `c` on its value. -/
structure Core.Logged (k : Core) : Prop where
  past : ∀ l u, (l, u) ∈ k.log → l.Precedes k.loc
  confirms : ∀ l c h, (l, .confirmCommit c h) ∈ k.log → l.phase ≠ .prepare ∧ l.On c.value

theorem Step.logged (h : Step ctx k k') (hk : k.Inv ctx) (hlog : k.Logged) : k'.Logged := by
  cases h with
  | receive st => exact ⟨hlog.past, hlog.confirms⟩
  | act u _ hact =>
    have hprecedes := hact.precedes hk
    cases hact with
    | enter hguard =>
      constructor
      · intro l u' hmem
        rcases mem_append.1 hmem with hmem | hmem
        · exact hlog.past l u' hmem
        · obtain ⟨rfl, rfl⟩ : l = k.loc ∧ u' = u := by simpa using hmem
          exact hprecedes
      · intro l c h hmem
        rcases mem_append.1 hmem with hmem | hmem
        · exact hlog.confirms l c h hmem
        · obtain ⟨rfl, rfl⟩ : l = k.loc ∧ .confirmCommit c h = u := by simpa using hmem
          obtain ⟨hphase, _, _, _, ⟨c₀, hc₀, hval⟩, _⟩ := hguard
          rw [← hval, hphase]
          exact ⟨by decide, hk.invariants.on_commit hc₀⟩
    | perform st hguard hpublish =>
      constructor
      · intro l u' hmem
        rw [publish_log] at hmem
        exact (hlog.past l u' hmem).trans hprecedes
      · intro l c h hmem
        rw [publish_log] at hmem
        exact hlog.confirms l c h hmem

/-- What a run of steps keeps: later states follow, and so do the states that were logged. -/
structure Core.LeadsTo (k k' : Core) : Prop where
  logged : k'.Logged
  precedes : k.loc.Precedes k'.loc
  lines : ∀ l u, (l, u) ∈ k'.log → (l, u) ∈ k.log ∨ k.loc.Precedes l

theorem Core.LeadsTo.refl (hk : k.Inv ctx) (hlog : k.Logged) : k.LeadsTo k :=
  ⟨hlog, .refl hk.invariants, fun _ _ h => .inl h⟩

theorem Core.LeadsTo.trans {k₁ k₂ k₃ : Core} (h₁ : k₁.LeadsTo k₂) (h₂ : k₂.LeadsTo k₃) :
    k₁.LeadsTo k₃ where
  logged := h₂.logged
  precedes := h₁.precedes.trans h₂.precedes
  lines := by
    intro l u hmem
    rcases h₂.lines l u hmem with hmem | hl
    · exact h₁.lines l u hmem
    · exact .inr (h₁.precedes.trans hl)

theorem Step.leadsTo (h : Step ctx k k') (hk : k.Inv ctx) (hlog : k.Logged) : k.LeadsTo k' := by
  refine ⟨h.logged hk hlog, ?_, ?_⟩
  · cases h with
    | receive st => exact .refl hk.invariants
    | act u _ hact => exact hact.precedes hk
  · intro l u hmem
    cases h with
    | receive st => exact .inl hmem
    | act u' _ hact =>
      cases hact with
      | enter =>
        rcases mem_append.1 hmem with hmem | hmem
        · exact .inl hmem
        · obtain ⟨rfl, rfl⟩ : l = k.loc ∧ u = u' := by simpa using hmem
          exact .inr (.refl hk.invariants)
      | perform st =>
        rw [publish_log] at hmem
        exact .inl hmem

theorem follows_of_steps (h : ReflTransGen (Step ctx) k k') (hk : k.Inv ctx) (hlog : k.Logged) :
    k.LeadsTo k' := by
  induction h with
  | refl => exact .refl hk hlog
  | tail hrun hstep ih => exact ih.trans (hstep.leadsTo (inv_of_steps hrun hk) ih.logged)

/-! ### The final phase -/

/-- Nothing happened but that statements on the value `v` were recorded. -/
structure Rests (v : Value) (s t : BallotState) : Prop where
  local_eq : t.toLocalState = s.toLocalState
  externalized : t.externalized = s.externalized
  recorded : ∃ later, t.statementsHistory = s.statementsHistory ++ later ∧
    ∀ st ∈ later, (getWorkingBallot st).value = v

theorem Rests.refl (v : Value) (s : BallotState) : Rests v s s :=
  ⟨rfl, rfl, [], (append_nil _).symm, by simp⟩

theorem Rests.trans {v : Value} (h₁ : Rests v s t) (h₂ : Rests v t r) : Rests v s r := by
  obtain ⟨later₁, hhistory₁, hvalue₁⟩ := h₁.recorded
  obtain ⟨later₂, hhistory₂, hvalue₂⟩ := h₂.recorded
  refine ⟨h₂.local_eq.trans h₁.local_eq, h₂.externalized.trans h₁.externalized, later₁ ++ later₂,
    by rw [hhistory₂, hhistory₁, append_assoc], fun st hst => ?_⟩
  rcases mem_append.1 hst with hst | hst
  · exact hvalue₁ st hst
  · exact hvalue₂ st hst

/-- In the final phase a call only records statements on the externalized value. -/
theorem run_rests {c : SCPBallot} (hphase : s.phase = .externalize) (hc : s.commit = some c)
    (call : Call) :
    wp (call.run ctx) (fun _ => Rests c.value s) (fun _ _ => False) s := by
  have hbump : ∀ value n, wp (bumpStateTo ctx (advanceSlot ctx maxAdvanceSlotRecursion) value n)
      (fun _ => Rests c.value s) (fun _ _ => False) s := by
    intro value n
    simp only [bumpStateTo, wp_bind, wp_get, hphase, if_true, wp_pure]
    exact .refl _ s
  have hbumpState : ∀ value force,
      wp (bumpState ctx (advanceSlot ctx maxAdvanceSlotRecursion) value force)
        (fun _ => Rests c.value s) (fun _ _ => False) s := by
    intro value force
    simp only [bumpState, wp_bind, wp_get, wp_ite, wp_pure]
    exact ⟨fun _ => .refl _ s, fun _ => hbump _ _⟩
  cases call with
  | recvSCPEnvelope st =>
    have hrecord : c.value = (getWorkingBallot st).value → Rests c.value s
        { s with
          latestEnvelopes := s.latestEnvelopes.insert st.nodeID st
          statementsHistory := s.statementsHistory ++ [st] } := by
      intro hval
      exact ⟨rfl, rfl, [st], rfl, fun st' hst' => mem_singleton.1 hst' ▸ hval.symm⟩
    simp only [Call.run, processEnvelope, wp_ite, wp_bind, wp_get, wp_pure, wp_runExcept,
      wp_modify, recordEnvelope, hphase, hc, deref, Except.ok.injEq, forall_eq', reduceCtorEq,
      false_implies, implies_true, and_true]
    exact ⟨fun _ => .refl _ s, fun _ => ⟨fun _ => .refl _ s, fun _ => ⟨fun _ => .refl _ s,
      fun _ => ⟨fun _ => .refl _ s, fun _ => ⟨fun h => absurd rfl h, fun _ =>
        ⟨hrecord, fun _ => .refl _ s⟩⟩⟩⟩⟩⟩
  | bumpState value force =>
    simp only [Call.run, wp_bind, wp_pure]
    exact hbumpState value force
  | abandonBallot =>
    simp only [Call.run, abandonBallot, wp_bind, wp_get, wp_ite, wp_pure]
    exact ⟨fun _ => .refl _ s, fun _ => ⟨fun _ => hbumpState _ _, fun h => absurd trivial h⟩⟩
  | compositeCandidate value =>
    simp only [Call.run, wp_modify]
    exact ⟨rfl, rfl, [], (append_nil _).symm, by simp⟩

/-! ### Runs -/

/-- What holds of a slot between calls. -/
structure Ready (ctx : Context) (s : BallotState) : Prop where
  inv : s.core.Inv ctx
  emissions : Emissions ctx s
  tidy : Tidy ctx s
  logged : s.core.Logged

section Answers

variable {answers : Value → ValidationLevel}

-- the answers of the driver are not part of what holds between calls

theorem inv_answering : k.Inv (ctx.answering answers) ↔ k.Inv ctx :=
  ⟨fun h => ⟨h.consistent, h.synced, h.keys⟩, fun h => ⟨h.consistent, h.synced, h.keys⟩⟩

theorem emissions_answering : Emissions (ctx.answering answers) s ↔ Emissions ctx s :=
  ⟨fun h => ⟨h.last, h.emitted, h.externalized⟩, fun h => ⟨h.last, h.emitted, h.externalized⟩⟩

theorem outbox_answering : Outbox (ctx.answering answers) s ↔ Outbox ctx s :=
  ⟨fun h => ⟨h.sane, h.increasing, h.lastSane, h.lastEmit, h.newest⟩,
    fun h => ⟨h.sane, h.increasing, h.lastSane, h.lastEmit, h.newest⟩⟩

theorem ready_answering : Ready (ctx.answering answers) s ↔ Ready ctx s :=
  ⟨fun h => ⟨inv_answering.1 h.inv, emissions_answering.1 h.emissions,
      ⟨outbox_answering.1 h.tidy.toOutbox, h.tidy.toSealed⟩, h.logged⟩,
    fun h => ⟨inv_answering.2 h.inv, emissions_answering.2 h.emissions,
      ⟨outbox_answering.2 h.tidy.toOutbox, h.tidy.toSealed⟩, h.logged⟩⟩

end Answers

theorem init_ready (ctx : Context) : Ready ctx (BallotState.init ctx) where
  inv := init_inv ctx
  emissions := init_emissions ctx
  tidy := by
    constructor <;> constructor <;> simp [BallotState.init, BallotState.emitted,
      BallotState.externalized]
  logged := by constructor <;> simp [BallotState.core, BallotState.init]

/-- The run from `s` returned in `t`. -/
structure Reaches (ctx : Context) (s t : BallotState) : Prop where
  ready : Ready ctx t
  follows : s.core.LeadsTo t.core
  rests : ∀ v ∈ s.externalized, Rests v s t

/-- The run from `s` failed and left `t` behind. A slot that has externalized does not fail. -/
structure Aborts (ctx : Context) (s t : BallotState) : Prop where
  stopped : Stopped ctx t
  emissions : Emissions ctx t
  follows : ∃ k, s.core.LeadsTo k ∧ k.log = t.log
  undecided : s.externalized = []

theorem Ready.on_externalized (h : Ready ctx s) {v : Value} (hv : v ∈ s.externalized) :
    s.phase = .externalize ∧ s.toLocalState.On v := by
  obtain ⟨c, hc, rfl⟩ := h.tidy.value v hv
  refine ⟨?_, h.inv.invariants.on_commit hc⟩
  by_contra hphase
  simp [h.tidy.phase hphase] at hv

/-- A call either returns with everything in place, or fails before anything was decided. -/
theorem run_reaches (hs : Ready ctx s) (call : Call) :
    wp (call.run ctx) (fun _ => Reaches ctx s) (fun _ => Aborts ctx s) s := by
  have hsteps := wp_and (run_spec hs.inv hs.emissions call) (run_tidy hs.tidy call)
  -- the final phase is only reached by calls before this one
  have hfinal : wp (call.run ctx) (fun _ t => ∀ v ∈ s.externalized, Rests v s t)
      (fun _ _ => s.externalized = []) s := by
    by_cases hnone : s.externalized = []
    · rw [hnone]
      exact wp_mono hsteps (fun _ _ _ => by simp) (fun _ _ _ => rfl)
    · obtain ⟨w, hw⟩ := exists_mem_of_ne_nil _ hnone
      obtain ⟨hphase, hon⟩ := hs.on_externalized hw
      obtain ⟨c, hc, rfl⟩ := hon.commit
      refine wp_total (run_rests hphase hc call) (fun _ t ht v hv => ?_)
      rw [(hs.on_externalized hv).2.eq hon]
      exact ht
  refine wp_mono (wp_and hsteps hfinal) (fun _ t ht => ?_) (fun e t ht => ?_)
  · obtain ⟨⟨hreturns, htidy⟩, hrests⟩ := ht
    have hfollows := follows_of_steps hreturns.steps hs.inv hs.logged
    have hinv := inv_of_steps hreturns.steps hs.inv
    obtain ⟨_, _, _, hem⟩ := hreturns
    exact ⟨⟨hinv, hem, htidy, hfollows.logged⟩, hfollows, hrests⟩
  · obtain ⟨⟨⟨k₁, hadmits, hem, k, hrun, hlog, _⟩, hstopped⟩, hnone⟩ := ht
    have hsteps := hadmits.steps.trans (steps_of_own hrun)
    exact ⟨hstopped, hem, ⟨k, follows_of_steps hsteps hs.inv hs.logged, hlog⟩, hnone⟩

theorem Reaches.trans (h₁ : Reaches ctx s t) (h₂ : Reaches ctx t r) : Reaches ctx s r where
  ready := h₂.ready
  follows := h₁.follows.trans h₂.follows
  rests := by
    intro v hv
    have hrests := h₁.rests v hv
    exact hrests.trans (h₂.rests v (by rw [hrests.externalized]; exact hv))

theorem Reaches.aborts (h₁ : Reaches ctx s t) (h₂ : Aborts ctx t r) : Aborts ctx s r where
  __ := h₂
  follows := by
    obtain ⟨k, hk, hlog⟩ := h₂.follows
    exact ⟨k, h₁.follows.trans hk, hlog⟩
  undecided := by
    have hnone := h₂.undecided
    by_contra hsome
    obtain ⟨v, hv⟩ := exists_mem_of_ne_nil _ hsome
    rw [(h₁.rests v hv).externalized] at hnone
    exact hsome hnone

theorem runSession_reaches (session : Session) (hs : Ready ctx s) :
    wp (runSession ctx session) (fun _ => Reaches ctx s) (fun _ => Aborts ctx s) s := by
  induction session generalizing s with
  | nil =>
    exact wp_pure.2 ⟨hs, .refl hs.inv hs.logged, fun v _ => .refl v s⟩
  | cons step session ih =>
    obtain ⟨answers, call⟩ := step
    simp only [runSession, wp_bind]
    refine wp_mono (run_reaches (ready_answering.2 hs) call) (fun _ t ht => ?_) (fun _ t ht => ?_)
    · have ht' : Reaches ctx s t := ⟨ready_answering.1 ht.ready, ht.follows, ht.rests⟩
      exact wp_mono (ih ht'.ready) (fun _ r hr => ht'.trans hr) (fun _ r hr => ht'.aborts hr)
    · exact ⟨⟨outbox_answering.1 ht.stopped.toOutbox, ht.stopped.once⟩,
        emissions_answering.1 ht.emissions, ht.follows, ht.undecided⟩

/-- Every envelope handed to `emitEnvelope` in a run of one slot is sane for peers, and
supersedes all that were handed over before it. -/
theorem emitted_sane_increasing (ctx : Context) (session : Session) :
    wp (runSession ctx session)
      (fun _ t => (∀ st ∈ t.emitted, isStatementSane ctx st false = true) ∧
        t.emitted.Pairwise fun old st => isNewerStatement old st = true)
      (fun _ t => (∀ st ∈ t.emitted, isStatementSane ctx st false = true) ∧
        t.emitted.Pairwise fun old st => isNewerStatement old st = true)
      (BallotState.init ctx) :=
  wp_mono (runSession_reaches session (init_ready ctx))
    (fun _ _ ht => ⟨ht.ready.tidy.sane, ht.ready.tidy.increasing⟩)
    (fun _ _ ht => ⟨ht.stopped.sane, ht.stopped.increasing⟩)

/-- What a run from `s` leaves behind, however it ended. The states in which changes were logged
come before `s` or follow it, at most one value was externalized, and when `s` is in the
`CONFIRM` phase or later, it is the value of its `b`, `h` and `c`. -/
structure Continues (s t : BallotState) : Prop where
  lines : ∀ l u, (l, u) ∈ t.log →
    (l, u) ∈ s.log ∧ l.Precedes s.toLocalState ∨ s.toLocalState.Precedes l
  once : t.externalized.length ≤ 1
  value : ∀ v ∈ t.externalized, s.phase ≠ .prepare → s.toLocalState.On v

theorem continues_of_follows {k : Core} (hs : Ready ctx s) (hem : Emissions ctx t)
    (hfollows : s.core.LeadsTo k) (hlog : k.log = t.log) (honce : t.externalized.length ≤ 1) :
    Continues s t where
  lines := by
    intro l u hmem
    rw [← hlog] at hmem
    rcases hfollows.lines l u hmem with hmem | hl
    · exact .inl ⟨hmem, hs.logged.past l u hmem⟩
    · exact .inr hl
  once := honce
  value := by
    intro v hv hphase
    obtain ⟨l, c, h, hmem, rfl⟩ := hem.externalized v (BallotState.mem_externalized.1 hv)
    rw [← hlog] at hmem
    obtain ⟨hl, hon⟩ := hfollows.logged.confirms l c h hmem
    rcases hfollows.lines l _ hmem with hmem | hprecedes
    · obtain ⟨v, hv, hv'⟩ := (hs.logged.past l _ hmem).value hl
      rwa [hon.eq hv]
    · obtain ⟨v, hv, hv'⟩ := hprecedes.value hphase
      rwa [hon.eq hv']

/-- In every run of one slot, with any calls and any answers of the driver about values: from
each state `s` between calls the phase only advances, from the `CONFIRM` phase on `b`, `h` and
`c` stay on one value, which is the only one that may be externalized, and this happens at most
once. Once it happened the local state is frozen, no call fails, and only statements on that
value are recorded. -/
theorem decision_final (ctx : Context) (before after : Session) :
    wp (runSession ctx before)
      (fun _ s =>
        wp (runSession ctx after)
          (fun _ t => Continues s t ∧ s.toLocalState.Precedes t.toLocalState ∧
            ∀ v ∈ s.externalized, Rests v s t)
          (fun _ t => Continues s t ∧ s.externalized = []) s)
      (fun _ t => t.externalized.length ≤ 1)
      (BallotState.init ctx) := by
  refine wp_mono (runSession_reaches before (init_ready ctx)) (fun _ s hs => ?_)
    (fun _ _ ht => ht.stopped.once)
  refine wp_mono (runSession_reaches after hs.ready) (fun _ t ht => ?_) (fun _ t ht => ?_)
  · exact ⟨continues_of_follows hs.ready ht.ready.emissions ht.follows rfl ht.ready.tidy.once,
      ht.follows.precedes, ht.rests⟩
  · obtain ⟨k, hfollows, hlog⟩ := ht.follows
    exact ⟨continues_of_follows hs.ready ht.emissions hfollows hlog ht.stopped.once, ht.undecided⟩

end SpnCore.Scp
