import SpnCore.Scp.RefineAdvance

/-!
# What a slot hands to its driver

Every statement handed to `emitEnvelope` is sane for peers and supersedes all that were handed
over before it, and a value is externalized at most once, in the final phase. Both are kept by
every method, whatever the nested calls of `advanceSlot` do, and also hold of the state that a
failed method leaves behind.
-/

namespace SpnCore.Scp

open Lib List Option

/-! ### The order of statements -/

/-- The statements of a slot are strictly ordered by their type and then by their pledge. -/
theorem isNewerStatement_trans {st₁ st₂ st₃ : SCPStatement}
    (h₁₂ : isNewerStatement st₁ st₂ = true) (h₂₃ : isNewerStatement st₂ st₃ = true) :
    isNewerStatement st₁ st₃ = true := by
  obtain ⟨v₁, p₁⟩ := st₁
  obtain ⟨v₂, p₂⟩ := st₂
  obtain ⟨v₃, p₃⟩ := st₃
  cases p₁ <;> cases p₂ <;> cases p₃
  case prepare.prepare.prepare =>
    rw [isNewer_prepare_iff] at *
    exact h₁₂.trans h₂₃
  case confirm.confirm.confirm =>
    rw [isNewer_confirm_iff] at *
    exact h₁₂.trans h₂₃
  -- the remaining cases only compare types
  all_goals simp [isNewerStatement, SCPPledges.type] at *

theorem isNewerStatement_irrefl (st : SCPStatement) : ¬ isNewerStatement st st = true := by
  obtain ⟨v, p⟩ := st
  cases p with
  | prepare p => rw [isNewer_prepare_iff]; exact lt_irrefl _
  | confirm c => rw [isNewer_confirm_iff]; exact lt_irrefl _
  | externalize e => simp [isNewerStatement]

/-! ### The driver calls -/

/-- The envelope a call hands to the driver. -/
def DriverCall.envelope : DriverCall → Option SCPStatement
  | .emitEnvelope st => some st
  | _ => none

/-- The value a call externalizes. -/
def DriverCall.externalizes : DriverCall → Option Value
  | .valueExternalized v => some v
  | _ => none

namespace BallotState

/-- The envelopes handed to the driver, oldest first. -/
def emitted (s : BallotState) : List SCPStatement :=
  s.driverCalls.filterMap DriverCall.envelope

/-- The values externalized, oldest first. -/
def externalized (s : BallotState) : List Value :=
  s.driverCalls.filterMap DriverCall.externalizes

theorem mem_externalized {s : BallotState} {v : Value} :
    v ∈ s.externalized ↔ .valueExternalized v ∈ s.driverCalls := by
  rw [externalized, mem_filterMap]
  constructor
  · rintro ⟨call, hcall, hv⟩
    cases call <;> simp only [DriverCall.externalizes, reduceCtorEq, some.injEq] at hv
    exact hv ▸ hcall
  · exact fun hv => ⟨_, hv, rfl⟩

end BallotState

/-- The emitted envelopes are sane for peers and each supersedes those before it. The latest own
statement is the last one emitted or supersedes it. -/
structure Outbox (ctx : Context) (s : BallotState) : Prop where
  sane : ∀ st ∈ s.emitted, isStatementSane ctx st false = true
  increasing : s.emitted.Pairwise fun old st => isNewerStatement old st = true
  lastSane : ∀ st, s.lastEnvelope = some st → isStatementSane ctx st false = true
  lastEmit : s.lastEnvelopeEmit = s.emitted.getLast?
  newest : ∀ st ∈ s.emitted, ∃ last, s.lastEnvelope = some last ∧
    (st = last ∨ isNewerStatement st last = true)

/-- A value is externalized at most once; the phase is then final, and the value that of `c`. -/
structure Sealed (s : BallotState) : Prop where
  once : s.externalized.length ≤ 1
  phase : s.phase ≠ .externalize → s.externalized = []
  value : ∀ v ∈ s.externalized, ∃ c, s.commit = some c ∧ c.value = v

/-- What holds of the driver calls between methods. -/
structure Tidy (ctx : Context) (s : BallotState) : Prop extends Outbox ctx s, Sealed s

/-- What holds of the driver calls after a failed method, whose local state may be half
updated. -/
structure Stopped (ctx : Context) (s : BallotState) : Prop extends Outbox ctx s where
  once : s.externalized.length ≤ 1

/-- The driver calls are tidy in the end. -/
abbrev StaysTidy {α : Type} (ctx : Context) (x : SlotM α) (s : BallotState) : Prop :=
  wp x (fun _ => Tidy ctx) (fun _ => Stopped ctx) s

/-- Neither the driver nor the queue for emission was touched. -/
structure SameOutput (s t : BallotState) : Prop where
  last : t.lastEnvelope = s.lastEnvelope
  lastEmit : t.lastEnvelopeEmit = s.lastEnvelopeEmit
  emitted : t.emitted = s.emitted
  externalized : t.externalized = s.externalized

variable {ctx : Context} {advance : SCPStatement → SlotM Unit} {s t r : BallotState}

theorem Outbox.congr (hs : Outbox ctx s) (hlast : t.lastEnvelope = s.lastEnvelope)
    (hlastEmit : t.lastEnvelopeEmit = s.lastEnvelopeEmit) (hemitted : t.emitted = s.emitted) :
    Outbox ctx t where
  sane := by rw [hemitted]; exact hs.sane
  increasing := by rw [hemitted]; exact hs.increasing
  lastSane := by rw [hlast]; exact hs.lastSane
  lastEmit := by rw [hlastEmit, hemitted]; exact hs.lastEmit
  newest := by rw [hemitted, hlast]; exact hs.newest

namespace SameOutput

theorem refl (s : BallotState) : SameOutput s s := ⟨rfl, rfl, rfl, rfl⟩

theorem trans (h₁ : SameOutput s t) (h₂ : SameOutput t r) : SameOutput s r :=
  ⟨h₂.last.trans h₁.last, h₂.lastEmit.trans h₁.lastEmit, h₂.emitted.trans h₁.emitted,
    h₂.externalized.trans h₁.externalized⟩

/-- Notices hand nothing over. -/
theorem of_notices (calls : List DriverCall) (hlast : t.lastEnvelope = s.lastEnvelope)
    (hlastEmit : t.lastEnvelopeEmit = s.lastEnvelopeEmit)
    (hdriver : t.driverCalls = s.driverCalls ++ calls)
    (hcalls : calls.all DriverCall.isNotice = true) : SameOutput s t := by
  have hnone : ∀ call ∈ calls, call.envelope = none ∧ call.externalizes = none := by
    intro call hcall
    have hnotice := all_eq_true.1 hcalls call hcall
    cases call <;> first | exact ⟨rfl, rfl⟩ | cases hnotice
  refine ⟨hlast, hlastEmit, ?_, ?_⟩
  · simpa [BallotState.emitted, hdriver] using fun call hcall => (hnone call hcall).1
  · simpa [BallotState.externalized, hdriver] using fun call hcall => (hnone call hcall).2

theorem outbox (h : SameOutput s t) (hs : Outbox ctx s) : Outbox ctx t :=
  hs.congr h.last h.lastEmit h.emitted

end SameOutput

namespace Tidy

theorem fails (hs : Tidy ctx s) (h : SameOutput s t) : Stopped ctx t :=
  ⟨h.outbox hs.toOutbox, by rw [h.externalized]; exact hs.once⟩

theorem stopped (hs : Tidy ctx s) : Stopped ctx s := hs.fails (.refl s)

/-- Before the final phase nothing was externalized, so the local state may change. -/
theorem moves (hs : Tidy ctx s) (hphase : s.phase ≠ .externalize) (h : SameOutput s t) :
    Tidy ctx t := by
  have hnone : t.externalized = [] := h.externalized.trans (hs.phase hphase)
  exact ⟨h.outbox hs.toOutbox, by simp [hnone], fun _ => hnone, by simp [hnone]⟩

theorem of_local (hs : Tidy ctx s) (h : SameOutput s t)
    (hloc : t.toLocalState = s.toLocalState) : Tidy ctx t where
  toOutbox := h.outbox hs.toOutbox
  once := by rw [h.externalized]; exact hs.once
  phase := by rw [h.externalized, hloc]; exact hs.phase
  value := by rw [h.externalized, hloc]; exact hs.value

end Tidy

/-! ### Emission -/

/-- Queueing an own statement that supersedes the one queued before. -/
theorem Outbox.queue (hs : Outbox ctx s) {st : SCPStatement}
    (hsane : isStatementSane ctx st false = true)
    (hnewer : ∀ last, s.lastEnvelope = some last → isNewerStatement last st = true) :
    Outbox ctx { s with lastEnvelope := some st } where
  __ := hs
  lastSane := fun st' hst' => some.inj hst' ▸ hsane
  newest := by
    intro st' hst'
    obtain ⟨last, hlast, hle⟩ := hs.newest st' hst'
    refine ⟨st, rfl, .inr ?_⟩
    rcases hle with rfl | hlt
    · exact hnewer st' hlast
    · exact isNewerStatement_trans hlt (hnewer last hlast)

/-- The queued statement supersedes all emitted ones, unless it is the last of them. -/
theorem Outbox.newer_of_queued (hs : Outbox ctx s) {st : SCPStatement}
    (hlast : s.lastEnvelope = some st) (hnew : s.lastEnvelopeEmit ≠ some st) :
    ∀ old ∈ s.emitted, isNewerStatement old st = true := by
  have hle : ∀ old ∈ s.emitted, old = st ∨ isNewerStatement old st = true := by
    intro old hold
    obtain ⟨last, hlast', hle⟩ := hs.newest old hold
    obtain rfl : last = st := mem_unique hlast' hlast
    exact hle
  intro old hold
  refine (hle old hold).resolve_left fun heq => ?_
  -- an earlier occurrence of the statement is superseded by the last one emitted
  rw [hs.lastEmit] at hnew
  obtain ⟨before, last, hsplit⟩ : ∃ before last, s.emitted = before ++ [last] :=
    (eq_nil_or_concat' s.emitted).resolve_left (ne_nil_of_mem hold)
  have hne : last ≠ st := by simpa [hsplit] using hnew
  have hbefore : st ∈ before := by
    simpa [hsplit, heq, hne.symm] using hold
  have hlater : isNewerStatement st last = true := by
    have hpairs := hs.increasing
    rw [hsplit, pairwise_append] at hpairs
    exact hpairs.2.2 st hbefore last (mem_singleton_self _)
  have hearlier := (hle last (by simp [hsplit])).resolve_left hne
  exact isNewerStatement_irrefl st (isNewerStatement_trans hlater hearlier)

/-- Handing over the queued statement, when it is not the last one handed over. -/
theorem Outbox.emit (hs : Outbox ctx s) {st : SCPStatement} (hlast : s.lastEnvelope = some st)
    (hnew : s.lastEnvelopeEmit ≠ some st) :
    Outbox ctx { s with
      lastEnvelopeEmit := some st
      driverCalls := s.driverCalls ++ [.emitEnvelope st] } := by
  have hemitted : ({ s with
      lastEnvelopeEmit := some st
      driverCalls := s.driverCalls ++ [.emitEnvelope st] } : BallotState).emitted =
      s.emitted ++ [st] := by
    simp [BallotState.emitted, DriverCall.envelope]
  have hnewer := hs.newer_of_queued hlast hnew
  constructor
  case sane =>
    intro st' hst'
    rw [hemitted, mem_append, mem_singleton] at hst'
    rcases hst' with hst' | rfl
    · exact hs.sane st' hst'
    · exact hs.lastSane st' hlast
  case increasing =>
    rw [hemitted, pairwise_append]
    refine ⟨hs.increasing, pairwise_singleton _ _, fun old hold new hnew => ?_⟩
    rw [mem_singleton.1 hnew]
    exact hnewer old hold
  case lastSane => exact hs.lastSane
  case lastEmit => simp [hemitted]
  case newest =>
    intro st' hst'
    rw [hemitted, mem_append, mem_singleton] at hst'
    refine ⟨st, hlast, ?_⟩
    rcases hst' with hst' | rfl
    · exact .inr (hnewer st' hst')
    · exact .inl rfl

/-- What emission keeps: the outbox stays in order, and the local state and the externalized
values are not touched. -/
structure Sends (ctx : Context) (s t : BallotState) : Prop where
  outbox : Outbox ctx t
  local_eq : t.toLocalState = s.toLocalState
  externalized : t.externalized = s.externalized

theorem Sends.tidy (h : Sends ctx s t) (hs : Sealed s) : Tidy ctx t where
  toOutbox := h.outbox
  once := by rw [h.externalized]; exact hs.once
  phase := by rw [h.externalized, h.local_eq]; exact hs.phase
  value := by rw [h.externalized, h.local_eq]; exact hs.value

theorem sendLatestEnvelope_sends (hs : Outbox ctx s) :
    wp sendLatestEnvelope (fun _ t => Sends ctx s t) (fun _ _ => False) s := by
  unfold sendLatestEnvelope
  simp only [wp_bind, wp_get]
  cases hlast : s.lastEnvelope with
  | none => exact wp_pure.2 ⟨hs, rfl, rfl⟩
  | some st =>
    simp only [wp_ite, wp_bind, wp_set, tell, wp_modify, wp_pure]
    refine ⟨fun hsend => ⟨?_, rfl, ?_⟩, fun _ => ⟨hs, rfl, rfl⟩⟩
    · exact hlast ▸ hs.emit hlast hsend.2.2
    · simp [BallotState.externalized, DriverCall.externalizes]

/-- The statement about a local state with a current ballot is sane for peers when the local node
accepts it. -/
theorem Describes.sane_for_peers {l : LocalState} {st : SCPStatement} (h : Describes ctx l st)
    (hl : l.Invariants) (hb : l.currentBallot.isSome)
    (hself : isStatementSane ctx st true = true) : isStatementSane ctx st false = true := by
  cases h with
  | confirm | externalize => exact hself
  | prepare hphase =>
    obtain ⟨b, hb⟩ := isSome_iff_exists.1 hb
    have hpos : 0 < (preparePledge ctx l).ballot.counter := by
      simpa [preparePledge, hb] using Nat.pos_of_ne_zero (hl.current b hb)
    unfold isStatementSane at hself ⊢
    split at hself
    · cases hself
    · simp only [Bool.and_eq_true, isPrepareSane_iff] at hself ⊢
      exact ⟨hself.1, .inr hpos, hself.2.2⟩

/-- What is assumed of the recursive `advanceSlot`. -/
def AdvanceTidy (ctx : Context) (advance : SCPStatement → SlotM Unit) : Prop :=
  ∀ hint s, Tidy ctx s → wp (advance hint) (fun _ t => Tidy ctx t) (fun _ t => Stopped ctx t) s

/-- The method kept the driver calls tidy; in the final phase it neither moved the local state
nor externalized a value. -/
structure Settles (ctx : Context) (s t : BallotState) : Prop where
  tidy : Tidy ctx t
  final : s.phase = .externalize →
    t.toLocalState = s.toLocalState ∧ t.externalized = s.externalized

theorem processEnvelope_settles (hadv : AdvanceTidy ctx advance) (hs : Tidy ctx s)
    (st : SCPStatement) (self : Bool) :
    wp (processEnvelope ctx advance st self)
      (fun res t => Settles ctx s t ∧ (res = .valid → isStatementSane ctx st self = true))
      (fun _ t => Stopped ctx t) s := by
  have hidle : Settles ctx s s := ⟨hs, fun _ => ⟨rfl, rfl⟩⟩
  refine processEnvelope_rule (fun _ => ⟨hidle, by simp⟩) (fun hpasses hphase _ => ?_)
    (fun hpasses _ c _ => ⟨fun _ => ⟨⟨?_, fun _ => ⟨rfl, rfl⟩⟩, fun _ => hpasses.sane⟩,
      fun _ => ⟨hidle, by simp⟩⟩) fun _ _ _ => hs.stopped
  · exact wp_imp (hadv st _ (hs.moves hphase ⟨rfl, rfl, rfl, rfl⟩)) fun _ r hr =>
      ⟨⟨hr, fun h => absurd h hphase⟩, fun _ => hpasses.sane⟩
  · exact hs.of_local ⟨rfl, rfl, rfl, rfl⟩ rfl

theorem emit_settles (hadv : AdvanceTidy ctx advance) (hs : Tidy ctx s) :
    wp (emitCurrentStateStatement ctx advance) (fun _ t => Settles ctx s t)
      (fun _ t => Stopped ctx t) s := by
  unfold emitCurrentStateStatement
  simp only [wp_bind, wp_get, wp_runExcept, wp_ite, wp_pure, wp_throw]
  refine ⟨fun st hcreate => ⟨fun _ => ⟨hs, fun _ => ⟨rfl, rfl⟩⟩, fun _ => ?_⟩,
    fun _ _ => hs.stopped⟩
  obtain ⟨hinv, hdesc⟩ := createStatement_eq_ok.1 hcreate
  refine wp_imp (processEnvelope_settles hadv hs st true) fun res t ht => ?_
  obtain ⟨ht, hsane⟩ := ht
  refine ⟨fun hres => ⟨fun hqueue => ?_, fun _ => ht⟩, fun _ => ht.tidy.stopped⟩
  simp only [Bool.and_eq_true, Option.all_eq_true] at hqueue
  have hpeers := hdesc.sane_for_peers hinv hqueue.1 (hsane hres)
  simp only [wp_set]
  refine wp_total (sendLatestEnvelope_sends (ht.tidy.toOutbox.queue hpeers hqueue.2))
    (fun _ r hr => ?_)
  have hloc : r.toLocalState = t.toLocalState := hr.local_eq
  have hext : r.externalized = t.externalized := hr.externalized
  refine ⟨?_, fun hphase => ?_⟩
  · exact hr.tidy ⟨ht.tidy.once, ht.tidy.phase, ht.tidy.value⟩
  · rw [hloc, hext]
    exact ht.final hphase

/-! ### The `set` methods -/

/-- Neither the driver nor the phase was touched. -/
structure Silent (s t : BallotState) : Prop extends SameOutput s t where
  phase : t.phase = s.phase

theorem Silent.refl (s : BallotState) : Silent s s := ⟨.refl s, rfl⟩

theorem bumpToBallot_output (s : BallotState) (ballot : SCPBallot) (check : Bool) :
    wp (bumpToBallot ballot check) (fun _ t => Silent s t)
      (fun _ t => SameOutput s t) s := by
  exact bumpToBallot_rule (fun _ calls hcalls => ⟨.of_notices calls rfl rfl rfl hcalls, rfl⟩)
    (fun _ => .refl s) fun _ _ _ _ => .refl s

theorem updateCurrentIfNeeded_output (s : BallotState) (h : SCPBallot) :
    wp (updateCurrentIfNeeded h) (fun _ t => Silent s t)
      (fun _ t => SameOutput s t) s := by
  unfold updateCurrentIfNeeded
  simp only [wp_bind, wp_get, wp_ite, wp_pure]
  exact ⟨fun _ => bumpToBallot_output s h true, fun _ => .refl s⟩

theorem updateCurrentValue_output (s : BallotState) (ballot : SCPBallot) :
    wp (updateCurrentValue ballot) (fun _ t => Silent s t)
      (fun _ t => SameOutput s t) s := by
  refine updateCurrentValue_rule (.refl s) (fun _ _ => ?_) (fun _ _ _ => .refl s) fun _ _ => .refl s
  exact wp_imp (bumpToBallot_output s ballot true)
    fun _ t ht => ⟨fun _ => ht, fun _ _ => ht.toSameOutput⟩

section

variable (hadv : AdvanceTidy ctx advance) (hs : Tidy ctx s) (hphase : s.phase ≠ .externalize)
include hadv hs hphase

/-- A `set` method that moved the local state publishes it. -/
theorem publish_tidy (ht : SameOutput s t) :
    StaysTidy ctx (emitCurrentStateStatement ctx advance) t :=
  wp_imp (emit_settles hadv (hs.moves hphase ht)) (fun _ _ hr => hr.tidy)

theorem setPreparedAccept_tidy (ballot : SCPBallot) :
    StaysTidy ctx (setPreparedAccept ctx advance ballot) s := by
  unfold setPreparedAccept
  simp only [wp_bind, wp_get, wp_modify, logUpdate, setLocalState, tell, wp_ite, wp_ensure, wp_pure]
  refine ⟨fun _ => ⟨fun _ => ⟨fun _ => publish_tidy hadv hs hphase ?_, fun h => absurd trivial h⟩,
    fun _ => hs.fails ⟨rfl, rfl, rfl, rfl⟩⟩, fun _ => ⟨fun _ => publish_tidy hadv hs hphase ?_,
    fun _ => hs.moves hphase ⟨rfl, rfl, rfl, rfl⟩⟩⟩
  · exact .of_notices [.acceptedBallotPrepared ballot] rfl rfl rfl rfl
  · exact .of_notices [.acceptedBallotPrepared ballot] rfl rfl rfl rfl

/-- The end of `setPreparedConfirmed`. -/
theorem raiseAndPublish_tidy (newH : SCPBallot) (didWork : Bool) (ht : SameOutput s t) :
    StaysTidy ctx (do
        let bumped ← updateCurrentIfNeeded newH
        if bumped || didWork then emitCurrentStateStatement ctx advance else pure ()
        pure (bumped || didWork) : SlotM Bool) t := by
  simp only [wp_bind, wp_ite, wp_pure]
  refine wp_mono (updateCurrentIfNeeded_output t newH) (fun bumped r hr => ?_)
    (fun _ r hr => hs.fails (ht.trans hr))
  have hsame := ht.trans hr.toSameOutput
  exact ⟨fun _ => publish_tidy hadv hs hphase hsame, fun _ => hs.moves hphase hsame⟩

theorem setPreparedConfirmed_tidy (newC newH : SCPBallot) :
    StaysTidy ctx (setPreparedConfirmed ctx advance newC newH) s := by
  have hrest : ∀ (didWork : Bool) (t : BallotState), SameOutput s t → _ :=
    fun didWork t ht => raiseAndPublish_tidy hadv hs hphase newH didWork ht
  simp only [wp_bind, wp_ite, wp_pure] at hrest
  unfold setPreparedConfirmed
  simp only [wp_bind, wp_get, wp_modify, wp_set, logUpdate, setLocalState, tell, wp_ite, wp_ensure,
    wp_pure]
  refine ⟨fun _ => ⟨fun _ => ⟨fun _ => ⟨fun _ => ⟨fun _ => hrest _ _ ?_, fun _ => hrest _ _ ?_⟩,
      fun _ => hs.fails ⟨rfl, rfl, rfl, rfl⟩⟩, fun _ => ⟨fun _ => hrest _ _ ?_,
      fun _ => hrest _ _ ?_⟩⟩,
    fun _ => ⟨fun _ => ⟨fun _ => ⟨fun _ => hrest _ _ ?_, fun _ => hrest _ _ ?_⟩,
      fun _ => hs.fails ⟨rfl, rfl, rfl, rfl⟩⟩, fun _ => ⟨fun _ => hrest _ _ ?_,
      fun _ => hrest _ _ ?_⟩⟩⟩,
    fun _ => hrest _ _ ?_⟩
  all_goals
    first
    | exact ⟨rfl, rfl, rfl, rfl⟩
    | exact .of_notices [.confirmedBallotPrepared newH] rfl rfl rfl rfl

omit hadv hs hphase in
theorem moveToConfirm_output (s : BallotState) (h : SCPBallot) :
    wp (moveToConfirm h) (fun _ t => SameOutput s t ∧ t.phase = .confirm)
      (fun _ => SameOutput s) s := by
  unfold moveToConfirm
  simp only [wp_bind, wp_modify, wp_get, wp_onlyIf]
  refine ⟨fun _ => ?_, fun _ => ⟨⟨rfl, rfl, rfl, rfl⟩, trivial⟩⟩
  refine wp_mono (bumpToBallot_output _ h false) (fun _ t ht => ⟨?_, ht.phase⟩) fun _ t ht => ?_ <;>
    exact ⟨ht.last, ht.lastEmit, ht.emitted, ht.externalized⟩

/-- The end of `setAcceptCommit`. -/
theorem raiseHigh_tidy (h : SCPBallot) (didWork : Bool) (ht : SameOutput s t) :
    StaysTidy ctx (onlyIf didWork do
        let high ← runExcept (deref (← get).highBallot)
        let _ ← updateCurrentIfNeeded high
        tell (.acceptedCommit h)
        emitCurrentStateStatement ctx advance : SlotM Unit) t := by
  simp only [wp_onlyIf, wp_bind, wp_get, wp_runExcept, tell, wp_modify]
  refine ⟨fun _ => ⟨fun high _ => ?_, fun _ _ => hs.fails ht⟩, fun _ => hs.moves hphase ht⟩
  refine wp_mono (updateCurrentIfNeeded_output t high) (fun _ r hr => ?_)
    (fun _ r hr => hs.fails (ht.trans hr))
  refine publish_tidy hadv hs hphase ((ht.trans hr.toSameOutput).trans ?_)
  exact .of_notices [.acceptedCommit h] rfl rfl rfl rfl

theorem setAcceptCommit_tidy (c h : SCPBallot) :
    StaysTidy ctx (setAcceptCommit ctx advance c h) s := by
  unfold setAcceptCommit
  simp only [wp_bind, wp_get, wp_set, wp_modify, logUpdate, wp_pure]
  refine wp_mono (Q := fun _ t => SameOutput s t) ?_ (fun _ t ht => ?_) (fun _ _ h => h)
  · rw [wp_onlyIf, setLocalState, wp_modify]
    exact ⟨fun _ => ⟨rfl, rfl, rfl, rfl⟩, fun _ => ⟨rfl, rfl, rfl, rfl⟩⟩
  rw [wp_onlyIf]
  refine ⟨fun _ => ?_, fun _ => raiseHigh_tidy hadv hs hphase h _ ht⟩
  exact wp_mono (moveToConfirm_output t h)
    (fun _ r hr => raiseHigh_tidy hadv hs hphase h _ (ht.trans hr.1))
    (fun _ r hr => hs.fails (ht.trans hr))

omit hadv hs hphase in
/-- Handing over the value of `c` in the final phase, for the first time. -/
theorem Tidy.externalize (hs : Tidy ctx s) (hnone : s.externalized = [])
    (hphase : s.phase = .externalize) {c : SCPBallot} (hc : s.commit = some c) :
    Tidy ctx { s with
      driverCalls := s.driverCalls ++ [.stopNomination, .valueExternalized c.value] } := by
  have hemitted : ({ s with
      driverCalls := s.driverCalls ++ [.stopNomination, .valueExternalized c.value] } :
      BallotState).emitted = s.emitted := by
    simp [BallotState.emitted, DriverCall.envelope]
  have hvalue : ({ s with
      driverCalls := s.driverCalls ++ [.stopNomination, .valueExternalized c.value] } :
      BallotState).externalized = [c.value] := by
    rw [BallotState.externalized, filterMap_append]
    exact congrArg (· ++ [c.value]) hnone
  refine ⟨hs.toOutbox.congr rfl rfl hemitted, by rw [hvalue]; exact le_rfl,
    fun h => absurd hphase h, fun v hv => ⟨c, hc, ?_⟩⟩
  rw [hvalue, mem_singleton] at hv
  exact hv.symm

/-- The value of `c` is handed over after the final statement is published, in a phase where
nothing else happens. -/
theorem setConfirmCommit_tidy (c h : SCPBallot) :
    StaysTidy ctx (setConfirmCommit ctx advance c h) s := by
  unfold setConfirmCommit
  simp only [wp_bind, wp_get, wp_modify, logUpdate, setLocalState]
  refine wp_mono (updateCurrentIfNeeded_output _ h) (fun _ s₁ hs₁ => ?_) (fun _ s₁ hs₁ => ?_)
  swap
  · exact hs.fails ⟨hs₁.last, hs₁.lastEmit, hs₁.emitted, hs₁.externalized⟩
  have hsame : SameOutput s { s₁ with phase := .externalize } :=
    ⟨hs₁.last, hs₁.lastEmit, hs₁.emitted, hs₁.externalized⟩
  refine wp_imp (emit_settles hadv (hs.moves hphase hsame)) fun _ t ht => ?_
  have hnone : t.externalized = [] := by
    rw [(ht.final rfl).2, hsame.externalized]
    exact hs.phase hphase
  have hext : t.phase = .externalize := congrArg LocalState.phase (ht.final rfl).1
  simp only [tell, wp_modify, wp_runExcept, deref_eq_ok, wp_pure, append_assoc,
    cons_append, nil_append]
  refine ⟨fun c' hc' => ht.tidy.externalize hnone hext hc', fun _ _ => ht.tidy.fails ?_⟩
  exact .of_notices [.stopNomination] rfl rfl rfl rfl

end

/-! ### Calls -/

/-- Neither the driver nor the local state was touched. -/
structure Unmoved (s t : BallotState) : Prop extends SameOutput s t where
  local_eq : t.toLocalState = s.toLocalState

theorem checkHeardFromQuorum_output (s : BallotState) :
    wp (checkHeardFromQuorum ctx) (fun _ t => Unmoved s t) (fun _ _ => False) s := by
  exact checkHeardFromQuorum_rule fun _ calls hcalls => ⟨.of_notices calls rfl rfl rfl hcalls, rfl⟩

section

variable (hadv : AdvanceTidy ctx advance) (hs : Tidy ctx s)
include hadv hs

theorem bumpStateTo_tidy (value : Value) (n : Nat) :
    StaysTidy ctx (bumpStateTo ctx advance value n) s := by
  unfold bumpStateTo
  simp only [wp_bind, wp_get, wp_ite, wp_pure]
  refine ⟨fun _ => hs, fun hphase => ?_⟩
  refine wp_mono (updateCurrentValue_output s _) (fun _ s₁ hs₁ => ?_) (fun _ s₁ hs₁ => hs.fails hs₁)
  refine ⟨fun _ => ?_, fun _ => hs.moves hphase hs₁.toSameOutput⟩
  refine wp_imp (publish_tidy hadv hs hphase hs₁.toSameOutput) fun _ t ht => ?_
  exact wp_total (checkHeardFromQuorum_output t) fun _ r hr =>
    ht.of_local hr.toSameOutput hr.local_eq

theorem bumpState_tidy (value : Value) (force : Bool) :
    StaysTidy ctx (bumpState ctx advance value force) s := by
  unfold bumpState
  simp only [wp_bind, wp_get, wp_ite, wp_pure]
  exact ⟨fun _ => hs, fun _ => bumpStateTo_tidy hadv hs _ _⟩

theorem abandonBallot_tidy (n : Nat) :
    StaysTidy ctx (abandonBallot ctx advance n) s := by
  unfold abandonBallot
  simp only [wp_bind, wp_get, wp_ite, wp_pure]
  exact ⟨fun _ => hs, fun _ => ⟨fun _ => bumpState_tidy hadv hs _ _,
    fun _ => bumpStateTo_tidy hadv hs _ _⟩⟩

end

theorem advanceSlot_tidy (ctx : Context) (fuel : Nat) : AdvanceTidy ctx (advanceSlot ctx fuel) := by
  refine advanceSlot_keeps ctx (fun advance hadv => ?_)
    (fun s n hs => hs.of_local ⟨rfl, rfl, rfl, rfl⟩ rfl)
    (fun s hs => wp_total (sendLatestEnvelope_sends hs.toOutbox) fun _ r hr => hr.tidy hs.toSealed)
    (fun s hs => hs.stopped) fuel
  exact
    { preparedAccept := fun ballot s hs hphase => setPreparedAccept_tidy hadv hs hphase ballot
      preparedConfirmed := fun c h s hs hphase => setPreparedConfirmed_tidy hadv hs hphase c h
      acceptCommit := fun c h s hs hphase => setAcceptCommit_tidy hadv hs hphase c h
      confirmCommit := fun c h s hs hphase => setConfirmCommit_tidy hadv hs hphase c h
      bump := fun value n s hs _ => bumpStateTo_tidy hadv hs value n
      heard := fun s hs => wp_total (checkHeardFromQuorum_output s) fun _ r hr =>
        hs.of_local hr.toSameOutput hr.local_eq
      error := fun _ s hs _ => hs.stopped }

/-- A call keeps the driver calls tidy. -/
theorem run_tidy (hs : Tidy ctx s) (call : Call) :
    StaysTidy ctx (call.run ctx) s := by
  have hadv := advanceSlot_tidy ctx maxAdvanceSlotRecursion
  cases call with
  | recvSCPEnvelope st =>
    simp only [Call.run, wp_ite, wp_bind, wp_pure]
    exact ⟨fun _ => hs, fun _ => wp_imp (processEnvelope_settles hadv hs st false)
      (fun _ t ht => ht.1.tidy)⟩
  | bumpState value force =>
    simp only [Call.run, wp_bind, wp_pure]
    exact bumpState_tidy hadv hs value force
  | abandonBallot =>
    simp only [Call.run, wp_bind, wp_pure]
    exact abandonBallot_tidy hadv hs 0
  | compositeCandidate value =>
    simp only [Call.run, wp_modify]
    exact hs.of_local ⟨rfl, rfl, rfl, rfl⟩ rfl

end SpnCore.Scp
