import SpnCore.Catchup.LedgerManager

/-!
# Contiguity of the buffered ledgers

While the ledger manager is out of sync, the ledgers it buffers are contiguous, and they start
right after the ledger it catches up to. An empty buffer accepts any ledger, however: when the
last buffered ledger was applied and the callback that notices did not run yet, a ledger that
comes after a gap is buffered, and the next callback fails its assertion.

Everything below therefore assumes that the ledgers noted in `refills` follow the last closed
one. It also assumes that the archive entries that were replayed are the only headers with their
hash, which is what their verification and the hash function are for.
-/

namespace SpnCore.Catchup

open Lib Scp

variable {cfg : ManagerConfig}

/-- The errors that are bugs of the ledger manager, and not of what it is told. -/
def ManagerError.isOwn : ManagerError → Bool
  | .assertion _ | .targetNotNewer | .catchupInProgress => true
  | .consensusInconsistency | .txSetMismatch | .closeFailed | .bucketsBehind => false

/-- No ledger was taken into the empty buffer after a gap, and the replayed entries are right. -/
structure Gapless (cfg : ManagerConfig) (s : LedgerManager) : Prop where
  refills : ∀ r ∈ s.refills, r.2 = r.1 + 1
  replayed : ∀ e ∈ s.replayed, ∀ header, cfg.sha256 header = e.hash → header = e.header

/-- The ledgers are numbered from `n` on. -/
def Contiguous : Nat → List LedgerCloseData → Prop
  | _, [] => True
  | n, data :: rest => data.ledgerSeq = n ∧ Contiguous (n + 1) rest

/-- The next number goes at the end. -/
theorem Contiguous.append {n : Nat} {l : List LedgerCloseData} {back data : LedgerCloseData}
    (h : Contiguous n l) (hback : l.getLast? = some back)
    (hdata : back.ledgerSeq + 1 = data.ledgerSeq) : Contiguous n (l ++ [data]) := by
  induction l generalizing n with
  | nil => simp at hback
  | cons first rest ih =>
    obtain ⟨hfirst, hrest⟩ := h
    refine ⟨hfirst, ?_⟩
    cases rest with
    | nil =>
      obtain rfl : first = back := by simpa using hback
      exact ⟨by omega, trivial⟩
    | cons second rest => exact ih hrest (by simpa using hback)

/-! ### The phases -/

/-- The states the ledger manager can be in. -/
inductive Phase (cfg : ManagerConfig) (s : LedgerManager) : Prop where
  | idle (hstate : s.state ≠ .catchingUp) (hcatchup : s.catchupState = .none)
      (hbuffer : s.syncingLedgers = []) (hwork : s.catchupWork = none) (hposted : s.posted = 0)
  | waitingForTriggerLedger (first : Nat) (hstate : s.state = .catchingUp)
      (hcatchup : s.catchupState = .waitingForTriggerLedger) (hbuffer : s.syncingLedgers ≠ [])
      (hcontiguous : Contiguous first s.syncingLedgers) (hfirst : s.lastClosedLedgerNum + 1 < first)
      (hwork : s.catchupWork = none) (hposted : s.posted = 0)
  | applyingHistory (work : CatchupWork) (hstate : s.state = .catchingUp)
      (hcatchup : s.catchupState = .applyingHistory) (hbuffer : s.syncingLedgers ≠ [])
      (hcontiguous : Contiguous (work.toLedger + 1) s.syncingLedgers)
      (hwork : s.catchupWork = some work)
      (hlast : ∀ e, work.lastApplied = some e → e = s.lastClosedLedger) (hposted : s.posted = 0)
  | applyingBufferedLedgers (hstate : s.state = .catchingUp)
      (hcatchup : s.catchupState = .applyingBufferedLedgers)
      (hcontiguous : Contiguous (s.lastClosedLedgerNum + 1) s.syncingLedgers)
      (hwork : s.catchupWork = none) (hposted : s.posted = 1)
  | waitingForClosingLedger (hstate : s.state = .catchingUp)
      (hcatchup : s.catchupState = .waitingForClosingLedger) (hbuffer : s.syncingLedgers = [])
      (hwork : s.catchupWork = none) (hposted : s.posted = 0)

/-- What every method keeps, whatever its state: the last closed ledger does not go back, and
the notes only grow. -/
structure Advances (s t : LedgerManager) : Prop where
  lastClosed : s.lastClosedLedgerNum ≤ t.lastClosedLedgerNum
  refills : s.refills ⊆ t.refills
  replayed : s.replayed ⊆ t.replayed

instance : IsPreorder LedgerManager Advances where
  refl _ := ⟨le_refl _, List.Subset.refl _, List.Subset.refl _⟩
  trans _ _ _ h h' := ⟨h.lastClosed.trans h'.lastClosed, List.Subset.trans h.refills h'.refills,
    List.Subset.trans h.replayed h'.replayed⟩

namespace Advances

variable {s t : LedgerManager}

theorem gapless (h : Advances s t) (ht : Gapless cfg t) : Gapless cfg s :=
  ⟨fun r hr => ht.refills r (h.refills hr), fun e he => ht.replayed e (h.replayed he)⟩

theorem of_eq (hlast : t.lastClosedLedger = s.lastClosedLedger) (hrefills : t.refills = s.refills)
    (hreplayed : t.replayed = s.replayed) : Advances s t := by
  refine ⟨?_, ?_, ?_⟩
  · rw [LedgerManager.lastClosedLedgerNum, LedgerManager.lastClosedLedgerNum, hlast]
  · rw [hrefills]
    exact List.Subset.refl _
  · rw [hreplayed]
    exact List.Subset.refl _

end Advances

/-! ### Closing ledgers -/

/-- `t` is `s` after a ledger was closed. -/
def Closed (cfg : ManagerConfig) (s t : LedgerManager) : Prop :=
  ∃ header : LedgerHeader, header.ledgerSeq = s.lastClosedLedgerNum + 1 ∧
    t = { s with lastClosedLedger := { hash := cfg.sha256 header, header } }

section Rules

variable {s : LedgerManager} {data : LedgerCloseData}
  {E : ManagerError → LedgerManager → Prop}

theorem Closed.advances {t : LedgerManager} (h : Closed cfg s t) : Advances s t := by
  obtain ⟨header, hseq, rfl⟩ := h
  refine ⟨?_, List.Subset.refl _, List.Subset.refl _⟩
  show s.lastClosedLedgerNum ≤ header.ledgerSeq
  omega

theorem wp_closeLedger {Q : Unit → LedgerManager → Prop} (hQ : ∀ t, Closed cfg s t → Q () t)
    (hE : ∀ e, e.isOwn = false → E e s) : wp (closeLedger cfg data) Q E s := by
  simp only [closeLedger, wp_bind, wp_get, wp_ensure]
  refine ⟨fun _ => ?_, fun _ => hE _ rfl⟩
  cases cfg.applyLedger s.lastClosedLedger data with
  | none => exact wp_throw.2 (hE _ rfl)
  | some header => exact wp_set.2 (hQ _ ⟨_, rfl, rfl⟩)

theorem closeLedger_closed :
    wp (closeLedger cfg data) (fun _ => Closed cfg s) (fun _ _ => True) s :=
  wp_closeLedger (fun _ ht => ht) fun _ _ => trivial

theorem wp_closeLedgerIf {Q : CloseLedgerIfResult → LedgerManager → Prop}
    (hclosed : ∀ t, Closed cfg s t → Q .closed t) (hold : Q .tooOld s)
    (hnew : s.lastClosedLedgerNum + 1 < data.ledgerSeq → Q .tooNew s)
    (hE : ∀ e, e.isOwn = false → E e s) : wp (closeLedgerIf cfg data) Q E s := by
  simp only [closeLedgerIf, wp_bind, wp_get, wp_ite, wp_ensure, wp_pure]
  refine ⟨fun _ => ⟨fun _ => wp_closeLedger hclosed hE, fun _ => hE _ rfl⟩, fun hne => ?_⟩
  exact ⟨fun _ => hold, fun hlt => hnew (by omega)⟩

end Rules

/-! ### What every method keeps -/

section Advance

variable (data : LedgerCloseData)

theorem addToSyncingLedgers_advances : Within Advances (addToSyncingLedgers data) := by
  refine within_modify fun s => ?_
  cases s.syncingLedgers.getLast? with
  | none =>
    refine ⟨le_refl _, ?_, List.Subset.refl _⟩
    show s.refills ⊆ ite _ _ _
    split
    · exact List.subset_append_left _ _
    · exact List.Subset.refl _
  | some back =>
    show Advances s (ite _ _ _)
    split <;> exact .of_eq rfl rfl rfl

theorem startCatchupIf_advances {lastReceivedLedgerSeq : Nat} :
    Within Advances (startCatchupIf cfg lastReceivedLedgerSeq) := by
  intro s
  simp only [startCatchupIf, wp_bind, wp_get]
  cases s.syncingLedgers.head? with
  | none => exact wp_throw.2 (refl_of _ s)
  | some front =>
    simp only [wp_bind, wp_ensure, wp_ite, wp_set, wp_pure, startCatchup, wp_get]
    refine ⟨fun _ => ⟨fun _ => ⟨fun _ => ⟨fun _ => ?_, fun _ => ?_⟩, fun _ => ?_⟩, fun _ => ?_⟩,
      fun _ => ?_⟩ <;> exact .of_eq rfl rfl rfl

theorem bufferLedger_advances :
    Within Advances (addToSyncingLedgers data >>= fun _ => startCatchupIf cfg data.ledgerSeq) :=
  within_bind (addToSyncingLedgers_advances data) fun _ => startCatchupIf_advances

theorem initializeCatchup_advances : Within Advances (initializeCatchup cfg data) := by
  intro s
  simp only [initializeCatchup, wp_bind, wp_get, wp_ensure, wp_set]
  refine ⟨fun _ => ?_, fun _ => refl_of _ s⟩
  rw [← wp_bind]
  exact (bufferLedger_advances data).after (.of_eq rfl rfl rfl)

theorem closeLedgerIf_advances : Within Advances (closeLedgerIf cfg data) := fun s =>
  wp_closeLedgerIf (fun _ ht => ht.advances) (refl_of _ s) (fun _ => refl_of _ s)
    fun _ _ => refl_of _ s

theorem valueExternalized_advances : Within Advances (valueExternalized cfg data) := by
  have hsetState : ∀ state, Within Advances (modify fun s => s.setState state : ManagerM PUnit) :=
    fun _ => within_modify fun _ => .of_eq rfl rfl rfl
  refine within_bind within_get fun _ =>
    within_ite (fun _ => within_ite (fun _ => ?_) fun _ => ?_) fun _ => ?_
  · refine within_bind within_get fun _ => within_bind within_ensure fun _ => ?_
    exact within_bind (closeLedgerIf_advances data) fun _ => within_ite (fun _ => hsetState _)
      fun _ => within_ite (fun _ => within_bind (hsetState _) fun _ =>
        initializeCatchup_advances data) fun _ => within_pure
  · exact within_bind within_get fun _ => within_bind within_ensure fun _ =>
      bufferLedger_advances data
  · exact within_bind (closeLedgerIf_advances data) fun _ => within_ite (fun _ => hsetState _)
      fun _ => within_ite (fun _ => initializeCatchup_advances data) fun _ => within_pure

variable {s : LedgerManager}

/-- A report about buckets names a ledger that is not behind. -/
theorem historyCaughtup_advances (progress : Progress)
    (hbuckets : ∀ e, progress = .appliedBuckets e → s.lastClosedLedgerNum ≤ e.header.ledgerSeq) :
    wp (historyCaughtup progress) (fun _ => Advances s) (fun _ => Advances s) s := by
  simp only [historyCaughtup, wp_bind, wp_get, wp_ensure]
  refine ⟨fun _ => ?_, fun _ => refl_of _ s⟩
  cases progress with
  | failed => exact wp_set.2 (.of_eq rfl rfl rfl)
  | appliedBuckets e =>
    exact wp_set.2 ⟨hbuckets e rfl, List.Subset.refl _, List.Subset.refl _⟩
  | appliedTransactions e => exact wp_ensure.2 ⟨fun _ => refl_of _ s, fun _ => refl_of _ s⟩
  | finished =>
    simp only [wp_bind, wp_set, applyBufferedLedgers, wp_get, wp_ensure]
    exact ⟨fun _ => .of_eq rfl rfl rfl, fun _ => .of_eq rfl rfl rfl⟩

theorem applyHistoryOfSingleLedger_advances (work : CatchupWork)
    (entry : LedgerHeaderHistoryEntry) (txSetPreviousLedgerHash : Hash) :
    Within Advances (applyHistoryOfSingleLedger cfg work entry txSetPreviousLedgerHash) := by
  intro s
  have hsame : ∀ work', Advances s { s with catchupWork := work' } := fun _ => .of_eq rfl rfl rfl
  simp only [applyHistoryOfSingleLedger, wp_bind, wp_get, wp_ite, wp_pure, wp_set]
  have hrefl := refl_of Advances s
  refine ⟨fun _ => hrefl, fun _ => ⟨fun _ => ⟨fun _ => hrefl, fun _ => hsame _⟩, fun _ =>
    ⟨fun _ => ⟨fun _ => hrefl, fun _ => hsame _⟩, fun _ => ⟨fun _ => hsame _, fun _ => ?_⟩⟩⟩⟩
  cases hrun : closeLedger cfg ⟨entry.header.ledgerSeq, txSetPreviousLedgerHash⟩ s with
  | error e t => exact wp_set.2 (hsame _)
  | ok a t =>
    refine wp_set.2 (trans_of Advances (wp_ok closeLedger_closed hrun).advances ?_)
    refine ⟨le_refl _, List.Subset.refl _, ?_⟩
    show t.replayed ⊆ ite _ _ _
    split
    · exact List.subset_append_left _ _
    · exact List.Subset.refl _

theorem catchupStep_advances (work : CatchupWork) (st : CatchupStep) :
    Within Advances (catchupStep cfg work st) := by
  intro s
  have hfail : wp (historyCaughtup .failed) (fun _ => Advances s) (fun _ => Advances s) s :=
    historyCaughtup_advances .failed fun _ h => Progress.noConfusion h
  cases st with
  | verifyCandidate candidate =>
    simp only [catchupStep, wp_ite, wp_bind, verifyCatchupCandidate, wp_get, wp_ensure]
    refine ⟨fun _ => ⟨fun _ => ?_, fun _ => refl_of _ s⟩, fun _ => hfail⟩
    cases s.syncingLedgers.head? with
    | none => exact wp_throw.2 (refl_of _ s)
    | some front =>
      simp only [wp_bind, wp_ensure, wp_pure]
      exact ⟨fun _ => ⟨fun _ => refl_of _ s, fun _ => hfail⟩, fun _ => refl_of _ s⟩
  | applyBuckets firstVerified =>
    simp only [catchupStep, wp_ite, wp_bind, wp_get, wp_ensure, wp_pure]
    refine ⟨fun _ => ⟨fun hle => ?_, fun _ => refl_of _ s⟩, fun _ => refl_of _ s⟩
    refine historyCaughtup_advances _ fun e he => ?_
    obtain rfl : firstVerified = e := by simpa using he
    simpa using hle
  | resetReplay => exact wp_modify.2 (.of_eq rfl rfl rfl)
  | replay entry prev =>
    simp only [catchupStep, wp_ite, wp_pure]
    exact ⟨fun _ => refl_of _ s, fun _ => applyHistoryOfSingleLedger_advances work entry prev s⟩
  | finish =>
    simp only [catchupStep, wp_bind, wp_get]
    cases work.lastApplied with
    | none => exact wp_pure.2 (refl_of _ s)
    | some e =>
      simp only [wp_ite, wp_bind, wp_pure]
      refine ⟨fun _ => ?_, fun _ => refl_of _ s⟩
      refine wp_imp (historyCaughtup_advances _ fun _ h => Progress.noConfusion h)
        (fun _ t ht => ?_)
      exact wp_ends (historyCaughtup_advances _ fun _ h => Progress.noConfusion h)
        fun _ => trans_of Advances ht
  | fail => exact hfail

theorem step_advances (event : Event) : Within Advances (step cfg event) := by
  intro s
  cases event with
  | valueExternalized data => exact valueExternalized_advances data s
  | catchup st =>
    simp only [step, wp_bind, wp_get]
    cases s.catchupWork with
    | none => exact wp_pure.2 (refl_of _ s)
    | some work => exact catchupStep_advances work st s
  | applyBuffered =>
    simp only [step, wp_bind, wp_get, wp_ite, wp_pure, wp_set, applyBufferedLedger]
    refine ⟨fun _ => refl_of _ s, fun _ => ?_⟩
    cases s.syncingLedgers with
    | nil => exact wp_set.2 (.of_eq rfl rfl rfl)
    | cons data rest =>
      simp only [wp_bind, wp_set, wp_ensure, applyBufferedLedgers, wp_get]
      refine ⟨fun _ => ?_, fun _ => .of_eq rfl rfl rfl⟩
      refine wp_closeLedger (fun t ht => ?_) fun _ _ => .of_eq rfl rfl rfl
      have hadv : Advances s t := by
        refine trans_of Advances ?_ ht.advances
        exact .of_eq rfl rfl rfl
      refine ⟨fun _ => trans_of Advances hadv ?_, fun _ => hadv⟩
      exact .of_eq rfl rfl rfl

end Advance

/-! ### From phase to phase -/

/-- Unless a gap was taken in, the state is in a phase. -/
def Fine (cfg : ManagerConfig) (t : LedgerManager) : Prop :=
  Gapless cfg t → Phase cfg t

/-- Unless a gap was taken in, the error is not one of the ledger manager itself. -/
def Excused (cfg : ManagerConfig) (e : ManagerError) (t : LedgerManager) : Prop :=
  Gapless cfg t → e.isOwn = false

/-- Unless a gap was taken in, all is well in the end. -/
abbrev Ends {α : Type} (cfg : ManagerConfig) (x : ManagerM α) (s : LedgerManager) : Prop :=
  wp x (fun _ => Fine cfg) (Excused cfg) s

section Phases

variable {s : LedgerManager} (data : LedgerCloseData)

section

variable (hs : Phase cfg s) (hstate : s.state = .catchingUp)
  (hcatchup : s.catchupState ≠ .waitingForClosingLedger)
include hs hstate hcatchup

/-- A ledger is buffered. -/
theorem addToSyncingLedgers_phase {E} : wp (addToSyncingLedgers data)
      (fun _ t => Gapless cfg t → Phase cfg t ∧ t.syncingLedgers ≠ []) E s := by
  rw [addToSyncingLedgers, wp_modify]
  cases hback : s.syncingLedgers.getLast? with
  | none =>
    have hempty : s.syncingLedgers = [] := List.getLast?_eq_none_iff.1 hback
    cases hs with
    | idle h => exact absurd hstate h
    | waitingForTriggerLedger _ _ _ h | applyingHistory _ _ _ h => exact absurd hempty h
    | waitingForClosingLedger _ h => exact absurd h hcatchup
    | applyingBufferedLedgers _ hbuffered _ hwork hposted =>
      intro ht
      refine ⟨.applyingBufferedLedgers hstate hbuffered ⟨?_, trivial⟩ hwork hposted,
        List.cons_ne_nil _ _⟩
      refine ht.refills (s.lastClosedLedgerNum, data.ledgerSeq) ?_
      simp [hbuffered]
  | some back =>
    have hne : s.syncingLedgers ≠ [] := by
      intro h
      simp [h] at hback
    by_cases hnext : back.ledgerSeq + 1 = data.ledgerSeq
    case neg =>
      intro _
      simp only [hnext, if_false]
      exact ⟨hs, hne⟩
    case pos =>
      intro _
      simp only [hnext, if_true]
      have hne' : s.syncingLedgers ++ [data] ≠ [] := by simp
      cases hs with
      | idle h => exact absurd hstate h
      | waitingForTriggerLedger first _ h _ hcont hfirst hwork hposted =>
        exact ⟨.waitingForTriggerLedger first hstate h hne' (hcont.append hback hnext) hfirst
          hwork hposted, hne'⟩
      | applyingHistory work _ h _ hcont hwork hlast hposted =>
        exact ⟨.applyingHistory work hstate h hne' (hcont.append hback hnext) hwork hlast
          hposted, hne'⟩
      | applyingBufferedLedgers _ h hcont hwork hposted =>
        exact ⟨.applyingBufferedLedgers hstate h (hcont.append hback hnext) hwork hposted,
          hne'⟩
      | waitingForClosingLedger _ h => exact absurd h hcatchup

omit hs hstate hcatchup in
/-- The catchup from history starts, or not yet. -/
theorem startCatchupIf_phase (lastReceivedLedgerSeq : Nat) (hs : Phase cfg s)
    (hbuffer : s.syncingLedgers ≠ []) :
    Ends cfg (startCatchupIf cfg lastReceivedLedgerSeq) s := by
  simp only [startCatchupIf, wp_bind, wp_get]
  cases hfront : s.syncingLedgers with
  | nil => exact absurd hfront hbuffer
  | cons front rest =>
    simp only [List.head?_cons, wp_bind, wp_ensure, wp_ite, wp_set, wp_pure, startCatchup,
      wp_get, decide_eq_true_eq, decide_eq_false_iff_not]
    have hphase := hs
    cases hs with
    | idle _ _ h | waitingForClosingLedger _ _ h => exact absurd h hbuffer
    | applyingHistory _ _ h | applyingBufferedLedgers _ h =>
      refine ⟨fun _ => ⟨fun h' => ?_, fun _ _ => hphase⟩, fun h' => ?_⟩
      · simp [h] at h'
      · simp [h] at h'
    | waitingForTriggerLedger first hstate h hne hcont hfirst hwork hposted =>
      have hseq : front.ledgerSeq = first := by
        rw [hfront] at hcont
        exact hcont.1
      have hto : first - 1 + 1 = first := by omega
      refine ⟨fun _ => ⟨fun _ => ⟨fun _ => ⟨fun _ _ => ?_, fun h' => ?_⟩, fun h' => ?_⟩,
        fun _ _ => hphase⟩, fun h' => ?_⟩
      · refine .applyingHistory _ ?_ rfl hne ?_ rfl (by simp) hposted
        · rfl
        · show Contiguous (front.ledgerSeq - 1 + 1) s.syncingLedgers
          rw [hseq, hto]
          exact hcont
      · simp [LedgerManager.setCatchupState, LedgerManager.setState, hwork] at h'
      · exfalso
        apply h'
        right
        show s.lastClosedLedgerNum < front.ledgerSeq - 1
        omega
      · simp [h] at h'

/-- A ledger is buffered, and may start the catchup. -/
theorem bufferLedger_phase :
    Ends cfg (addToSyncingLedgers data >>= fun _ => startCatchupIf cfg data.ledgerSeq) s := by
  have hadd := addToSyncingLedgers_phase data hs hstate hcatchup (E := fun _ _ => False)
  refine wp_bind.2 (wp_mono hadd (fun _ t ht => ?_) fun _ _ h => h.elim)
  by_cases hgap : Gapless cfg t
  · obtain ⟨hphase, hne⟩ := ht hgap
    exact startCatchupIf_phase _ hphase hne
  · refine wp_mono (startCatchupIf_advances t) (fun _ u hu hgap' => ?_) fun _ u hu hgap' => ?_
    · exact absurd (hu.gapless hgap') hgap
    · exact absurd (hu.gapless hgap') hgap

omit hs hstate hcatchup in
/-- The ledger manager falls out of sync. -/
theorem initializeCatchup_phase (hstate : s.state ≠ .catchingUp) (hcatchup : s.catchupState = .none)
    (hbuffer : s.syncingLedgers = []) (hwork : s.catchupWork = none) (hposted : s.posted = 0)
    (hnew : s.lastClosedLedgerNum + 1 < data.ledgerSeq) :
    Ends cfg (initializeCatchup cfg data) s := by
  simp only [initializeCatchup, wp_bind, wp_get, wp_check, wp_set]
  refine ⟨fun _ => ?_, fun h => absurd ⟨hstate, hcatchup, hbuffer⟩ h⟩
  rw [addToSyncingLedgers, wp_modify]
  -- the buffer is empty, so the ledger is its first
  simp only [LedgerManager.setCatchupState, LedgerManager.setState, hbuffer, List.getLast?_nil]
  refine startCatchupIf_phase _ ?_ (List.cons_ne_nil _ _)
  exact .waitingForTriggerLedger data.ledgerSeq rfl (by simp) (List.cons_ne_nil _ _)
    ⟨rfl, trivial⟩ hnew hwork hposted

theorem continueCatchup_phase : Ends cfg (continueCatchup cfg data) s := by
  simp only [continueCatchup, wp_bind, wp_get, wp_check]
  refine ⟨fun _ => ?_, fun h => absurd hstate h⟩
  rw [← wp_bind]
  exact bufferLedger_phase data hs hstate hcatchup

end

theorem finalizeCatchup_phase (hs : Phase cfg s)
    (hcatchup : s.catchupState = .waitingForClosingLedger) :
    Ends cfg (finalizeCatchup cfg data) s := by
  cases hs with
  | idle _ h | waitingForTriggerLedger _ _ h | applyingHistory _ _ h
  | applyingBufferedLedgers _ h => simp [h] at hcatchup
  | waitingForClosingLedger hstate _ hbuffer hwork hposted =>
    simp only [finalizeCatchup, wp_bind, wp_get, wp_check]
    refine ⟨fun _ => ?_, fun h => absurd ⟨hstate, hcatchup, hbuffer⟩ h⟩
    refine wp_closeLedgerIf (fun t ht => ?_) ?_ (fun hnew => ?_) fun _ h _ => h
    · obtain ⟨header, _, rfl⟩ := ht
      refine wp_modify.2 fun _ => ?_
      exact .idle (by simp [LedgerManager.setState])
        (by simp [LedgerManager.setState, hstate]) hbuffer hwork hposted
    · exact wp_pure.2 fun _ =>
        .waitingForClosingLedger hstate hcatchup hbuffer hwork hposted
    · refine wp_bind.2 (wp_modify.2 ?_)
      exact initializeCatchup_phase data (by simp [LedgerManager.setState])
        (by simp [LedgerManager.setState, hstate]) hbuffer hwork hposted hnew

theorem valueExternalized_phase (hs : Phase cfg s) :
    Ends cfg (valueExternalized cfg data) s := by
  simp only [valueExternalized, wp_bind, wp_get]
  rw [wp_ite]
  refine ⟨fun hstate => ?_, fun hstate => ?_⟩
  · rw [wp_ite]
    exact ⟨finalizeCatchup_phase data hs, continueCatchup_phase data hs hstate⟩
  · cases hs with
    | idle _ hcatchup hbuffer hwork hposted =>
      rw [wp_bind]
      refine wp_closeLedgerIf (fun t ht => ?_) ?_ (fun hnew => ?_) fun _ h _ => h
      · obtain ⟨header, _, rfl⟩ := ht
        refine wp_modify.2 fun _ => ?_
        exact .idle (by simp [LedgerManager.setState])
          (by simp [LedgerManager.setState, hcatchup]) hbuffer hwork hposted
      · exact wp_pure.2 fun _ => .idle hstate hcatchup hbuffer hwork hposted
      · exact initializeCatchup_phase data hstate hcatchup hbuffer hwork hposted hnew
    | _ => exact absurd ‹s.state = .catchingUp› hstate

/-! ### The catchup from history -/

variable {work : CatchupWork}

/-- What holds while the catchup from history is in progress. -/
structure Applying (cfg : ManagerConfig) (s : LedgerManager) (work : CatchupWork) : Prop where
  state : s.state = .catchingUp
  catchup : s.catchupState = .applyingHistory
  buffer : s.syncingLedgers ≠ []
  contiguous : Contiguous (work.toLedger + 1) s.syncingLedgers
  last : ∀ e, work.lastApplied = some e → e = s.lastClosedLedger
  posted : s.posted = 0

theorem Phase.applying (hs : Phase cfg s) (hwork : s.catchupWork = some work) :
    Applying cfg s work := by
  cases hs with
  | applyingHistory work' hstate h hne hcont hwork' hlast hposted =>
    obtain rfl : work' = work := Option.mem_unique hwork' hwork
    exact ⟨hstate, h, hne, hcont, hlast, hposted⟩
  | _ => simp [‹s.catchupWork = none›] at hwork

section

variable (hs : Applying cfg s work)
include hs

theorem Applying.phase (hwork : s.catchupWork = some work) : Phase cfg s :=
  .applyingHistory work hs.state hs.catchup hs.buffer hs.contiguous hwork hs.last hs.posted

/-- A failed catchup from history gives up the buffer. -/
theorem historyCaughtup_failed_phase :
    Ends cfg (historyCaughtup .failed) s := by
  simp only [historyCaughtup, wp_bind, wp_get, wp_check, wp_set]
  refine ⟨fun _ _ => ?_, fun h => absurd hs.catchup h⟩
  exact .idle (by simp [LedgerManager.setState]) (by simp [LedgerManager.setState, hs.state]) rfl
    rfl hs.posted

/-- The catchup from history ends right before the first buffered ledger. -/
theorem historyCaughtup_finished_phase (hlast : s.lastClosedLedgerNum = work.toLedger) :
    Ends cfg (historyCaughtup .finished) s := by
  simp only [historyCaughtup, wp_bind, wp_get, wp_check, wp_set, applyBufferedLedgers]
  refine ⟨fun _ => ⟨fun _ _ => ?_, fun h => ?_⟩, fun h => absurd hs.catchup h⟩
  · refine .applyingBufferedLedgers rfl (by simp [LedgerManager.setCatchupState,
      LedgerManager.setState]) ?_ rfl ?_
    · show Contiguous (s.lastClosedLedgerNum + 1) s.syncingLedgers
      rw [hlast]
      exact hs.contiguous
    · show s.posted + 1 = 1
      rw [hs.posted]
  · simp [LedgerManager.setCatchupState, LedgerManager.setState] at h

/-- Replayed ledgers move the last closed ledger and the last applied one together. -/
theorem applyHistoryOfSingleLedger_phase (hwork : s.catchupWork = some work)
    (entry : LedgerHeaderHistoryEntry) (txSetPreviousLedgerHash : Hash) :
    Ends cfg (applyHistoryOfSingleLedger cfg work entry txSetPreviousLedgerHash) s := by
  have hsame : Fine cfg s := fun _ => hs.phase hwork
  have hfailed : Fine cfg { s with catchupWork := some { work with lastApplied := none } } :=
    fun _ => .applyingHistory { work with lastApplied := none } hs.state hs.catchup hs.buffer
      hs.contiguous rfl (by simp) hs.posted
  simp only [applyHistoryOfSingleLedger, wp_bind, wp_get, wp_ite, wp_pure, wp_set]
  refine ⟨fun _ => hsame, fun _ => ⟨fun _ => ⟨fun _ => hsame, fun _ => hfailed⟩, fun _ =>
    ⟨fun _ => ⟨fun _ => hsame, fun _ => hfailed⟩, fun _ => ⟨fun _ => hfailed, fun _ => ?_⟩⟩⟩⟩
  cases hrun : closeLedger cfg ⟨entry.header.ledgerSeq, txSetPreviousLedgerHash⟩ s with
  | error e t => exact wp_set.2 hfailed
  | ok a t =>
    obtain ⟨header, _, rfl⟩ := wp_ok closeLedger_closed hrun
    refine wp_set.2 fun hgap => ?_
    refine .applyingHistory
      { work with lastApplied := if cfg.sha256 header = entry.hash then some entry else none }
      hs.state hs.catchup hs.buffer hs.contiguous rfl ?_ hs.posted
    intro e he
    by_cases hmatch : cfg.sha256 header = entry.hash
    · obtain rfl : entry = e := by simpa [hmatch] using he
      have hentry := hgap.replayed entry (by simp [hmatch]) header hmatch
      rw [hmatch, hentry]
    · simp [hmatch] at he

theorem catchupStep_phase (hwork : s.catchupWork = some work) (st : CatchupStep) :
    Ends cfg (catchupStep cfg work st) s := by
  have hsame : Fine cfg s := fun _ => hs.phase hwork
  cases st with
  | verifyCandidate candidate =>
    simp only [catchupStep, wp_ite, wp_bind, verifyCatchupCandidate, wp_get, wp_check]
    refine ⟨fun hseq => ⟨fun _ => ?_, fun h => absurd hs.catchup h⟩,
      fun _ => historyCaughtup_failed_phase hs⟩
    have hcont := hs.contiguous
    cases hfront : s.syncingLedgers with
    | nil => exact absurd hfront hs.buffer
    | cons front rest =>
      rw [hfront] at hcont
      simp only [List.head?_cons, wp_bind, wp_check, wp_pure]
      refine ⟨fun _ => ⟨fun _ => hsame, fun _ => historyCaughtup_failed_phase hs⟩, fun h => ?_⟩
      exact absurd (by rw [hseq]; exact hcont.1) h
  | applyBuckets firstVerified =>
    simp only [catchupStep, wp_ite, wp_bind, wp_get, wp_ensure, wp_pure, historyCaughtup, wp_set,
      decide_eq_true_eq, decide_eq_false_iff_not]
    refine ⟨fun hnone => ⟨fun _ => ⟨fun _ _ => ?_, fun h => absurd hs.catchup h⟩,
      fun _ _ => rfl⟩, fun _ => hsame⟩
    refine .applyingHistory work hs.state hs.catchup hs.buffer hs.contiguous hwork ?_ hs.posted
    simp [hnone]
  | resetReplay =>
    refine wp_modify.2 fun _ => ?_
    refine .applyingHistory { work with lastApplied := some s.lastClosedLedger } hs.state
      hs.catchup hs.buffer hs.contiguous rfl ?_ hs.posted
    intro e he
    exact (Option.some.inj he).symm
  | replay entry prev =>
    simp only [catchupStep, wp_ite, wp_pure]
    exact ⟨fun _ => hsame, fun _ => applyHistoryOfSingleLedger_phase hs hwork entry prev⟩
  | finish =>
    simp only [catchupStep, wp_bind, wp_get]
    cases hlast : work.lastApplied with
    | none => exact wp_pure.2 hsame
    | some e =>
      simp only [wp_ite, wp_bind, wp_pure]
      refine ⟨fun hnum => ?_, fun _ => hsame⟩
      rw [historyCaughtup]
      simp only [wp_bind, wp_get, wp_check]
      refine ⟨fun _ => ⟨fun _ => ?_, fun h => absurd (hs.last e hlast) h⟩,
        fun h => absurd hs.catchup h⟩
      exact historyCaughtup_finished_phase hs hnum
  | fail => exact historyCaughtup_failed_phase hs

end

/-! ### Runs -/

/-- One event. -/
theorem step_phase (hs : Phase cfg s) (event : Event) :
    Ends cfg (step cfg event) s := by
  cases event with
  | valueExternalized data => exact valueExternalized_phase data hs
  | catchup st =>
    simp only [step, wp_bind, wp_get]
    cases hwork : s.catchupWork with
    | none => exact wp_pure.2 fun _ => hs
    | some work => exact catchupStep_phase (hs.applying hwork) hwork st
  | applyBuffered =>
    simp only [step, wp_bind, wp_get, wp_ite, wp_pure, wp_set, applyBufferedLedger]
    refine ⟨fun _ _ => hs, fun hposted => ?_⟩
    cases hs with
    | applyingBufferedLedgers hstate hcatchup hcont hwork hone =>
      cases hbuffer : s.syncingLedgers with
      | nil =>
        refine wp_set.2 fun _ => ?_
        refine .waitingForClosingLedger rfl ?_ rfl hwork ?_
        · simp [LedgerManager.setCatchupState, LedgerManager.setState]
        · show s.posted - 1 = 0
          omega
      | cons data rest =>
        rw [hbuffer] at hcont
        simp only [wp_bind, wp_set, wp_check, applyBufferedLedgers, wp_get]
        refine ⟨fun _ => ?_, fun h => absurd hcont.1 h⟩
        refine wp_closeLedger (fun t ht => ?_) fun _ h _ => h
        obtain ⟨header, hseq, rfl⟩ := ht
        refine ⟨fun _ _ => ?_, fun h => absurd hcatchup h⟩
        refine .applyingBufferedLedgers hstate hcatchup ?_ hwork ?_
        · show Contiguous (header.ledgerSeq + 1) rest
          rw [hseq]
          exact hcont.2
        · show s.posted - 1 + 1 = 1
          omega
    | _ => exact absurd ‹s.posted = 0› hposted

/-- A state that is in a phase unless a gap was taken in, with a last closed ledger that is not
before that of `s`. -/
def Reached (cfg : ManagerConfig) (s t : LedgerManager) : Prop :=
  Advances s t ∧ Fine cfg t

theorem runManager_reached (events : List Event) {t : LedgerManager} (ht : Reached cfg s t) :
    wp (runManager cfg events) (fun _ => Reached cfg s)
      (fun e u => Advances s u ∧ Excused cfg e u) t := by
  induction events generalizing t with
  | nil => exact wp_pure.2 ht
  | cons event events ih =>
    show wp (step cfg event >>= fun _ => runManager cfg events) _ _ t
    rw [wp_bind]
    have hadvances := @step_advances cfg event t
    by_cases hgap : Gapless cfg t
    · refine wp_mono (wp_and hadvances (step_phase (ht.2 hgap) event)) (fun _ u hu => ?_)
        fun _ u hu => ?_
      · exact ih ⟨trans_of Advances ht.1 hu.1, hu.2⟩
      · exact ⟨trans_of Advances ht.1 hu.1, hu.2⟩
    · refine wp_mono hadvances (fun _ u hu => ?_) fun _ u hu => ?_
      · exact ih ⟨trans_of Advances ht.1 hu, fun h => absurd (hu.gapless h) hgap⟩
      · exact ⟨trans_of Advances ht.1 hu, fun h => absurd (hu.gapless h) hgap⟩

end Phases

/-- A ledger manager that has just been started, in sync or not. -/
def LedgerManager.start (synced : Bool) (lastClosedLedger : LedgerHeaderHistoryEntry) :
    LedgerManager :=
  { state := if synced then .synced else .booting, lastClosedLedger }

/-- From any state a run leads to, the last closed ledger never goes back. As long as no ledger
was taken into the empty buffer after a gap, and the replayed entries of the archive are right,
no assertion of the ledger manager fails, and a catchup is only started for a newer ledger and
when no other is in progress. In particular every buffered ledger that is applied follows the
last closed one, and `initializeCatchup` and `finalizeCatchup` find the buffer empty. -/
theorem runManager_in_phase (cfg : ManagerConfig) (synced : Bool)
    (lastClosedLedger : LedgerHeaderHistoryEntry) (before after : List Event) :
    wp (runManager cfg before)
      (fun _ t => wp (runManager cfg after)
        (fun _ u => t.lastClosedLedgerNum ≤ u.lastClosedLedgerNum ∧
          (Gapless cfg u → Phase cfg u))
        (fun e u => t.lastClosedLedgerNum ≤ u.lastClosedLedgerNum ∧
          (Gapless cfg u → e.isOwn = false)) t)
      (fun e t => lastClosedLedger.header.ledgerSeq ≤ t.lastClosedLedgerNum ∧
        (Gapless cfg t → e.isOwn = false))
      (.start synced lastClosedLedger) := by
  have hstart : Phase cfg (.start synced lastClosedLedger) :=
    .idle (by cases synced <;> simp [LedgerManager.start]) rfl rfl rfl rfl
  refine wp_mono (runManager_reached before ⟨refl_of _ _, fun _ => hstart⟩) (fun _ t ht => ?_)
    fun _ t ht => ⟨ht.1.lastClosed, ht.2⟩
  refine wp_mono (runManager_reached after ⟨refl_of _ t, ht.2⟩) (fun _ u hu => ?_) fun _ u hu => ?_
  · exact ⟨hu.1.lastClosed, hu.2⟩
  · exact ⟨hu.1.lastClosed, hu.2⟩

/-! ### A ledger after a gap -/

namespace LateLedger

/-- Every ledger can be applied, and hashes to its number. -/
def config : ManagerConfig where
  checkpointFrequency := 64
  catchupCount := 0
  sha256 := LedgerHeader.ledgerSeq
  applyLedger := fun _ _ => some {}

/-- The header of ledger `n`. -/
def ledger (n : Nat) : LedgerHeaderHistoryEntry :=
  { hash := n, header := { ledgerSeq := n } }

/-- The network agrees on ledger `n`. -/
def externalize (n : Nat) : Event :=
  .valueExternalized { ledgerSeq := n, previousLedgerHash := n - 1 }

/-- Ledger 5 is buffered, 65 starts the catchup to ledger 4, and 66 comes when ledger 5 has been
applied. -/
def events : List Event :=
  [externalize 5, externalize 65, .catchup (.applyBuckets (ledger 4)), .catchup .resetReplay,
    .catchup .finish, .applyBuffered, externalize 66, .applyBuffered]

/-- The error a run ends with, with the number of the last closed ledger and the notes about
refills. -/
def outcome (x : ManagerM Unit) (s : LedgerManager) :
    Option (ManagerError × Nat × List (Nat × Nat)) :=
  match x s with
  | .ok _ _ => none
  | .error e t => some (e, t.lastClosedLedgerNum, t.refills)

end LateLedger

open LateLedger in
/-- Ledger 66 is taken for the one after ledger 5. -/
theorem late_ledger_faults :
    outcome (runManager config events) (.start true (ledger 1)) =
      some (.assertion .applyBufferedLedgers, 5, [(5, 66)]) := by
  decide +kernel

end SpnCore.Catchup
