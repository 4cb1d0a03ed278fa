import SpnCore.Scp.StepInvariants

/-!
# Publishing a change

After a change whose guard holds, the statement about the new local state can be created, is
sane, and supersedes the latest own statement unless it is the same one. So the local node
always accepts its own statements, and its latest one always describes its local state.
-/

namespace SpnCore.Scp

open Lib Option

/-! ### The order of statements -/

/-- What an optional ballot is ordered by: an unset ballot is below every other. -/
def optionKey : Option SCPBallot → Nat ×ₗ SCPBallot
  | none => toLex (0, {})
  | some b => toLex (1, b)

/-- What a `PREPARE` pledge is ordered by. -/
def SCPPrepare.key (p : SCPPrepare) :
    SCPBallot ×ₗ (Nat ×ₗ SCPBallot) ×ₗ (Nat ×ₗ SCPBallot) ×ₗ Nat :=
  toLex (p.ballot, toLex (optionKey p.prepared, toLex (optionKey p.preparedPrime, p.nH)))

/-- What a `CONFIRM` pledge is ordered by. -/
def SCPConfirm.key (c : SCPConfirm) : SCPBallot ×ₗ Nat ×ₗ Nat :=
  toLex (c.ballot, toLex (c.nPrepared, c.nH))

section Lex

variable {α β : Type} [LT α] [LT β] {a c : α} {b d : β}

theorem lex_left (h : a < c) : toLex (a, b) < toLex (c, d) :=
  Prod.Lex.toLex_lt_toLex.2 (.inl h)

theorem lex_right (h : a = c) (h' : b < d) : toLex (a, b) < toLex (c, d) :=
  Prod.Lex.toLex_lt_toLex.2 (.inr ⟨h, h'⟩)

end Lex

theorem optionKey_none_lt (b : SCPBallot) : optionKey none < optionKey (some b) :=
  lex_left Nat.one_pos

theorem optionKey_lt {a b : SCPBallot} (h : a < b) : optionKey (some a) < optionKey (some b) :=
  lex_right rfl h

theorem compareOptBallots_eq (a b : Option SCPBallot) :
    compareOptBallots a b = compare (optionKey a) (optionKey b) := by
  symm
  cases a <;> cases b
  case none.none => simp [compareOptBallots]
  case none.some b => exact compare_lt_iff_lt.2 (optionKey_none_lt b)
  case some.none a => exact compare_gt_iff_gt.2 (optionKey_none_lt a)
  case some.some a b =>
    simp only [compareOptBallots, compareBallots_eq]
    rcases lt_trichotomy a b with h | rfl | h
    · rw [compare_lt_iff_lt.2 h, compare_lt_iff_lt.2 (optionKey_lt h)]
    · simp
    · rw [compare_gt_iff_gt.2 h, compare_gt_iff_gt.2 (optionKey_lt h)]

/-- The `PREPARE` pledges are ordered lexicographically by `(b, p, p', h)`. -/
theorem isNewer_prepare_iff {old new : SCPPrepare} {v w : NodeID} :
    isNewerStatement ⟨v, .prepare old⟩ ⟨w, .prepare new⟩ = true ↔ old.key < new.key := by
  simp only [isNewerStatement, SCPPrepare.key, Prod.Lex.toLex_lt_toLex, compareBallots_eq,
    compareOptBallots_eq]
  rcases hb : compare old.ballot new.ballot <;>
    rcases hp : compare (optionKey old.prepared) (optionKey new.prepared) <;>
    rcases hp' : compare (optionKey old.preparedPrime) (optionKey new.preparedPrime) <;>
    simp only [compare_lt_iff_lt, compare_eq_iff_eq, compare_gt_iff_gt] at hb hp hp' <;>
    simp [hb, hp, hp', hb.not_gt, hp.not_gt, hp'.not_gt, ne_of_gt]

/-- The `CONFIRM` pledges are ordered lexicographically by `(b, p, h)`. -/
theorem isNewer_confirm_iff {old new : SCPConfirm} {v w : NodeID} :
    isNewerStatement ⟨v, .confirm old⟩ ⟨w, .confirm new⟩ = true ↔ old.key < new.key := by
  simp only [isNewerStatement, SCPConfirm.key, Prod.Lex.toLex_lt_toLex, compareBallots_eq]
  rcases hb : compare old.ballot new.ballot <;>
    simp only [compare_lt_iff_lt, compare_eq_iff_eq, compare_gt_iff_gt] at hb
  · simp [hb]
  · by_cases hp : old.nPrepared = new.nPrepared <;> simp [hb, hp]
  · simp [hb.not_gt, hb.ne']

/-- Every ballot with a positive counter is above the unset ballot. -/
theorem default_lt {b : SCPBallot} (h : 0 < b.counter) : ({} : SCPBallot) < b :=
  SCPBallot.lt_iff.2 (.inl h)

/-! ### Sanity of own statements -/

/-- The local quorum set is known under its hash and is sane. -/
def Context.QSetSane (ctx : Context) : Prop :=
  ∃ q, ctx.getQSet ctx.qSetHash = some q ∧ isQuorumSetSane q false = true

/-- A local state in which nothing is missing for the statement of its phase. -/
theorem exists_describes (ctx : Context) {l : LocalState} (hl : l.Invariants)
    (hcons : l.Consistent) : ∃ st, Describes ctx l st := by
  cases hphase : l.phase with
  | prepare => exact ⟨_, .prepare hphase⟩
  | confirm =>
    obtain ⟨c, hc⟩ := isSome_iff_exists.1 (hl.confirm hphase)
    obtain ⟨h, hh, _⟩ := hl.commit c hc
    obtain ⟨b, hb, _⟩ := hl.high h hh
    obtain ⟨p, hp⟩ := isSome_iff_exists.1 (hcons.confirm (by simp [hphase])).1
    exact ⟨_, .confirm b p c h hphase hb hp hc hh⟩
  | externalize =>
    obtain ⟨hc, hh⟩ := hl.externalize hphase
    obtain ⟨c, hc⟩ := isSome_iff_exists.1 hc
    obtain ⟨h, hh⟩ := isSome_iff_exists.1 hh
    exact ⟨_, .externalize c h hphase hc hh⟩

theorem buildSingletonQSet_sane (n : NodeID) :
    isQuorumSetSane (buildSingletonQSet n) false = true := by
  simp [isQuorumSetSane, buildSingletonQSet, checkSanity, checkSanityAll, insertNodes]

/-- The local node's own statements are sane. -/
theorem Describes.sane {ctx : Context} {l : LocalState} {st : SCPStatement}
    (hst : Describes ctx l st) (hctx : ctx.QSetSane) (hl : l.Invariants)
    (hcons : l.Consistent) : isStatementSane ctx st true = true := by
  obtain ⟨q, hq, hsane⟩ := hctx
  cases hst with
  | prepare hphase =>
    have hpledge : isPrepareSane (preparePledge ctx l) true = true := by
      refine isPrepareSane_iff.2 ⟨.inl rfl, fun p' p hp' hp => hl.primes p p' hp hp', ?_, ?_⟩
      · cases hh : l.highBallot with
        | none => simp [preparePledge, hh]
        | some h =>
          obtain ⟨p, hp, hle⟩ := hcons.high hphase h hh
          exact .inr ⟨p, hp, by simpa [preparePledge, hh] using hle⟩
      · cases hc : l.commit with
        | none => simp [preparePledge, hc]
        | some c =>
          obtain ⟨h, hh, hle, _⟩ := hl.commit c hc
          obtain ⟨b, hb, hle', _⟩ := hl.high h hh
          have h₁ := SCPBallot.counter_le hle
          have h₂ := SCPBallot.counter_le hle'
          simp only [preparePledge, hc, hh, hb, map_some, getD_some]
          omega
    have hqSet : getQuorumSetFromStatement ctx
        ⟨ctx.nodeID, .prepare (preparePledge ctx l)⟩ = some q := hq
    simp [isStatementSane, hqSet, hpledge, hsane]
  | confirm b p c h hphase hb hp hc hh =>
    have hle := hl.commit_le_high hc hh
    obtain ⟨b', hb', hle', _⟩ := hl.high h hh
    obtain rfl : b = b' := mem_unique hb hb'
    have hne := hl.current b hb
    have h₁ := SCPBallot.counter_le hle.1
    have h₂ := SCPBallot.counter_le hle'
    simp [isStatementSane, getQuorumSetFromStatement, hq, hsane]
    omega
  | externalize c h hphase hc hh =>
    have hle := SCPBallot.counter_le (hl.commit_le_high hc hh).1
    have hpos := hcons.commit c hc
    simp [isStatementSane, getQuorumSetFromStatement, buildSingletonQSet_sane]
    omega

/-! ### Own statements are superseded -/

section OwnNewer

variable {ctx : Context} {l : LocalState} {old st : SCPStatement}

theorem newer_preparedAccept {ballot : SCPBallot}
    (hconfirm : l.phase = .confirm → ∃ p c, l.prepared = some p ∧ l.commit = some c ∧
      p ≤ ballot ∧ p.value = ballot.value ∧ c.value = ballot.value)
    (hprime : ∀ p', l.preparedPrime = some p' → p' < ballot)
    (hcovered : ∀ p, l.prepared = some p → ¬ (ballot ≤ p ∧ ballot.value = p.value))
    (hext : l.phase ≠ .externalize) (hold : Describes ctx l old)
    (hst : Describes ctx ((Update.preparedAccept ballot).apply l) st) :
    isNewerStatement old st = true := by
  have hcases := preparedAccept_cases hprime hcovered
  cases hold with
  | prepare hphase =>
    obtain rfl := hst.eq_prepare (by simpa using hphase)
    have hb : (preparePledge ctx l).ballot =
        (preparePledge ctx ((Update.preparedAccept ballot).apply l)).ballot := by
      simp [preparePledge]
    rcases hcases with ⟨hp, ⟨hnone, _⟩ | ⟨p, hp₀, hlt, _⟩⟩ | ⟨p, hp₀, _, _, hp, hp'⟩
    · refine isNewer_prepare_iff.2 (lex_right hb (lex_left ?_))
      simpa only [preparePledge, hp, hnone] using optionKey_none_lt ballot
    · refine isNewer_prepare_iff.2 (lex_right hb (lex_left ?_))
      simpa only [preparePledge, hp, hp₀] using optionKey_lt hlt
    · refine isNewer_prepare_iff.2 (lex_right hb (lex_right ?_ (lex_left ?_)))
      · simp only [preparePledge, hp, hp₀]
      · simp only [preparePledge, hp']
        cases hq : l.preparedPrime with
        | none => exact optionKey_none_lt ballot
        | some q => exact optionKey_lt (hprime q hq)
  | confirm b p c h hphase hb hp hc hh =>
    obtain ⟨b₁, p₁, _, _, hb₁, hp₁, _, _, rfl⟩ := hst.eq_confirm (by simpa using hphase)
    obtain ⟨q, c₂, hq, _, hle, hval, _⟩ := hconfirm hphase
    obtain rfl : p = q := mem_unique hp hq
    have hlt : p < ballot := lt_of_le_of_ne hle fun heq =>
      hcovered p hp ⟨heq.ge, congrArg _ heq.symm⟩
    have hp₂ : p₁ = ballot := by
      rcases hcases with ⟨hp', _⟩ | ⟨q, hq', hgt, _⟩
      · exact mem_unique hp₁ hp'
      · obtain rfl : p = q := mem_unique hp hq'
        exact absurd hlt hgt.asymm
    subst hp₂
    refine isNewer_confirm_iff.2 (lex_right ?_ (lex_left ((SCPBallot.lt_iff_counter hval).1 hlt)))
    rw [preparedAccept_currentBallot] at hb₁
    exact mem_unique hb hb₁
  | externalize _ _ hphase => exact absurd hphase hext

theorem newer_preparedConfirmed {newC newH : SCPBallot} (hl : l.Invariants)
    (hhigh : ∀ h, l.highBallot = some h → h < newH)
    (hnewC : newC.counter ≠ 0 → newC ≤ newH)
    (hl' : ((Update.preparedConfirmed newC newH).apply l).Invariants)
    (hne : preparePledge ctx l ≠
      preparePledge ctx ((Update.preparedConfirmed newC newH).apply l)) :
    isNewerStatement ⟨ctx.nodeID, .prepare (preparePledge ctx l)⟩
      ⟨ctx.nodeID, .prepare
        (preparePledge ctx ((Update.preparedConfirmed newC newH).apply l))⟩ = true := by
  rcases raiseTo_currentBallot (l.confirmOn newC newH) newH with
    ⟨b, hb, hle, hraise⟩ | ⟨hlt, hraise⟩
  · -- the current ballot stays: either nothing changed, or h is raised on its value
    simp only [Update.apply, hraise] at hne ⊢
    rw [confirmOn_currentBallot] at hb
    by_cases hval : b.value = newH.value
    · have hcur : ∀ b', l.currentBallot = some b' → b'.value = newH.value := fun b' hb' =>
        mem_unique hb hb' ▸ hval
      rw [confirmOn_of_compatible newC hcur hhigh] at hne ⊢
      have hnH : (preparePledge ctx l).nH < newH.counter := by
        cases hh : l.highBallot with
        | some h =>
          obtain ⟨b', hb', _, hbval⟩ := hl.high h hh
          simpa [preparePledge, hh] using
            (SCPBallot.lt_iff_counter (hbval.trans (hcur b' hb'))).1 (hhigh h hh)
        | none =>
          simp only [preparePledge, hh, map_none, getD_none]
          by_contra hzero
          -- the counter of newH is zero, so c is not set and the statement is the same
          have hnewC₀ : newC.counter = 0 := by
            by_contra hpos
            have := SCPBallot.counter_le (hnewC hpos)
            omega
          exact hne (by simp [preparePledge, hh, hnewC₀]; omega)
      exact isNewer_prepare_iff.2
        (lex_right rfl (lex_right rfl (lex_right rfl (by simpa [preparePledge] using hnH))))
    · exact absurd (by rw [confirmOn_of_incompatible newC hb hval]) hne
  · -- the current ballot moves up to newH
    have hcur : ((Update.preparedConfirmed newC newH).apply l).currentBallot = some newH := by
      simp only [Update.apply, hraise, bumpTo_currentBallot]
    refine isNewer_prepare_iff.2 (lex_left ?_)
    simp only [preparePledge, hcur, getD_some]
    cases hb : l.currentBallot with
    | none => exact default_lt (Nat.pos_of_ne_zero (hl'.current newH hcur))
    | some b => exact hlt b (by rw [confirmOn_currentBallot, hb])

theorem newer_acceptCommit {c h : SCPBallot} (hext : l.phase ≠ .externalize)
    (hconfirm : l.phase = .confirm → ∃ h₀, l.highBallot = some h₀ ∧ h₀.value = h.value ∧
      h₀.counter < h.counter)
    (hold : Describes ctx l old) (hst : Describes ctx ((Update.acceptCommit c h).apply l) st) :
    isNewerStatement old st = true := by
  cases hold with
  | prepare hphase =>
    obtain ⟨_, _, _, _, _, _, _, _, rfl⟩ := hst.eq_confirm (by simp [Update.apply, hphase])
    rfl
  | confirm b p c₀ h₀ hphase hb hp hc₀ hh₀ =>
    obtain ⟨b₁, p₁, _, h₁, hb₁, hp₁, _, hh₁, rfl⟩ :=
      hst.eq_confirm (by simp [Update.apply, hphase])
    obtain ⟨h₂, hh₂, _, hlt⟩ := hconfirm hphase
    obtain rfl : h₀ = h₂ := mem_unique hh₀ hh₂
    simp only [Update.apply, hphase, if_neg (show SCPPhase.confirm ≠ .prepare by decide)]
      at hb₁ hp₁ hh₁
    obtain rfl : h = h₁ := some.inj (raiseTo_highBallot hh₁)
    rcases (le_raiseTo_currentBallot (by exact hb) hb₁).lt_or_eq with hup | hsame
    · exact isNewer_confirm_iff.2 (lex_left hup)
    · have hp₂ : p = p₁ := some.inj (hp.symm.trans (by simpa using hp₁))
      exact isNewer_confirm_iff.2 (lex_right hsame (lex_right (by simp [hp₂]) hlt))
  | externalize _ _ hphase => exact absurd hphase hext

theorem newer_confirmCommit {c h : SCPBallot} (hphase : l.phase = .confirm)
    (hold : Describes ctx l old) (hst : Describes ctx ((Update.confirmCommit c h).apply l) st) :
    isNewerStatement old st = true := by
  obtain ⟨_, _, _, _, _, _, _, _, rfl⟩ := hold.eq_confirm hphase
  cases hst with
  | prepare h => simp [Update.apply] at h
  | confirm _ _ _ _ h => simp [Update.apply] at h
  | externalize => rfl

theorem newer_bump {ballot : SCPBallot} (hext : l.phase ≠ .externalize)
    (hpos : 0 < ballot.counter) (hlt : ∀ b, l.currentBallot = some b → b < ballot)
    (hold : Describes ctx l old) (hst : Describes ctx ((Update.bump ballot).apply l) st) :
    isNewerStatement old st = true := by
  cases hold with
  | prepare hphase =>
    obtain rfl := hst.eq_prepare hphase
    refine isNewer_prepare_iff.2 (lex_left ?_)
    cases hb : l.currentBallot with
    | none => simpa [preparePledge, hb, Update.apply] using default_lt hpos
    | some b => simpa [preparePledge, hb, Update.apply] using hlt b hb
  | confirm b _ _ _ hphase hb =>
    obtain ⟨b₁, _, _, _, hb₁, _, _, _, rfl⟩ := hst.eq_confirm hphase
    obtain rfl : ballot = b₁ := some.inj hb₁
    exact isNewer_confirm_iff.2 (lex_left (hlt b hb))
  | externalize _ _ hphase => exact absurd hphase hext

end OwnNewer

variable {k : Core}

/-- After a change whose guard holds, the statement about the new local state is the old one or
supersedes it. -/
theorem newer_of_guard {ctx : Context} {u : Update} {old st : SCPStatement}
    (hguard : Guard ctx k u) (hl : k.loc.Invariants) (hl' : (u.apply k.loc).Invariants)
    (hold : Describes ctx k.loc old) (hst : Describes ctx (u.apply k.loc) st) (hne : old ≠ st) :
    isNewerStatement old st = true := by
  cases u with
  | preparedAccept ballot =>
    obtain ⟨hext, hconfirm, hprime, hcovered, _⟩ := hguard
    exact newer_preparedAccept hconfirm hprime hcovered hext hold hst
  | preparedConfirmed newC newH =>
    obtain ⟨hphase, _, hhigh, _, hnewC⟩ := hguard
    obtain rfl := hold.eq_prepare hphase
    obtain rfl := hst.eq_prepare (by simpa [Update.apply] using hphase)
    exact newer_preparedConfirmed hl hhigh (fun h => (hnewC h).2.1) hl' fun h => hne (by rw [h])
  | acceptCommit c h => exact newer_acceptCommit hguard.1 hguard.2.2.2.2.2.2 hold hst
  | confirmCommit c h => exact newer_confirmCommit hguard.1 hold hst
  | bump ballot => exact newer_bump hguard.1 hguard.2.1 hguard.2.2.1 hold hst

/-! ### The invariant of a node -/

/-- The local state is consistent, and the latest own statement describes it. -/
structure Core.Inv (ctx : Context) (k : Core) : Prop where
  consistent : k.loc.Consistent
  synced : k.loc = {} ∧ k.envs.lookup ctx.nodeID = none ∨
    ∃ st, createStatement ctx k.loc = .ok st ∧ k.envs.lookup ctx.nodeID = some st
  keys : ∀ v st, k.envs.lookup v = some st → st.nodeID = v

theorem invariants_default : ({} : LocalState).Invariants := by
  constructor <;> simp

theorem consistent_default : ({} : LocalState).Consistent := by
  constructor <;> simp

/-- The local state of a node satisfies the asserted invariants. -/
theorem Core.Inv.invariants {ctx : Context} (hk : k.Inv ctx) : k.loc.Invariants := by
  rcases hk.synced with ⟨hloc, _⟩ | ⟨st, hst, _⟩
  · rw [hloc]
    exact invariants_default
  · exact (createStatement_eq_ok.1 hst).1

/-- A change whose guard holds can be published, unless it is one of `Breaks`. -/
theorem publishable_of_guard {ctx : Context} {u : Update} (hctx : ctx.QSetSane)
    (hvalid : ∀ v, ctx.validateValue v = .fullyValidatedValue) (hk : k.Inv ctx)
    (hguard : Guard ctx k u) (hbreaks : ¬ Breaks k.loc u) :
    ∃ st, Publishable ctx k (u.apply k.loc) st := by
  have hl' := apply_invariants hguard hk.invariants hk.consistent hbreaks
  have hcons' := apply_consistent hguard hk.consistent
  obtain ⟨st, hst⟩ := exists_describes ctx hl' hcons'
  refine ⟨st, createStatement_eq_ok.2 ⟨hl', hst⟩, fun hnew => ⟨?_, ?_, ?_⟩⟩
  · exact hst.sane hctx hl' hcons'
  · intro old hold
    rcases hk.synced with ⟨_, hnone⟩ | ⟨st₀, hst₀, hlookup⟩
    · simp [hnone] at hold
    · obtain rfl : st₀ = old := mem_unique hlookup hold
      exact newer_of_guard hguard hk.invariants hl' (createStatement_eq_ok.1 hst₀).2 hst
        fun heq => hnew (by rw [hold, heq])
  · simp [validateValues_eq_of_valid hvalid]

end SpnCore.Scp
