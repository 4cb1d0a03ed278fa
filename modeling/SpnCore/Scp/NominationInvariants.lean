import SpnCore.Scp.Nomination

/-!
# Nominations only grow

The votes and accepted values of a slot grow, and every change is followed by a nomination that
shows it. So each own nomination extends the one before it, and the node never finds a nomination
of its own invalid, however deep they are nested.
-/

namespace SpnCore.Scp.Nomination

open Lib List

variable {ctx : Context} {driver : Driver} {s t : State}

/-! ### Own nominations -/

/-- `st` shows all votes and accepted values of `old`, and more. -/
def Extends (old st : Statement) : Prop :=
  old.nominate.votes ⊆ st.nominate.votes ∧ old.nominate.accepted ⊆ st.nominate.accepted ∧
    ¬ (st.nominate.votes ⊆ old.nominate.votes ∧ st.nominate.accepted ⊆ old.nominate.accepted)

theorem Extends.trans {a b c : Statement} (h₁ : Extends a b) (h₂ : Extends b c) : Extends a c := by
  refine ⟨List.Subset.trans h₁.1 h₂.1, List.Subset.trans h₁.2.1 h₂.2.1, fun h => h₁.2.2 ⟨?_, ?_⟩⟩
  · exact List.Subset.trans h₂.1 h.1
  · exact List.Subset.trans h₂.2.1 h.2

variable {A V W : Finset Value} {emit : NominationM Unit}

theorem sort_subset : V.sort (· ≤ ·) ⊆ W.sort (· ≤ ·) ↔ V ⊆ W := by
  constructor
  · intro h v hv
    exact (Finset.mem_sort _).1 (h ((Finset.mem_sort _).2 hv))
  · intro h v hv
    exact (Finset.mem_sort _).2 (h ((Finset.mem_sort _).1 hv))

theorem sort_pairwise (V : Finset Value) : (V.sort (· ≤ ·)).Pairwise (· < ·) :=
  (Finset.sortedLT_sort V).pairwise

/-- On sorted sets the helper decides inclusion, and whether it is strict. -/
theorem isSubsetHelper_sort :
    ((isSubsetHelper (V.sort (· ≤ ·)) (W.sort (· ≤ ·))).1 = true ↔ V ⊆ W) ∧
      (V ⊆ W → ((isSubsetHelper (V.sort (· ≤ ·)) (W.sort (· ≤ ·))).2 = true ↔ V ≠ W)) := by
  have hincludes : includes (W.sort (· ≤ ·)) (V.sort (· ≤ ·)) = true ↔ V ⊆ W :=
    ⟨fun h => sort_subset.1 (subset_of_includes h),
      fun h => includes_of_subset (sort_pairwise W) (sort_pairwise V) (sort_subset.2 h)⟩
  simp only [isSubsetHelper, Finset.length_sort]
  by_cases hVW : V ⊆ W
  · have hcard := Finset.card_le_card hVW
    have hne : V.card ≠ W.card ↔ V ≠ W :=
      not_congr ⟨fun h => Finset.eq_of_subset_of_card_le hVW h.ge, congrArg Finset.card⟩
    simp [hcard, hincludes.2 hVW, hVW, hne]
  · have hnot : includes (W.sort (· ≤ ·)) (V.sort (· ≤ ·)) = false := by
      rw [← Bool.not_eq_true, hincludes]
      exact hVW
    simp only [hnot, hVW, iff_false, false_implies, and_true]
    split <;> simp

theorem isNewerStatement_create {V' A' : Finset Value} :
    isNewerStatement (createStatement ctx V A).nominate (createStatement ctx V' A').nominate =
        true ↔
      V ⊆ V' ∧ A ⊆ A' ∧ (V ≠ V' ∨ A ≠ A') := by
  obtain ⟨hvotes, hmore⟩ := isSubsetHelper_sort (V := V) (W := V')
  obtain ⟨haccepted, hmore'⟩ := isSubsetHelper_sort (V := A) (W := A')
  simp only [isNewerStatement, createStatement, Bool.and_eq_true, Bool.or_eq_true]
  rw [hvotes, haccepted, and_assoc]
  refine and_congr_right fun hV => and_congr_right fun hA => ?_
  rw [hmore hV, hmore' hA]

theorem extends_create {V' A' : Finset Value} :
    Extends (createStatement ctx V A) (createStatement ctx V' A') ↔
      V ⊆ V' ∧ A ⊆ A' ∧ (V ≠ V' ∨ A ≠ A') := by
  simp only [Extends, createStatement, sort_subset]
  refine and_congr_right fun hV => and_congr_right fun hA => ?_
  rw [not_and_or]
  refine or_congr (not_congr ?_) (not_congr ?_)
  · exact ⟨fun h => Finset.Subset.antisymm hV h, fun h => h ▸ Finset.Subset.refl _⟩
  · exact ⟨fun h => Finset.Subset.antisymm hA h, fun h => h ▸ Finset.Subset.refl _⟩

theorem isIncreasing_of_pairwise {l : List Value} (h : l.Pairwise (· < ·)) :
    isIncreasing l = true := by
  induction l with
  | nil => rfl
  | cons v l ih =>
    cases l with
    | nil => rfl
    | cons w l =>
      obtain ⟨hv, hl⟩ := pairwise_cons.1 h
      simp [isIncreasing, hv w mem_cons_self, ih hl]

/-- A nomination of the local node is sane unless it is empty. -/
theorem isSane_create (h : V.Nonempty) : isSane (createStatement ctx V A) = true := by
  have hcard := Finset.card_pos.2 h
  simp only [isSane, createStatement, Finset.length_sort, Bool.and_eq_true, decide_eq_true_eq]
  exact ⟨⟨by omega, isIncreasing_of_pairwise (sort_pairwise V)⟩,
    isIncreasing_of_pairwise (sort_pairwise A)⟩

/-! ### What always holds -/

/-- The nominations of the local node that were recorded, oldest first. -/
def State.own (ctx : Context) (s : State) : List Statement :=
  s.statementsHistory.filter fun st => decide (st.nodeID = ctx.nodeID)

/-- The nominations handed to `emitEnvelope`, oldest first. -/
def State.emitted (s : State) : List Statement :=
  s.notices.filterMap fun
    | .emitEnvelope st => some st
    | _ => none

/-- What holds at every point of a run. -/
structure Sound (ctx : Context) (driver : Driver) (s : State) : Prop where
  accepted : s.accepted ⊆ s.votes
  candidates : s.candidates ⊆ s.accepted
  noted : ∀ v ∈ s.accepted, ∃ n, (n, v) ∈ s.acceptances
  validated : ∀ n v, (n, v) ∈ s.acceptances → driver.validateValue n v = .fullyValidatedValue
  own : ∀ st ∈ s.own ctx, ∃ V A, A ⊆ V ∧ st = createStatement ctx V A
  increasing : (s.own ctx).Pairwise Extends
  latest : s.latestNominations.lookup ctx.nodeID = (s.own ctx).getLast?
  lastOwn : ∀ last, s.lastEnvelope = some last → ∃ V A, last = createStatement ctx V A
  emitted : s.emitted.Pairwise Extends
  lastEmitted : ∀ st ∈ s.emitted, ∃ last, s.lastEnvelope = some last ∧ (st = last ∨ Extends st last)

/-- The latest own nomination shows the present votes and accepted values. -/
def Synced (ctx : Context) (s : State) : Prop :=
  s.latestNominations.lookup ctx.nodeID = none ∧ s.votes = ∅ ∧ s.accepted = ∅ ∨
    s.latestNominations.lookup ctx.nodeID = some (createStatement ctx s.votes s.accepted)

/-- There is something to show since the latest own nomination. -/
def Grown (ctx : Context) (s : State) : Prop :=
  s.votes.Nonempty ∧ ∀ st, s.latestNominations.lookup ctx.nodeID = some st →
    ∃ V A, st = createStatement ctx V A ∧ V ⊆ s.votes ∧ A ⊆ s.accepted ∧
      (V ≠ s.votes ∨ A ≠ s.accepted)

/-- A method failed, but not because of an own nomination. -/
def Stops (ctx : Context) (driver : Driver) (e : Error) (t : State) : Prop :=
  e ≠ .badState ∧ Sound ctx driver t

/-- The votes and accepted values grew, strictly if `changed`, and nothing was recorded. -/
structure Grows (s t : State) (changed : Bool) : Prop where
  votes : s.votes ⊆ t.votes
  accepted : s.accepted ⊆ t.accepted
  strict : changed = true → s.votes ≠ t.votes ∨ s.accepted ≠ t.accepted
  still : changed = false → t.votes = s.votes ∧ t.accepted = s.accepted
  latest : t.latestNominations = s.latestNominations

theorem Grows.refl (s : State) : Grows s s false :=
  ⟨Finset.Subset.refl _, Finset.Subset.refl _, nofun, fun _ => ⟨rfl, rfl⟩, rfl⟩

theorem Grows.trans {r : State} {b c : Bool} (h₁ : Grows s t b) (h₂ : Grows t r c) :
    Grows s r (b || c) where
  votes := Finset.Subset.trans h₁.votes h₂.votes
  accepted := Finset.Subset.trans h₁.accepted h₂.accepted
  strict := by
    -- growth in one step cannot be taken back in the other
    intro hchanged
    by_contra hsame
    rw [not_or, not_not, not_not] at hsame
    have hvotes : t.votes = s.votes :=
      Finset.Subset.antisymm (hsame.1 ▸ h₂.votes) h₁.votes
    have haccepted : t.accepted = s.accepted :=
      Finset.Subset.antisymm (hsame.2 ▸ h₂.accepted) h₁.accepted
    rcases Bool.or_eq_true_iff.1 hchanged with hb | hc
    · rcases h₁.strict hb with h | h
      · exact h hvotes.symm
      · exact h haccepted.symm
    · rcases h₂.strict hc with h | h
      · exact h (hvotes.trans hsame.1)
      · exact h (haccepted.trans hsame.2)
  still := by
    intro hstill
    rw [Bool.or_eq_false_iff] at hstill
    obtain ⟨hv₁, ha₁⟩ := h₁.still hstill.1
    obtain ⟨hv₂, ha₂⟩ := h₂.still hstill.2
    exact ⟨hv₂.trans hv₁, ha₂.trans ha₁⟩
  latest := h₂.latest.trans h₁.latest

/-- After a change there is something to show. -/
theorem Grows.grown (h : Grows s t true) (hs : Synced ctx s) (hsub : t.accepted ⊆ t.votes) :
    Grown ctx t := by
  constructor
  · rw [Finset.nonempty_iff_ne_empty]
    intro hempty
    have hvotes : s.votes = ∅ := Finset.subset_empty.1 (hempty ▸ h.votes)
    have htaccepted : t.accepted = ∅ := Finset.subset_empty.1 (hempty ▸ hsub)
    have haccepted : s.accepted = ∅ := Finset.subset_empty.1 (htaccepted ▸ h.accepted)
    rcases h.strict rfl with hne | hne
    · exact hne (hvotes.trans hempty.symm)
    · exact hne (haccepted.trans htaccepted.symm)
  · intro st hst
    rw [h.latest] at hst
    rcases hs with ⟨hnone, _⟩ | hsome
    · rw [hnone] at hst
      cases hst
    · exact ⟨s.votes, s.accepted, (Option.mem_unique hsome hst).symm, h.votes, h.accepted,
        h.strict rfl⟩

theorem Grows.synced (h : Grows s t false) (hs : Synced ctx s) : Synced ctx t := by
  obtain ⟨hvotes, haccepted⟩ := h.still rfl
  unfold Synced
  rw [h.latest, hvotes, haccepted]
  exact hs

/-! ### Votes -/

/-- No nomination was recorded or emitted. -/
structure SameRecords (s t : State) : Prop where
  history : t.statementsHistory = s.statementsHistory
  latest : t.latestNominations = s.latestNominations
  last : t.lastEnvelope = s.lastEnvelope
  emitted : t.emitted = s.emitted

theorem emitted_tell {notice : Notice} (h : ∀ st, notice ≠ .emitEnvelope st) (s : State) :
    State.emitted { s with notices := s.notices ++ [notice] } = s.emitted := by
  cases notice with
  | emitEnvelope st => exact absurd rfl (h st)
  | nominatingValue | setupTimer | updatedCandidateValue => simp [State.emitted]

theorem Sound.of_sets (h : Sound ctx driver s) (hrec : SameRecords s t)
    (haccepted : t.accepted ⊆ t.votes) (hcandidates : t.candidates ⊆ t.accepted)
    (hnoted : ∀ v ∈ t.accepted, ∃ n, (n, v) ∈ t.acceptances)
    (hvalidated : ∀ n v, (n, v) ∈ t.acceptances →
      driver.validateValue n v = .fullyValidatedValue) : Sound ctx driver t := by
  have hown : t.own ctx = s.own ctx := by rw [State.own, State.own, hrec.history]
  exact
    { accepted := haccepted
      candidates := hcandidates
      noted := hnoted
      validated := hvalidated
      own := hown ▸ h.own
      increasing := hown ▸ h.increasing
      latest := by rw [hrec.latest, hown]; exact h.latest
      lastOwn := hrec.last ▸ h.lastOwn
      emitted := hrec.emitted ▸ h.emitted
      lastEmitted := by rw [hrec.emitted, hrec.last]; exact h.lastEmitted }

/-- Only votes were added. -/
theorem Sound.of_votes (h : Sound ctx driver s) (hrec : SameRecords s t)
    (hvotes : s.votes ⊆ t.votes) (haccepted : t.accepted = s.accepted)
    (hcandidates : t.candidates = s.candidates) (hnotes : t.acceptances = s.acceptances) :
    Sound ctx driver t := by
  refine h.of_sets hrec ?_ ?_ ?_ ?_
  · rw [haccepted]
    exact Finset.Subset.trans h.accepted hvotes
  · rw [haccepted, hcandidates]
    exact h.candidates
  · rw [haccepted, hnotes]
    exact h.noted
  · rw [hnotes]
    exact h.validated

/-- Only questions were asked. -/
def Asked (s t : State) : Prop := ∃ n, t = { s with questions := n }

theorem Asked.refl (s : State) : Asked s s := ⟨s.questions, rfl⟩

theorem Asked.trans {r : State} (h₁ : Asked s t) (h₂ : Asked t r) : Asked s r := by
  obtain ⟨n, rfl⟩ := h₁
  obtain ⟨m, rfl⟩ := h₂
  exact ⟨m, rfl⟩

theorem Asked.sound (h : Asked s t) (hs : Sound ctx driver s) : Sound ctx driver t := by
  obtain ⟨n, rfl⟩ := h
  exact hs.of_votes ⟨rfl, rfl, rfl, rfl⟩ (Finset.Subset.refl _) rfl rfl rfl

theorem Asked.grows (h : Asked s t) : Grows s t false := by
  obtain ⟨n, rfl⟩ := h
  exact ⟨Finset.Subset.refl _, Finset.Subset.refl _, fun h => absurd h (by decide),
    fun _ => ⟨rfl, rfl⟩, rfl⟩

theorem valueToNominate_spec (value : Value) (s : State) :
    wp (valueToNominate driver value) (fun _ t => Asked s t) (fun _ _ => False) s := by
  unfold valueToNominate ask
  simp only [wp_bind, wp_get, wp_set, wp_pure, wp_ite]
  exact ⟨fun _ => ⟨_, rfl⟩, fun _ => ⟨_, rfl⟩⟩

theorem raises_hashValue (s : State) (value : Value) :
    Raises (· ≠ .badState) (hashValue driver s value) := by
  simp [hashValue]

/-- A vote picked from a nomination is new. -/
theorem pickNewVote_spec (values : List Value) (newVote : Value) (newHash : Nat) (s : State)
    (hnew : newVote ≠ [] → newVote ∉ s.votes) :
    wp (pickNewVote driver newVote newHash values)
      (fun v t => Asked s t ∧ (v ≠ [] → v ∉ s.votes))
      (fun e t => e ≠ .badState ∧ Asked s t) s := by
  induction values generalizing newVote newHash s with
  | nil => exact wp_pure.2 ⟨.refl s, hnew⟩
  | cons value values ih =>
    simp only [pickNewVote, wp_bind, wp_get, wp_ite, wp_runExcept]
    refine wp_total (valueToNominate_spec value s) (fun candidate t ht => ?_)
    have hvotes : t.votes = s.votes := (ht.grows.still rfl).1
    -- the loop goes on from t with either vote
    have hrest : ∀ v n, (v ≠ [] → v ∉ s.votes) → wp (pickNewVote driver v n values)
        (fun v t => Asked s t ∧ (v ≠ [] → v ∉ s.votes))
        (fun e t => e ≠ .badState ∧ Asked s t) t := fun v n hv =>
      wp_mono (ih v n t (hvotes ▸ hv)) (fun _ r hr => ⟨ht.trans hr.1, hvotes ▸ hr.2⟩)
        (fun _ r hr => ⟨hr.1, ht.trans hr.2⟩)
    refine ⟨fun hcand => ⟨fun curHash _ => ⟨fun _ => hrest _ _ ?_, fun _ => hrest _ _ hnew⟩,
      fun e he => ?_⟩, fun _ => hrest _ _ hnew⟩
    · exact fun _ => hvotes ▸ hcand.2
    · exact ⟨raises_hashValue t candidate e he, ht⟩

theorem getNewValueFromNomination_spec (nom : SCPNomination) (s : State) :
    wp (getNewValueFromNomination driver nom)
      (fun v t => Asked s t ∧ (v ≠ [] → v ∉ s.votes))
      (fun e t => e ≠ .badState ∧ Asked s t) s :=
  pickNewVote_spec _ [] 0 s fun h => absurd rfl h

/-- Voting for a new value. -/
theorem grows_of_vote {v : Value} (hrec : t.latestNominations = s.latestNominations)
    (hvotes : t.votes = insert v s.votes) (haccepted : t.accepted = s.accepted)
    (hnew : v ∉ s.votes) : Grows s t true where
  votes := by
    rw [hvotes]
    exact Finset.subset_insert v s.votes
  accepted := haccepted ▸ Finset.Subset.refl _
  strict := by
    intro _
    refine .inl fun hsame => hnew ?_
    rw [hsame, hvotes]
    exact Finset.mem_insert_self v s.votes
  still := fun h => absurd h (by decide)
  latest := hrec

theorem acceptOrVary_spec (hs : Sound ctx driver s) {v : Value} (hv : v ∉ s.accepted) :
    wp (acceptOrVary driver v) (fun b t => Sound ctx driver t ∧ Grows s t b)
      (Stops ctx driver) s := by
  unfold acceptOrVary ask
  simp only [wp_bind, wp_get, wp_set, wp_pure, wp_ite, wp_modify]
  refine ⟨fun hvalid => ⟨?_, ?_⟩, fun _ => ⟨fun hnew => ⟨?_, ?_⟩, fun _ => ⟨?_, ?_⟩⟩⟩
  · refine hs.of_sets ⟨rfl, rfl, rfl, rfl⟩ ?_ ?_ ?_ ?_
    · exact Finset.insert_subset_insert v hs.accepted
    · exact Finset.Subset.trans hs.candidates (Finset.subset_insert v s.accepted)
    · intro w hw
      rcases Finset.mem_insert.1 hw with rfl | hw
      · exact ⟨s.questions, mem_append_right _ (mem_singleton_self _)⟩
      · obtain ⟨n, hn⟩ := hs.noted w hw
        exact ⟨n, mem_append_left _ hn⟩
    · intro n w hw
      rcases mem_append.1 hw with hw | hw
      · exact hs.validated n w hw
      · obtain ⟨rfl, rfl⟩ := Prod.mk.inj (mem_singleton.1 hw)
        exact hvalid
  · refine ⟨Finset.subset_insert v s.votes, Finset.subset_insert v s.accepted, fun _ => .inr ?_,
      fun h => absurd h (by decide), rfl⟩
    exact fun hsame => hv (hsame ▸ Finset.mem_insert_self v s.accepted)
  · exact hs.of_votes ⟨rfl, rfl, rfl, rfl⟩ (Finset.subset_insert _ s.votes) rfl rfl rfl
  · exact grows_of_vote rfl rfl rfl hnew.2
  · exact Asked.sound ⟨_, rfl⟩ hs
  · exact Asked.grows ⟨_, rfl⟩

theorem promoteVotes_spec (vs : List Value) (s : State) (hs : Sound ctx driver s) :
    wp (promoteVotes ctx driver vs) (fun b t => Sound ctx driver t ∧ Grows s t b)
      (Stops ctx driver) s := by
  induction vs generalizing s with
  | nil => exact wp_pure.2 ⟨hs, .refl s⟩
  | cons v vs ih =>
    simp only [promoteVotes, wp_bind, wp_get, wp_ite, wp_pure]
    refine ⟨fun hv => ?_, fun _ => ?_⟩
    · refine wp_imp (acceptOrVary_spec hs hv.1) fun b t ht => ?_
      exact wp_imp (ih t ht.1) (fun c r hr => ⟨hr.1, ht.2.trans hr.2⟩)
    · exact wp_imp (ih s hs) (fun c r hr => ⟨hr.1, (Grows.refl s).trans hr.2⟩)

theorem promoteAccepted_spec (hs : Sound ctx driver s) :
    wp (promoteAccepted ctx) (fun _ t => Sound ctx driver t ∧ Grows s t false)
      (Stops ctx driver) s := by
  unfold promoteAccepted
  simp only [wp_bind, wp_get, wp_set, wp_pure]
  refine ⟨hs.of_sets ⟨rfl, rfl, rfl, rfl⟩ hs.accepted ?_ hs.noted hs.validated,
    ⟨Finset.Subset.refl _, Finset.Subset.refl _, fun h => absurd h (by decide),
      fun _ => ⟨rfl, rfl⟩, rfl⟩⟩
  exact Finset.union_subset hs.candidates (Finset.filter_subset _ _)

theorem followLeader_spec (hs : Sound ctx driver s) (st : Statement) :
    wp (followLeader driver st) (fun b t => Sound ctx driver t ∧ Grows s t b)
      (Stops ctx driver) s := by
  unfold followLeader
  simp only [wp_bind, wp_get, wp_ite, wp_pure, wp_modify, tell]
  refine ⟨fun _ => ?_, fun _ => ⟨hs, .refl s⟩⟩
  refine wp_mono (getNewValueFromNomination_spec st.nominate s) (fun v t ht => ⟨fun hne => ?_,
    fun _ => ⟨ht.1.sound hs, ht.1.grows⟩⟩) (fun e t he => ⟨he.1, he.2.sound hs⟩)
  obtain ⟨⟨n, rfl⟩, hnew⟩ := ht
  refine ⟨hs.of_votes ⟨rfl, rfl, rfl, ?_⟩ (Finset.subset_insert v s.votes) rfl rfl rfl,
    grows_of_vote rfl rfl rfl (hnew hne)⟩
  exact emitted_tell (fun st => by simp) _

/-! ### Own nominations, nested -/

/-- The votes are shown in the end. -/
abbrev Settles {α : Type} (ctx : Context) (driver : Driver) (x : NominationM α) (s : State) :
    Prop :=
  wp x (fun _ t => Sound ctx driver t ∧ Synced ctx t) (Stops ctx driver) s

/-- What is assumed of `emitNomination`: it shows what there is to show. -/
def EmitSpec (ctx : Context) (driver : Driver) (emit : NominationM Unit) : Prop :=
  ∀ s, Sound ctx driver s → Grown ctx s → Settles ctx driver emit s

/-- What is assumed of `processEnvelope` on the own nomination that shows the present votes. -/
def ProcessSpec (ctx : Context) (driver : Driver)
    (process : Statement → NominationM EnvelopeState) : Prop :=
  ∀ s, Sound ctx driver s → Grown ctx s →
    wp (process (createStatement ctx s.votes s.accepted))
      (fun res t => res = .valid ∧ Sound ctx driver t ∧ Synced ctx t) (Stops ctx driver) s

/-- The ballot protocol does not touch votes. -/
theorem onBallot_spec {α : Type} (x : SlotM α) (hs : Sound ctx driver s) (hsync : Synced ctx s) :
    Settles ctx driver (onBallot x) s := by
  have hballot : ∀ b, Sound ctx driver (s.withBallot b) := fun b =>
    hs.of_votes ⟨rfl, rfl, rfl, rfl⟩ (Finset.Subset.refl _) rfl rfl rfl
  unfold Settles wp onBallot
  cases x s.ballot with
  | ok a b => exact ⟨hballot b, hsync⟩
  | error e b => exact ⟨by simp, hballot b⟩

theorem startBallot_spec (hs : Sound ctx driver s) (hsync : Synced ctx s) :
    Settles ctx driver (startBallot ctx driver) s := by
  unfold startBallot ask
  simp only [wp_bind, wp_get, wp_set, wp_pure, wp_modify, tell]
  refine onBallot_spec _ (hs.of_votes ⟨rfl, rfl, rfl, ?_⟩ (Finset.Subset.refl _) rfl rfl rfl) hsync
  exact emitted_tell (fun st => by simp) _

/-- Reacting to a recorded nomination. -/
theorem react_spec (hemit : EmitSpec ctx driver emit) (st : Statement) (hs : Sound ctx driver s)
    (hsync : Synced ctx s) :
    Settles ctx driver (do
        let accepted ← promoteVotes ctx driver st.nominate.votes
        let newCandidates ← promoteAccepted ctx
        let voted ← followLeader driver st
        onlyIf (accepted || voted) emit
        onlyIf newCandidates (startBallot ctx driver) : NominationM Unit) s := by
  simp only [wp_bind]
  refine wp_imp (promoteVotes_spec _ s hs) fun accepted s₁ h₁ => ?_
  refine wp_imp (promoteAccepted_spec h₁.1) fun newCandidates s₂ h₂ => ?_
  refine wp_imp (followLeader_spec h₂.1 st) fun voted s₃ h₃ => ?_
  have hgrows : Grows s s₃ (accepted || voted) := by
    have := (h₁.2.trans h₂.2).trans h₃.2
    rwa [Bool.or_false] at this
  have hshown : Settles ctx driver (onlyIf (accepted || voted) emit) s₃ := by
    refine wp_onlyIf.2 ⟨fun hchanged => ?_, fun hsame => ?_⟩
    · rw [hchanged] at hgrows
      exact hemit s₃ h₃.1 (hgrows.grown hsync h₃.1.accepted)
    · rw [hsame] at hgrows
      exact ⟨h₃.1, hgrows.synced hsync⟩
  refine wp_imp hshown (fun _ s₄ h₄ => ?_)
  rw [wp_onlyIf]
  exact ⟨fun _ => startBallot_spec h₄.1 h₄.2, fun _ => h₄⟩

/-- The state after `recordEnvelope`. -/
def State.record (s : State) (st : Statement) : State :=
  { s with
    latestNominations := s.latestNominations.insert st.nodeID st
    statementsHistory := s.statementsHistory ++ [st] }

/-- Recording the nomination of a peer. -/
theorem Sound.record_peer (hs : Sound ctx driver s) {st : Statement}
    (hpeer : st.nodeID ≠ ctx.nodeID) : Sound ctx driver (s.record st) := by
  have hown : (s.record st).own ctx = s.own ctx := by
    simp [State.record, State.own, hpeer]
  exact
    { hs with
      own := hown ▸ hs.own
      increasing := hown ▸ hs.increasing
      latest := by
        rw [hown, State.record, FMap.lookup_insert_of_ne hpeer.symm]
        exact hs.latest }

/-- An own nomination that shows something new extends all that were recorded before. -/
theorem Grown.extends (hg : Grown ctx s) (hs : Sound ctx driver s) :
    ∀ old ∈ s.own ctx, Extends old (createStatement ctx s.votes s.accepted) := by
  intro old hold
  have hne : s.own ctx ≠ [] := ne_nil_of_mem hold
  have hlast := List.getLast?_eq_some_getLast hne
  obtain ⟨V, A, heq, hV, hA, hgrown⟩ := hg.2 _ (hs.latest.trans hlast)
  have hextends : Extends ((s.own ctx).getLast hne) (createStatement ctx s.votes s.accepted) := by
    rw [heq]
    exact extends_create.2 ⟨hV, hA, hgrown⟩
  rcases mem_append.1 (dropLast_append_getLast hne ▸ hold) with hmem | hmem
  · have hpair := hs.increasing
    rw [← dropLast_append_getLast hne] at hpair
    exact ((pairwise_append.1 hpair).2.2 old hmem _ (mem_singleton_self _)).trans hextends
  · rw [mem_singleton.1 hmem]
    exact hextends

/-- Recording the own nomination that shows the present votes. -/
theorem Sound.record_own (hs : Sound ctx driver s) (hg : Grown ctx s) :
    Sound ctx driver (s.record (createStatement ctx s.votes s.accepted)) := by
  have hown : (s.record (createStatement ctx s.votes s.accepted)).own ctx =
      s.own ctx ++ [createStatement ctx s.votes s.accepted] := by
    simp [State.record, State.own, createStatement]
  exact
    { hs with
      own := by
        intro st hst
        rw [hown] at hst
        rcases mem_append.1 hst with hst | hst
        · exact hs.own st hst
        · exact ⟨s.votes, s.accepted, hs.accepted, mem_singleton.1 hst⟩
      increasing := by
        rw [hown]
        refine pairwise_append.2 ⟨hs.increasing, pairwise_singleton _ _, ?_⟩
        intro old hold st hst
        rw [mem_singleton.1 hst]
        exact hg.extends hs old hold
      latest := by
        rw [hown, getLast?_concat]
        exact FMap.lookup_insert_self _ _ _ }

section Emit

variable {emit : NominationM Unit} (hemit : EmitSpec ctx driver emit)

include hemit

theorem processPeer_spec {st : Statement} (hs : Sound ctx driver s) (hsync : Synced ctx s)
    (hpeer : st.nodeID ≠ ctx.nodeID) :
    Settles ctx driver (processEnvelope ctx driver emit st) s := by
  have hsync' : Synced ctx (s.record st) := by
    rw [Synced, State.record, FMap.lookup_insert_of_ne hpeer.symm]
    exact hsync
  have hreact := react_spec hemit st (hs.record_peer hpeer) hsync'
  simp only [wp_bind] at hreact
  unfold processEnvelope recordEnvelope
  simp only [wp_bind, wp_get, wp_ite, wp_pure, wp_modify]
  exact ⟨fun _ => ⟨hs, hsync⟩, fun _ => ⟨fun _ => ⟨hs, hsync⟩, fun _ =>
    ⟨fun _ => hreact, fun _ => ⟨hs.record_peer hpeer, hsync'⟩⟩⟩⟩

theorem processOwn_spec : ProcessSpec ctx driver (processEnvelope ctx driver emit) := by
  intro s hs hg
  have hsync' : Synced ctx (s.record (createStatement ctx s.votes s.accepted)) :=
    .inr (FMap.lookup_insert_self _ _ _)
  -- the nomination is newer than the latest own one, and not empty
  have hnewer : isNewerThanLatest s (createStatement ctx s.votes s.accepted) = true := by
    unfold isNewerThanLatest
    rw [show (createStatement ctx s.votes s.accepted).nodeID = ctx.nodeID from rfl]
    cases hold : s.latestNominations.lookup ctx.nodeID with
    | none => rfl
    | some old =>
      obtain ⟨V, A, rfl, hV, hA, hne⟩ := hg.2 old hold
      exact isNewerStatement_create.2 ⟨hV, hA, hne⟩
  have hsane : isSane (createStatement ctx s.votes s.accepted) = true := isSane_create hg.1
  have hreact := react_spec hemit (createStatement ctx s.votes s.accepted) (hs.record_own hg) hsync'
  simp only [wp_bind] at hreact
  unfold processEnvelope recordEnvelope
  simp only [wp_bind, wp_get, wp_ite, wp_pure, wp_modify, hnewer, hsane, true_and]
  exact ⟨fun h => absurd h (by decide), fun _ => ⟨fun h => absurd h (by decide), fun _ =>
    ⟨fun _ => hreact, fun _ => ⟨hs.record_own hg, hsync'⟩⟩⟩⟩

end Emit

theorem emitted_emit {st : Statement} {s : State} :
    State.emitted { s with notices := s.notices ++ [.emitEnvelope st] } = s.emitted ++ [st] := by
  simp [State.emitted]

/-- Handing over an own nomination that supersedes the last one. -/
theorem Sound.hand_over (hs : Sound ctx driver s)
    (hnewer : s.lastEnvelope.all (fun last =>
      isNewerStatement last.nominate (createStatement ctx V A).nominate) = true)
    (hlast : t.lastEnvelope = some (createStatement ctx V A))
    (hemitted : t.emitted = s.emitted ∨ t.emitted = s.emitted ++ [createStatement ctx V A])
    (hsets : t.votes = s.votes ∧ t.accepted = s.accepted ∧ t.candidates = s.candidates ∧
      t.acceptances = s.acceptances)
    (hrecords : t.statementsHistory = s.statementsHistory ∧
      t.latestNominations = s.latestNominations) :
    Sound ctx driver t := by
  obtain ⟨hvotes, haccepted, hcandidates, hnotes⟩ := hsets
  have hown : t.own ctx = s.own ctx := by rw [State.own, State.own, hrecords.1]
  -- what was handed over before is superseded
  have hextends : ∀ st ∈ s.emitted, Extends st (createStatement ctx V A) := by
    intro st hst
    obtain ⟨last, hold, hst⟩ := hs.lastEmitted st hst
    obtain ⟨V₀, A₀, rfl⟩ := hs.lastOwn last hold
    rw [hold] at hnewer
    have hext : Extends (createStatement ctx V₀ A₀) (createStatement ctx V A) :=
      extends_create.2 (isNewerStatement_create.1 hnewer)
    rcases hst with rfl | hst
    · exact hext
    · exact hst.trans hext
  exact
    { accepted := by rw [haccepted, hvotes]; exact hs.accepted
      candidates := by rw [hcandidates, haccepted]; exact hs.candidates
      noted := by rw [haccepted, hnotes]; exact hs.noted
      validated := by rw [hnotes]; exact hs.validated
      own := hown ▸ hs.own
      increasing := hown ▸ hs.increasing
      latest := by rw [hrecords.2, hown]; exact hs.latest
      lastOwn := by
        intro last hl
        exact ⟨V, A, (Option.mem_unique hlast hl).symm⟩
      emitted := by
        rcases hemitted with heq | heq
        · exact heq ▸ hs.emitted
        · rw [heq]
          refine pairwise_append.2 ⟨hs.emitted, pairwise_singleton _ _, ?_⟩
          intro old hold st hst
          rw [mem_singleton.1 hst]
          exact hextends old hold
      lastEmitted := by
        intro st hst
        refine ⟨_, hlast, ?_⟩
        rcases hemitted with heq | heq
        · exact .inr (hextends st (heq ▸ hst))
        · rcases mem_append.1 (heq ▸ hst) with hst | hst
          · exact .inr (hextends st hst)
          · exact .inl (mem_singleton.1 hst) }

theorem emitNomination_spec {process : Statement → NominationM EnvelopeState}
    (hprocess : ProcessSpec ctx driver process) :
    EmitSpec ctx driver (emitNomination ctx process) := by
  intro s hs hg
  unfold emitNomination
  simp only [wp_bind, wp_get, wp_ite]
  refine wp_imp (hprocess s hs hg) fun res t ht => ?_
  obtain ⟨rfl, ht, hsync⟩ := ht
  refine ⟨fun _ => ⟨fun hnewer => ?_, fun _ => wp_pure.2 ⟨ht, hsync⟩⟩, fun h => absurd rfl h⟩
  simp only [wp_set, wp_onlyIf, tell, wp_modify]
  refine ⟨fun _ => ⟨?_, hsync⟩, fun _ => ⟨?_, hsync⟩⟩
  · exact ht.hand_over hnewer rfl (.inr emitted_emit) ⟨rfl, rfl, rfl, rfl⟩ ⟨rfl, rfl⟩
  · exact ht.hand_over hnewer rfl (.inl rfl) ⟨rfl, rfl, rfl, rfl⟩ ⟨rfl, rfl⟩

/-- At every depth, own nominations are found valid. -/
theorem processNested_spec (ctx : Context) (driver : Driver) (depth : Nat) :
    ProcessSpec ctx driver (processNested ctx driver depth) := by
  induction depth with
  | zero =>
    intro s hs _
    exact wp_throw.2 ⟨by decide, hs⟩
  | succ depth ih => exact processOwn_spec (emitNomination_spec ih)

/-! ### Calls -/

theorem raises_getNodePriority (s : State) (qset : SCPQuorumSet) (nodeID : NodeID) :
    Raises (· ≠ .badState) (getNodePriority ctx driver s qset nodeID) := by
  simp [getNodePriority, hashNode]

theorem raises_selectLeaders (s : State) (qset : SCPQuorumSet) (nodes : List NodeID) (top : Nat)
    (leaders : Finset NodeID) :
    Raises (· ≠ .badState) (selectLeaders ctx driver s qset top leaders nodes) := by
  induction nodes generalizing top leaders with
  | nil => exact raises_pure
  | cons cur nodes ih => exact raises_bind.2 ⟨raises_getNodePriority s qset cur, fun _ _ => ih _ _⟩

theorem updateRoundLeaders_spec (hs : Sound ctx driver s) (hsync : Synced ctx s) :
    Settles ctx driver (updateRoundLeaders ctx driver) s := by
  unfold updateRoundLeaders
  simp only [wp_bind, wp_get, wp_runExcept, wp_modify]
  refine ⟨fun top _ => ⟨fun leaders _ => ⟨?_, hsync⟩, fun e he => ⟨?_, hs⟩⟩, fun e he => ⟨?_, hs⟩⟩
  · exact hs.of_votes ⟨rfl, rfl, rfl, rfl⟩ (Finset.Subset.refl _) rfl rfl rfl
  · exact raises_selectLeaders s _ _ _ _ e he
  · exact raises_getNodePriority s _ _ e he

theorem followLeaders_spec (leaders : List NodeID) (updated : Bool) (value : Value) (s s₀ : State)
    (hs : Sound ctx driver s) (hgrows : Grows s₀ s updated) :
    wp (followLeaders driver updated value leaders)
      (fun r t => Sound ctx driver t ∧ Grows s₀ t r.1) (Stops ctx driver) s := by
  induction leaders generalizing updated value s with
  | nil => exact wp_pure.2 ⟨hs, hgrows⟩
  | cons leader leaders ih =>
    simp only [followLeaders, wp_bind, wp_get]
    split
    · simp only [wp_bind, wp_ite, wp_modify]
      refine wp_mono (getNewValueFromNomination_spec _ s)
        (fun v t ht => ⟨fun hne => ?_, fun _ => ?_⟩) (fun e t he => ⟨he.1, he.2.sound hs⟩)
      · obtain ⟨⟨n, rfl⟩, hnew⟩ := ht
        refine ih true v _ (hs.of_votes ⟨rfl, rfl, rfl, rfl⟩ (Finset.subset_insert v s.votes)
          rfl rfl rfl) ?_
        have hvote : Grows s { s with questions := n, votes := insert v s.votes } true :=
          grows_of_vote rfl rfl rfl (hnew hne)
        have := hgrows.trans hvote
        rwa [Bool.or_true] at this
      · have := hgrows.trans ht.1.grows
        rw [Bool.or_false] at this
        exact ih updated v t (ht.1.sound hs) this
    · exact ih updated value s hs hgrows

theorem chooseVotes_spec (hs : Sound ctx driver s) (value : Value) :
    wp (chooseVotes ctx driver value) (fun r t => Sound ctx driver t ∧ Grows s t r.1)
      (Stops ctx driver) s := by
  unfold chooseVotes
  simp only [wp_bind, wp_get, wp_ite, wp_set, wp_pure]
  refine ⟨fun _ => ⟨?_, ?_⟩, fun _ => followLeaders_spec _ false [] s s hs (.refl s)⟩
  · exact hs.of_votes ⟨rfl, rfl, rfl, rfl⟩ (Finset.subset_insert value s.votes) rfl rfl rfl
  · by_cases hv : value ∈ s.votes
    · have hsame : insert value s.votes = s.votes := Finset.insert_eq_self.2 hv
      simp only [hv, hsame, not_true_eq_false, decide_false]
      exact .refl s
    · simp only [hv, not_false_eq_true, decide_true]
      exact grows_of_vote rfl rfl rfl hv

theorem nominate_spec (hemit : EmitSpec ctx driver emit) (hs : Sound ctx driver s)
    (hsync : Synced ctx s) (value previousValue : Value) (timedout : Bool) :
    Settles ctx driver (nominate ctx driver emit value previousValue timedout) s := by
  unfold nominate
  simp only [wp_bind, wp_get, wp_ite, wp_pure, wp_set, tell, wp_modify]
  refine ⟨fun _ => ⟨hs, hsync⟩, fun _ => ?_⟩
  refine wp_imp (updateRoundLeaders_spec (hs.of_votes ⟨rfl, rfl, rfl, rfl⟩ (Finset.Subset.refl _)
    rfl rfl rfl) hsync) (fun _ s₁ h₁ => ?_)
  refine wp_imp (chooseVotes_spec h₁.1 value) fun r s₂ h₂ => ?_
  obtain ⟨updated, nominatingValue⟩ := r
  -- the notices do not show anything
  have hnotices : ∀ notices, State.emitted { s₂ with notices := notices } = s₂.emitted →
      Sound ctx driver { s₂ with notices := notices } := fun notices hemitted =>
    h₂.1.of_votes ⟨rfl, rfl, rfl, hemitted⟩ (Finset.Subset.refl _) rfl rfl rfl
  have hemitted : ∀ n, State.emitted { s₂ with
      notices := s₂.notices ++ [.nominatingValue nominatingValue] ++ [.setupTimer n] } =
      s₂.emitted := fun n => by simp [State.emitted]
  rw [wp_onlyIf]
  refine ⟨fun hchanged => ?_, fun hsame => ⟨hnotices _ (hemitted _), ?_⟩⟩
  · have hgrows : Grows s₁ s₂ true := hchanged ▸ h₂.2
    exact hemit _ (hnotices _ (hemitted _)) (hgrows.grown h₁.2 h₂.1.accepted)
  · have hgrows : Grows s₁ s₂ false := hsame ▸ h₂.2
    exact hgrows.synced h₁.2

theorem run_spec (depth : Nat) (call : Call) (hs : Sound ctx driver s) (hsync : Synced ctx s) :
    Settles ctx driver (call.run ctx driver depth) s := by
  have hemit := emitNomination_spec (processNested_spec ctx driver depth)
  cases call with
  | recvSCPEnvelope st =>
    simp only [Call.run, wp_ite, wp_bind, wp_pure]
    exact ⟨fun _ => ⟨hs, hsync⟩, fun hpeer => processPeer_spec hemit hs hsync hpeer⟩
  | nominate value previousValue timedout =>
    simp only [Call.run, wp_bind, wp_pure]
    exact nominate_spec hemit hs hsync value previousValue timedout
  | stopNomination =>
    simp only [Call.run, stopNomination, wp_modify]
    exact ⟨hs.of_votes ⟨rfl, rfl, rfl, rfl⟩ (Finset.Subset.refl _) rfl rfl rfl, hsync⟩
  | ballot call => exact onBallot_spec _ hs hsync

theorem init_sound (ctx : Context) (driver : Driver) : Sound ctx driver (State.init ctx) where
  accepted := Finset.Subset.refl _
  candidates := Finset.Subset.refl _
  noted := by simp [State.init]
  validated := by simp [State.init]
  own := by simp [State.init, State.own]
  increasing := List.Pairwise.nil
  latest := rfl
  lastOwn := by simp [State.init]
  emitted := List.Pairwise.nil
  lastEmitted := by simp [State.init, State.emitted]

theorem runCalls_spec (depth : Nat) (calls : List ((Value → ValidationLevel) × Call))
    (hs : Sound ctx driver s) (hsync : Synced ctx s) :
    wp (runCalls ctx driver depth calls) (fun _ => Sound ctx driver)
      (Stops ctx driver) s := by
  induction calls generalizing s with
  | nil => exact wp_pure.2 hs
  | cons step calls ih =>
    obtain ⟨answers, call⟩ := step
    simp only [runCalls, wp_bind]
    -- the answers about ballots are not part of what holds
    have hanswers : ∀ t,
        Sound { ctx with validateValue := answers } driver t ↔ Sound ctx driver t := fun t =>
      ⟨fun h => ⟨h.1, h.2, h.3, h.4, h.5, h.6, h.7, h.8, h.9, h.10⟩,
        fun h => ⟨h.1, h.2, h.3, h.4, h.5, h.6, h.7, h.8, h.9, h.10⟩⟩
    refine wp_mono (run_spec depth call ((hanswers s).2 hs) hsync)
      (fun _ t ht => ih ((hanswers t).1 ht.1) ht.2) (fun e t ht => ?_)
    exact ⟨ht.1, (hanswers t).1 ht.2⟩

/-- What is shown of a run of calls, at its end or where it failed. -/
structure Consistent (ctx : Context) (driver : Driver) (t : State) : Prop where
  accepted : t.accepted ⊆ t.votes
  candidates : t.candidates ⊆ t.accepted
  validated : ∀ v ∈ t.accepted, ∃ n, (n, v) ∈ t.acceptances ∧
    driver.validateValue n v = .fullyValidatedValue
  shown : ∀ st ∈ t.own ctx, st.nominate.accepted ⊆ st.nominate.votes
  increasing : (t.own ctx).Pairwise Extends
  emitted : t.emitted.Pairwise Extends

theorem Sound.consistent (h : Sound ctx driver t) : Consistent ctx driver t where
  __ := h
  validated := by
    intro v hv
    obtain ⟨n, hn⟩ := h.noted v hv
    exact ⟨n, hn, h.validated n v hn⟩
  shown := by
    intro st hst
    obtain ⟨V, A, hsub, rfl⟩ := h.own st hst
    exact sort_subset.2 hsub

/-- Whatever nominations arrive and whatever the driver answers, accepted values are votes that
were fully valid when they were accepted, candidates are accepted, and each own nomination
extends the one before it. So no run fails because of an own nomination. -/
theorem runCalls_consistent (ctx : Context) (driver : Driver) (depth : Nat)
    (calls : List ((Value → ValidationLevel) × Call)) :
    wp (runCalls ctx driver depth calls) (fun _ t => Consistent ctx driver t)
      (fun e t => e ≠ .badState ∧ Consistent ctx driver t) (State.init ctx) :=
  wp_mono (runCalls_spec depth calls (init_sound ctx driver) (.inl ⟨rfl, rfl, rfl⟩))
    (fun _ _ h => h.consistent) (fun _ _ h => ⟨h.1, h.2.consistent⟩)

end SpnCore.Scp.Nomination
