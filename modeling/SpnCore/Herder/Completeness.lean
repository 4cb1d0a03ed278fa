import SpnCore.Herder.PendingEnvelopes

/-!
# Ready envelopes are complete

An envelope is made ready only when the quorum set and the transaction sets of
`getStatementValues` are cached. These are the sets the protocol asks the driver about, with one
exception: a `PREPARE` statement is also validated for its prepared ballot, whose value may name
a transaction set that was never fetched.
-/

namespace SpnCore.Herder

open Lib Scp List Option

variable {τ : Type} {e : SCPEnvelope}

/-! ### What is fetched -/

/-- The data that `PendingEnvelopes` waits for is in the caches. -/
structure Fetched (unmarshal : Value → Option StellarValue) (r : Readied τ) : Prop where
  quorumSet : (r.qsetCache.lookup r.envelope.statement.getCompanionQuorumSetHash).isSome
  txSets : ∀ v ∈ r.envelope.statement.getStatementValues,
    ∃ b, unmarshal v = some b ∧ (r.txSetCache.lookup b.txSetHash).isSome

/-- Every envelope that was made ready had its data. -/
def AllFetched (env : Surroundings τ) (s : PendingEnvelopes τ) : Prop :=
  ∀ r ∈ s.readied, Fetched env.unmarshal r

/-- A list that is decoded as a whole is decoded value by value. -/
theorem mem_of_mapM {unmarshal : Value → Option StellarValue} {vs : List Value}
    {bs : List StellarValue} (h : vs.mapM unmarshal = some bs) :
    ∀ v ∈ vs, ∃ b ∈ bs, unmarshal v = some b := by
  induction vs generalizing bs with
  | nil => simp
  | cons w vs ih =>
    simp only [mapM_cons, Option.bind_eq_bind, Option.bind_eq_some_iff, Option.pure_def,
      Option.some.injEq] at h
    obtain ⟨c, hc, cs, hcs, rfl⟩ := h
    intro v hv
    rcases mem_cons.1 hv with rfl | hv
    · exact ⟨c, mem_cons_self, hc⟩
    · obtain ⟨b, hb, hunmarshal⟩ := ih hcs v hv
      exact ⟨b, mem_cons_of_mem _ hb, hunmarshal⟩

/-- When the hashes of an envelope are known, each of its values is decoded and gives one. -/
theorem getTxSetHashes_mem {unmarshal : Value → Option StellarValue} {e : SCPEnvelope}
    {hashes : List Hash} (h : getTxSetHashes unmarshal e = some hashes) :
    ∀ v ∈ e.statement.getStatementValues, ∃ b, unmarshal v = some b ∧ b.txSetHash ∈ hashes := by
  obtain ⟨bs, hbs, rfl⟩ := map_eq_some_iff.1 h
  intro v hv
  obtain ⟨b, hb, hunmarshal⟩ := mem_of_mapM hbs v hv
  exact ⟨b, hunmarshal, mem_map_of_mem hb⟩

/-- `isFullyFetched` finds the data of the envelope. -/
theorem fetched_of_isFullyFetched {unmarshal : Value → Option StellarValue} {s : PendingEnvelopes τ}
    {hashes : List Hash} (hhashes : getTxSetHashes unmarshal e = some hashes)
    (h : s.isFullyFetched e hashes = true) : Fetched unmarshal ⟨e, s.qsetCache, s.txSetCache⟩ := by
  obtain ⟨hqset, htxsets⟩ := Bool.and_eq_true_iff.1 h
  refine ⟨hqset, fun v hv => ?_⟩
  obtain ⟨b, hb, hmem⟩ := getTxSetHashes_mem hhashes v hv
  exact ⟨b, hb, all_eq_true.1 htxsets _ hmem⟩

/-! ### What does not make an envelope ready -/

namespace PendingEnvelopes

variable (s : PendingEnvelopes τ) (e : SCPEnvelope) (hashes : List Hash) (slotIndex : Nat)

theorem insertFetching_readied : (s.insertFetching e hashes).readied = s.readied := by
  unfold insertFetching
  split <;> rfl

theorem discardSCPEnvelope_readied (unmarshal : Value → Option StellarValue) :
    (s.discardSCPEnvelope unmarshal e).readied = s.readied := by
  unfold discardSCPEnvelope
  split <;> rfl

theorem discardAll_readied (unmarshal : Value → Option StellarValue)
    (es : List SCPEnvelope) :
    (es.foldl (fun s e => s.discardSCPEnvelope unmarshal e) s).readied = s.readied := by
  induction es generalizing s with
  | nil => rfl
  | cons e es ih => rw [foldl_cons, ih, discardSCPEnvelope_readied]

theorem pop_readied : (s.pop slotIndex).readied = s.readied := by
  unfold pop
  split <;> rfl

theorem slotClosed_readied : (s.slotClosed slotIndex).readied = s.readied := by
  unfold slotClosed
  split <;> rfl

end PendingEnvelopes

/-! ### Steps and runs -/

section Steps

variable {env : Surroundings τ} {s : PendingEnvelopes τ}

/-- Only `readied` matters. -/
theorem AllFetched.of_eq {t : PendingEnvelopes τ} (hs : AllFetched env s)
    (h : t.readied = s.readied) : AllFetched env t := by
  unfold AllFetched
  rw [h]
  exact hs

/-- An envelope with its data may be made ready. -/
theorem AllFetched.envelopeReady (hs : AllFetched env s)
    (he : Fetched env.unmarshal ⟨e, s.qsetCache, s.txSetCache⟩) :
    AllFetched env (s.envelopeReady e) := by
  intro r hr
  rcases mem_append.1 hr with hr | hr
  · exact hs r hr
  · obtain rfl := mem_singleton.1 hr
    exact he

/-- A question changes nothing else. -/
theorem ask_allFetched {α : Type} (answer : Nat → α) {Q : α → PendingEnvelopes τ → Prop}
    {E : PendingError → PendingEnvelopes τ → Prop} (hs : AllFetched env s)
    (h : ∀ t a, AllFetched env t → Q a t) : wp (ask answer) Q E s := by
  simp only [ask, wp_bind, wp_get, wp_set, wp_pure]
  exact h _ _ (hs.of_eq rfl)

/-- What was made ready stays fetched. -/
def KeepsFetched {α : Type} (env : Surroundings τ) (x : PendingM τ α) : Prop :=
  ∀ s, AllFetched env s → wp x (fun _ => AllFetched env) (fun _ => AllFetched env) s

theorem keeps_recvSCPEnvelope (e : SCPEnvelope) : KeepsFetched env (recvSCPEnvelope env e) := by
  intro s hs
  unfold recvSCPEnvelope
  rw [wp_bind]
  refine ask_allFetched _ hs fun s inQuorum hs => ?_
  simp only [wp_bind, wp_get]
  rw [wp_ite]
  refine ⟨fun _ => wp_pure.2 hs, fun _ => ?_⟩
  cases hhashes : getTxSetHashes env.unmarshal e with
  | none => exact wp_pure.2 hs
  | some hashes =>
    simp only [wp_ite, wp_bind, wp_set, wp_pure]
    refine ⟨fun _ => hs.of_eq rfl, fun _ => ?_⟩
    have ht : AllFetched env ((s.touchFetchCache e hashes).insertFetching e hashes) :=
      hs.of_eq (PendingEnvelopes.insertFetching_readied _ e hashes)
    refine ⟨fun hfull => ?_, fun _ => ht⟩
    exact AllFetched.envelopeReady (ht.of_eq rfl) (fetched_of_isFullyFetched hhashes hfull)

variable {perform : Event τ → PendingM τ Unit}

-- every call that may be made in between keeps the invariant
variable (hperform : ∀ event, KeepsFetched env (perform event))
include hperform

theorem keeps_herderRecvSCPEnvelope (e : SCPEnvelope) :
    KeepsFetched env (herderRecvSCPEnvelope env perform e) := by
  intro s hs
  unfold herderRecvSCPEnvelope
  rw [wp_bind]
  refine ask_allFetched _ hs fun s accepted hs => ?_
  rw [wp_ite]
  refine ⟨fun _ => ?_, fun _ => wp_pure.2 hs⟩
  refine wp_seq (keeps_recvSCPEnvelope e s hs) fun status s hs => ?_
  rw [wp_ite]
  refine ⟨fun _ => ?_, fun _ => wp_pure.2 hs⟩
  rw [wp_bind]
  exact ask_allFetched _ hs fun s reaction hs => wp_forM hperform reaction hs

theorem keeps_recvTxSetItem (hash : Hash) (rounds : Nat) :
    KeepsFetched env (recvTxSetItem env perform hash rounds) := by
  induction rounds with
  | zero => exact fun _ hs => wp_throw.2 hs
  | succ rounds ih =>
    intro s hs
    simp only [recvTxSetItem, wp_bind, wp_get]
    cases s.txSetFetcher.pop hash with
    | none => exact wp_set.2 (hs.of_eq rfl)
    | some popped =>
      simp only [wp_bind, wp_set]
      exact wp_imp (keeps_herderRecvSCPEnvelope hperform _ _ (hs.of_eq rfl)) fun _ => ih

theorem keeps_recvQuorumSetItem (hash : Hash) (rounds : Nat) :
    KeepsFetched env (recvQuorumSetItem env perform hash rounds) := by
  induction rounds with
  | zero => exact fun _ hs => wp_throw.2 hs
  | succ rounds ih =>
    intro s hs
    simp only [recvQuorumSetItem, wp_bind, wp_get]
    cases s.quorumSetFetcher.pop hash with
    | none => exact wp_set.2 (hs.of_eq rfl)
    | some popped =>
      simp only [wp_bind, wp_set]
      exact wp_imp (keeps_herderRecvSCPEnvelope hperform _ _ (hs.of_eq rfl)) fun _ => ih

theorem keeps_addTxSet (hash : Hash) (lastSeenSlotIndex : Nat) (txset : τ) (rounds : Nat) :
    KeepsFetched env (addTxSet env perform hash lastSeenSlotIndex txset rounds) := by
  intro s hs
  simp only [addTxSet, wp_bind, wp_modify]
  exact keeps_recvTxSetItem hperform hash rounds _ (hs.of_eq rfl)

theorem keeps_addSCPQuorumSet (hash : Hash) (q : SCPQuorumSet) (rounds : Nat) :
    KeepsFetched env (addSCPQuorumSet env perform hash q rounds) := by
  intro s hs
  simp only [addSCPQuorumSet, wp_bind, wp_ensure, wp_modify]
  exact ⟨fun _ => keeps_recvQuorumSetItem hperform hash rounds _ (hs.of_eq rfl), fun _ => hs⟩

theorem keeps_handle (rounds : Nat) (event : Event τ) :
    KeepsFetched env (handle env perform rounds event) := by
  intro s hs
  cases event with
  | recvSCPEnvelope e => exact keeps_herderRecvSCPEnvelope hperform e s hs
  | recvSCPQuorumSet hash q =>
    simp only [handle, recvSCPQuorumSet, wp_bind, wp_get, wp_ite, wp_set, wp_pure]
    refine ⟨fun _ => hs, fun _ => ⟨fun _ => ?_, fun _ => ?_⟩⟩
    · exact keeps_addSCPQuorumSet hperform hash q rounds s hs
    · exact hs.of_eq (s.discardAll_readied env.unmarshal _)
  | addSCPQuorumSet hash q => exact keeps_addSCPQuorumSet hperform hash q rounds s hs
  | recvTxSet hash txset =>
    simp only [handle, recvTxSet, wp_bind, wp_get, wp_ite, wp_pure]
    exact ⟨fun _ => hs, fun _ => keeps_addTxSet hperform hash _ txset rounds s hs⟩
  | addTxSet hash lastSeenSlotIndex txset =>
    exact keeps_addTxSet hperform hash lastSeenSlotIndex txset rounds s hs
  | discardSCPEnvelope e =>
    exact wp_modify.2 (hs.of_eq (s.discardSCPEnvelope_readied e env.unmarshal))
  | pop slotIndex => exact wp_modify.2 (hs.of_eq (s.pop_readied slotIndex))
  | eraseBelow slotIndex => exact wp_modify.2 (hs.of_eq rfl)
  | slotClosed slotIndex => exact wp_modify.2 (hs.of_eq (s.slotClosed_readied slotIndex))
  | stopFetchingBelow slotIndex => exact wp_modify.2 (hs.of_eq rfl)

omit hperform

/-- However deep the calls are nested. -/
theorem keeps_perform (limit : Nat) (event : Event τ) :
    KeepsFetched env (Herder.perform env limit event) := by
  induction limit generalizing event with
  | zero => exact fun _ hs => wp_throw.2 hs
  | succ limit ih => exact keeps_handle ih limit event

theorem keeps_runEvents (limit : Nat) (events : List (Event τ)) :
    KeepsFetched env (runEvents env limit events) :=
  fun _ => wp_forM (keeps_perform limit) events

end Steps

/-! ### What is validated -/

/-- The prepared ballot of a `PREPARE` statement names the transaction set of its ballot. -/
def PreparedSameTxSet (unmarshal : Value → Option StellarValue) : Statement → Prop
  | .nominate _ => True
  | .ballot st => ∀ p, st.pledges = .prepare p → ∀ q, p.prepared = some q →
      (unmarshal q.value).map StellarValue.txSetHash =
        (unmarshal p.ballot.value).map StellarValue.txSetHash

/-- Nothing the driver needs to answer about the envelope is missing: its quorum set and the
transaction set of every value it is validated for are cached, and having cached more would not
change an answer. -/
structure Complete (unmarshal : Value → Option StellarValue) (r : Readied τ) : Prop where
  quorumSet : (r.qsetCache.lookup r.envelope.statement.getCompanionQuorumSetHash).isSome
  txSets : ∀ v ∈ r.envelope.statement.valuesToValidate, ∀ b, unmarshal v = some b →
    (r.txSetCache.lookup b.txSetHash).isSome
  answers : ∀ (view : NodeView τ) (cache : FMap Hash (Nat × τ)), view.unmarshal = unmarshal →
    (∀ hash item, r.txSetCache.lookup hash = some item → cache.lookup hash = some item) →
    ∀ v ∈ r.envelope.statement.valuesToValidate, ∀ nomination,
      validateValue view (PendingEnvelopes.getTxSet r.txSetCache) r.envelope.slotIndex v
          nomination =
        validateValue view (PendingEnvelopes.getTxSet cache) r.envelope.slotIndex v nomination

/-- A validated value is fetched, or is the prepared one of a `PREPARE` statement. -/
theorem mem_valuesToValidate {st : Statement} {v : Value} (h : v ∈ st.valuesToValidate) :
    v ∈ st.getStatementValues ∨
      ∃ bst p q, st = .ballot bst ∧ bst.pledges = .prepare p ∧ p.prepared = some q ∧
        q.value = v := by
  cases st with
  | nominate st => exact Or.inl h
  | ballot st =>
    obtain ⟨node, pledges⟩ := st
    cases pledges with
    | prepare p =>
      rcases mem_append.1 h with h | h
      · left
        split at h
        · exact h
        · exact absurd h not_mem_nil
      · right
        obtain ⟨q, hq, rfl⟩ := map_eq_some_iff.1 (mem_toList.1 h)
        exact ⟨_, p, q, rfl, rfl, hq, rfl⟩
    | confirm c => exact Or.inl h
    | externalize e => exact Or.inl h

/-- The transaction set of every validated value is among those fetched. -/
theorem Fetched.txSet_cached {unmarshal : Value → Option StellarValue} {r : Readied τ}
    (h : Fetched unmarshal r) (hsame : PreparedSameTxSet unmarshal r.envelope.statement)
    {v : Value} (hv : v ∈ r.envelope.statement.valuesToValidate) {b : StellarValue}
    (hb : unmarshal v = some b) : (r.txSetCache.lookup b.txSetHash).isSome := by
  rcases mem_valuesToValidate hv with hv | ⟨st, p, q, hst, hp, hq, rfl⟩
  · obtain ⟨b', hb', hcached⟩ := h.txSets v hv
    obtain rfl : b' = b := mem_unique hb' hb
    exact hcached
  · rw [hst] at hsame
    have hhash := hsame p hp q hq
    have hmem : p.ballot.value ∈ r.envelope.statement.getStatementValues := by
      simp [hst, Statement.getStatementValues, getWorkingBallot, hp]
    obtain ⟨b', hb', hcached⟩ := h.txSets _ hmem
    rw [hb, hb'] at hhash
    obtain hhash : b.txSetHash = b'.txSetHash := some.inj hhash
    rw [hhash]
    exact hcached

theorem Fetched.complete {unmarshal : Value → Option StellarValue} {r : Readied τ}
    (h : Fetched unmarshal r) (hsame : PreparedSameTxSet unmarshal r.envelope.statement) :
    Complete unmarshal r := by
  refine ⟨h.quorumSet, fun v hv b hb => h.txSet_cached hsame hv hb, ?_⟩
  rintro view cache rfl hcache v hv nomination
  apply validateValue_congr
  intro b hb
  obtain ⟨item, hitem⟩ := isSome_iff_exists.1 (h.txSet_cached hsame hv hb)
  simp only [PendingEnvelopes.getTxSet, hitem, hcache _ _ hitem]

/-- In every run, whatever is nested in it, an envelope that is made ready is complete, if it is
not a `PREPARE` statement whose prepared ballot names another transaction set. -/
theorem readied_complete (env : Surroundings τ) (limit : Nat) (events : List (Event τ)) :
    wp (runEvents env limit events)
      (fun _ t => ∀ r ∈ t.readied, PreparedSameTxSet env.unmarshal r.envelope.statement →
        Complete env.unmarshal r)
      (fun _ t => ∀ r ∈ t.readied, PreparedSameTxSet env.unmarshal r.envelope.statement →
        Complete env.unmarshal r)
      {} := by
  have hrun : KeepsFetched env _ := keeps_runEvents limit events
  exact wp_ends (hrun {} fun _ hr => absurd hr not_mem_nil) fun t ht r hr hsame =>
    (ht r hr).complete hsame

/-! ### A prepared value that is not fetched -/

namespace PreparedElsewhere

/-- Values are a transaction set hash and a close time. -/
def unmarshal : Value → Option StellarValue
  | [txSetHash, closeTime] => some ⟨txSetHash, closeTime, []⟩
  | _ => none

/-- A node that lets every envelope through. -/
def surroundings : Surroundings Unit where
  unmarshal := unmarshal
  isNodeInQuorum := fun _ _ => true
  accepts := fun _ _ => true
  processSCPQueue := fun _ => []

/-- A node that has closed the ledger before slot 5. -/
def view : NodeView Unit where
  isSynced := true
  lastLedgerSeq := 4
  lastCloseTime := 90
  timeNow := 100
  trackingSCP := some ⟨4, 90⟩
  unmarshal := unmarshal
  checkValid := fun _ => true
  upgradeIsValid := fun _ _ => none

/-- The statement votes for transaction set 11, after 22 was accepted as prepared. -/
def envelope : SCPEnvelope where
  slotIndex := 5
  statement := .ballot ⟨1, .prepare
    { quorumSetHash := 7, ballot := ⟨2, [11, 100]⟩, prepared := some ⟨1, [22, 100]⟩
      preparedPrime := none, nC := 0, nH := 0 }⟩
  signature := []

/-- The envelope arrives, then what is asked for. -/
def events : List (Event Unit) :=
  [.recvSCPEnvelope envelope, .recvSCPQuorumSet 7 (buildSingletonQSet 1), .recvTxSet 11 ()]

/-- The prepared value, with the answer of the driver when an envelope was made ready, and the
answer if transaction set 22 had been fetched. -/
def answers (r : Readied Unit) : SCPEnvelope × Option (Nat × Unit) × List ValidationLevel :=
  (r.envelope, r.txSetCache.lookup 22,
    [validateValue view (PendingEnvelopes.getTxSet r.txSetCache) 5 [22, 100] false,
      validateValue view (PendingEnvelopes.getTxSet (r.txSetCache.insert 22 (5, ()))) 5 [22, 100]
        false])

end PreparedElsewhere

open PreparedElsewhere in
/-- The envelope is made ready without the transaction set 22, and the prepared value is called
invalid only for that reason. -/
theorem readied_without_prepared_txSet :
    isSlotCompatibleWithCurrentState view envelope.slotIndex = true ∧
      [22, 100] ∈ envelope.statement.valuesToValidate ∧
      (okState (runEvents surroundings 4 events) {}).map (fun t => t.readied.map answers) =
        some [(envelope, none, [.invalidValue, .fullyValidatedValue])] := by
  refine ⟨rfl, by decide, by decide +kernel⟩

end SpnCore.Herder
