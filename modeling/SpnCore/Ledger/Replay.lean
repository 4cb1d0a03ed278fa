import SpnCore.Ledger.Scopes

/-!
# Replaying the changes that a ledger close stores

Each step of a close runs in a ledger state of its own, on top of one that is open and whose
entries are stamped with the new ledger. The changes of the step, made to what the ledger state
below showed before, give what it shows after the commit. So the stored changes of all steps lead
from the entries of the previous ledger to those of the new one, if only steps that were committed
have stored any.

That fails for a transaction with an operation that threw an exception after earlier operations
changed something: the changes of these operations are stored, but the operations were undone.
-/

namespace SpnCore.Ledger.Nested

open Lib List Option

/-! ### Changes of a level -/

section Changes

variable {parents : List Level} {level : Level} {s : LedgerStack} {records : List Record}

/-- Makes what a record says hold. -/
def applyRecord (entries : Rows) (record : Record) : Rows :=
  Function.update entries (Keyed.key record) record.value?

theorem replay_append (changes changes' : LedgerEntryChanges) (entries : Rows) :
    replay (changes ++ changes') entries = replay changes' (replay changes entries) :=
  foldl_append

/-- Both kinds of changes for a record do the same to the entries. -/
theorem changesOf_spec (hcache : CacheAgrees s.root) (r : Record) :
    wp (changesOf parents r)
      (fun changes t => (∃ root', Reread s.root root' ∧ t = { s with root := root' }) ∧
        ∀ entries, replay changes entries = applyRecord entries r) Fatal s := by
  unfold changesOf
  rw [wp_bind]
  refine wp_newestVersion hcache (fun _ => rfl) fun root' hroot => ?_
  cases newest parents s.root.database (Keyed.key r) with
  | none =>
    cases r with
    | live entry => exact wp_pure.2 ⟨⟨root', hroot, rfl⟩, fun _ => rfl⟩
    | dead key => exact wp_throw.2 rfl
  | some previous =>
    cases r with
    | live entry => exact wp_pure.2 ⟨⟨root', hroot, rfl⟩, fun _ => rfl⟩
    | dead key => exact wp_pure.2 ⟨⟨root', hroot, rfl⟩, fun _ => rfl⟩

theorem allChangesOf_spec (hcache : CacheAgrees s.root) :
    wp (allChangesOf parents records)
      (fun changes t => (∃ root', Reread s.root root' ∧ t = { s with root := root' }) ∧
        ∀ entries, replay changes entries = records.foldl applyRecord entries) Fatal s := by
  induction records generalizing s with
  | nil => exact wp_pure.2 ⟨⟨s.root, .refl hcache, rfl⟩, fun _ => rfl⟩
  | cons r records ih =>
    refine wp_seq (changesOf_spec hcache r) fun changes t ht => ?_
    obtain ⟨⟨root', hroot, rfl⟩, hfirst⟩ := ht
    refine wp_seq (ih hroot.cache) (fun later u hu => wp_pure.2 ?_)
    obtain ⟨⟨root'', hroot', rfl⟩, hrest⟩ := hu
    refine ⟨⟨root'', hroot.trans hroot', rfl⟩, fun entries => ?_⟩
    rw [replay_append, hfirst, hrest, foldl_cons]

/-- Replaying the changes of a level puts its records over the entries. -/
theorem getChanges_replay (hlevels : s.levels = level :: parents) (hcache : CacheAgrees s.root) :
    wp getChanges
      (fun changes t => (∃ root', Reread s.root root' ∧ t =
          { levels := { level with entry := level.sealedEntry, isSealed := true, active := [] } ::
              parents, root := root' }) ∧
        ∀ entries key, replay changes entries key =
          (level.sealedEntry.lookup key).elim (entries key) Record.value?) Fatal s := by
  unfold getChanges
  rw [wp_get_bind]
  simp only [hlevels]
  refine wp_seq (allChangesOf_spec hcache) fun changes t ht => ?_
  obtain ⟨⟨root', hroot, rfl⟩, hreplay⟩ := ht
  rw [wp_bind]
  refine wp_modify.2 (wp_pure.2 ⟨⟨root', hroot, rfl⟩, fun entries key => ?_⟩)
  rw [hreplay]
  exact Table.foldl_values (o := fun k entries => entries k) (g := fun r _ => r.value?)
    level.sealedEntry (fun entries r k => Function.update_apply entries _ _ _) key

end Changes

/-! ### Levels that are stamped -/

section Stamped

variable {seq : Nat} {level parent parent' child : Level} {parents : List Level} {root : Root}
  {s t : LedgerStack} {entries : Table Record} {database : Table LedgerEntry}
  {header : LedgerHeader}

/-- Every entry is stamped with the ledger. -/
def Stamped (seq : Nat) (entries : Table Record) : Prop :=
  ∀ key entry, entries.lookup key = some (.live entry) → entry.lastModifiedLedgerSeq = seq

/-- A level that the close of a ledger works on. -/
structure Open (seq : Nat) (level : Level) : Prop where
  isSealed : level.isSealed = false
  updates : level.shouldUpdateLastModified = true
  header : level.header.ledgerSeq = seq
  stamped : Stamped seq level.entry

theorem stamped_empty : Stamped seq .empty := by
  intro key entry h
  cases h

/-- Whatever a level records, it commits stamped entries. -/
theorem stamped_sealedEntry (hsealed : level.isSealed = false)
    (hupdates : level.shouldUpdateLastModified = true) :
    Stamped level.header.ledgerSeq level.sealedEntry := by
  intro key entry h
  rw [lookup_sealedEntry] at h
  obtain ⟨record, -, hseal⟩ := map_eq_some_iff.1 h
  simp only [sealRecord, hsealed, hupdates, if_true] at hseal
  cases record with
  | live entry' =>
    cases hseal
    rfl
  | dead key => cases hseal

/-- What is stamped already is committed as it is. -/
theorem Open.lookup_sealedEntry (h : Open seq level) (key : LedgerKey) :
    level.sealedEntry.lookup key = level.entry.lookup key := by
  rw [Nested.lookup_sealedEntry]
  cases hlookup : level.entry.lookup key with
  | none => rfl
  | some record =>
    simp only [map_some, sealRecord, h.isSealed, h.updates, if_true, h.header]
    cases record with
    | live entry =>
      have hstamp := h.stamped key entry hlookup
      subst hstamp
      rfl
    | dead key => rfl

/-- A level stays open when stamped entries are committed into it. -/
theorem CommittedInto.isOpen (h : CommittedInto parent parents database header entries parent')
    (hparent : Open seq parent) (hheader : header.ledgerSeq = seq)
    (hentries : Stamped seq entries) :
    Open seq parent' := by
  refine ⟨h.isSealed.trans hparent.isSealed, h.updates.trans hparent.updates,
    (congrArg LedgerHeader.ledgerSeq h.header).trans hheader, fun key entry hlookup => ?_⟩
  rw [h.entry] at hlookup
  cases hrecord : entries.lookup key with
  | none =>
    rw [hrecord] at hlookup
    exact hparent.stamped key entry hlookup
  | some record =>
    rw [hrecord] at hlookup
    obtain ⟨rfl, -⟩ := committed_eq_some hlookup
    exact hentries key entry hrecord

/-! ### The ledger state that a step works on -/

/-- The level while another one is open on top of it. -/
def Level.covered (level : Level) : Level :=
  { level with active := [] }

theorem Open.covered (h : Open seq level) : Open seq level.covered :=
  ⟨h.isSealed, h.updates, h.header, h.stamped⟩

/-- An open level is the innermost one. The root was as given at the start of the close. -/
structure Ready (seq : Nat) (root : Root) (level : Level) (parents : List Level)
    (t : LedgerStack) : Prop where
  levels : t.levels = level :: parents
  isOpen : Open seq level
  nulls : NullsBelow (level :: parents) root.database
  reread : Reread root t.root

/-- Some levels are still there. -/
structure Above (root : Root) (levels : List Level) (t : LedgerStack) : Prop where
  suffix : levels <:+ t.levels
  nulls : NullsBelow t.levels root.database
  reread : Reread root t.root

/-- The entries that the innermost ledger state shows. -/
def LedgerStack.rows (s : LedgerStack) : Rows := newest s.levels s.root.database

theorem Ready.rows (h : Ready seq root level parents t) :
    t.rows = newest (level :: parents) root.database := by
  rw [LedgerStack.rows, h.levels, h.reread.database]

theorem Ready.above (h : Ready seq root level parents t) : Above root parents t := by
  obtain ⟨hlevels, -, hnulls, hreread⟩ := h
  rw [← hlevels] at hnulls
  exact ⟨hlevels ▸ suffix_cons level parents, hnulls, hreread⟩

theorem Above.outer (h : Above root (level :: parents) t) : Above root parents t :=
  ⟨(suffix_cons level parents).trans h.suffix, h.nulls, h.reread⟩

/-- Dropping the levels inside of one makes it the innermost one. -/
theorem Above.unwind (h : Above root (level :: parents) t) (hopen : Open seq level) :
    wp (unwind (parents.length + 1)) (fun _ => Ready seq root level parents) Fatal t := by
  have hdrop : t.levels.drop (t.levels.length - (parents.length + 1)) = level :: parents :=
    (suffix_iff_eq_drop.1 h.suffix).symm
  refine wp_modify.2 ⟨hdrop, hopen, ?_, h.reread⟩
  have hnulls := nullsBelow_drop h.nulls (t.levels.length - (parents.length + 1))
  rwa [hdrop] at hnulls

theorem Ready.depth (h : Ready seq root level parents s) :
    wp depth (fun n t => n = parents.length + 1 ∧ t = s) Fatal s := by
  unfold Nested.depth
  rw [wp_get_bind]
  refine wp_pure.2 ⟨?_, rfl⟩
  rw [h.levels, length_cons]

/-- The level that is opened is empty, and nothing is committed from it yet. -/
theorem Ready.openChild (h : Ready seq root level parents s) :
    wp (step (.openChild true))
      (fun _ t => ∃ child, Ready seq root child (level.covered :: parents) t ∧
        newest (child :: level.covered :: parents) root.database =
          newest (level :: parents) root.database) Fatal s := by
  unfold step
  rw [wp_get_bind]
  simp only [h.levels]
  show wp (Nested.openChild true level parents) _ _ s
  unfold Nested.openChild
  rw [wp_bind, wp_ensure]
  refine ⟨fun _ => wp_modify.2 ?_, fun hsealed => ?_⟩
  · refine ⟨{ header := level.header, shouldUpdateLastModified := true },
      ⟨rfl, ⟨rfl, rfl, h.isOpen.header, stamped_empty⟩, ⟨fun key hdead => ?_, h.nulls⟩,
        h.reread⟩, rfl⟩
    cases hdead
  · rw [h.isOpen.isSealed] at hsealed
    cases hsealed

/-- A commit of a level into an open one. -/
theorem commit_ready (hlevels : s.levels = child :: parent :: parents) (hparent : Open seq parent)
    (hheader : child.header.ledgerSeq = seq) (hstamped : Stamped seq child.sealedEntry)
    (hnulls : NullsBelow (parent :: parents) root.database) (hroot : Reread root s.root) :
    wp (step .commit)
      (fun _ t => ∃ parent', Ready seq root parent' parents t ∧ ∀ key,
        newest (parent' :: parents) root.database key = (child.sealedEntry.lookup key).elim
          (newest (parent :: parents) root.database key) Record.value?) Fatal s := by
  unfold step
  rw [wp_get_bind]
  simp only [hlevels]
  refine wp_commit_parent hroot.cache (fun _ => rfl) fun parent' root' hread hinto => ?_
  rw [hroot.database] at hinto
  exact ⟨parent', ⟨rfl, hinto.isOpen hparent hheader hstamped, hinto.nulls hnulls,
    hroot.trans hread⟩, hinto.newest⟩

/-- A commit of a stamped level changes nothing of what is shown. -/
theorem Ready.commit (h : Ready seq root child (parent :: parents) s) (hparent : Open seq parent) :
    wp (step .commit)
      (fun _ t => ∃ parent', Ready seq root parent' parents t ∧
        newest (parent' :: parents) root.database =
          newest (child :: parent :: parents) root.database) Fatal s := by
  have hstamped : Stamped seq child.sealedEntry := by
    intro key entry hlookup
    rw [h.isOpen.lookup_sealedEntry] at hlookup
    exact h.isOpen.stamped key entry hlookup
  refine wp_imp (commit_ready h.levels hparent h.isOpen.header hstamped h.nulls.2 h.reread)
    (fun _ t ht => ?_)
  obtain ⟨parent', hready, hnewest⟩ := ht
  refine ⟨parent', hready, funext fun key => ?_⟩
  rw [hnewest, h.isOpen.lookup_sealedEntry]
  cases hlookup : child.entry.lookup key with
  | none => exact (newest_of_none hlookup).symm
  | some record => exact (newest_of_some hlookup).symm

end Stamped

/-! ### Steps of a close -/

section Steps

variable {seq : Nat} {level : Level} {parents : List Level} {root : Root} {s : LedgerStack}
  {α φ ρ ω υ : Type} {txs : List (TransactionProgram (Trace seq) φ ρ ω)}
  {tx : TransactionProgram (Trace seq) φ ρ ω} {ops : List (Trace seq ω)} {success : ω → Bool}
  (h : Ready seq root level parents s)

/-- From an open level to one that shows the entries after some changes. -/
def Leads (seq : Nat) (root : Root) (level : Level) (parents : List Level)
    (changes : LedgerEntryChanges) (t : LedgerStack) : Prop :=
  ∃ level', Ready seq root level' parents t ∧
    newest (level' :: parents) root.database =
      replay changes (newest (level :: parents) root.database)

/-- What is shown is what was shown before, after the changes. -/
theorem Leads.rows {changes : LedgerEntryChanges} {t : LedgerStack}
    (h : Leads seq root level parents changes t) (hs : Ready seq root level parents s) :
    t.rows = replay changes s.rows := by
  obtain ⟨level', hready, hnewest⟩ := h
  rw [hready.rows, hnewest, hs.rows]

include h in
theorem leads_nil : Leads seq root level parents [] s :=
  ⟨level, h, rfl⟩

/-- What a step in a ledger state of its own has come to. -/
def Stepped (seq : Nat) (root : Root) (level : Level) (parents : List Level) :
    Option (α × LedgerEntryChanges) → LedgerStack → Prop
  | none, t => Above root (level.covered :: parents) t
  | some (_, changes), t => Leads seq root level parents changes t

include h in
theorem inChild_spec (trace : Trace seq α) :
    wp (inChild (stackAccess seq) trace) (Stepped seq root level parents) Fatal s := by
  refine wp_seq h.openChild (fun _ t ht => ?_)
  obtain ⟨child, hchild, -⟩ := ht
  have hscoped : Scoped (level.covered :: parents) seq 0 root t := by
    refine ⟨?_, hchild.reread, ?_⟩
    · rw [hchild.levels]
      exact .base hchild.isOpen.isSealed hchild.isOpen.updates hchild.isOpen.header
    · rw [hchild.levels]
      exact hchild.nulls
  refine wp_seq (run_scoped trace hscoped) fun result t ht => ?_
  obtain ⟨d, hrun, hdepth⟩ := ht
  cases result with
  | none => exact wp_pure.2 ⟨hrun.inside.suffix, hrun.nulls, hrun.reread⟩
  | some a =>
    have hinside := hrun.inside
    rw [hdepth rfl] at hinside
    cases hlevels : t.levels with
    | nil =>
      rw [hlevels] at hinside
      cases hinside
    | cons child' rest =>
      have hnulls := hrun.nulls
      rw [hlevels] at hinside hnulls
      cases hinside with
      | base hsealed hupdates hheader =>
        have hstamped := stamped_sealedEntry hsealed hupdates
        rw [hheader] at hstamped
        refine wp_seq (getChanges_replay hlevels hrun.reread.cache)
          (fun changes u hu => ?_)
        obtain ⟨⟨root', hroot, rfl⟩, hreplay⟩ := hu
        rw [wp_bind]
        -- the level is sealed, so its records are committed as they are
        refine wp_imp (commit_ready rfl h.isOpen.covered hheader hstamped hnulls.2
          (hrun.reread.trans hroot)) (fun _ v hv => wp_pure.2 ?_)
        obtain ⟨level', hready, hnewest⟩ := hv
        exact ⟨level', hready, funext fun key => (hnewest key).trans (hreplay _ key).symm⟩

/-- Steps one after the other. -/
theorem Leads.trans {level' : Level} {changes changes' : LedgerEntryChanges}
    (h : newest (level' :: parents) root.database =
      replay changes (newest (level :: parents) root.database))
    (h' : Leads seq root level' parents changes' s) :
    Leads seq root level parents (changes ++ changes') s := by
  obtain ⟨level'', hready, hnewest⟩ := h'
  exact ⟨level'', hready, by rw [hnewest, h, replay_append]⟩

include h in
theorem chargeFees_spec : wp (chargeFees (stackAccess seq) txs)
      (fun fees => Leads seq root level parents (fees.flatMap Prod.snd)) Fatal s := by
  induction txs generalizing s level with
  | nil => exact wp_pure.2 (leads_nil h)
  | cons tx txs ih =>
    refine wp_seq (inChild_spec h tx.processFeeSeqNum) fun fee t ht => ?_
    cases fee with
    | none => exact wp_throw.2 rfl
    | some fee =>
      obtain ⟨level', hready, hnewest⟩ := ht
      refine wp_seq (ih hready) (fun fees u hu => wp_pure.2 ?_)
      exact Leads.trans hnewest hu

include h in
theorem processFeesSeqNums_spec : wp (processFeesSeqNums (stackAccess seq) txs)
      (fun fees => Leads seq root level parents (fees.flatMap Prod.snd)) Fatal s := by
  refine wp_seq h.openChild (fun _ t ht => ?_)
  obtain ⟨child, hchild, hshown⟩ := ht
  refine wp_seq (chargeFees_spec hchild) fun fees u hu => ?_
  obtain ⟨child', hchild', hnewest⟩ := hu
  refine wp_seq (hchild'.commit h.isOpen.covered) (fun _ v hv => wp_pure.2 ?_)
  obtain ⟨level', hready, hsame⟩ := hv
  exact ⟨level', hready, by rw [hsame, hnewest, hshown]⟩

/-- Operations that are performed one after the other. One that throws finds the entries as they
were, so there is nothing to undo. -/
def Harmless (rows : Rows) : List (Trace seq ω) → LedgerStack → Prop
  | [], _ => True
  | op :: ops, s =>
    match inChild (stackAccess seq) op s with
    | .ok none _ => s.rows = rows
    | .ok (some _) t => Harmless rows ops t
    | .error _ _ => True

/-- What the operations of a transaction have come to. When one of them threw, replaying the changes
of those before it gives the entries that it found. -/
structure Executed (seq : Nat) (root : Root) (level : Level) (parents : List Level)
    (ops : List (Trace seq ω)) (s : LedgerStack) (ending : Ending)
    (changes : List LedgerEntryChanges) (t : LedgerStack) : Prop where
  threw : ending = .threw → Above root parents t
  returned : ending ≠ .threw → Leads seq root level parents changes.flatten t
  harmless : ∀ rows, (ending = .threw → replay changes.flatten s.rows = rows) ↔
    Harmless rows ops s

include h in
theorem executeOperations_spec : wp (executeOperations (stackAccess seq) success ops)
      (fun run => Executed seq root level parents ops s run.1 run.2.2) Fatal s := by
  induction ops generalizing s level with
  | nil => exact wp_pure.2 ⟨nofun, fun _ => leads_nil h, fun _ => ⟨fun _ => trivial, nofun⟩⟩
  | cons op ops ih =>
    refine wp_seq_run (inChild_spec h op) fun step t hstep ht => ?_
    cases step with
    | none =>
      refine wp_pure.2 ⟨fun _ => Above.outer ht, fun hne => absurd rfl hne, fun rows => ?_⟩
      simp only [Harmless, hstep]
      exact ⟨fun hrows => hrows trivial, fun hrows _ => hrows⟩
    | some step =>
      obtain ⟨result, changes⟩ := step
      have hrows := Leads.rows ht h
      obtain ⟨level', hready, hnewest⟩ := ht
      refine wp_seq (ih hready) (fun run u hu => wp_pure.2 ?_)
      obtain ⟨ending, results, later⟩ := run
      have hending : (if ending = .threw then .threw else if success result then ending
          else .failed) = Ending.threw ↔ ending = .threw := by
        split_ifs <;> simp_all
      refine ⟨fun hthrew => hu.threw (hending.1 hthrew),
        fun hne => Leads.trans hnewest (hu.returned fun hthrew => hne (hending.2 hthrew)),
        fun rows => ?_⟩
      simp only [Harmless, hstep, hending]
      rw [← hu.harmless rows, flatten_cons, replay_append, ← hrows]

/-- The changes of operations that were not undone. -/
def keptChanges (ending : Ending) (operations : List LedgerEntryChanges) : LedgerEntryChanges :=
  if ending = .threw then [] else operations.flatten

/-- Replaying the stored changes of operations gives what is shown exactly if those that were
undone had changed nothing. -/
theorem replay_keptChanges {ending : Ending} {operations : List LedgerEntryChanges} {rows : Rows} :
    replay operations.flatten rows = replay (keptChanges ending operations) rows ↔
      (ending = .threw → replay operations.flatten rows = rows) := by
  unfold keptChanges
  split
  case isTrue hthrew => exact ⟨fun h _ => h, fun h => h hthrew⟩
  case isFalse hne => exact ⟨fun _ h => absurd h hne, fun _ => rfl⟩

/-- The operations are harmless in the ledger state that is opened for them. -/
def HarmlessInside (ops : List (Trace seq ω)) (s : LedgerStack) : Prop :=
  ∀ t, step (.openChild true) s = .ok () t → Harmless s.rows ops t

include h in
theorem applyOperations_spec : wp (applyOperations (stackAccess seq) success ops)
      (fun run t => Leads seq root level parents (keptChanges run.1 run.2.2) t ∧
        ((run.1 = .threw → replay run.2.2.flatten s.rows = s.rows) ↔ HarmlessInside ops s))
      Fatal s := by
  refine wp_seq h.depth (fun n s hs => ?_)
  obtain ⟨rfl, rfl⟩ := hs
  refine wp_seq_run h.openChild (fun _ t hopen ht => ?_)
  obtain ⟨child, hchild, hshown⟩ := ht
  refine wp_seq (executeOperations_spec hchild) fun run u hu => ?_
  obtain ⟨ending, results, changes⟩ := run
  have hinside : (ending = .threw → replay changes.flatten s.rows = s.rows) ↔
      HarmlessInside ops s := by
    have hrows : t.rows = s.rows := by rw [hchild.rows, hshown, h.rows]
    rw [← hrows, hu.harmless, hrows]
    refine ⟨fun hops v hv => ?_, fun hops => hops t hopen⟩
    cases hopen.symm.trans hv
    exact hops
  -- dropping the ledger state of the transaction gives back what was there before
  have hundone : Above root (level.covered :: parents) u →
      wp (unwind (parents.length + 1)) (fun _ => Leads seq root level parents []) Fatal u := by
    intro habove
    exact wp_imp (habove.unwind h.isOpen.covered) (fun _ v hv => ⟨level.covered, hv, rfl⟩)
  cases ending with
  | succeeded =>
    obtain ⟨child', hchild', hnewest⟩ := hu.returned nofun
    refine wp_seq (hchild'.commit h.isOpen.covered) (fun _ v hv => wp_pure.2 ?_)
    obtain ⟨level', hready, hsame⟩ := hv
    exact ⟨⟨level', hready, by rw [hsame, hnewest, hshown]; rfl⟩, hinside⟩
  | failed =>
    obtain ⟨child', hchild', -⟩ := hu.returned nofun
    refine wp_seq (hundone hchild'.above) (fun _ v hv => wp_pure.2 ⟨hv, ?_⟩)
    exact ⟨fun _ => hinside.1 nofun, fun _ => nofun⟩
  | threw =>
    exact wp_seq (hundone (hu.threw rfl)) (fun _ v hv => wp_pure.2 ⟨hv, hinside⟩)

/-- The changes of a transaction that were not undone. -/
def TransactionRun.keptChanges (run : TransactionRun ρ ω) : LedgerEntryChanges :=
  run.txMeta.txChanges ++ Nested.keptChanges run.ending run.txMeta.operations

/-- What a transaction has stored. -/
def TransactionRun.changes (run : TransactionRun ρ ω) : LedgerEntryChanges :=
  run.txMeta.txChanges ++ run.txMeta.operations.flatten

/-- Wherever an operation of the transaction throws, those before it have left the entries as they
were. -/
def TransactionProgram.Harmless (tx : TransactionProgram (Trace seq) φ ρ ω) (s : LedgerStack) :
    Prop :=
  ∀ validation changes t, inChild (stackAccess seq) tx.prepare s =
    .ok (some (validation, changes)) t → tx.valid validation = true →
    HarmlessInside tx.operations t

include h in
/-- Replaying what a transaction has stored gives what is shown after it exactly if it is
harmless. -/
theorem apply_spec : wp (apply (stackAccess seq) tx)
      (fun run t => Leads seq root level parents run.keptChanges t ∧
        (replay run.changes s.rows = t.rows ↔ tx.Harmless s)) Fatal s := by
  refine wp_seq h.depth (fun n s hs => ?_)
  obtain ⟨rfl, rfl⟩ := hs
  refine wp_seq_run (inChild_spec h tx.prepare) fun prepared t hprepared ht => ?_
  cases prepared with
  | none =>
    refine wp_seq (Above.unwind ht h.isOpen.covered) (fun _ u hu => wp_pure.2 ?_)
    refine ⟨⟨level.covered, hu, rfl⟩, fun _ _ _ _ hrun => ?_, fun _ => ?_⟩
    · cases hprepared.symm.trans hrun
    · rw [hu.rows, h.rows]
      rfl
  | some prepared =>
    obtain ⟨validation, txChanges⟩ := prepared
    have hrows := Leads.rows ht h
    obtain ⟨level', hready, hnewest⟩ := ht
    dsimp only
    cases hvalid : tx.valid validation with
    | false =>
      refine wp_pure.2 ⟨⟨level', hready, ?_⟩, fun _ _ _ _ hrun hvalid' => ?_, fun _ => ?_⟩
      · simp only [TransactionRun.keptChanges, Nested.keptChanges, flatten_nil, ite_self,
          append_nil]
        exact hnewest
      · cases hprepared.symm.trans hrun
        cases hvalid.symm.trans hvalid'
      · rw [TransactionRun.changes, flatten_nil, append_nil, hrows]
    | true =>
      refine wp_seq (applyOperations_spec hready)
        (fun run u hu => wp_pure.2 ⟨Leads.trans hnewest hu.1, ?_⟩)
      rw [TransactionRun.changes, replay_append, ← hrows, hu.1.rows hready, replay_keptChanges,
        hu.2]
      refine ⟨fun hops _ _ _ hrun _ => ?_, fun hops => hops _ _ _ hprepared hvalid⟩
      cases hprepared.symm.trans hrun
      exact hops

include h in
theorem applyTransactions_spec : wp (applyTransactions (stackAccess seq) txs)
      (fun runs => Leads seq root level parents (runs.flatMap TransactionRun.keptChanges))
      Fatal s := by
  induction txs generalizing s level with
  | nil => exact wp_pure.2 (leads_nil h)
  | cons tx txs ih =>
    refine wp_seq (apply_spec h) fun run t ht => ?_
    obtain ⟨⟨level', hready, hnewest⟩, -⟩ := ht
    refine wp_seq (ih hready) (fun runs u hu => wp_pure.2 ?_)
    exact Leads.trans hnewest hu

/-- Transactions that are applied one after the other are harmless, each in the ledger state in
which it is applied. -/
def EachHarmless : List (TransactionProgram (Trace seq) φ ρ ω) → LedgerStack → Prop
  | [], _ => True
  | tx :: txs, s =>
    tx.Harmless s ∧ ∀ run t, apply (stackAccess seq) tx s = .ok run t → EachHarmless txs t

/-- After every transaction, replaying what has been stored gives what is shown. -/
def ReplaysEach (txs : List (TransactionProgram (Trace seq) φ ρ ω)) (s : LedgerStack) : Prop :=
  ∀ done runs t, done <+: txs → applyTransactions (stackAccess seq) done s = .ok runs t →
    replay (runs.flatMap TransactionRun.changes) s.rows = t.rows

theorem applyTransactions_cons {runs : List (TransactionRun ρ ω)} {u : LedgerStack} :
    applyTransactions (stackAccess seq) (tx :: txs) s = .ok runs u ↔
      ∃ run t later, apply (stackAccess seq) tx s = .ok run t ∧
        applyTransactions (stackAccess seq) txs t = .ok later u ∧ run :: later = runs := by
  rw [applyTransactions, bind_run_eq_ok]
  simp only [bind_run_eq_ok]
  refine exists_congr fun run => exists_congr fun t => ⟨?_, ?_⟩
  · rintro ⟨happly, later, v, hlater, ⟨⟩⟩
    exact ⟨later, happly, hlater, rfl⟩
  · rintro ⟨later, happly, hlater, rfl⟩
    exact ⟨happly, later, u, hlater, rfl⟩

include h in
theorem replaysEach_iff {runs : List (TransactionRun ρ ω)} {t : LedgerStack}
    (hrun : applyTransactions (stackAccess seq) txs s = .ok runs t) :
    ReplaysEach txs s ↔ EachHarmless txs s := by
  induction txs generalizing s level runs with
  | nil =>
    refine ⟨fun _ => trivial, fun _ done runs t hdone hruns => ?_⟩
    obtain rfl := prefix_nil.1 hdone
    cases hruns
    rfl
  | cons tx txs ih =>
    obtain ⟨run, u, later, happly, hlater, rfl⟩ := applyTransactions_cons.1 hrun
    obtain ⟨⟨level', hready, -⟩, hfirst⟩ := wp_ok (apply_spec h) happly
    have hrest := ih hready hlater
    refine ⟨fun heach => ?_, fun ⟨hharmless, heach⟩ => ?_⟩
    · have hrows : replay run.changes s.rows = u.rows := by
        simpa using heach [tx] [run] u ⟨txs, rfl⟩
          (applyTransactions_cons.2 ⟨run, u, [], happly, rfl, rfl⟩)
      refine ⟨hfirst.1 hrows, fun run' u' happly' => ?_⟩
      cases happly.symm.trans happly'
      refine hrest.1 fun done runs v hdone hruns => ?_
      have hall := heach (tx :: done) (run :: runs) v ((prefix_cons_inj tx).2 hdone)
        (applyTransactions_cons.2 ⟨run, u, runs, happly, hruns, rfl⟩)
      rwa [flatMap_cons, replay_append, hrows] at hall
    · intro done runs v hdone hruns
      cases done with
      | nil =>
        cases hruns
        rfl
      | cons tx' done =>
        obtain ⟨rfl, hdone'⟩ := cons_prefix_cons.1 hdone
        obtain ⟨run', u', runs, happly', hruns, rfl⟩ := applyTransactions_cons.1 hruns
        cases happly.symm.trans happly'
        rw [flatMap_cons, replay_append, hfirst.2 hharmless]
        exact hrest.2 (heach run u happly) done runs v hdone' hruns

/-- The changes of an upgrade, if it was not skipped. -/
def upgradeChanges (run : Option (υ × LedgerEntryChanges)) : LedgerEntryChanges :=
  (run.map Prod.snd).getD []

include h in
theorem applyUpgrade_spec (upgrade : Trace seq υ) :
    wp (applyUpgrade (stackAccess seq) upgrade)
      (fun run => Leads seq root level parents (upgradeChanges run)) Fatal s := by
  refine wp_seq h.depth (fun n t ht => ?_)
  obtain ⟨rfl, rfl⟩ := ht
  refine wp_seq (inChild_spec h upgrade) fun run t ht => ?_
  cases run with
  | none =>
    exact wp_seq (Above.unwind ht h.isOpen.covered)
      (fun _ u hu => wp_pure.2 ⟨level.covered, hu, rfl⟩)
  | some run => exact wp_pure.2 ht

include h in
theorem applyUpgrades_spec (upgrades : List (Trace seq υ)) :
    wp (applyUpgrades (stackAccess seq) upgrades)
      (fun runs => Leads seq root level parents (runs.flatMap upgradeChanges)) Fatal s := by
  induction upgrades generalizing s level with
  | nil => exact wp_pure.2 (leads_nil h)
  | cons upgrade upgrades ih =>
    refine wp_seq (applyUpgrade_spec h upgrade) fun run t ht => ?_
    obtain ⟨level', hready, hnewest⟩ := ht
    refine wp_seq (ih hready) (fun runs u hu => wp_pure.2 ?_)
    exact Leads.trans hnewest hu

end Steps

/-! ### A whole close -/

section Close

variable {header : LedgerHeader} {level : Level} {root : Root} {s : LedgerStack} {φ ρ ω υ : Type}

/-- The ledger state that a close opens on the root. -/
theorem open_ready (hcache : CacheAgrees root) (header : LedgerHeader) :
    wp (do step (.openChild true); step (.writeHeader header))
      (fun _ t => ∃ level, Ready header.ledgerSeq root level [] t ∧
        newest [level] root.database = root.database.lookup) Fatal { root } := by
  rw [wp_bind]
  unfold step
  rw [wp_get_bind]
  show wp (openOnRoot true) _ _ _
  unfold openOnRoot
  refine wp_modify.2 ?_
  rw [wp_get_bind]
  refine wp_modify.2 ?_
  refine ⟨{ header, shouldUpdateLastModified := true }, ⟨rfl, ⟨rfl, rfl, rfl, stamped_empty⟩,
    ⟨fun key hdead => ?_, trivial⟩, .refl hcache⟩, rfl⟩
  cases hdead

theorem openLedger_spec (hcache : CacheAgrees root)
    (txs : List (TransactionProgram (Trace header.ledgerSeq) φ ρ ω)) :
    wp (openLedger (stackAccess header.ledgerSeq) header txs)
      (fun fees t => ∃ level, Ready header.ledgerSeq root level [] t ∧
        t.rows = replay (fees.flatMap Prod.snd) root.database.lookup) Fatal { root } := by
  have hopen := wp_bind.1 (open_ready hcache header)
  refine wp_seq hopen (fun _ t ht => wp_seq ht fun _ t ht => ?_)
  obtain ⟨level, hready, hshown⟩ := ht
  refine wp_imp (processFeesSeqNums_spec hready) fun fees u hu => ?_
  obtain ⟨level', hready', -⟩ := id hu
  exact ⟨level', hready', by rw [hu.rows hready, hready.rows, hshown]⟩

/-- The commit at the end of a close. -/
theorem commit_root {seq : Nat} (h : Ready seq root level [] s) :
    wp (step .commit)
      (fun _ t => t.root.database.lookup = newest [level] root.database) Fatal s := by
  unfold step
  rw [wp_get_bind]
  simp only [h.levels]
  refine wp_commit_root h.reread.cache (fun _ => rfl) (h.reread.database ▸ h.nulls)
    fun root' _ _ hlookup => funext fun key => ?_
  rw [hlookup, h.isOpen.lookup_sealedEntry, h.reread.database]
  cases hrecord : level.entry.lookup key with
  | none =>
    rw [newest_of_none hrecord]
    rfl
  | some record => exact (newest_of_some hrecord).symm

/-- What a close has come to: the transactions were applied once the fees were charged, and the
database holds what was shown after them and the upgrades. -/
theorem closeLedger_spec (hcache : CacheAgrees root) (header : LedgerHeader)
    (close : CloseProgram (Trace header.ledgerSeq) φ ρ ω υ) :
    wp (closeLedger (stackAccess header.ledgerSeq) header close)
      (fun run t => ∃ level s u,
        openLedger (stackAccess header.ledgerSeq) header close.txs { root } = .ok run.fees s ∧
        Ready header.ledgerSeq root level [] s ∧
        s.rows = replay (run.fees.flatMap Prod.snd) root.database.lookup ∧
        applyTransactions (stackAccess header.ledgerSeq) close.txs s = .ok run.txs u ∧
        t.root.database.lookup = replay (run.upgrades.flatMap upgradeChanges) u.rows)
      Fatal { root } := by
  refine wp_seq_run (openLedger_spec hcache close.txs) fun fees s hopened hs => ?_
  obtain ⟨level, hready, hfees⟩ := hs
  refine wp_seq_run (applyTransactions_spec hready) fun txs u happlied hu => ?_
  obtain ⟨level', hready', -⟩ := hu
  refine wp_seq (applyUpgrades_spec hready' close.upgrades) fun upgrades v hv => ?_
  have hrows := hv.rows hready'
  obtain ⟨level'', hready'', -⟩ := hv
  refine wp_seq (commit_root hready'') (fun _ t ht => wp_pure.2 ?_)
  exact ⟨level, s, u, hopened, hready, hfees, happlied, by rw [ht, ← hready''.rows, hrows]⟩

/-- Replaying what a close has stored gives the entries of the new ledger if each transaction is
harmless in the ledger state in which it is applied. After every transaction, replaying what has
been stored until then gives what is shown exactly under this condition. -/
theorem replay_closeLedger (root : Root) (hcache : CacheAgrees root) (header : LedgerHeader)
    (close : CloseProgram (Trace header.ledgerSeq) φ ρ ω υ) (run : CloseRun φ ρ ω υ)
    (t : LedgerStack)
    (hrun : closeLedger (stackAccess header.ledgerSeq) header close { root } = .ok run t) :
    ∃ s, openLedger (stackAccess header.ledgerSeq) header close.txs { root } = .ok run.fees s ∧
      s.rows = replay (run.fees.flatMap Prod.snd) root.database.lookup ∧
      (ReplaysEach close.txs s ↔ EachHarmless close.txs s) ∧
      (EachHarmless close.txs s →
        replay run.changes root.database.lookup = t.root.database.lookup) := by
  obtain ⟨level, s, u, hopened, hready, hfees, happlied, hdatabase⟩ :=
    wp_ok (closeLedger_spec hcache header close) hrun
  have hiff := replaysEach_iff hready happlied
  refine ⟨s, hopened, hfees, hiff, fun hharmless => ?_⟩
  have htxs := hiff.2 hharmless close.txs run.txs u prefix_rfl happlied
  rw [hdatabase, ← htxs, hfees, CloseRun.changes, replay_append, replay_append]
  rfl

end Close

/-! ### An operation that throws after another one -/

section Undone

/-- The account with some balance, sequence number and number of subentries. -/
def traderWith (ledgerSeq : Nat) (balance seqNum : Int) (numSubEntries : UInt32) : LedgerEntry where
  lastModifiedLedgerSeq := ledgerSeq
  data := .account { accountID := 1, balance, seqNum, numSubEntries }

def note : LedgerEntry where
  lastModifiedLedgerSeq := 1
  data := .data { accountID := 1, dataName := [97], dataValue := [1] }

/-- A ledger with an offer whose identifier has not been given out yet. -/
def traderRoot : Root where
  database := (Table.empty.upsert (traderWith 1 1000 0 1)).upsert nativeOffer
  entryCache := { maxSize := 4096 }
  header := { emptyRoot.header with idPool := 6 }

/-- The header of the next ledger. -/
def traderHeader : LedgerHeader :=
  { traderRoot.header with ledgerSeq := 2, closeTime := 5 }

/-- A program that returns and opens no ledger state. -/
def returning {α : Type} (result : α) (ops : List Op) (h : Confined 2 false 0 ops) :
    Trace 2 α :=
  ⟨ops, some result, h⟩

/-- `ManageDataOpFrame` for a new entry. -/
def addNote : Trace 2 Bool :=
  returning true
    [.load (.account 1), .load note.data.key, .write (traderWith 1 900 1 2), .create note]
    ⟨trivial, trivial, trivial, trivial, Or.inr rfl⟩

/-- An operation that only loads the account. -/
def touch : Trace 2 Bool :=
  returning true [.load (.account 1)] ⟨trivial, Or.inr rfl⟩

/-- `ManageOfferOpFrame` for a new offer, which gets an identifier that is in use. -/
def addOffer : Trace 2 Bool :=
  returning true
    [.openChild true, .load (.account 1), .writeHeader { traderHeader with idPool := 7 },
      .write (traderWith 1 900 1 3), .create nativeOffer, .commit]
    ⟨trivial, trivial, rfl, trivial, trivial, Nat.one_pos, Or.inr rfl⟩

/-- A transaction of the account with some operations. -/
def traderTx (operations : List (Trace 2 Bool)) : TransactionProgram (Trace 2) Unit Bool Bool where
  processFeeSeqNum := returning () [.load (.account 1), .write (traderWith 1 900 0 1),
    .writeHeader { traderHeader with feePool := 100 }]
    ⟨trivial, trivial, rfl, Or.inr rfl⟩
  prepare := returning true [.load (.account 1), .write (traderWith 1 900 1 1)]
    ⟨trivial, trivial, Or.inr rfl⟩
  valid := id
  operations := operations
  success := id

def traderClose (operations : List (Trace 2 Bool)) :
    CloseProgram (Trace 2) Unit Bool Bool Unit where
  txs := [traderTx operations]
  upgrades := []

/-- The changes that the transactions of a close have stored, and those of them that were kept. -/
def storedAndKept (operations : List (Trace 2 Bool)) :
    Option (LedgerEntryChanges × LedgerEntryChanges) :=
  match closeLedger (stackAccess 2) traderHeader (traderClose operations)
      { root := traderRoot } with
  | .ok run _ => some (run.txs.flatMap TransactionRun.changes,
      run.txs.flatMap TransactionRun.keptChanges)
  | .error _ _ => none

/-- The account is stored as it is by an operation that is undone. -/
theorem replay_closeLedger_touched :
    ∃ run t, closeLedger (stackAccess 2) traderHeader (traderClose [touch, addOffer])
        { root := traderRoot } = .ok run t ∧
      replay run.changes traderRoot.database.lookup = t.root.database.lookup := by
  have hcache : CacheAgrees traderRoot := fun item h => by cases h
  have hstored : storedAndKept [touch, addOffer] =
      some ([.state (traderWith 2 900 0 1), .updated (traderWith 2 900 1 1),
        .state (traderWith 2 900 1 1), .updated (traderWith 2 900 1 1)],
      [.state (traderWith 2 900 0 1), .updated (traderWith 2 900 1 1)]) := by
    decide +kernel
  unfold storedAndKept at hstored
  cases hrun : closeLedger (stackAccess 2) traderHeader (traderClose [touch, addOffer])
      { root := traderRoot } with
  | error e t =>
    rw [hrun] at hstored
    cases hstored
  | ok run t =>
    rw [hrun] at hstored
    obtain ⟨hchanges, hkept⟩ := Prod.mk.inj (some.inj hstored)
    obtain ⟨s, hopened, -, hiff, hreplay⟩ := replay_closeLedger traderRoot hcache traderHeader
      (traderClose [touch, addOffer]) run t hrun
    obtain ⟨level, s', u, hopened', hready, -, happlied, -⟩ :=
      wp_ok (closeLedger_spec hcache traderHeader (traderClose [touch, addOffer])) hrun
    cases hopened.symm.trans hopened'
    have heach : ReplaysEach (traderClose [touch, addOffer]).txs s := by
      intro done runs v hdone hruns
      rcases prefix_cons_iff.1 hdone with rfl | ⟨none, rfl, hnone⟩
      · cases hruns
        rfl
      · obtain rfl := prefix_nil.1 hnone
        cases happlied.symm.trans hruns
        rw [(wp_ok (applyTransactions_spec hready) happlied).rows hready, hchanges, hkept]
        exact Function.update_idem _ _ _
    exact ⟨run, t, rfl, hreplay (hiff.1 heach)⟩

/-- What the stored changes of a close give for an entry, and what the ledger holds. -/
def replayedAndHeld (operations : List (Trace 2 Bool)) (key : LedgerKey) :
    Option (Option LedgerEntry × Option LedgerEntry) :=
  match closeLedger (stackAccess 2) traderHeader (traderClose operations)
      { root := traderRoot } with
  | .ok run t => some (replay run.changes traderRoot.database.lookup key,
      t.root.database.lookup key)
  | .error _ _ => none

/-- The first operation has stored a new entry, and the second one throws: the stored changes have
the entry, and the ledger does not. -/
theorem undone_changes_stored :
    replayedAndHeld [addNote, addOffer] note.data.key =
      some (some { note with lastModifiedLedgerSeq := 2 }, none) := by
  decide +kernel

end Undone

end SpnCore.Ledger.Nested
