import SpnCore.Buckets.ApplyBuckets

/-!
# What applying buckets does to the rows

Applying a bucket sets the rows of the keys that it holds, in whatever batches it is done. The work
goes through all levels and ends, and the rows are then what the buckets make of them one after the
other.
-/

namespace SpnCore.Buckets

open Lib Ledger Option

variable {b : Bucket} {record : Record} {database : Database} {key : LedgerKey}

/-- The rows after a bucket was applied. -/
def applyBucket (b : Bucket) (rows : Rows) : Rows := fun key =>
  (findKey b key).elim (rows key) Record.value?

@[simp] theorem applyBucket_nil (rows : Rows) : applyBucket [] rows = rows := rfl

theorem lookup_applyRecord (database : Database) (record : Record) (key : LedgerKey) :
    (applyRecord database record).lookup key =
      if key = Keyed.key record then record.value? else database.lookup key := by
  cases record with
  | live entry => exact Table.lookup_upsert database entry key
  | dead k => exact Table.lookup_erase database k key

/-! ### A batch -/

/-- Applying the first record and keeping it makes no difference to what is to come. -/
theorem applyBucket_again (record : Record) (b : Bucket) (database : Database) :
    applyBucket (record :: b) (applyRecord database record).lookup =
      applyBucket (record :: b) database.lookup := by
  funext key
  rw [applyBucket, applyBucket, findKey_cons]
  split
  · rfl
  case isFalse hne => rw [lookup_applyRecord, if_neg (Ne.symm hne)]

/-- Applying the first record and moving on makes no difference to what is to come. -/
theorem applyBucket_tail (hb : DistinctKeys (record :: b)) (database : Database) :
    applyBucket b (applyRecord database record).lookup =
      applyBucket (record :: b) database.lookup := by
  have hrecord := (List.pairwise_cons.1 hb).1
  funext key
  rw [applyBucket, applyBucket, findKey_cons, lookup_applyRecord]
  by_cases hkey : Keyed.key record = key
  · have hnone : findKey b key = none :=
      findKey_eq_none.2 fun v hv h => hrecord v hv (hkey.trans h.symm)
    rw [if_pos hkey, if_pos hkey.symm, hnone]
    rfl
  · rw [if_neg hkey, if_neg (Ne.symm hkey)]

/-- An applicator that has a bucket with different keys, and moves on when it is advanced. -/
structure BucketApplicator.Ready (applicator : BucketApplicator) : Prop where
  distinct : DistinctKeys applicator.bucketIter
  moves : applicator.bucketIter = [] ∨ applicator.size % 256 ≠ 254

theorem advanceLoop_spec (hb : DistinctKeys b) (size : Nat) (database : Database) :
    (advanceLoop b size database).1.Ready ∧
    (advanceLoop b size database).1.bucketIter.length ≤ b.length ∧
    applyBucket (advanceLoop b size database).1.bucketIter
        (advanceLoop b size database).2.lookup = applyBucket b database.lookup := by
  induction b generalizing size database with
  | nil => exact ⟨⟨hb, Or.inl rfl⟩, le_rfl, rfl⟩
  | cons record b ih =>
    rw [advanceLoop]
    by_cases hbreak : (size + 1) % 256 = 255
    · rw [if_pos hbreak]
      exact ⟨⟨hb, Or.inr (by rw [hbreak]; decide)⟩, le_rfl, applyBucket_again record b database⟩
    · rw [if_neg hbreak]
      obtain ⟨hready, hlength, hrows⟩ :=
        ih (List.pairwise_cons.1 hb).2 (size + 1) (applyRecord database record)
      exact ⟨hready, hlength.trans (Nat.le_succ _), hrows.trans (applyBucket_tail hb database)⟩

/-- A batch makes no difference to what the rows are in the end, and leaves fewer records. -/
theorem BucketApplicator.advance_spec {applicator : BucketApplicator} (hready : applicator.Ready)
    (hmore : applicator.more = true) (database : Database) :
    (applicator.advance database).1.Ready ∧
    (applicator.advance database).1.bucketIter.length < applicator.bucketIter.length ∧
    applyBucket (applicator.advance database).1.bucketIter (applicator.advance database).2.lookup =
      applyBucket applicator.bucketIter database.lookup := by
  obtain ⟨bucketIter, size⟩ := applicator
  obtain ⟨hdistinct, hmoves⟩ := hready
  cases bucketIter with
  | nil => cases hmore
  | cons record b =>
    have hnext : ¬ (size + 1) % 256 = 255 := by
      rcases hmoves with hnil | hsize
      · cases hnil
      · exact fun h => hsize (by simp only; omega)
    obtain ⟨hready, hlength, hrows⟩ :=
      advanceLoop_spec (List.pairwise_cons.1 hdistinct).2 (size + 1) (applyRecord database record)
    rw [BucketApplicator.advance, advanceLoop, if_neg hnext]
    exact ⟨hready, Nat.lt_succ_of_le hlength, hrows.trans (applyBucket_tail hdistinct database)⟩

/-! ### A level -/

namespace ApplyBucketsWork

variable {bucketList : Levels} {applyState : HistoryArchiveState} {work work' : ApplyBucketsWork}
  {rows : Rows}

/-- The records that an applicator is still to apply. -/
def remaining (applicator : Option BucketApplicator) : Bucket :=
  applicator.elim [] BucketApplicator.bucketIter

/-- The work at a level is going to make the rows these ones. -/
structure Heading (rows : Rows) (work : ApplyBucketsWork) : Prop where
  snapReady : ∀ applicator ∈ work.snapApplicator, applicator.Ready
  currReady : ∀ applicator ∈ work.currApplicator, applicator.Ready
  rows_eq : applyBucket (remaining work.currApplicator)
    (applyBucket (remaining work.snapApplicator) work.database.lookup) = rows

/-- How much the work at a level has left: applicators and records. -/
def load (work : ApplyBucketsWork) : Nat :=
  work.snapApplicator.elim 0 (fun applicator => applicator.bucketIter.length + 1) +
    work.currApplicator.elim 0 (fun applicator => applicator.bucketIter.length)

theorem remaining_eq_nil {applicator : Option BucketApplicator}
    (h : applicator.any BucketApplicator.more = false) : remaining applicator = [] := by
  cases applicator with
  | none => rfl
  | some applicator =>
    have hempty : applicator.bucketIter = [] := by simpa [BucketApplicator.more] using h
    exact hempty

/-- A run advances an applicator, or there is nothing to advance. The current bucket waits for the
snapshot. -/
theorem Heading.onRun (h : Heading rows work) :
    Heading rows work.onRun ∧ work.onRun.level = work.level ∧
    work.onRun.applying = work.applying ∧
    (work.onRun.load < work.load ∨
      work.onRun = work ∧ work.snapApplicator.any BucketApplicator.more = false ∧
        (work.snapApplicator = none → work.currApplicator.any BucketApplicator.more = false)) := by
  obtain ⟨database, level, applying, snapApplicator, currApplicator, state⟩ := work
  cases snapApplicator with
  | some applicator =>
    by_cases hmore : applicator.more = true
    · obtain ⟨hready, hlength, hrows⟩ :=
        applicator.advance_spec (h.snapReady _ rfl) hmore database
      have hgo : ApplyBucketsWork.onRun
          ⟨database, level, applying, some applicator, currApplicator, state⟩ =
          ⟨(applicator.advance database).2, level, applying,
            some (applicator.advance database).1, currApplicator, state⟩ := if_pos hmore
      rw [hgo]
      refine ⟨⟨?_, h.currReady, ?_⟩, rfl, rfl, Or.inl ?_⟩
      · rintro _ ⟨⟩
        exact hready
      · rw [← h.rows_eq]
        exact congrArg _ hrows
      · exact Nat.add_lt_add_right (Nat.succ_lt_succ hlength) _
    · have hstay : ApplyBucketsWork.onRun
          ⟨database, level, applying, some applicator, currApplicator, state⟩ =
          ⟨database, level, applying, some applicator, currApplicator, state⟩ := if_neg hmore
      rw [hstay]
      refine ⟨h, rfl, rfl, Or.inr ⟨rfl, ?_, fun hnone => by cases hnone⟩⟩
      exact Bool.eq_false_iff.2 hmore
  | none =>
    cases currApplicator with
    | some applicator =>
      by_cases hmore : applicator.more = true
      · obtain ⟨hready, hlength, hrows⟩ :=
          applicator.advance_spec (h.currReady _ rfl) hmore database
        have hgo : ApplyBucketsWork.onRun
            ⟨database, level, applying, none, some applicator, state⟩ =
            ⟨(applicator.advance database).2, level, applying, none,
              some (applicator.advance database).1, state⟩ := if_pos hmore
        rw [hgo]
        refine ⟨⟨h.snapReady, ?_, ?_⟩, rfl, rfl, Or.inl ?_⟩
        · rintro _ ⟨⟩
          exact hready
        · rw [← h.rows_eq]
          exact hrows
        · exact Nat.add_lt_add_left hlength _
      · have hstay : ApplyBucketsWork.onRun
            ⟨database, level, applying, none, some applicator, state⟩ =
            ⟨database, level, applying, none, some applicator, state⟩ := if_neg hmore
        rw [hstay]
        exact ⟨h, rfl, rfl, Or.inr ⟨rfl, rfl, fun _ => Bool.eq_false_iff.2 hmore⟩⟩
    | none => exact ⟨h, rfl, rfl, Or.inr ⟨rfl, rfl, fun _ => rfl⟩⟩

/-- A run leaves less to do at the level, or finishes it. -/
theorem Heading.turn (h : Heading rows work) :
    (work.onRun.onSuccess.state = .running ∧ Heading rows work.onRun.onSuccess ∧
      work.onRun.onSuccess.level = work.level ∧
      work.onRun.onSuccess.applying = work.applying ∧
      work.onRun.onSuccess.load < work.load) ∨
    ∃ database state, database.lookup = rows ∧ work.onRun.onSuccess =
      nextLevel { database, level := work.level, applying := work.applying, state } := by
  obtain ⟨hrun, hlevel, happlying, hload⟩ := h.onRun
  generalize work.onRun = mid at *
  rw [onSuccess]
  by_cases hsnap : mid.snapApplicator.any BucketApplicator.more = true
  · rw [if_pos hsnap]
    refine Or.inl ⟨rfl, ⟨hrun.snapReady, hrun.currReady, hrun.rows_eq⟩, hlevel, happlying, ?_⟩
    rcases hload with hless | ⟨rfl, hnone, -⟩
    · exact hless
    · rw [hnone] at hsnap
      cases hsnap
  · have hsnapNil := remaining_eq_nil (Bool.eq_false_iff.2 hsnap)
    have hrows := hrun.rows_eq
    rw [hsnapNil, applyBucket_nil] at hrows
    rw [if_neg hsnap]
    by_cases hcurr : mid.currApplicator.any BucketApplicator.more = true
    · dsimp only
      rw [if_pos hcurr]
      refine Or.inl ⟨rfl, ⟨(fun _ hnone => by cases hnone), hrun.currReady, hrows⟩, hlevel,
        happlying, ?_⟩
      have hcount : mid.load = mid.snapApplicator.elim 0
          (fun applicator => applicator.bucketIter.length + 1) +
            load { mid with snapApplicator := none, state := .running } :=
        congrArg _ (Nat.zero_add _).symm
      rcases hload with hless | ⟨rfl, -, hnone⟩
      · omega
      · cases hsome : mid.snapApplicator with
        | none =>
          rw [hnone hsome] at hcurr
          cases hcurr
        | some applicator =>
          rw [hsome, elim_some] at hcount
          omega
    · rw [if_neg hcurr]
      rw [remaining_eq_nil (Bool.eq_false_iff.2 hcurr), applyBucket_nil] at hrows
      exact Or.inr ⟨mid.database, mid.state, hrows, by rw [← hlevel, ← happlying]⟩

/-- The work gets from one state to another. -/
def Reaches (bucketList : Levels) (applyState : HistoryArchiveState)
    (work work' : ApplyBucketsWork) : Prop :=
  ∃ runs, work.run bucketList applyState runs = some work'

theorem Reaches.refl (work : ApplyBucketsWork) : Reaches bucketList applyState work work :=
  ⟨0, rfl⟩

theorem Reaches.step (hstep : work.step bucketList applyState = some work')
    {final : ApplyBucketsWork} (h : Reaches bucketList applyState work' final) :
    Reaches bucketList applyState work final := by
  obtain ⟨runs, hruns⟩ := h
  exact ⟨runs + 1, by rw [run, hstep, bind_some, hruns]⟩

theorem Reaches.trans {work₁ work₂ work₃ : ApplyBucketsWork}
    (h : Reaches bucketList applyState work₁ work₂)
    (h' : Reaches bucketList applyState work₂ work₃) :
    Reaches bucketList applyState work₁ work₃ := by
  obtain ⟨runs, hruns⟩ := h
  induction runs generalizing work₁ with
  | zero =>
    cases hruns
    exact h'
  | succ runs ih =>
    obtain ⟨next, hstep, hrest⟩ := bind_eq_some_iff.1 hruns
    exact Reaches.step hstep (ih hrest)

/-- The work ends in one way. -/
theorem Reaches.success_unique {final final' : ApplyBucketsWork}
    (h : Reaches bucketList applyState work final) (hfinal : final.state = .success)
    (h' : Reaches bucketList applyState work final') (hfinal' : final'.state = .success) :
    final = final' := by
  -- nothing happens after a success
  have hstays : ∀ (w w' : ApplyBucketsWork) runs, w.state = .success →
      w.run bucketList applyState runs = some w' → w = w' := by
    intro w w' runs hsuccess
    induction runs with
    | zero => exact some.inj
    | succ runs ih =>
      rw [run, ApplyBucketsWork.step, hsuccess, bind_some]
      exact ih
  obtain ⟨runs, hruns⟩ := h
  obtain ⟨runs', hruns'⟩ := h'
  induction runs generalizing work runs' with
  | zero =>
    cases hruns
    exact hstays _ _ _ hfinal hruns'
  | succ runs ih =>
    cases runs' with
    | zero =>
      cases hruns'
      exact (hstays _ _ _ hfinal' hruns).symm
    | succ runs' =>
      obtain ⟨next, hstep, hrest⟩ := bind_eq_some_iff.1 hruns
      obtain ⟨next', hstep', hrest'⟩ := bind_eq_some_iff.1 hruns'
      cases hstep.symm.trans hstep'
      exact ih hrest runs' hrest'

/-- A level is finished with the rows that it was heading for. -/
theorem Heading.finish (h : Heading rows work) :
    ∃ database state, database.lookup = rows ∧
      Reaches bucketList applyState work.onRun.onSuccess
        (nextLevel { database, level := work.level, applying := work.applying, state }) := by
  induction hload : work.load using Nat.strong_induction_on generalizing work with
  | _ amount ih =>
    rcases h.turn with
      ⟨hstate, hheading, hlevel, happlying, hless⟩ | ⟨database, state, hrows, hdone⟩
    · obtain ⟨database, state, hrows, hreaches⟩ := ih _ (hload ▸ hless) hheading rfl
      rw [hlevel, happlying] at hreaches
      exact ⟨database, state, hrows,
        Reaches.step (by rw [ApplyBucketsWork.step, hstate]) hreaches⟩
    · exact ⟨database, state, hrows, by rw [hdone]; exact Reaches.refl _⟩

end ApplyBucketsWork

/-! ### All levels -/

/-- The rows without those modified since a ledger. -/
def deleteSince (ledger : Nat) (rows : Rows) : Rows := fun key =>
  (rows key).filter fun entry => decide (entry.lastModifiedLedgerSeq < ledger)

theorem lookup_deleteObjects (ledger : Nat) (database : Database) :
    (deleteObjectsModifiedOnOrAfterLedger ledger database).lookup =
      deleteSince ledger database.lookup :=
  funext fun key => Table.lookup_filter _ database key

section Levels

variable (bucketList : Levels) (applyState : HistoryArchiveState)

/-- What a level deletes, with the function that deletes what was modified since a ledger. -/
def deleteAt {α : Type} (delete : Nat → α → α) (level : Nat) (applying : Bool) (a : α) : Option α :=
  if !applying && (applySnap bucketList applyState level ||
      applyCurr bucketList applyState level) then
    (oldestLedger bucketList applyState level).map fun ledger => delete ledger a
  else some a

theorem deleteAt_lookup (level : Nat) (applying : Bool) (database : Database) :
    deleteAt bucketList applyState deleteSince level applying database.lookup =
      (deleteAt bucketList applyState deleteObjectsModifiedOnOrAfterLedger level applying
        database).map Table.lookup := by
  rw [deleteAt, deleteAt]
  split
  · rw [map_map]
    exact congrArg (Option.map · _)
      (funext fun ledger => (lookup_deleteObjects ledger database).symm)
  · rfl

/-- What the first levels make of the rows, from the deepest of them on. -/
def applyLevels : Nat → Bool → Rows → Option Rows
  | 0, _, rows => some rows
  | level + 1, applying, rows =>
    let snap := applying || applySnap bucketList applyState level
    let curr := snap || applyCurr bucketList applyState level
    let i := applyState.currentBuckets level
    (deleteAt bucketList applyState deleteSince level applying rows).bind fun rows =>
      applyLevels level curr
        (applyBucket (if curr then i.curr else []) (applyBucket (if snap then i.snap else []) rows))

end Levels

namespace ApplyBucketsWork

variable {bucketList : Levels} {applyState : HistoryArchiveState} {work work' : ApplyBucketsWork}
  {rows rows' : Rows} {applying : Bool}

/-- An applicator for a bucket, if it is to be applied. -/
def applicatorIf (c : Bool) (b : Bucket) : Option BucketApplicator :=
  if c then some { bucketIter := b } else none

theorem remaining_applicatorIf (c : Bool) (b : Bucket) :
    remaining (applicatorIf c b) = if c then b else [] := by
  cases c <;> rfl

theorem ready_applicatorIf {c : Bool} {b : Bucket} (hb : DistinctKeys b) :
    ∀ applicator ∈ applicatorIf c b, applicator.Ready := by
  intro applicator h
  cases c with
  | false => cases h
  | true =>
    cases h
    exact ⟨hb, Or.inr (show 0 % 256 ≠ 254 by decide)⟩

/-- The work once a level is started. -/
def started (bucketList : Levels) (applyState : HistoryArchiveState) (level : Nat) (applying : Bool)
    (database : Database) : ApplyBucketsWork :=
  let snap := applying || applySnap bucketList applyState level
  let curr := snap || applyCurr bucketList applyState level
  { database, level
    applying := curr
    snapApplicator := applicatorIf snap (applyState.currentBuckets level).snap
    currApplicator := applicatorIf curr (applyState.currentBuckets level).curr }

/-- Starting a level deletes, and sets up the applicators of the buckets to apply. -/
theorem onStart_eq (bucketList : Levels) (applyState : HistoryArchiveState) (level : Nat)
    (applying : Bool) (database : Database) :
    onStart bucketList applyState { database, level, applying } =
      (deleteAt bucketList applyState deleteObjectsModifiedOnOrAfterLedger level applying
        database).map (started bucketList applyState level applying) := by
  unfold onStart deleteAt started
  cases applying <;> cases applySnap bucketList applyState level <;>
    cases applyCurr bucketList applyState level <;>
    cases oldestLedger bucketList applyState level <;> rfl

/-- The work gets through a level. -/
theorem reaches_nextLevel {level : Nat}
    (hsnap : DistinctKeys (applyState.currentBuckets level).snap)
    (hcurr : DistinctKeys (applyState.currentBuckets level).curr) {database : Database}
    (h : applyLevels bucketList applyState (level + 1) applying database.lookup = some rows) :
    ∃ database' applying' state,
      Reaches bucketList applyState { database, level, applying }
        (nextLevel { database := database', level, applying := applying', state }) ∧
      applyLevels bucketList applyState level applying' database'.lookup = some rows := by
  rw [applyLevels, deleteAt_lookup] at h
  cases hdelete : deleteAt bucketList applyState deleteObjectsModifiedOnOrAfterLedger level applying
    database with
  | none =>
    rw [hdelete] at h
    cases h
  | some deleted =>
    rw [hdelete, map_some, bind_some] at h
    have hstart := onStart_eq bucketList applyState level applying database
    rw [hdelete, map_some] at hstart
    have hheading : Heading _ (started bucketList applyState level applying deleted) :=
      ⟨ready_applicatorIf hsnap, ready_applicatorIf hcurr, rfl⟩
    obtain ⟨database', state, hrows, hreaches⟩ := hheading.finish
    refine ⟨database', _, state, Reaches.step ?_ hreaches, ?_⟩
    · rw [step, hstart, map_some]
    · rw [hrows, ← h]
      simp only [started, remaining_applicatorIf]

/-- The work goes through the levels to the end. -/
theorem reaches_success {level : Nat} (hbuckets : ∀ i, i ≤ level → DistinctKeys
      (applyState.currentBuckets i).snap ∧ DistinctKeys (applyState.currentBuckets i).curr)
    {database : Database}
    (h : applyLevels bucketList applyState (level + 1) applying database.lookup = some rows) :
    ∃ final, Reaches bucketList applyState { database, level, applying } final ∧
      final.state = .success ∧ final.database.lookup = rows := by
  induction level generalizing applying database with
  | zero =>
    obtain ⟨hsnap, hcurr⟩ := hbuckets 0 le_rfl
    obtain ⟨database', applying', state, hreaches, hrest⟩ := reaches_nextLevel hsnap hcurr h
    exact ⟨_, hreaches, rfl, some.inj hrest⟩
  | succ level ih =>
    obtain ⟨hsnap, hcurr⟩ := hbuckets (level + 1) le_rfl
    obtain ⟨database', applying', state, hreaches, hrest⟩ := reaches_nextLevel hsnap hcurr h
    obtain ⟨final, hfinal, hstate, hrows⟩ :=
      ih (fun i hi => hbuckets i (hi.trans (Nat.le_succ level))) hrest
    exact ⟨final, hreaches.trans hfinal, hstate, hrows⟩

end ApplyBucketsWork

end SpnCore.Buckets
