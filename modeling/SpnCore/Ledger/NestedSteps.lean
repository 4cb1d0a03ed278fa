import SpnCore.Ledger.FlatLedger

/-!
# Operations on the innermost level

What each operation on the innermost level does to the flat ledger that the stack stands for. All
of them go through three updates of the level: a record of an entry, a record that it does not
exist or the removal of its record, and records that show nothing new.
-/

namespace SpnCore.Ledger.Nested

open Lib List Option

section Innermost

variable {s : LedgerStack} {level level' : Level} {parents levels : List Level} {root' : Root}
  {entry : LedgerEntry} {key : LedgerKey} {op : Op} {e : StateError}

/-- The operation was accepted, and did what it does to the flat ledger. -/
def Done (s : LedgerStack) (op : Op) (t : LedgerStack) : Prop :=
  (flatten s).refusal op = none ∧ Consistent t ∧ flatten t = (flatten s).step op

/-- The operation was refused for the reason that the flat ledger has: nothing is shown
differently. -/
def Refused (s : LedgerStack) (op : Op) (e : StateError) (t : LedgerStack) : Prop :=
  (flatten s).refusal op = some e ∧ Consistent t ∧ flatten t = flatten s

/-- The stack stands for the flat ledger. -/
abbrev Shows (t : LedgerStack) (flat : FlatStack) : Prop := Consistent t ∧ flatten t = flat

/-- A check fails exactly when the flat ledger refuses the operation. -/
theorem wp_ensure_allowed {α : Type} {f : Unit → StackM α} {Q : α → LedgerStack → Prop}
    {t : LedgerStack} {c : Bool} {p : Prop} [Decidable p] {rest : Option StateError}
    (hrefused : ∀ {e}, (flatten s).refusal op = some e → Refused s op e t)
    (hrefusal : (flatten s).refusal op = if p then some e else rest) (hc : c = false ↔ p)
    (h : (flatten s).refusal op = rest → wp (f ()) Q (Refused s op) t) :
    wp (ensure c e >>= f) Q (Refused s op) t := by
  refine wp_bind.2 (wp_ensure.2 ⟨fun hpass => ?_, fun hfail => ?_⟩)
  · refine h (hrefusal.trans (if_neg fun hp => ?_))
    rw [hc.2 hp] at hpass
    cases hpass
  · exact hrefused (hrefusal.trans (if_pos (hc.1 hfail)))

theorem refused_of_reread (hs : Consistent s) (h : Reread s.root root')
    (he : (flatten s).refusal op = some e) : Refused s op e { s with root := root' } :=
  ⟨he, hs.reread h, h.flatten⟩

theorem refused_self (hs : Consistent s) (he : (flatten s).refusal op = some e) :
    Refused s op e s :=
  ⟨he, hs, rfl⟩

/-! ### The flat ledger of the innermost level -/

section Flat

variable (hlevels : s.levels = level :: parents)
include hlevels

/-- The flat ledger holds what the innermost level shows. -/
theorem entries_flatten (key : LedgerKey) :
    (flatten s).current.entries key =
      (newest (level :: parents) s.root.database key).map LedgerEntry.data := by
  simp only [flatten, shown, hlevels]

theorem isSealed_flatten : (flatten s).current.isSealed = level.isSealed := by
  simp only [flatten, shown, hlevels]
  rfl

theorem active_flatten : (flatten s).current.active = level.active := by
  simp only [flatten, shown, hlevels]
  rfl

/-- On a level only the level itself refuses an operation. -/
theorem refusal_flatten (op : Op) (hop : ∀ n, op ≠ .rollback n) :
    (flatten s).refusal op = (flatten s).current.refusal op := by
  have hsaved : (flatten s).saved.isEmpty = false := by
    simp only [flatten, hlevels]
    rfl
  cases op with
  | rollback n => exact absurd rfl (hop n)
  | _ => simp [FlatStack.refusal, hsaved]

/-- Below the innermost level nothing changes. -/
theorem flatten_put (hroot : Reread s.root root') :
    flatten { levels := level' :: parents, root := root' } =
      { flatten s with current := shown (level' :: parents) s.root } := by
  simp only [flatten, hroot.shown, hroot.shownBelow, hlevels, shownBelow]

end Flat

/-- An entry that was written can be handed out. -/
theorem FlatLedger.activate_write (flat : FlatLedger) (data : LedgerEntryData) :
    (flat.write data).activate data.key =
      { flat.write data with active := data.key :: flat.active } := by
  simp [FlatLedger.activate, FlatLedger.write]

/-- What a stack shows can be stored. -/
theorem storable_of_newest {database : Table LedgerEntry}
    (hrows : ∀ key entry, database.lookup key = some entry → Storable key ∧ ValidAssets entry.data)
    (hrecords : ∀ level ∈ levels, ∀ key record, level.entry.lookup key = some record →
      StorableRecord record) (h : newest levels database key = some entry) :
    StorableRecord (.live entry) := by
  induction levels with
  | nil =>
    obtain ⟨hkey, hassets⟩ := hrows key entry h
    have hentry : entry.data.key = key := Table.key_of_lookup h
    refine ⟨?_, ?_⟩
    · rw [key_live, hentry]
      exact hkey
    · rintro _ ⟨⟩
      exact hassets
  | cons level parents ih =>
    cases hlookup : level.entry.lookup key with
    | none =>
      rw [newest_of_none hlookup] at h
      exact ih (fun l hl => hrecords l (mem_cons_of_mem _ hl)) h
    | some record =>
      rw [newest_of_some hlookup] at h
      have hrecord := hrecords level mem_cons_self key record hlookup
      cases record with
      | dead key => cases h
      | live entry' =>
        cases h
        exact hrecord

/-! ### Updates of the innermost level -/

section Updates

variable (hs : Consistent s) (hlevels : s.levels = level :: parents)
include hs hlevels

/-- A new innermost level is consistent when its records can be stored and say of no entry
without need that it does not exist. -/
theorem Consistent.put (hroot : Reread s.root root')
    (hrecords : ∀ key record, level'.entry.lookup key = some record → StorableRecord record)
    (hnulls : ∀ key, level'.entry.lookup key = some (.dead key) →
      (newest parents s.root.database key).isSome = true) :
    Consistent { levels := level' :: parents, root := root' } := by
  have ht := hs.reread hroot
  refine ⟨ht.cache, ht.rows, ?_, ?_⟩
  · intro l hl
    rcases mem_cons.1 hl with rfl | hl
    · exact hrecords
    · exact hs.records l (by rw [hlevels]; exact mem_cons_of_mem _ hl)
  · have hnull := hs.nulls
    rw [hlevels] at hnull
    simp only [NullsBelow, hroot.database]
    exact ⟨hnulls, hnull.2⟩

theorem Consistent.innermost :
    (∀ key record, level.entry.lookup key = some record → StorableRecord record) ∧
    (∀ key, level.entry.lookup key = some (.dead key) →
      (newest parents s.root.database key).isSome = true) := by
  have hnull := hs.nulls
  rw [hlevels] at hnull
  exact ⟨hs.records level (by rw [hlevels]; exact mem_cons_self), hnull.1⟩

/-- Only what the level records of one key changes: so does what the stack shows. -/
theorem record_at (hroot : Reread s.root root')
    (hother : ∀ k, k ≠ key → level'.entry.lookup k = level.entry.lookup k)
    (hrecord : ∀ record, level'.entry.lookup key = some record → StorableRecord record)
    (hnull : level'.entry.lookup key = some (.dead key) →
      (newest parents s.root.database key).isSome = true)
    (hheader : level'.header = level.header) (hsealed : level'.isSealed = level.isSealed) :
    Shows { levels := level' :: parents, root := root' }
      { flatten s with current := { (flatten s).current with
        entries := Function.update (flatten s).current.entries key
          ((newest (level' :: parents) s.root.database key).map LedgerEntry.data)
        active := level'.active } } := by
  obtain ⟨hrecords, hnulls⟩ := hs.innermost hlevels
  constructor
  · refine hs.put hlevels hroot (fun k record h => ?_) fun k h => ?_
    all_goals by_cases hk : k = key
    · exact hrecord record (hk ▸ h)
    · exact hrecords k record ((hother k hk).symm.trans h)
    · subst hk
      exact hnull h
    · exact hnulls k ((hother k hk).symm.trans h)
  · rw [flatten_put hlevels hroot]
    simp only [flatten, hlevels, shown, headerOf, hheader, head?_cons, Option.any_some,
      Option.elim_some, hsealed]
    congr 2
    funext k
    by_cases hk : k = key
    · subst hk
      rw [Function.update_self]
    · rw [Function.update_of_ne hk, newest_congr (hother k hk)]

/-- Recording an entry writes it. -/
theorem record_live (hroot : Reread s.root root') (level' : Level)
    (hlive : StorableRecord (.live entry))
    (hentry : level'.entry = level.entry.upsert (.live entry))
    (hheader : level'.header = level.header) (hsealed : level'.isSealed = level.isSealed) :
    Shows { levels := level' :: parents, root := root' }
      { flatten s with current :=
        { (flatten s).current.write entry.data with active := level'.active } } := by
  have hself : level'.entry.lookup (Keyed.key (Record.live entry)) = some (.live entry) := by
    rw [hentry]; exact Table.lookup_upsert_self
  obtain ⟨hcons, hflat⟩ := record_at hs hlevels hroot
    (fun k hk => by rw [hentry]; exact Table.lookup_upsert_of_ne hk)
    (fun record h => by cases hself.symm.trans h; exact hlive)
    (fun h => by cases hself.symm.trans h) hheader hsealed
  rw [newest_of_some hself] at hflat
  exact ⟨hcons, hflat⟩

/-- The level does not record anything that it does not show already. -/
theorem record_same (hroot : Reread s.root root')
    (hrecords : ∀ key record, level'.entry.lookup key = some record → StorableRecord record)
    (hnulls : ∀ key, level'.entry.lookup key = some (.dead key) →
      (newest parents s.root.database key).isSome = true)
    (hheader : level'.header = level.header)
    (hshown : ∀ key, (newest (level' :: parents) s.root.database key).map LedgerEntry.data =
      (newest (level :: parents) s.root.database key).map LedgerEntry.data) :
    Shows { levels := level' :: parents, root := root' }
      { flatten s with current :=
        { (flatten s).current with isSealed := level'.isSealed, active := level'.active } } := by
  refine ⟨hs.put hlevels hroot hrecords hnulls, ?_⟩
  rw [flatten_put hlevels hroot]
  simp only [flatten, hlevels, shown, headerOf, hheader, hshown]
  rfl

/-- Only the handles of the level change. -/
theorem record_unchanged (level' : Level) (hentry : level'.entry = level.entry)
    (hheader : level'.header = level.header) :
    Shows { levels := level' :: parents, root := s.root }
      { flatten s with current :=
        { (flatten s).current with isSealed := level'.isSealed, active := level'.active } } := by
  obtain ⟨hrecords, hnulls⟩ := hs.innermost hlevels
  refine record_same hs hlevels (.refl hs.cache) ?_ ?_ hheader ?_
  · rw [hentry]; exact hrecords
  · rw [hentry]; exact hnulls
  · intro k
    have h : level'.entry.lookup k = level.entry.lookup k := by rw [hentry]
    rw [newest_congr h]

/-- A level without a record of an entry, or with the record that there is none, shows none. -/
theorem record_erased (hroot : Reread s.root root') (hkey : Storable key)
    (hother : ∀ k, k ≠ key → level'.entry.lookup k = level.entry.lookup k)
    (hself : level'.entry.lookup key = none ∧ newest parents s.root.database key = none ∨
      level'.entry.lookup key = some (.dead key) ∧
        (newest parents s.root.database key).isSome = true)
    (hheader : level'.header = level.header) (hsealed : level'.isSealed = level.isSealed) :
    Shows { levels := level' :: parents, root := root' }
      { flatten s with current :=
        { (flatten s).current.erase key with active := level'.active } } := by
  rcases hself with ⟨hself, hnone⟩ | ⟨hself, hsome⟩
  · obtain ⟨hcons, hflat⟩ := record_at hs hlevels hroot hother
      (fun record h => by cases hself.symm.trans h) (fun h => by cases hself.symm.trans h)
      hheader hsealed
    rw [newest_of_none hself, hnone] at hflat
    exact ⟨hcons, hflat⟩
  · obtain ⟨hcons, hflat⟩ := record_at hs hlevels hroot hother
      (fun record h => by cases hself.symm.trans h; exact ⟨hkey, fun _ he => by cases he⟩)
      (fun _ => hsome) hheader hsealed
    rw [newest_of_some hself] at hflat
    exact ⟨hcons, hflat⟩

end Updates

/-! ### Sealing -/

/-- How a record is sealed. -/
def sealRecord (level : Level) (record : Record) : Record :=
  if level.isSealed then record
  else if level.shouldUpdateLastModified then stamp level.header.ledgerSeq record
  else record

theorem sealRecord_cases (level : Level) (record : Record) :
    sealRecord level record = record ∨
      sealRecord level record = stamp level.header.ledgerSeq record := by
  unfold sealRecord
  split
  · exact Or.inl rfl
  · split
    · exact Or.inr rfl
    · exact Or.inl rfl

/-- Sealing changes no more than when an entry was modified. -/
theorem sealRecord_spec (level : Level) (record : Record) :
    Keyed.key (sealRecord level record) = Keyed.key record ∧
    (sealRecord level record).value?.map LedgerEntry.data = record.value?.map LedgerEntry.data ∧
    ((sealRecord level record).value? = none → sealRecord level record = record) := by
  rcases sealRecord_cases level record with h | h
  · rw [h]
    exact ⟨rfl, rfl, fun _ => rfl⟩
  · rw [h]
    cases record with
    | live entry => exact ⟨rfl, rfl, fun hnone => by cases hnone⟩
    | dead key => exact ⟨rfl, rfl, fun _ => rfl⟩

theorem lookup_sealedEntry (level : Level) (key : LedgerKey) :
    level.sealedEntry.lookup key = (level.entry.lookup key).map (sealRecord level) := by
  unfold Level.sealedEntry
  split
  case isTrue h =>
    have hid : sealRecord level = id := funext fun record => if_pos h
    rw [hid, Option.map_id, id_eq]
  case isFalse h =>
    have hseal : ∀ record, sealRecord level record = if level.shouldUpdateLastModified then
        stamp level.header.ledgerSeq record else record := fun record => if_neg h
    simp only [Level.maybeUpdateLastModified, ← hseal]
    have hround : ∀ (entries : Table Record) record k,
        (entries.upsert (sealRecord level record)).lookup k =
          if k = Keyed.key record then some (sealRecord level record) else entries.lookup k := by
      intro entries record k
      rw [Table.lookup_upsert, (sealRecord_spec level record).1]
    rw [Table.foldl_values (o := fun k entries => Table.lookup entries k)
      (g := fun record _ => some (sealRecord level record)) level.entry hround key]
    cases level.entry.lookup key <;> rfl

/-- A sealed record is one of the level, up to when it was modified. -/
theorem sealed_records (hrecords : ∀ key record, level.entry.lookup key = some record →
      StorableRecord record) :
    ∀ key record, level.sealedEntry.lookup key = some record → StorableRecord record := by
  intro key record h
  rw [lookup_sealedEntry] at h
  obtain ⟨record', hrecord', rfl⟩ := map_eq_some_iff.1 h
  obtain ⟨hkey, hassets⟩ := hrecords key record' hrecord'
  rcases sealRecord_cases level record' with hseal | hseal
  · rw [hseal]
    exact ⟨hkey, hassets⟩
  · rw [hseal]
    cases record' with
    | live entry =>
      refine ⟨hkey, ?_⟩
      rintro _ ⟨⟩
      exact hassets entry rfl
    | dead key => exact ⟨hkey, hassets⟩

theorem sealed_dead (h : level.sealedEntry.lookup key = some (.dead key)) :
    level.entry.lookup key = some (.dead key) := by
  rw [lookup_sealedEntry] at h
  obtain ⟨record, hrecord, hseal⟩ := map_eq_some_iff.1 h
  have hsame := (sealRecord_spec level record).2.2 (by rw [hseal]; rfl)
  rw [hrecord, ← hsame, hseal]

/-! ### Operations -/

section Operations

variable (hs : Consistent s) (hlevels : s.levels = level :: parents)
include hs hlevels

theorem create_spec (hlive : StorableRecord (.live entry)) :
    wp (create level parents entry) (fun _ => Done s (.create entry))
      (Refused s (.create entry)) s := by
  have hrefusal := refusal_flatten hlevels (.create entry) nofun
  simp only [FlatLedger.refusal, isSealed_flatten hlevels, entries_flatten hlevels,
    isSome_map] at hrefusal
  unfold create
  refine wp_ensure_allowed (refused_self hs) hrefusal (by simp) fun hrefusal => ?_
  rw [wp_bind]
  refine wp_newestVersion hs.cache (absurd hlive.1) fun root' hroot => ?_
  refine wp_ensure_allowed (refused_of_reread hs hroot) hrefusal (by simp) fun hrefusal => ?_
  obtain ⟨hcons, hflat⟩ := record_live hs hlevels hroot { level with
    entry := level.entry.upsert (.live entry), active := Keyed.key entry :: level.active }
    hlive rfl rfl rfl
  refine wp_modify.2 ⟨hrefusal, hcons, hflat.trans ?_⟩
  rw [FlatStack.step, FlatLedger.activate_write, active_flatten hlevels]
  rfl

theorem write_spec (hlive : StorableRecord (.live entry)) :
    wp (write level parents entry) (fun _ => Done s (.write entry))
      (Refused s (.write entry)) s := by
  have hrefusal := refusal_flatten hlevels (.write entry) nofun
  simp only [FlatLedger.refusal, active_flatten hlevels] at hrefusal
  unfold write
  refine wp_bind.2 (wp_check.2 ⟨fun hactive => wp_modify.2 ?_, fun hnot => refused_self hs ?_⟩)
  · obtain ⟨hcons, hflat⟩ := record_live hs hlevels (.refl hs.cache) { level with
      entry := level.entry.upsert (.live entry) } hlive rfl rfl rfl
    refine ⟨hrefusal.trans (if_pos hactive), hcons, hflat.trans ?_⟩
    simp only [← active_flatten hlevels]
    rfl
  · exact hrefusal.trans (if_neg hnot)

/-- Loading an entry records it as it is. -/
theorem load_spec (hkey : Storable key) :
    wp (load level parents key) (fun _ => Done s (.load key)) (Refused s (.load key)) s := by
  have hrefusal := refusal_flatten hlevels (.load key) nofun
  simp only [FlatLedger.refusal, isSealed_flatten hlevels, active_flatten hlevels] at hrefusal
  unfold load
  refine wp_ensure_allowed (refused_self hs) hrefusal (by simp) fun hrefusal => ?_
  refine wp_ensure_allowed (refused_self hs) hrefusal (by simp) fun hrefusal => ?_
  rw [wp_bind]
  refine wp_newestVersion hs.cache (absurd hkey) fun root' hroot => ?_
  have hheld := entries_flatten hlevels key
  cases hnewest : newest (level :: parents) s.root.database key with
  | none =>
    refine wp_pure.2 ⟨hrefusal, hs.reread hroot, hroot.flatten.trans ?_⟩
    rw [FlatStack.step, FlatLedger.activate, hheld, hnewest]
    rfl
  | some entry =>
    have hlive : StorableRecord (.live entry) :=
      storable_of_newest hs.rows hs.records (by rw [hlevels]; exact hnewest)
    obtain ⟨hcons, hflat⟩ := record_live hs hlevels hroot { level with
      entry := level.entry.upsert (.live entry), active := key :: level.active } hlive rfl rfl rfl
    refine wp_modify.2 ⟨hrefusal, hcons, hflat.trans ?_⟩
    have hsame : (flatten s).current.entries entry.data.key = some entry.data := by
      rw [key_of_newest hnewest, hheld, hnewest, map_some]
    rw [FlatStack.step, FlatLedger.activate, hheld, hnewest, ← active_flatten hlevels]
    simp only [FlatLedger.write, ← hsame, Function.update_eq_self]
    rfl

theorem deactivate_spec : wp (deactivate level parents key) (fun _ => Done s (.deactivate key))
      (Refused s (.deactivate key)) s := by
  have hrefusal := refusal_flatten hlevels (.deactivate key) nofun
  simp only [FlatLedger.refusal, active_flatten hlevels] at hrefusal
  unfold deactivate
  refine wp_bind.2 (wp_check.2 ⟨fun hactive => wp_modify.2 ?_, fun hnot => refused_self hs ?_⟩)
  · obtain ⟨hcons, hflat⟩ := record_unchanged hs hlevels { level with
      active := level.active.filter fun k => decide (k ≠ key) } rfl rfl
    refine ⟨hrefusal.trans (if_pos hactive), hcons, hflat.trans ?_⟩
    simp only [← active_flatten hlevels, ← isSealed_flatten hlevels]
    rfl
  · exact hrefusal.trans (if_neg hnot)

theorem erase_spec (hkey : Storable key) :
    wp (erase level parents key) (fun _ => Done s (.erase key)) (Refused s (.erase key)) s := by
  have hrefusal := refusal_flatten hlevels (.erase key) nofun
  simp only [FlatLedger.refusal, isSealed_flatten hlevels, entries_flatten hlevels,
    isNone_map] at hrefusal
  unfold erase
  refine wp_ensure_allowed (refused_self hs) hrefusal (by simp) fun hrefusal => ?_
  rw [wp_bind]
  refine wp_newestVersion hs.cache (absurd hkey) fun root' hroot => ?_
  refine wp_ensure_allowed (refused_of_reread hs hroot) hrefusal (by simp) fun hrefusal => ?_
  rw [wp_bind]
  refine wp_newestVersion hroot.cache (absurd hkey) fun root'' hroot' => wp_modify.2 ?_
  refine ⟨hrefusal, And.imp_right (·.trans ?_)
    (record_erased hs hlevels (hroot.trans hroot') hkey ?_ ?_ rfl rfl)⟩
  · intro k hk
    dsimp only
    split
    · exact Table.lookup_erase_of_ne _ hk
    · exact Table.lookup_upsert_of_ne hk
  · simp only [hroot.database]
    cases newest parents s.root.database key with
    | none => exact Or.inl ⟨Table.lookup_erase_self _ _, rfl⟩
    | some entry => exact Or.inr ⟨Table.lookup_upsert_self, rfl⟩
  · rw [FlatStack.step, ← active_flatten hlevels]
    rfl

theorem getChanges_spec : wp (onLevel level parents .getChanges) (fun _ => Done s .getChanges)
      (Refused s .getChanges) s := by
  obtain ⟨hrecords, hnulls⟩ := hs.innermost hlevels
  refine wp_modify.2 ⟨refusal_flatten hlevels _ nofun, record_same hs hlevels (.refl hs.cache)
    (sealed_records hrecords) (fun k h => hnulls k (sealed_dead h)) rfl fun k => ?_⟩
  simp only [newest, lookup_sealedEntry]
  cases level.entry.lookup k with
  | none => rfl
  | some record => exact (sealRecord_spec level record).2.1

theorem writeHeader_spec (header : LedgerHeader) :
    wp (onLevel level parents (.writeHeader header)) (fun _ => Done s (.writeHeader header))
      (Refused s (.writeHeader header)) s := by
  obtain ⟨hrecords, hnulls⟩ := hs.innermost hlevels
  refine wp_modify.2 ⟨refusal_flatten hlevels _ nofun,
    hs.put hlevels (.refl hs.cache) hrecords hnulls, ?_⟩
  simp only [FlatStack.step, flatten, hlevels]
  rfl

theorem openChild_spec (shouldUpdateLastModified : Bool) :
    wp (openChild shouldUpdateLastModified level parents)
      (fun _ => Done s (.openChild shouldUpdateLastModified))
      (Refused s (.openChild shouldUpdateLastModified)) s := by
  have hrefusal := refusal_flatten hlevels (.openChild shouldUpdateLastModified) nofun
  simp only [FlatLedger.refusal, isSealed_flatten hlevels] at hrefusal
  unfold openChild
  refine wp_ensure_allowed (refused_self hs) hrefusal (by simp) fun hrefusal => wp_modify.2 ?_
  obtain ⟨hcons, -⟩ := record_unchanged hs hlevels { level with active := [] } rfl rfl
  refine ⟨hrefusal, ⟨hcons.cache, hcons.rows, ?_, ?_, hcons.nulls⟩, ?_⟩
  · intro l hl
    rcases mem_cons.1 hl with rfl | hl
    · intro k record h
      cases h
    · exact hcons.records l hl
  · intro k h
    cases h
  · -- the level below is as before, without its handles
    simp only [FlatStack.step, flatten, hlevels]
    rfl

end Operations

theorem query_spec (hs : Consistent s) (hkey : Storable key) (levels : List Level) :
    wp (query levels key) (fun _ => Done s (.getNewestVersion key))
      (Refused s (.getNewestVersion key)) s := by
  unfold query
  rw [wp_bind]
  refine wp_newestVersion hs.cache (absurd hkey) fun root' hroot => wp_pure.2 ?_
  exact ⟨rfl, hs.reread hroot, hroot.flatten⟩

theorem openOnRoot_spec (hs : Consistent s) (hlevels : s.levels = [])
    (shouldUpdateLastModified : Bool) :
    wp (openOnRoot shouldUpdateLastModified)
      (fun _ => Done s (.openChild shouldUpdateLastModified))
      (Refused s (.openChild shouldUpdateLastModified)) s := by
  have hroot : flatten s = { current := shown [] s.root } := by
    simp only [flatten, hlevels]
    rfl
  unfold openOnRoot
  refine wp_modify.2 ⟨?_, ⟨hs.cache, hs.rows, ?_, ?_, trivial⟩, ?_⟩
  · rw [hroot]
    rfl
  · intro l hl k record h
    rw [mem_singleton.1 hl] at h
    cases h
  · intro k h
    cases h
  · rw [hroot]
    rfl

theorem nullsBelow_drop {database : Table LedgerEntry} (h : NullsBelow levels database) (n : Nat) :
    NullsBelow (levels.drop n) database := by
  induction n generalizing levels with
  | zero => exact h
  | succ n ih =>
    cases levels with
    | nil => exact h
    | cons level parents => exact ih h.2

/-- The saved copies are what the outer levels show. -/
theorem drop_shownBelow (root : Root) {n : Nat} (h : n < levels.length) :
    (shownBelow levels root).drop n =
      shown (levels.drop (n + 1)) root :: shownBelow (levels.drop (n + 1)) root := by
  induction n generalizing levels with
  | zero =>
    cases levels with
    | nil => cases h
    | cons level parents => rfl
  | succ n ih =>
    cases levels with
    | nil => cases h
    | cons level parents => exact ih (Nat.lt_of_succ_lt_succ h)

theorem length_shownBelow (levels : List Level) (root : Root) :
    (shownBelow levels root).length = levels.length := by
  induction levels with
  | nil => rfl
  | cons level parents ih => simp only [shownBelow, length_cons, ih]

theorem rollback_spec (hs : Consistent s) (n : Nat) :
    wp (rollback n) (fun _ => Done s (.rollback n)) (Refused s (.rollback n)) s := by
  have hrefusal : (flatten s).refusal (.rollback n) =
      if n < s.levels.length then none else some .noLevel := by
    simp only [FlatStack.refusal, flatten, length_shownBelow]
  unfold rollback
  rw [wp_get_bind, wp_bind, wp_check]
  refine ⟨fun hn => wp_set.2 ⟨hrefusal.trans (if_pos hn), ⟨hs.cache, hs.rows, ?_,
    nullsBelow_drop hs.nulls _⟩, ?_⟩, fun hn => refused_self hs (hrefusal.trans (if_neg hn))⟩
  · exact fun l hl => hs.records l (mem_of_mem_drop hl)
  · simp only [FlatStack.step, FlatStack.restore, flatten, drop_shownBelow s.root hn]

end Innermost

end SpnCore.Ledger.Nested
