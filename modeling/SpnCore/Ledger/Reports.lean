import SpnCore.Invariant.LedgerStateDelta
import SpnCore.Ledger.Replay

/-!
# What a ledger state reports before it is committed

`getChanges`, `getLiveEntries`, `getDeadEntries` and `getDelta` list the records of a ledger state
as they will be committed, and seal it. The assertion in `getChanges`, that an entry which the
parent does not know is live, holds after any operations on a stack of any depth: a record that an
entry does not exist is made only if the parent has it, and survives a commit only then.

Nothing is assumed about the entries. A report is stopped only by the look-up of a key under which
the database cannot hold an entry: the program aborts then.
-/

namespace SpnCore.Ledger.Nested

open Lib List

/-! ### The reports -/

section Reports

variable {α : Type}

/-- `maybeUpdateLastModifiedThenInvokeThenSeal` on the innermost level. -/
def invokeThenSeal (f : Level → List Level → List Record → StackM α) : StackM α := do
  let s ← get
  match s.levels with
  | [] => throw .noLevel
  | level :: parents => do
      let report ← f level parents level.sealedEntry.values
      putLevel { level with entry := level.sealedEntry, isSealed := true, active := [] } parents
      return report

def getLiveEntries : StackM (List LedgerEntry) :=
  invokeThenSeal fun _ _ records => return records.filterMap Record.value?

def getDeadEntries : StackM (List LedgerKey) :=
  invokeThenSeal fun _ _ records =>
    return (records.filter fun record => record.value?.isNone).map Keyed.key

/-- A report that is made of one for each record. -/
def forEach (f : Record → StackM (List α)) : List Record → StackM (List α)
  | [] => return []
  | record :: records => do
      let first ← f record
      let later ← forEach f records
      return first ++ later

/-- An entry after and before the changes. -/
def deltaFor (previous : Option LedgerEntry) (record : Record) : Versions LedgerKey LedgerEntry :=
  { key := Keyed.key record, current := record.value?, previous }

def deltaOf (parents : List Level) (record : Record) : 
    StackM (List (Versions LedgerKey LedgerEntry)) := do
  let previous ← newestVersion parents (Keyed.key record)
  return [deltaFor previous record]

def getDelta : StackM (LedgerStateDelta (List (Versions LedgerKey LedgerEntry))) :=
  invokeThenSeal fun level parents records => do
    let entry ← forEach (deltaOf parents) records
    let s ← get
    return { entry, header := ⟨level.header, headerOf parents s.root⟩ }

theorem allChangesOf_eq_forEach (parents : List Level) (records : List Record) :
    allChangesOf parents records = forEach (changesOf parents) records := by
  induction records with
  | nil => rfl
  | cons record records ih =>
    unfold allChangesOf forEach
    rw [ih]

end Reports

/-! ### Runs -/

section Runs

variable {s t : LedgerStack} {level : Level} {rest : List Level} {r : Record}

/-- What every operation keeps, whatever entries it is about. -/
structure Kept (s : LedgerStack) : Prop where
  cache : CacheAgrees s.root
  nulls : NullsBelow s.levels s.root.database

/-- The program has aborted, which needs a record that the database cannot hold. -/
def Aborted (records : List Record) (e : StateError) (_ : LedgerStack) : Prop :=
  e = .fatal ∧ ∃ r ∈ records, ¬ Storable (Keyed.key r)

variable (hs : Kept s) (hlevels : s.levels = level :: rest)
include hs hlevels

theorem Kept.put {root' : Root} (hroot : Reread s.root root') (level' : Level)
    (hdead : ∀ key, level'.entry.lookup key = some (.dead key) →
      level.entry.lookup key = some (.dead key) ∨
        (newest rest s.root.database key).isSome = true) :
    Kept { levels := level' :: rest, root := root' } := by
  have hbelow := hlevels ▸ hs.nulls
  refine ⟨hroot.cache, ?_⟩
  rw [hroot.database]
  exact ⟨fun key h => (hdead key h).elim (hbelow.1 key) id, hbelow.2⟩

theorem Kept.rewrites {x : StackM Unit} (h : Rewrites level rest x s) :
    wp x (fun _ => Kept) (fun e t => e = .fatal ∨ Kept t) s := by
  have hkept : ∀ t, Rewritten level rest s t → Kept t := by
    rintro ⟨levels, root'⟩ ⟨hroot, level', rfl, -, -, -, hnulls⟩
    exact hs.put hlevels hroot level' hnulls
  exact wp_mono h (fun _ => hkept) fun _ t he => he.imp_right (hkept t)

/-- A record that an entry does not exist is one that the parents do not say already. -/
theorem Kept.need (hr : r ∈ level.sealedEntry.values) (hnone : r.value? = none) :
    (newest rest s.root.database (Keyed.key r)).isSome = true := by
  have hbelow := hlevels ▸ hs.nulls
  cases r with
  | live entry => cases hnone
  | dead key => exact hbelow.1 key (sealed_dead (Table.mem_values.1 hr))

/-- After a commit the parents show what the records make of what they showed before. -/
theorem commit_kept :
    wp (commit level rest)
      (fun _ t => Kept t ∧ t.levels.length = rest.length ∧
        ∀ key, newest t.levels t.root.database key =
          (level.sealedEntry.lookup key).elim (newest rest s.root.database key) Record.value?)
      (Aborted level.sealedEntry.values) s := by
  have hbelow := hlevels ▸ hs.nulls
  cases rest with
  | nil =>
    exact wp_commit_root hs.cache (fun hbad => ⟨rfl, hbad⟩) hbelow fun root' _ hcache hlookup =>
      ⟨⟨hcache, trivial⟩, rfl, hlookup⟩
  | cons parent rest =>
    refine wp_commit_parent hs.cache (fun hbad => ⟨rfl, hbad⟩) fun parent' root' hread hinto =>
      ⟨⟨hread.cache, ?_⟩, rfl, fun key => ?_⟩
    · rw [hread.database]
      exact hinto.nulls hbelow.2
    · rw [hread.database]
      exact hinto.newest key

theorem onLevel_kept (op : Op) :
    wp (onLevel level rest op) (fun _ => Kept) (fun e t => e = .fatal ∨ Kept t) s := by
  have hroot : Reread s.root s.root := .refl hs.cache
  cases op with
  | openChild updates =>
    refine wp_guard (Or.inr hs) fun _ => wp_modify.2 ?_
    have hput := hs.put hlevels hroot { level with active := [] } fun _ => Or.inl
    exact ⟨hs.cache, fun key hdead => (by cases hdead), hput.nulls⟩
  | getNewestVersion key => exact hs.rewrites hlevels (query_rewrites hlevels hs.cache key)
  | create entry => exact hs.rewrites hlevels (create_rewrites hlevels hs.cache entry)
  | load key => exact hs.rewrites hlevels (load_rewrites hlevels hs.cache key)
  | write entry => exact hs.rewrites hlevels (write_rewrites hlevels hs.cache entry)
  | deactivate key => exact hs.rewrites hlevels (deactivate_rewrites hlevels hs.cache key)
  | erase key => exact hs.rewrites hlevels (erase_rewrites hlevels hs.cache key)
  | writeHeader header => exact wp_modify.2 (hs.put hlevels hroot _ fun _ => Or.inl)
  | getChanges => exact wp_modify.2 (hs.put hlevels hroot _ fun _ h => Or.inl (sealed_dead h))
  | commit => exact wp_mono (commit_kept hs hlevels) (fun _ _ h => h.1) fun _ _ h => Or.inl h.1
  | rollback n =>
    refine wp_get_bind.2 (wp_guard (Or.inr hs) fun _ => wp_set.2 ?_)
    exact ⟨hs.cache, nullsBelow_drop hs.nulls _⟩

omit hlevels in
theorem step_kept (op : Op) : wp (step op) (fun _ => Kept) (fun e t => e = .fatal ∨ Kept t) s := by
  unfold step
  rw [wp_get_bind]
  cases hlevels : s.levels with
  | cons level parents => exact onLevel_kept hs hlevels op
  | nil =>
    dsimp only
    unfold onRoot
    split
    · refine wp_get_bind.2 (wp_modify.2 ⟨hs.cache, fun key hdead => ?_, trivial⟩)
      cases hdead
    · refine wp_bind.2 (wp_newestVersion hs.cache (fun _ => .inl rfl) fun root' hroot => ?_)
      exact wp_pure.2 ⟨hroot.cache, hroot.database ▸ hs.nulls⟩
    · exact wp_throw.2 (Or.inr hs)

omit hlevels in
theorem runOps_kept {ops : List Op} {trace : List (Op × Option StateError)}
    (hrun : runOps ops s = some (t, trace)) : Kept t := by
  induction ops generalizing s trace with
  | nil =>
    cases hrun
    exact hs
  | cons op ops ih =>
    have hstep := step_kept hs op
    unfold runOps at hrun
    cases hop : step op s with
    | ok _ u =>
      rw [hop] at hrun
      obtain ⟨⟨_, _⟩, hrest, hpair⟩ := Option.map_eq_some_iff.1 hrun
      cases hpair
      exact ih (wp_ok hstep hop) hrest
    | error e u =>
      rw [hop] at hrun
      dsimp only at hrun
      split at hrun
      · cases hrun
      case isFalse hfatal =>
        obtain ⟨⟨_, _⟩, hrest, hpair⟩ := Option.map_eq_some_iff.1 hrun
        cases hpair
        exact ih ((wp_error hstep hop).resolve_left hfatal) hrest

end Runs

/-! ### What is reported -/

section Reported

variable {s : LedgerStack} {level : Level} {parents : List Level} {α : Type} {r : Record}
  {records l : List Record}

/-- The changes for a record, given what the parents show under its key. -/
def changesFor (previous : Option LedgerEntry) (r : Record) : LedgerEntryChanges :=
  match previous with
  | some previous => [.state previous, r.value?.elim (.removed (Keyed.key r)) .updated]
  | none => r.value?.toList.map .created

/-- A program returns a value and changes at most the cache. -/
def Reads (records : List Record) (x : StackM α) (a : α) (s : LedgerStack) : Prop :=
  wp x (fun a' t => a' = a ∧ ∃ root', Reread s.root root' ∧ t = { s with root := root' })
    (Aborted records) s

theorem newestVersion_reads (hcache : CacheAgrees s.root) (hr : r ∈ records) :
    Reads records (newestVersion parents (Keyed.key r))
      (newest parents s.root.database (Keyed.key r)) s :=
  wp_newestVersion hcache (fun hkey => ⟨rfl, r, hr, hkey⟩) fun root' hroot =>
    ⟨rfl, root', hroot, rfl⟩

theorem changesOf_reads (hcache : CacheAgrees s.root) (hr : r ∈ records)
    (hneed : r.value? = none → (newest parents s.root.database (Keyed.key r)).isSome = true) :
    Reads records (changesOf parents r)
      (changesFor (newest parents s.root.database (Keyed.key r)) r) s := by
  refine wp_seq (newestVersion_reads hcache hr) fun previous t ht => ?_
  obtain ⟨rfl, ht⟩ := ht
  cases hnewest : newest parents s.root.database (Keyed.key r) with
  | none =>
    cases r with
    | live entry => exact wp_pure.2 ⟨rfl, ht⟩
    | dead key =>
      rw [hnewest] at hneed
      cases hneed rfl
  | some previous =>
    cases r with
    | live entry => exact wp_pure.2 ⟨rfl, ht⟩
    | dead key => exact wp_pure.2 ⟨rfl, ht⟩

theorem forEach_reads {f : Record → StackM (List α)} {g : Record → List α}
    (hcache : CacheAgrees s.root)
    (hf : ∀ r ∈ l, ∀ root', Reread s.root root' →
      Reads records (f r) (g r) { s with root := root' }) :
    Reads records (forEach f l) (l.flatMap g) s := by
  induction l generalizing s with
  | nil => exact wp_pure.2 ⟨rfl, s.root, .refl hcache, rfl⟩
  | cons r l ih =>
    refine wp_seq (hf r mem_cons_self s.root (.refl hcache)) fun xs t ht => ?_
    obtain ⟨rfl, root', hroot, rfl⟩ := ht
    refine wp_seq (ih (s := { s with root := root' }) hroot.cache fun r' hr root'' hroot' =>
      hf r' (mem_cons_of_mem r hr) root'' (hroot.trans hroot')) fun ys u hu => ?_
    obtain ⟨rfl, root'', hroot', rfl⟩ := hu
    exact wp_pure.2 ⟨rfl, root'', hroot.trans hroot', rfl⟩

/-- The reports of live and dead entries have the keys of all records. -/
theorem reported_perm (records : List Record) :
    ((records.filterMap Record.value?).map Keyed.key ++
      (records.filter fun r => r.value?.isNone).map Keyed.key).Perm
        (records.map (Keyed.key : Record → LedgerKey)) := by
  induction records with
  | nil => exact .nil
  | cons r records ih =>
    cases r with
    | live entry => exact ih.cons _
    | dead key => exact perm_middle.trans (ih.cons _)

theorem mem_keys_sealedEntry (level : Level) (key : LedgerKey) :
    key ∈ level.sealedEntry.values.map Keyed.key ↔ (level.entry.lookup key).isSome = true := by
  rw [← Option.isSome_map (f := sealRecord level), ← lookup_sealedEntry,
    Option.isSome_iff_exists, mem_map]
  constructor
  · rintro ⟨r, hr, rfl⟩
    exact ⟨r, Table.mem_values.1 hr⟩
  · rintro ⟨r, hr⟩
    exact ⟨r, Table.mem_values_of_lookup hr, Table.key_of_lookup hr⟩

variable (hlevels : s.levels = level :: parents)
include hlevels

theorem wp_invokeThenSeal {f : Level → List Level → List Record → StackM α}
    {Q : α → LedgerStack → Prop} {E : StateError → LedgerStack → Prop}
    (h : wp (f level parents level.sealedEntry.values)
      (fun a t => ∀ levels, Q a { t with levels }) E s) : wp (invokeThenSeal f) Q E s := by
  unfold invokeThenSeal
  rw [wp_get_bind]
  simp only [hlevels]
  exact wp_seq h fun a t ht => wp_bind.2 (wp_modify.2 (wp_pure.2 (ht _)))

/-- A report that looks nothing up. -/
theorem report_ok (g : List Record → α) :
    ∃ t, invokeThenSeal (fun _ _ records => return g records) s =
      .ok (g level.sealedEntry.values) t := by
  obtain ⟨levels, root⟩ := s
  subst hlevels
  exact ⟨_, rfl⟩

end Reported

/-- The reported changes of a ledger state are the changes that its commit makes, after any
operations on a stack of any depth. -/
theorem reports_match_commit (root : Root) (hcache : CacheAgrees root) (ops : List Op)
    (s : LedgerStack) (trace : List (Op × Option StateError))
    (hrun : runOps ops { root } = some (s, trace)) (level : Level) (parents : List Level)
    (hlevels : s.levels = level :: parents) :
    -- an entry that the parent does not know is live
    (∀ r ∈ level.sealedEntry.values, newest parents s.root.database (Keyed.key r) = none →
      r.value?.isSome = true) ∧
    wp getChanges
      (fun changes t =>
        changes = (level.sealedEntry.values.flatMap fun r =>
          changesFor (newest parents s.root.database (Keyed.key r)) r) ∧
        wp (step .commit)
          (fun _ u => u.levels.length = parents.length ∧
            newest u.levels u.root.database = replay changes (newest parents s.root.database))
          (Aborted level.sealedEntry.values) t)
      (Aborted level.sealedEntry.values) s ∧
    (∃ live dead t t', getLiveEntries s = .ok live t ∧ getDeadEntries s = .ok dead t' ∧
      live = level.sealedEntry.values.filterMap Record.value? ∧
      (live.map Keyed.key ++ dead).Nodup ∧
      ∀ key, key ∈ live.map Keyed.key ++ dead ↔ (level.entry.lookup key).isSome = true) ∧
    wp getDelta
      (fun delta _ => delta = {
        entry := level.sealedEntry.values.map fun r =>
          deltaFor (newest parents s.root.database (Keyed.key r)) r
        header := ⟨level.header, headerOf parents s.root⟩ })
      (Aborted level.sealedEntry.values) s := by
  have hs : Kept s := runOps_kept (s := { root }) ⟨hcache, trivial⟩ hrun
  refine ⟨fun r hr hnone => ?_, ?_, ?_, ?_⟩
  · by_contra hdead
    have hneed := hs.need hlevels hr (Option.not_isSome_iff_eq_none.1 hdead)
    rw [hnone] at hneed
    cases hneed
  · have hreads : Reads level.sealedEntry.values (allChangesOf parents level.sealedEntry.values)
        (level.sealedEntry.values.flatMap fun r =>
          changesFor (newest parents s.root.database (Keyed.key r)) r) s := by
      rw [allChangesOf_eq_forEach]
      refine forEach_reads hs.cache fun r hr root' hroot => ?_
      rw [← hroot.database]
      refine changesOf_reads (s := { s with root := root' }) hroot.cache hr ?_
      rw [hroot.database]
      exact hs.need hlevels hr
    have hexact := wp_invokeThenSeal (f := fun _ => allChangesOf)
      (Q := fun changes _ => changes = _) hlevels (wp_imp hreads fun _ _ h _ => h.1)
    refine wp_mono (wp_and hexact (getChanges_replay hlevels hs.cache))
      (fun changes t ht => ⟨ht.1, ?_⟩) fun _ _ he => he.1
    obtain ⟨-, ⟨root', hroot, rfl⟩, hreplay⟩ := ht
    have hsealed := hs.put hlevels hroot { level with
      entry := level.sealedEntry, isSealed := true, active := [] } fun _ h => Or.inl (sealed_dead h)
    unfold step
    rw [wp_get_bind]
    refine wp_imp (commit_kept hsealed rfl) fun _ u hu => ⟨hu.2.1, funext fun key => ?_⟩
    rw [hreplay, hu.2.2, hroot.database]
    rfl
  · have hkeys : (level.sealedEntry.values.map (Keyed.key : Record → LedgerKey)).Nodup :=
      pairwise_map.2 level.sealedEntry.values_pairwise
    have hperm := reported_perm level.sealedEntry.values
    obtain ⟨t, hlive⟩ := report_ok hlevels fun records => records.filterMap Record.value?
    obtain ⟨t', hdead⟩ := report_ok hlevels fun records =>
      (records.filter fun r => r.value?.isNone).map Keyed.key
    refine ⟨_, _, t, t', hlive, hdead, rfl, hperm.nodup_iff.2 hkeys, fun key => ?_⟩
    rw [hperm.mem_iff]
    exact mem_keys_sealedEntry level key
  · refine wp_invokeThenSeal hlevels (wp_seq (forEach_reads
      (g := fun r => [deltaFor (newest parents s.root.database (Keyed.key r)) r]) hs.cache
      fun r hr root' hroot => ?_) fun entry t ht => ?_)
    · refine wp_seq (newestVersion_reads hroot.cache hr) fun previous t ht => wp_pure.2 ⟨?_, ht.2⟩
      rw [ht.1, hroot.database]
    · obtain ⟨rfl, root', hroot, rfl⟩ := ht
      refine wp_get_bind.2 (wp_pure.2 fun _ => ?_)
      have hheader : headerOf parents root' = headerOf parents s.root :=
        congrArg FlatLedger.header (hroot.shown parents)
      rw [map_eq_flatMap, hheader]

theorem reports_match_commit_sample :
    ∃ s trace level, runOps sampleOps { root := emptyRoot } = some (s, trace) ∧
      s.levels = [level] ∧
      wp getDelta (fun delta _ => delta.header = ⟨level.header, s.root.header⟩)
        (Aborted level.sealedEntry.values) s := by
  have hlength : (runOps sampleOps { root := emptyRoot }).map (fun run => run.1.levels.length) =
      some 1 := by decide +kernel
  obtain ⟨⟨s, trace⟩, hrun, hone⟩ := Option.map_eq_some_iff.1 hlength
  obtain ⟨level, hlevels⟩ := length_eq_one_iff.1 hone
  obtain ⟨-, -, -, hdelta⟩ := reports_match_commit emptyRoot (fun item h => by cases h) sampleOps s
    trace hrun level [] hlevels
  refine ⟨s, trace, level, hrun, hlevels, wp_imp hdelta fun _ _ h => ?_⟩
  rw [h]
  rfl

end SpnCore.Ledger.Nested
