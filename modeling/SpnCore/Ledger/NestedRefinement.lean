import SpnCore.Ledger.NestedSteps

/-!
# Nested ledger states refine a flat ledger

A commit makes the level below, or the database, show what the level showed. With that every
operation does to the flat ledger what it should, so after any run of operations the queries of the
innermost level return what the flat ledger holds.
-/

namespace SpnCore.Ledger.Nested

open Lib

/-! ### Committing -/

variable {database : Table LedgerEntry} {key : LedgerKey}

section Committing

variable {s : LedgerStack} {level parent : Level} {parents : List Level} {root : Root}
  {entries : Table Record}

/-- What the parent records for a record of its child. -/
def committed (parents : List Level) (database : Table LedgerEntry) : Record → Option Record
  | .live entry => some (.live entry)
  | .dead key => if (newest parents database key).isNone then none else some (.dead key)

variable {record : Record}

/-- A record is taken over as it is, and one that an entry does not exist only with need. -/
theorem committed_eq_some {record' : Record}
    (h : committed parents database record = some record') :
    record' = record ∧ (record.value? = none →
      (newest parents database (Keyed.key record)).isSome = true) := by
  cases record with
  | live entry =>
    cases h
    exact ⟨rfl, fun hnone => by cases hnone⟩
  | dead key =>
    simp only [committed] at h
    split at h
    case isTrue => cases h
    case isFalse hsome =>
      cases h
      exact ⟨rfl, fun _ => Option.isSome_iff_ne_none.2 fun h =>
        hsome (Option.isNone_iff_eq_none.2 h)⟩

/-- The loop of `commitChild` has only read the root so far. -/
def OnlyRead (root : Root) (acc : Table Record × Root) : Prop := Reread root acc.2

theorem commitRecord_elim {acc : Table Record × Root} (hacc : OnlyRead root acc)
    (record : Record) :
    (commitRecord parents acc record).elim (¬ Storable (Keyed.key record)) fun acc' =>
      OnlyRead root acc' ∧ ∀ key, acc'.1.lookup key =
        if key = Keyed.key record then committed parents root.database record
        else acc.1.lookup key := by
  cases record with
  | live entry => exact ⟨hacc, fun key => Table.lookup_upsert _ _ _⟩
  | dead k =>
    refine Table.elim_map (getNewestVersion_elim hacc.cache parents k) ?_
    rintro ⟨_, root'⟩ ⟨rfl, hroot⟩
    simp only [committed, hacc.database]
    split
    · exact ⟨hacc.trans hroot, fun key => Table.lookup_erase _ _ _⟩
    · exact ⟨hacc.trans hroot, fun key => Table.lookup_upsert _ _ _⟩

/-- What a commit into a level has done. -/
structure CommittedInto (parent : Level) (parents : List Level) (database : Table LedgerEntry)
    (header : LedgerHeader) (entries : Table Record) (parent' : Level) : Prop where
  header : parent'.header = header
  isSealed : parent'.isSealed = parent.isSealed
  updates : parent'.shouldUpdateLastModified = parent.shouldUpdateLastModified
  active : parent'.active = parent.active
  entry : ∀ key, parent'.entry.lookup key =
    (entries.lookup key).elim (parent.entry.lookup key) (committed parents database)

theorem commitChild_elim (parent : Level) (parents : List Level) (header : LedgerHeader)
    (entries : Table Record) (hcache : CacheAgrees root) :
    (parent.commitChild parents header entries root).elim
      (∃ r ∈ entries.values, ¬ Storable (Keyed.key r)) fun found =>
        Reread root found.2 ∧
          CommittedInto parent parents root.database header entries found.1 := by
  have hstart : OnlyRead root (parent.entry, root) := Reread.refl hcache
  exact Table.elim_map (Table.foldlM_values_elim (I := OnlyRead root)
    (o := fun key acc => Table.lookup acc.1 key) (g := fun r _ => committed parents root.database r)
    entries (fun acc r hacc hr _ =>
      Table.elim_mono (commitRecord_elim hacc r) (fun hkey => ⟨r, hr, hkey⟩) fun _ => id) hstart)
    fun acc hloop => ⟨hloop.1, rfl, rfl, rfl, rfl, hloop.2⟩

section Into

variable {header : LedgerHeader} {parent' : Level}
  (h : CommittedInto parent parents database header entries parent')
include h

/-- The parent records that an entry does not exist only with need. -/
theorem CommittedInto.nulls (hnulls : NullsBelow (parent :: parents) database) :
    NullsBelow (parent' :: parents) database := by
  refine ⟨fun key hdead => ?_, hnulls.2⟩
  rw [h.entry] at hdead
  cases hlookup : entries.lookup key with
  | none =>
    rw [hlookup] at hdead
    exact hnulls.1 key hdead
  | some record =>
    rw [hlookup] at hdead
    obtain ⟨rfl, hneed⟩ := committed_eq_some hdead
    exact hneed rfl

/-- What a level shows after a commit, with the stamps. -/
theorem CommittedInto.newest (key : LedgerKey) :
    newest (parent' :: parents) database key =
      (entries.lookup key).elim (newest (parent :: parents) database key) Record.value? := by
  have hentry := h.entry key
  cases hlookup : entries.lookup key with
  | none =>
    rw [hlookup] at hentry
    exact newest_congr hentry
  | some record =>
    rw [hlookup, Option.elim_some] at hentry
    cases record with
    | live entry => exact newest_of_some hentry
    | dead k =>
      have hkey : k = key := Table.key_of_lookup hlookup
      subst hkey
      simp only [committed] at hentry
      split at hentry
      case isTrue hnone =>
        rw [newest_of_none hentry]
        exact Option.isNone_iff_eq_none.1 hnone
      case isFalse => exact newest_of_some hentry

end Into

/-- What is shown after a commit is what the level showed. -/
theorem shown_committed {after : Option LedgerEntry}
    (h : after = (level.sealedEntry.lookup key).elim (newest parents database key) Record.value?) :
    after.map LedgerEntry.data = (newest (level :: parents) database key).map LedgerEntry.data := by
  rw [h, lookup_sealedEntry]
  cases hlookup : level.entry.lookup key with
  | none =>
    rw [newest_of_none hlookup]
    rfl
  | some record =>
    rw [newest_of_some hlookup]
    exact (sealRecord_spec level record).2.1

theorem Consistent.outer (hs : Consistent s) (hlevels : s.levels = level :: parents) :
    Consistent { s with levels := parents } := by
  have hnull := hs.nulls
  rw [hlevels] at hnull
  refine ⟨hs.cache, hs.rows, fun l hl => ?_, hnull.2⟩
  exact hs.records l (by rw [hlevels]; exact List.mem_cons_of_mem _ hl)

theorem commit_parent_done {parent' : Level} {root' : Root} (hs : Consistent s)
    (hlevels : s.levels = level :: parent :: parents) (hroot : Reread s.root root')
    (hinto : CommittedInto parent parents s.root.database level.header level.sealedEntry parent') :
    Done s .commit { levels := parent' :: parents, root := root' } := by
  have hsealed := sealed_records (hs.innermost hlevels).1
  have houter := hs.outer hlevels
  refine ⟨refusal_flatten hlevels _ nofun,
    houter.put rfl hroot ?_ (hinto.nulls houter.nulls).1, ?_⟩
  · intro key record h
    rw [hinto.entry] at h
    cases hlookup : level.sealedEntry.lookup key with
    | none =>
      rw [hlookup] at h
      exact (houter.innermost rfl).1 key record h
    | some sealedRecord =>
      rw [hlookup] at h
      rw [(committed_eq_some h).1]
      exact hsealed key sealedRecord hlookup
  · rw [flatten_put (s := { s with levels := parent :: parents }) rfl hroot]
    simp only [flatten, FlatStack.step, FlatStack.keep, hlevels, shownBelow, shown, headerOf,
      hinto.header, shown_committed (hinto.newest _), List.head?_cons, Option.any_some,
      Option.elim_some, hinto.isSealed, hinto.active]

/-- The cache is that of the database before the commit. -/
def Storing (root : Root) (b : Root) : Prop := CacheShows b.entryCache root.database

theorem not_isOwnTrustLine (hkey : Storable key) : key.isOwnTrustLine = false := by
  cases key with
  | trustLine accountID asset => exact decide_eq_false hkey.2
  | _ => rfl

theorem store_elim {b : Root} (hb : Storing root b)
    (hsame : b.database.lookup (Keyed.key record) = root.database.lookup (Keyed.key record)) :
    (b.store record).elim (¬ Storable (Keyed.key record) ∨
        record.value? = none ∧ root.database.lookup (Keyed.key record) = none) fun c =>
      Storing root c ∧ ∀ key, c.database.lookup key =
        if key = Keyed.key record then record.value? else b.database.lookup key := by
  have hown : (Keyed.key record : LedgerKey).isOwnTrustLine = true →
      ¬ Storable (Keyed.key record) := fun hown hkey => by
    rw [not_isOwnTrustLine hkey] at hown
    cases hown
  cases record with
  | live entry =>
    refine Table.elim_bind (root_getNewestVersion_elim _ hb hsame) Or.inl ?_
    rintro ⟨_, _⟩ ⟨rfl, entryCache, rfl, hshows⟩
    simp only [Root.insertOrUpdate]
    split_ifs with h hrows
    · exact Or.inl (hown h)
    · exact ⟨hshows, fun key => Table.lookup_upsert _ _ _⟩
    · exact absurd (congrArg Option.isNone hsame.symm) hrows
  | dead k =>
    simp only [Root.store, Root.delete]
    split_ifs with h hrow
    · exact Or.inl (hown h)
    · exact Or.inr ⟨rfl, hsame.symm.trans (Option.isNone_iff_eq_none.1 hrow)⟩
    · exact ⟨hb, fun key => Table.lookup_erase _ _ _⟩

theorem root_commitChild_elim (header : LedgerHeader) (entries : Table Record)
    (hcache : CacheAgrees root) :
    (root.commitChild header entries).elim
      (∃ r ∈ entries.values, ¬ Storable (Keyed.key r) ∨
        r.value? = none ∧ root.database.lookup (Keyed.key r) = none) fun root' =>
      root'.header = header ∧ CacheAgrees root' ∧ ∀ key, root'.database.lookup key =
        (entries.lookup key).elim (root.database.lookup key) Record.value? := by
  have hstart : Storing root root := hcache
  exact Table.elim_map (Table.foldlM_values_elim (I := Storing root)
    (o := fun key root => Table.lookup root.database key) (g := fun record _ => record.value?)
    entries (fun b r hb hr hsame =>
      Table.elim_mono (store_elim hb hsame) (fun hbad => ⟨r, hr, hbad⟩) fun _ => id) hstart)
    fun stored hloop => ⟨rfl, fun item hitem => (by cases hitem), hloop.2⟩

/-- What the database holds after a commit is what the level showed. -/
theorem commit_root_done {root' : Root} (hs : Consistent s) (hlevels : s.levels = [level])
    (hheader : root'.header = level.header) (hcache : CacheAgrees root')
    (hdatabase : ∀ key, root'.database.lookup key =
      (level.sealedEntry.lookup key).elim (s.root.database.lookup key) Record.value?) :
    Done s .commit { levels := [], root := root' } := by
  have hsealed := sealed_records (hs.innermost hlevels).1
  refine ⟨refusal_flatten hlevels _ nofun, ⟨hcache, ?_, fun l hl => by simp at hl, trivial⟩, ?_⟩
  · intro key entry h
    simp only [hdatabase] at h
    cases hlookup : level.sealedEntry.lookup key with
    | none =>
      rw [hlookup] at h
      exact hs.rows key entry h
    | some record =>
      rw [hlookup] at h
      obtain ⟨hkey, hassets⟩ := hsealed key record hlookup
      rw [Table.key_of_lookup hlookup] at hkey
      exact ⟨hkey, hassets entry h⟩
  · have hshown : ∀ key, (root'.database.lookup key).map LedgerEntry.data =
        (newest [level] s.root.database key).map LedgerEntry.data := fun key =>
      shown_committed (hdatabase key)
    simp only [flatten, FlatStack.step, FlatStack.keep, hlevels, shown, newest, headerOf, hheader,
      shownBelow]
    simp only [newest] at hshown
    simp only [hshown]

section

variable {Q : Unit → LedgerStack → Prop} {E : StateError → LedgerStack → Prop}
  (hcache : CacheAgrees s.root)
  (hfatal : (∃ r ∈ level.sealedEntry.values, ¬ Storable (Keyed.key r)) → E .fatal s)
include hcache hfatal

/-- A commit is stopped only by a record that the database cannot hold. -/
theorem wp_commit_parent
    (h : ∀ parent' root', Reread s.root root' →
      CommittedInto parent parents s.root.database level.header level.sealedEntry parent' →
      Q () { levels := parent' :: parents, root := root' }) :
    wp (commit level (parent :: parents)) Q E s := by
  have hcommit := commitChild_elim parent parents level.header level.sealedEntry hcache
  unfold commit
  rw [wp_get_bind]
  dsimp only
  cases hfound : parent.commitChild parents level.header level.sealedEntry s.root with
  | none =>
    rw [hfound] at hcommit
    exact wp_throw.2 (hfatal hcommit)
  | some found =>
    rw [hfound] at hcommit
    exact wp_set.2 (h _ _ hcommit.1 hcommit.2)

theorem wp_commit_root (hnulls : NullsBelow [level] s.root.database)
    (h : ∀ root', root'.header = level.header → CacheAgrees root' →
      (∀ key, root'.database.lookup key =
        (level.sealedEntry.lookup key).elim (s.root.database.lookup key) Record.value?) →
      Q () { levels := [], root := root' }) : wp (commit level []) Q E s := by
  have hcommit := root_commitChild_elim level.header level.sealedEntry hcache
  unfold commit
  rw [wp_get_bind]
  dsimp only
  cases hfound : s.root.commitChild level.header level.sealedEntry with
  | none =>
    rw [hfound] at hcommit
    obtain ⟨r, hr, hkey | ⟨hnone, hrow⟩⟩ := hcommit
    · exact wp_throw.2 (hfatal ⟨r, hr, hkey⟩)
    · cases r with
      | live entry => cases hnone
      | dead key =>
        have hsome := hnulls.1 key (sealed_dead (Table.mem_values.1 hr))
        rw [newest, show s.root.database.lookup key = none from hrow] at hsome
        cases hsome
  | some root' =>
    rw [hfound] at hcommit
    exact wp_set.2 (h root' hcommit.1 hcommit.2.1 hcommit.2.2)

end

theorem commit_spec (hs : Consistent s) (hlevels : s.levels = level :: parents) :
    wp (commit level parents) (fun _ => Done s .commit) (Refused s .commit) s := by
  have hstorable : ¬ ∃ r ∈ level.sealedEntry.values, ¬ Storable (Keyed.key r) := by
    rintro ⟨r, hr, hkey⟩
    exact hkey (sealed_records (hs.innermost hlevels).1 _ r (Table.mem_values.1 hr)).1
  cases parents with
  | cons parent parents =>
    exact wp_commit_parent hs.cache (absurd · hstorable) fun parent' root' hroot hinto =>
      commit_parent_done hs hlevels hroot hinto
  | nil =>
    exact wp_commit_root hs.cache (absurd · hstorable) (hlevels ▸ hs.nulls)
      fun root' hheader hcache hdatabase =>
        commit_root_done hs hlevels hheader hcache hdatabase

end Committing

/-! ### Runs -/

section Runs

variable {s : LedgerStack} {op : Op}

/-- The entries of an operation can be stored. -/
def StorableOp : Op → Prop
  | .create entry | .write entry => StorableRecord (.live entry)
  | .getNewestVersion key | .load key | .erase key => Storable key
  | .openChild _ | .deactivate _ | .writeHeader _ | .getChanges | .commit | .rollback _ => True

theorem onLevel_spec {level : Level} {parents : List Level} (hs : Consistent s)
    (hlevels : s.levels = level :: parents) (hop : StorableOp op) :
    wp (onLevel level parents op) (fun _ => Done s op) (Refused s op) s := by
  cases op with
  | openChild shouldUpdateLastModified => exact openChild_spec hs hlevels _
  | getNewestVersion key => exact query_spec hs hop _
  | create entry => exact create_spec hs hlevels hop
  | load key => exact load_spec hs hlevels hop
  | write entry => exact write_spec hs hlevels hop
  | deactivate key => exact deactivate_spec hs hlevels
  | erase key => exact erase_spec hs hlevels hop
  | writeHeader header => exact writeHeader_spec hs hlevels header
  | getChanges => exact getChanges_spec hs hlevels
  | commit => exact commit_spec hs hlevels
  | rollback n => exact rollback_spec hs n

theorem onRoot_spec (hs : Consistent s) (hlevels : s.levels = []) (hop : StorableOp op) :
    wp (onRoot op) (fun _ => Done s op) (Refused s op) s := by
  have hnone : (flatten s).saved = [] := by
    simp only [flatten, hlevels]
    rfl
  cases op with
  | openChild shouldUpdateLastModified => exact openOnRoot_spec hs hlevels _
  | getNewestVersion key => exact query_spec hs hop _
  | _ => exact wp_throw.2 (refused_self hs (by simp [FlatStack.refusal, hnone]))

theorem step_spec (hs : Consistent s) (hop : StorableOp op) :
    wp (step op) (fun _ => Done s op) (Refused s op) s := by
  unfold step
  rw [wp_get_bind]
  cases hlevels : s.levels with
  | nil => exact onRoot_spec hs hlevels hop
  | cons level parents => exact onLevel_spec hs hlevels hop

/-- Every run is that of the flat ledger. -/
theorem runOps_spec (hs : Consistent s) {ops : List Op} (hops : ∀ op ∈ ops, StorableOp op) :
    ∃ t, runOps ops s = some (t, ((flatten s).run ops).2) ∧ Consistent t ∧
      flatten t = ((flatten s).run ops).1 := by
  induction ops generalizing s with
  | nil => exact ⟨s, rfl, hs, rfl⟩
  | cons op ops ih =>
    have hstep := step_spec hs (hops op List.mem_cons_self)
    have hrest : ∀ op ∈ ops, StorableOp op := fun o ho => hops o (List.mem_cons_of_mem _ ho)
    cases hrun : step op s with
    | ok _ t =>
      obtain ⟨haccepted, ht, hflat⟩ := wp_ok hstep hrun
      obtain ⟨u, hu, hcons, hlast⟩ := ih ht hrest
      rw [hflat] at hu hlast
      refine ⟨u, ?_, hcons, ?_⟩
      · simp [runOps, hrun, hu, FlatStack.run, haccepted]
      · simp [FlatStack.run, haccepted, hlast]
    | error e t =>
      obtain ⟨hrefused, ht, hflat⟩ := wp_error hstep hrun
      obtain ⟨u, hu, hcons, hlast⟩ := ih ht hrest
      rw [hflat] at hu hlast
      have hfatal : e ≠ .fatal := by
        rintro rfl
        exact (flatten s).refusal_ne_fatal op hrefused
      refine ⟨u, ?_, hcons, ?_⟩
      · simp [runOps, hrun, hfatal, hu, FlatStack.run, hrefused]
      · simp [FlatStack.run, hrefused, hlast]

end Runs

/-! ### Offers -/

section Offers

variable {root : Root} {levels : List Level} {account : AccountID} {asset : Asset}
  {data : LedgerEntryData}

theorem lookup_collectOffer (offers : Table LedgerEntry) (record : Record) (k : LedgerKey) :
    (collectOffer offers record).lookup k = if k = Keyed.key record then
      (if (Keyed.key record : LedgerKey).isOffer then record.value? else offers.lookup k)
      else offers.lookup k := by
  unfold collectOffer
  split
  case isTrue hoffer =>
    cases record with
    | live entry => rw [Table.lookup_upsert]; rfl
    | dead key => rw [Table.lookup_erase]; rfl
  case isFalse => rw [ite_self]

theorem lookup_getAllOffers (levels : List Level) (root : Root) (key : LedgerKey) :
    (getAllOffers levels root).lookup key =
      if key.isOffer then newest levels root.database key else none := by
  induction levels with
  | nil =>
    rw [getAllOffers, Table.lookup_filter, newest]
    cases hlookup : root.database.lookup key with
    | none => simp
    | some entry =>
      rw [Option.filter_some, Table.key_of_lookup hlookup]
  | cons level parents ih =>
    rw [getAllOffers, Table.foldl_values (o := fun k offers => Table.lookup offers k)
      (g := fun record old =>
        if (Keyed.key record : LedgerKey).isOffer then record.value? else old)
      level.entry lookup_collectOffer key, ih]
    cases hlookup : level.entry.lookup key with
    | none => rw [newest_of_none hlookup]; rfl
    | some record =>
      rw [newest_of_some hlookup, Option.elim_some, Table.key_of_lookup hlookup]
      split
      · rfl
      · rfl

/-- The code of a valid asset is its text, filled up with zeros. -/
theorem code_eq_of_valid {n : Nat} {code code' : List UInt8} (h : isAssetCodeValid n code = true)
    (h' : isAssetCodeValid n code' = true) (hlength : code.length = code'.length)
    (htext : code.takeWhile (· != 0) = code'.takeWhile (· != 0)) : code = code' := by
  simp only [isAssetCodeValid, Bool.and_eq_true, List.all_eq_true, beq_iff_eq] at h h'
  have hrest := List.eq_replicate_iff.2 ⟨rfl, h.1.2⟩
  have hrest' := List.eq_replicate_iff.2 ⟨rfl, h'.1.2⟩
  have hlength' : (code.dropWhile (· != 0)).length = (code'.dropWhile (· != 0)).length := by
    have hsum := congrArg List.length (List.takeWhile_append_dropWhile (p := (· != 0)) (l := code))
    have hsum' :=
      congrArg List.length (List.takeWhile_append_dropWhile (p := (· != 0)) (l := code'))
    rw [List.length_append] at hsum hsum'
    rw [htext] at hsum
    omega
  calc code = code.takeWhile (· != 0) ++ code.dropWhile (· != 0) :=
        List.takeWhile_append_dropWhile.symm
    _ = code'.takeWhile (· != 0) ++ code'.dropWhile (· != 0) := by
        rw [htext, hrest, hlength', ← hrest']
    _ = code' := List.takeWhile_append_dropWhile

/-- The text of a valid code has letters enough for its type. -/
theorem length_of_valid {n : Nat} {code : List UInt8} (h : isAssetCodeValid n code = true) :
    n ≤ (code.takeWhile (· != 0)).length := by
  simp only [isAssetCodeValid, Bool.and_eq_true, decide_eq_true_eq] at h
  exact h.2

/-- A text of more than four letters is not the code of a short asset. -/
theorem text_ne (code : Vector UInt8 4) {code' : Vector UInt8 12}
    (h' : isAssetCodeValid 5 code'.toList = true) :
    code.toList.takeWhile (· != 0) ≠ code'.toList.takeWhile (· != 0) := by
  intro htext
  have hlong := length_of_valid h'
  have hshort := (List.takeWhile_sublist (· != 0) (l := code.toList)).length_le
  rw [htext, Vector.length_toList] at hshort
  omega

/-- The columns identify a valid credit asset. -/
theorem sameColumns_eq {a b : Asset} (ha : isAssetValid a = true) (hb : isAssetValid b = true)
    (hcredit : b ≠ .native) : sameColumns a b = decide (a = b) := by
  have hiff : (assetCodeToStr a = assetCodeToStr b ∧ a.issuer? = b.issuer?) ↔ a = b := by
    refine ⟨?_, fun h => by rw [h]; exact ⟨rfl, rfl⟩⟩
    rintro ⟨htext, hissuer⟩
    cases b with
    | native => exact absurd rfl hcredit
    | alphaNum4 code' issuer' =>
      cases a with
      | native => cases hissuer
      | alphaNum4 code issuer =>
        cases hissuer
        have hcode := code_eq_of_valid ha hb (by simp) htext
        rw [Vector.toList_inj.1 hcode]
      | alphaNum12 code issuer => exact absurd htext.symm (text_ne code' ha)
    | alphaNum12 code' issuer' =>
      cases a with
      | native => cases hissuer
      | alphaNum4 code issuer => exact absurd htext (text_ne code hb)
      | alphaNum12 code issuer =>
        cases hissuer
        have hcode := code_eq_of_valid ha hb (by simp) htext
        rw [Vector.toList_inj.1 hcode]
  rw [sameColumns, ← Bool.decide_and, decide_eq_decide]
  exact hiff

theorem rowConcerns_eq (hdata : ValidAssets data) (hasset : isAssetValid asset = true)
    (hcredit : asset ≠ .native) : rowConcerns account asset data = concerns account asset data := by
  cases data with
  | offer oe =>
    simp only [rowConcerns, concerns, sameColumns_eq hdata.1 hasset hcredit,
      sameColumns_eq hdata.2 hasset hcredit]
  | _ => rfl

/-- Only offers are concerned. -/
theorem isOffer_of_concerns (h : concerns account asset data = true) : data.key.isOffer = true := by
  cases data with
  | offer oe => rfl
  | _ => cases h

theorem filter_concerns_of_not_offer (hkey : ¬ key.isOffer = true) {x : Option LedgerEntry}
    (hx : ∀ entry, x = some entry → entry.data.key = key) :
    (x.filter fun entry => concerns account asset entry.data) = none := by
  rw [Option.filter_eq_none_iff]
  intro entry hentry hconcerns
  have hoffer := isOffer_of_concerns hconcerns
  rw [hx entry hentry] at hoffer
  exact hkey hoffer

theorem lookup_collectOfferOf (offers : Table LedgerEntry) (record : Record) (k : LedgerKey) :
    (collectOfferOf account asset offers record).lookup k = if k = Keyed.key record then
      (if (Keyed.key record : LedgerKey).isOffer then
        record.value?.filter fun entry => concerns account asset entry.data
        else offers.lookup k)
      else offers.lookup k := by
  unfold collectOfferOf
  split
  case isTrue hoffer =>
    cases record with
    | live entry =>
      by_cases hconcerns : concerns account asset entry.data = true
      · simp [Record.value?, Option.filter_some, hconcerns, Table.lookup_upsert]
      · simp [Record.value?, Option.filter_some, hconcerns, Table.lookup_erase]
    | dead key => rw [Table.lookup_erase]; rfl
  case isFalse => rw [ite_self]

theorem lookup_getOffersByAccountAndAsset (account : AccountID)
    (hrows : ∀ key entry, root.database.lookup key = some entry → ValidAssets entry.data)
    (hasset : isAssetValid asset = true) (hcredit : asset ≠ .native) (levels : List Level) :
    ∃ offers, getOffersByAccountAndAsset account asset levels root = some offers ∧
      ∀ key, offers.lookup key = (newest levels root.database key).filter
        fun entry => concerns account asset entry.data := by
  induction levels with
  | nil =>
    refine ⟨_, if_neg hcredit, fun key => ?_⟩
    rw [Table.lookup_filter, newest]
    cases hlookup : root.database.lookup key with
    | none => rfl
    | some entry =>
      simp only [Option.filter_some, rowConcerns_eq (hrows key entry hlookup) hasset hcredit]
  | cons level parents ih =>
    obtain ⟨offers, hoffers, hlookup⟩ := ih
    refine ⟨_, by rw [getOffersByAccountAndAsset, hoffers, Option.map_some], fun key => ?_⟩
    rw [Table.foldl_values (o := fun k offers => Table.lookup offers k)
      (g := fun record old => if (Keyed.key record : LedgerKey).isOffer then
        record.value?.filter fun entry => concerns account asset entry.data else old)
      level.entry lookup_collectOfferOf key, hlookup]
    cases hlevel : level.entry.lookup key with
    | none => rw [newest_of_none hlevel]; rfl
    | some record =>
      have hsome : newest (level :: parents) root.database key = record.value? :=
        newest_of_some hlevel
      rw [hsome, Option.elim_some, Table.key_of_lookup hlevel]
      split
      case isTrue => rfl
      case isFalse hkey =>
        rw [filter_concerns_of_not_offer hkey fun _ h => key_of_newest h, ← hsome,
          filter_concerns_of_not_offer hkey fun _ h => key_of_newest h]

end Offers

/-! ### The refinement -/

section Refinement

variable {s : LedgerStack}

/-- The queries of the innermost level return what a flat ledger holds, and levels record that an
entry does not exist only if the level below has it. -/
structure Refines (s : LedgerStack) (flat : FlatLedger) : Prop where
  newestVersion : ∀ key, Storable key → ∃ entry root',
    getNewestVersion s.levels key s.root = some (entry, root') ∧
      entry.map LedgerEntry.data = flat.entries key
  allOffers : ∀ key, ((getAllOffers s.levels s.root).lookup key).map LedgerEntry.data =
    if key.isOffer then flat.entries key else none
  offersByAccountAndAsset : ∀ account asset, isAssetValid asset = true → asset ≠ .native →
    ∃ offers, getOffersByAccountAndAsset account asset s.levels s.root = some offers ∧
      ∀ key, (offers.lookup key).map LedgerEntry.data =
        (flat.entries key).filter (concerns account asset)
  header : headerOf s.levels s.root = flat.header
  nulls : ∀ inner level parents key, s.levels = inner ++ level :: parents →
    level.entry.lookup key = some (.dead key) →
    ∃ entry root', getNewestVersion parents key s.root = some (some entry, root')

/-- The parent of a level with a record that an entry does not exist has the entry. -/
theorem newest_of_null {inner parents : List Level} {level : Level}
    (h : NullsBelow (inner ++ level :: parents) database)
    (hnull : level.entry.lookup key = some (.dead key)) :
    (newest parents database key).isSome = true := by
  induction inner with
  | nil => exact h.1 key hnull
  | cons l inner ih => exact ih h.2

theorem Consistent.refines (hs : Consistent s) : Refines s (flatten s).current where
  newestVersion key hkey := by
    obtain ⟨root', hget⟩ := getNewestVersion_eq hs.cache hkey s.levels
    exact ⟨_, root', hget, rfl⟩
  allOffers key := by
    rw [lookup_getAllOffers]
    split
    · rfl
    · rfl
  offersByAccountAndAsset account asset hasset hcredit := by
    obtain ⟨offers, hoffers, hlookup⟩ := lookup_getOffersByAccountAndAsset account
      (fun key entry h => (hs.rows key entry h).2) hasset hcredit s.levels
    refine ⟨offers, hoffers, fun key => ?_⟩
    rw [hlookup]
    simp only [flatten, shown, Option.filter_map]
    rfl
  header := rfl
  nulls inner level parents key hlevels hnull := by
    have hmem : level ∈ s.levels := by simp [hlevels]
    have hkey : Storable key := (hs.records level hmem key _ hnull).1
    have hnulls := hs.nulls
    rw [hlevels] at hnulls
    obtain ⟨entry, hentry⟩ := Option.isSome_iff_exists.1 (newest_of_null hnulls hnull)
    obtain ⟨root', hget⟩ := getNewestVersion_eq hs.cache hkey parents
    exact ⟨entry, root', by rw [hget, hentry]⟩

/-- The database as a flat ledger. -/
def Root.flat (root : Root) : FlatLedger where
  header := root.header
  entries key := (root.database.lookup key).map LedgerEntry.data

/-- Nested ledger states refine a flat ledger: of any operations on a stack of any depth, those are
accepted that the flat ledger accepts, the others are refused with the same error, and afterwards
the innermost level shows what the map shows that is copied when a level is opened, written by the
operations, kept on a commit and restored on a rollback. -/
theorem runOps_refines (root : Root) (hcache : CacheAgrees root)
    (hrows : ∀ key entry, root.database.lookup key = some entry →
      Storable key ∧ ValidAssets entry.data)
    (ops : List Op) (hops : ∀ op ∈ ops, StorableOp op) :
    ∃ s flat trace, runOps ops { root } = some (s, trace) ∧
      FlatStack.run { current := root.flat } ops = (flat, trace) ∧ Refines s flat.current := by
  have hs : Consistent { root } := ⟨hcache, hrows, fun l hl => by simp at hl, trivial⟩
  obtain ⟨s, hrun, hcons, hflat⟩ := runOps_spec hs hops
  refine ⟨s, _, _, hrun, rfl, ?_⟩
  have hrefines := hcons.refines
  rw [hflat] at hrefines
  exact hrefines

/-- A ledger without entries. -/
def emptyRoot : Root where
  database := .empty
  entryCache := { maxSize := 4096 }
  header :=
    { ledgerSeq := 1, closeTime := 0, totalCoins := 1000, feePool := 0, inflationSeq := 0,
      idPool := 0, baseFee := 100, baseReserve := 10, maxTxSetSize := 50 }

/-- An offer of account 1 to sell the native asset for one of account 2. -/
def nativeOffer : LedgerEntry where
  lastModifiedLedgerSeq := 1
  data := .offer
    { sellerID := 1, offerID := 7, selling := .native,
      buying := .alphaNum4 #v[85, 83, 68, 0] 2, amount := 5, price := { n := 1, d := 1 } }

/-- The offer is created in a nested level and committed; a second level erases it and is rolled
back. Creating the offer again and writing to it without a handle are refused. -/
def sampleOps : List Op :=
  [.openChild true, .openChild true, .create nativeOffer, .commit, .openChild true,
    .create nativeOffer, .erase nativeOffer.data.key, .rollback 0, .write nativeOffer]

theorem runOps_refines_sample :
    (∀ op ∈ sampleOps, StorableOp op) ∧
    ∃ s flat trace, runOps sampleOps { root := emptyRoot } = some (s, trace) ∧
      FlatStack.run { current := emptyRoot.flat } sampleOps = (flat, trace) ∧
      Refines s flat.current := by
  have hops : ∀ op ∈ sampleOps, StorableOp op := by
    have hlive : StorableRecord (.live nativeOffer) := by
      refine ⟨trivial, ?_⟩
      rintro _ ⟨⟩
      exact ⟨rfl, by decide⟩
    simp only [sampleOps, List.forall_mem_cons, StorableOp]
    exact ⟨trivial, trivial, hlive, trivial, trivial, hlive, trivial, trivial, hlive,
      fun _ h => by cases h⟩
  refine ⟨hops, runOps_refines emptyRoot (fun item h => by cases h) ?_ sampleOps hops⟩
  intro key entry h
  cases h

/-- An account cannot be asked for its offers of the native asset: the program aborts, though the
innermost level shows such an offer. -/
theorem native_offers_abort :
    (runOps sampleOps { root := emptyRoot }).map (fun run =>
      (((getAllOffers run.1.levels run.1.root).lookup nativeOffer.data.key).any
          fun entry => concerns 1 .native entry.data,
        (getOffersByAccountAndAsset 1 .native run.1.levels run.1.root).isSome)) =
      some (true, false) := by
  decide +kernel

end Refinement

end SpnCore.Ledger.Nested
