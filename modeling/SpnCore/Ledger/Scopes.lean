import SpnCore.Ledger.NestedRefinement
import SpnCore.Ledger.TransactionMeta

/-!
# Programs confined to their own ledger state

A program that is run on a ledger state works on it and on the ledger states that it opens inside
of it. Whatever it does, and wherever it throws, the levels below stay as they were, and so does
the database. The level itself is still open when the program returns.

Nothing is assumed about the entries: the program may abort when it looks for one that cannot
exist, so the facts below are about runs that do not.
-/

namespace SpnCore.Ledger.Nested

open Lib Option

/-! ### Operations on the innermost level -/

section Innermost

variable {s : LedgerStack} {level level' : Level} {rest : List Level} {root' : Root}
  {key : LedgerKey}

/-- What an operation on the innermost level leaves behind: another level in its place that
records only with need that an entry does not exist. -/
def Rewritten (level : Level) (rest : List Level) (s t : LedgerStack) : Prop :=
  Reread s.root t.root ∧ ∃ level', t.levels = level' :: rest ∧ level'.header = level.header ∧
    level'.isSealed = level.isSealed ∧
    level'.shouldUpdateLastModified = level.shouldUpdateLastModified ∧
    ∀ key, level'.entry.lookup key = some (.dead key) →
      level.entry.lookup key = some (.dead key) ∨ (newest rest s.root.database key).isSome = true

/-- The operation rewrites the innermost level, unless the program aborts. -/
def Rewrites (level : Level) (rest : List Level) (x : StackM Unit) (s : LedgerStack) : Prop :=
  wp x (fun _ => Rewritten level rest s) (fun e t => e = .fatal ∨ Rewritten level rest s t) s

/-- Recording an entry makes no record that one does not exist. -/
theorem dead_of_upsert_live {entries : Table Record} {entry : LedgerEntry}
    (h : (entries.upsert (.live entry)).lookup key = some (.dead key)) :
    entries.lookup key = some (.dead key) := by
  rw [Table.lookup_upsert] at h
  split at h
  case isTrue => cases h
  case isFalse => exact h

theorem rewritten_live (hroot : Reread s.root root') (entry : LedgerEntry)
    (active : List LedgerKey) :
    Rewritten level rest s { levels := { level with
      entry := level.entry.upsert (.live entry), active } :: rest, root := root' } :=
  ⟨hroot, _, rfl, rfl, rfl, rfl, fun _ h => Or.inl (dead_of_upsert_live h)⟩

variable (hlevels : s.levels = level :: rest) (hcache : CacheAgrees s.root)
include hlevels

theorem rewritten_self (hroot : Reread s.root root') :
    Rewritten level rest s { s with root := root' } :=
  ⟨hroot, level, hlevels, rfl, rfl, rfl, fun _ => Or.inl⟩

include hcache

theorem create_rewrites (entry : LedgerEntry) :
    Rewrites level rest (create level rest entry) s := by
  unfold Rewrites create
  refine wp_guard (Or.inr (rewritten_self hlevels (.refl hcache))) fun _ => ?_
  rw [wp_bind]
  refine wp_newestVersion hcache (fun _ => Or.inl rfl) fun root' hroot => ?_
  exact wp_guard (Or.inr (rewritten_self hlevels hroot)) fun _ =>
    wp_modify.2 (rewritten_live hroot _ _)

theorem load_rewrites (key : LedgerKey) : Rewrites level rest (load level rest key) s := by
  unfold Rewrites load
  refine wp_guard (Or.inr (rewritten_self hlevels (.refl hcache))) fun _ => ?_
  refine wp_guard (Or.inr (rewritten_self hlevels (.refl hcache))) fun _ => ?_
  rw [wp_bind]
  refine wp_newestVersion hcache (fun _ => Or.inl rfl) fun root' hroot => ?_
  cases newest (level :: rest) s.root.database key with
  | none => exact wp_pure.2 (rewritten_self hlevels hroot)
  | some entry => exact wp_modify.2 (rewritten_live hroot _ _)

theorem write_rewrites (entry : LedgerEntry) :
    Rewrites level rest (write level rest entry) s := by
  unfold Rewrites write
  exact wp_guard (Or.inr (rewritten_self hlevels (.refl hcache))) fun _ =>
    wp_modify.2 (rewritten_live (.refl hcache) _ _)

theorem deactivate_rewrites (key : LedgerKey) :
    Rewrites level rest (deactivate level rest key) s := by
  unfold Rewrites deactivate
  exact wp_guard (Or.inr (rewritten_self hlevels (.refl hcache))) fun _ =>
    wp_modify.2 ⟨.refl hcache, _, rfl, rfl, rfl, rfl, fun _ => Or.inl⟩

theorem erase_rewrites (key : LedgerKey) : Rewrites level rest (erase level rest key) s := by
  unfold Rewrites erase
  refine wp_guard (Or.inr (rewritten_self hlevels (.refl hcache))) fun _ => ?_
  rw [wp_bind]
  refine wp_newestVersion hcache (fun _ => Or.inl rfl) fun root' hroot => ?_
  refine wp_guard (Or.inr (rewritten_self hlevels hroot)) fun _ => ?_
  rw [wp_bind]
  refine wp_newestVersion hroot.cache (fun _ => Or.inl rfl) fun root'' hroot' => wp_modify.2 ?_
  refine ⟨hroot.trans hroot', _, rfl, rfl, rfl, rfl, fun k hdead => ?_⟩
  simp only [hroot.database] at hdead
  -- a record that the entry does not exist is made only if the level below has it
  by_cases hk : k = key
  · subst hk
    right
    cases hbelow : newest rest s.root.database k with
    | none =>
      rw [hbelow] at hdead
      simp at hdead
    | some entry => rfl
  · left
    split at hdead
    · rwa [Table.lookup_erase_of_ne _ hk] at hdead
    · rwa [Table.lookup_upsert_of_ne hk] at hdead

theorem query_rewrites (key : LedgerKey) :
    Rewrites level rest (query (level :: rest) key) s := by
  unfold Rewrites query
  rw [wp_bind]
  exact wp_newestVersion hcache (fun _ => Or.inl rfl) fun root' hroot =>
    wp_pure.2 (rewritten_self hlevels hroot)

end Innermost

/-! ### Inside of a level -/

section Scopes

variable {parents rest : List Level} {seq d : Nat} {level level' : Level} {levels : List Level}
  {root root' : Root} {s t : LedgerStack}

/-- The innermost levels, up to one that is open on top of `parents`. There are `d` levels inside
of that one. -/
inductive Inside (parents : List Level) (seq : Nat) : Nat → List Level → Prop where
  | base {level : Level} (isSealed : level.isSealed = false)
      (updates : level.shouldUpdateLastModified = true) (header : level.header.ledgerSeq = seq) :
      Inside parents seq 0 (level :: parents)
  | inner {d : Nat} {level : Level} {levels : List Level} (header : level.header.ledgerSeq = seq)
      (h : Inside parents seq d levels) : Inside parents seq (d + 1) (level :: levels)

theorem Inside.ledgerSeq (h : Inside parents seq d (level :: rest)) :
    level.header.ledgerSeq = seq := by
  cases h with
  | base isSealed updates header => exact header
  | inner header h => exact header

/-- Another innermost level that is open like the one before. -/
theorem Inside.put (h : Inside parents seq d (level :: rest))
    (hseq : level'.header.ledgerSeq = seq) (hsealed : level'.isSealed = level.isSealed)
    (hupdates : level'.shouldUpdateLastModified = level.shouldUpdateLastModified) :
    Inside parents seq d (level' :: rest) := by
  cases h with
  | base isSealed updates header =>
    exact .base (hsealed.trans isSealed) (hupdates.trans updates) hseq
  | inner header h => exact .inner hseq h

theorem Inside.exists_cons (h : Inside parents seq d levels) :
    ∃ level rest, levels = level :: rest := by
  cases h with
  | base isSealed updates header => exact ⟨_, _, rfl⟩
  | inner header h => exact ⟨_, _, rfl⟩

theorem Inside.drop (h : Inside parents seq d levels) {n : Nat} (hn : n ≤ d) :
    Inside parents seq (d - n) (levels.drop n) := by
  induction n generalizing d levels with
  | zero => exact h
  | succ n ih =>
    cases h with
    | base isSealed updates header => omega
    | inner header h =>
      have hrest := ih h (by omega)
      rwa [Nat.add_sub_add_right]

theorem Inside.suffix (h : Inside parents seq d levels) : parents <:+ levels := by
  induction h with
  | base isSealed updates header => exact List.suffix_cons _ _
  | inner header h ih => exact ih.trans (List.suffix_cons _ _)

/-- The state in the middle of a program that was started when the root was as given. -/
structure Scoped (parents : List Level) (seq d : Nat) (root : Root) (t : LedgerStack) : Prop where
  inside : Inside parents seq d t.levels
  reread : Reread root t.root
  nulls : NullsBelow t.levels root.database

theorem Scoped.put (h : Scoped parents seq d root s) (hlevels : s.levels = level :: rest)
    (hroot : Reread s.root root') (level' : Level)
    (hseq : level'.header.ledgerSeq = seq) (hsealed : level'.isSealed = level.isSealed)
    (hupdates : level'.shouldUpdateLastModified = level.shouldUpdateLastModified)
    (hnulls : ∀ key, level'.entry.lookup key = some (.dead key) →
      level.entry.lookup key = some (.dead key) ∨
        (newest rest root.database key).isSome = true) :
    Scoped parents seq d root { levels := level' :: rest, root := root' } := by
  obtain ⟨hinside, hread, hbelow⟩ := h
  rw [hlevels] at hinside hbelow
  refine ⟨hinside.put hseq hsealed hupdates, hread.trans hroot, fun key hdead => ?_, hbelow.2⟩
  rcases hnulls key hdead with hold | hneed
  · exact hbelow.1 key hold
  · exact hneed

/-- What a single operation of a program may come to. -/
def Moves (parents : List Level) (seq d : Nat) (root : Root) (op : Op) (s : LedgerStack) : Prop :=
  wp (step op) (fun _ t => Scoped parents seq (op.depthAfter d) root t)
    (fun e t => e = .fatal ∨ Scoped parents seq d root t) s

theorem moves_of_onLevel (hlevels : s.levels = level :: rest) {op : Op}
    (h : wp (onLevel level rest op) (fun _ t => Scoped parents seq (op.depthAfter d) root t)
      (fun e t => e = .fatal ∨ Scoped parents seq d root t) s) :
    Moves parents seq d root op s := by
  unfold Moves step
  rw [wp_get_bind]
  simp only [hlevels]
  exact h

/-- A level that is sealed or committed lies in another one of the program. -/
theorem Inside.exists_inner (h : Inside parents seq d levels) (hd : 0 < d) :
    ∃ level parent rest, levels = level :: parent :: rest ∧ level.header.ledgerSeq = seq ∧
      Inside parents seq (d - 1) (parent :: rest) := by
  cases h with
  | base isSealed updates header => omega
  | inner header h =>
    obtain ⟨parent, rest, rfl⟩ := h.exists_cons
    exact ⟨_, parent, rest, rfl, header, h⟩

variable (h : Scoped parents seq d root s)
include h

theorem rollback_moves {n : Nat} (hn : n < d) : Moves parents seq d root (.rollback n) s := by
  obtain ⟨level, rest, hlevels⟩ := h.inside.exists_cons
  refine moves_of_onLevel hlevels ?_
  show wp (rollback n) _ _ s
  unfold rollback
  rw [wp_get_bind, wp_bind, wp_ensure]
  refine ⟨fun _ => wp_set.2 ?_, fun _ => Or.inr h⟩
  exact ⟨h.inside.drop hn, h.reread, nullsBelow_drop h.nulls _⟩

theorem getChanges_moves (hd : 0 < d) : Moves parents seq d root .getChanges s := by
  obtain ⟨level, parent, rest, hlevels, hseq, hinside⟩ := h.inside.exists_inner hd
  refine moves_of_onLevel hlevels (wp_modify.2 ⟨?_, h.reread, ?_⟩)
  · have hdepth : d = d - 1 + 1 := by omega
    show Inside parents seq d _
    rw [hdepth]
    exact .inner hseq hinside
  · have hbelow := hlevels ▸ h.nulls
    exact ⟨fun key hdead => hbelow.1 key (sealed_dead hdead), hbelow.2⟩

theorem commit_moves (hd : 0 < d) : Moves parents seq d root .commit s := by
  obtain ⟨level, parent, rest, hlevels, hseq, hinside⟩ := h.inside.exists_inner hd
  refine moves_of_onLevel hlevels ?_
  have hbelow := hlevels ▸ h.nulls
  refine wp_commit_parent h.reread.cache (fun _ => Or.inl rfl) fun parent' root' hread hinto => ?_
  rw [h.reread.database] at hinto
  refine ⟨hinside.put ?_ hinto.isSealed hinto.updates, h.reread.trans hread,
    hinto.nulls hbelow.2⟩
  rw [hinto.header]
  exact hseq

section

variable (hlevels : s.levels = level :: rest)
include hlevels

theorem moves_of_rewrites {op : Op} (hdepth : op.depthAfter d = d)
    (hop : Rewrites level rest (onLevel level rest op) s) : Moves parents seq d root op s := by
  have hscoped : ∀ t, Rewritten level rest s t → Scoped parents seq d root t := by
    rintro t ⟨hroot, level', hlevels', hheader, hsealed, hupdates, hnulls⟩
    have hseq := (hlevels ▸ h.inside).ledgerSeq
    have ht := h.put hlevels hroot level' (hheader ▸ hseq) hsealed hupdates
      (h.reread.database ▸ hnulls)
    rw [← hlevels'] at ht
    exact ht
  refine moves_of_onLevel hlevels (wp_mono hop (fun _ t ht => ?_) fun e t he => ?_)
  · rw [hdepth]
    exact hscoped t ht
  · exact he.imp_right (hscoped t)

theorem writeHeader_moves {header : LedgerHeader} (hseq : header.ledgerSeq = seq) :
    Moves parents seq d root (.writeHeader header) s :=
  moves_of_onLevel hlevels (wp_modify.2
    (h.put hlevels (.refl h.reread.cache) _ hseq rfl rfl fun _ hdead => Or.inl hdead))

theorem openChild_moves (updates : Bool) : Moves parents seq d root (.openChild updates) s := by
  refine moves_of_onLevel hlevels ?_
  show wp (openChild updates level rest) _ _ s
  unfold openChild
  refine wp_guard (Or.inr h) fun _ => wp_modify.2 ?_
  have hseq := (hlevels ▸ h.inside).ledgerSeq
  obtain ⟨hinside, hread, hnulls⟩ := h.put hlevels (.refl h.reread.cache)
    { level with active := [] } hseq rfl rfl fun key hdead => Or.inl hdead
  exact ⟨.inner hseq hinside, hread, fun key hdead => (by cases hdead), hnulls⟩

end

/-- One operation of a program. -/
theorem allowed_moves {op : Op} (hop : op.allowed seq d) : Moves parents seq d root op s := by
  obtain ⟨level, rest, hlevels⟩ := h.inside.exists_cons
  have hcache := h.reread.cache
  cases op with
  | openChild updates => exact openChild_moves h hlevels updates
  | getNewestVersion key =>
    exact moves_of_rewrites h hlevels rfl (query_rewrites hlevels hcache key)
  | create entry => exact moves_of_rewrites h hlevels rfl (create_rewrites hlevels hcache entry)
  | load key => exact moves_of_rewrites h hlevels rfl (load_rewrites hlevels hcache key)
  | write entry => exact moves_of_rewrites h hlevels rfl (write_rewrites hlevels hcache entry)
  | deactivate key =>
    exact moves_of_rewrites h hlevels rfl (deactivate_rewrites hlevels hcache key)
  | erase key => exact moves_of_rewrites h hlevels rfl (erase_rewrites hlevels hcache key)
  | writeHeader header => exact writeHeader_moves h hlevels hop
  | getChanges => exact getChanges_moves h hop
  | commit => exact commit_moves h hop
  | rollback n => exact rollback_moves h hop

end Scopes

/-! ### Whole programs -/

/-- The program aborts. -/
abbrev Fatal (e : StateError) (_ : LedgerStack) : Prop := e = .fatal

section Programs

variable {parents : List Level} {seq d : Nat} {root : Root} {s : LedgerStack} {α : Type}

/-- A program that returns leaves its own level innermost, and one that throws has not touched the
levels below. -/
theorem performAll_scoped {throws : Bool} {ops : List Op} (h : Scoped parents seq d root s)
    (hops : Confined seq throws d ops) :
    wp (performAll ops)
      (fun done t => ∃ d', Scoped parents seq d' root t ∧ (done = true → throws = false → d' = 0))
      Fatal s := by
  induction ops generalizing s d with
  | nil =>
    refine wp_pure.2 ⟨d, h, fun _ hreturns => ?_⟩
    rcases hops with hthrows | hdepth
    · rw [hreturns] at hthrows
      cases hthrows
    · exact hdepth
  | cons op ops ih =>
    have hstep := allowed_moves h hops.1
    unfold wp performAll
    cases hrun : step op s with
    | ok _ t =>
      have ht := wp_ok hstep hrun
      have hrest := ih ht hops.2
      unfold wp at hrest
      exact hrest
    | error e t =>
      rcases wp_error hstep hrun with rfl | ht
      · rfl
      · by_cases hfatal : e = .fatal
        · simp only [if_pos hfatal]
          exact hfatal
        · simp only [if_neg hfatal]
          exact ⟨d, ht, fun hdone => by cases hdone⟩

theorem run_scoped (trace : Trace seq α) (h : Scoped parents seq 0 root s) :
    wp trace.run
      (fun result t => ∃ d, Scoped parents seq d root t ∧ (result.isSome = true → d = 0))
      Fatal s := by
  refine wp_seq (performAll_scoped h trace.confined) fun done t ht => ?_
  obtain ⟨d, hscoped, hdepth⟩ := ht
  refine wp_pure.2 ⟨d, hscoped, fun hsome => ?_⟩
  cases done with
  | false => cases hsome
  | true =>
    refine hdepth rfl ?_
    cases hresult : trace.result with
    | none =>
      rw [hresult] at hsome
      cases hsome
    | some result => rfl

end Programs

end SpnCore.Ledger.Nested
