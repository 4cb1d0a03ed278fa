import SpnCore.Transactions.BookFrames
import SpnCore.Transactions.Preparation

/-!
# Replay protection

A transaction is applied only if its sequence number follows the one of its source account, which
is consumed then. An account may be merged and created again, also in the same ledger: it is merged
only if the sequence number it would start with again is higher than the one it has. So the
sequence number under an account identifier never decreases, and nothing is applied twice.
-/

namespace SpnCore.Ledger

open Lib
open Herder.Upgrades (LedgerUpgrade)

variable {accountID : AccountID} {n : Int}

/-! ### Sequence numbers -/

/-- The account has at least this sequence number, or will start above it. -/
def NotBelow (s : LedgerState) (accountID : AccountID) (n : Int) : Prop :=
  (∃ acc, s.accounts.lookup accountID = some acc ∧ n ≤ acc.seqNum) ∨
    s.accounts.lookup accountID = none ∧ n < getStartingSequenceNumber s.header

/-- Within a ledger no account falls behind. -/
structure SeqKept (s t : LedgerState) : Prop where
  ledgerSeq : t.header.ledgerSeq = s.header.ledgerSeq
  notBelow : ∀ accountID n, NotBelow s accountID n → NotBelow t accountID n

instance : IsPreorder LedgerState SeqKept where
  refl _ := ⟨rfl, fun _ _ h => h⟩
  trans _ _ _ h h' :=
    ⟨h'.ledgerSeq.trans h.ledgerSeq, fun a n hs => h'.notBelow a n (h.notBelow a n hs)⟩

section Keeping

variable {s t : LedgerState}

theorem getStartingSequenceNumber_congr {header header' : LedgerHeader}
    (h : header'.ledgerSeq = header.ledgerSeq) :
    getStartingSequenceNumber header' = getStartingSequenceNumber header := by
  unfold getStartingSequenceNumber
  rw [h]

theorem SeqKept.of_accounts (hheader : t.header.ledgerSeq = s.header.ledgerSeq)
    (haccounts : t.accounts = s.accounts) : SeqKept s t := by
  refine ⟨hheader, fun accountID n h => ?_⟩
  rw [NotBelow, haccounts, getStartingSequenceNumber_congr hheader]
  exact h

theorem NotBelow.of_lookup {acc : AccountEntry} (h : NotBelow s accountID n)
    (hacc : s.accounts.lookup accountID = some acc) : n ≤ acc.seqNum := by
  rcases h with ⟨acc', hacc', hle⟩ | ⟨hnone, -⟩
  · cases hacc.symm.trans hacc'
    exact hle
  · cases hacc.symm.trans hnone

theorem Write.seqKept (h : Write s t) : SeqKept s t := by
  cases h with
  | header => exact .of_accounts rfl rfl
  | @account acc acc' stored h =>
    obtain ⟨hid, hle⟩ := h.accountID
    refine ⟨rfl, fun accountID n hbelow => ?_⟩
    by_cases hkey : accountID = acc'.accountID
    · refine .inl ⟨acc', ?_, ?_⟩
      · rw [LedgerState.putAccount, Table.lookup_upsert, key_account, if_pos hkey]
      · rw [hkey, hid] at hbelow
        exact (hbelow.of_lookup stored).trans hle
    · rw [NotBelow, LedgerState.putAccount, Table.lookup_upsert_of_ne hkey]
      exact hbelow
  | @createAccount op absent pos =>
    refine ⟨rfl, fun accountID n hbelow => ?_⟩
    by_cases hkey : accountID = op.destination
    · refine .inl ⟨op.newAccount s.header, ?_, ?_⟩
      · rw [LedgerState.putAccount, Table.lookup_upsert]
        exact if_pos hkey
      · rcases hbelow with ⟨acc, hacc, -⟩ | ⟨-, hlt⟩
        · rw [hkey, absent] at hacc
          cases hacc
        · simp only [CreateAccountOp.newAccount]
          exact hlt.le
    · have hne : accountID ≠ Keyed.key (op.newAccount s.header) := hkey
      rw [NotBelow, LedgerState.putAccount, Table.lookup_upsert_of_ne hne]
      exact hbelow
  | @eraseAccount acc stored lt =>
    refine ⟨rfl, fun accountID n hbelow => ?_⟩
    by_cases hkey : accountID = acc.accountID
    · subst hkey
      refine .inr ⟨?_, (hbelow.of_lookup stored).trans_lt lt⟩
      rw [LedgerState.eraseAccount, Table.lookup_erase, if_pos rfl]
    · rw [NotBelow, LedgerState.eraseAccount, Table.lookup_erase, if_neg hkey]
      exact hbelow
  | _ => exact .of_accounts rfl rfl

theorem Written.seqKept (h : Written s t) : SeqKept s t := by
  induction h with
  | refl => exact refl_of SeqKept s
  | tail _ hwrite ih => exact trans_of SeqKept ih hwrite.seqKept

theorem Operated.seqKept (h : Operated s t) : SeqKept s t := by
  cases h with
  | written writes => exact writes.seqKept
  | placed before place after =>
    refine trans_of SeqKept before.seqKept (trans_of SeqKept ?_ after.seqKept)
    cases place with
    | replaced => exact .of_accounts rfl rfl
    | created => exact .of_accounts rfl rfl

theorem Operates.seqKept {n : Nat} (h : Operates n s t) : SeqKept s t := by
  induction h with
  | done => exact refl_of SeqKept _
  | write writes _ ih => exact trans_of SeqKept writes.seqKept ih
  | operate operation _ ih => exact trans_of SeqKept operation.seqKept ih

end Keeping

end SpnCore.Ledger

namespace SpnCore.Herder.Upgrades

open Lib Ledger

/-! ### Upgrades -/

theorem seqKept_applyTo (upgrade : LedgerUpgrade) : Within SeqKept (applyTo upgrade) := by
  -- an upgrade changes the header, but not its ledger number
  have hheader : ∀ f : LedgerHeader → LedgerHeader, (∀ h, (f h).ledgerSeq = h.ledgerSeq) →
      Within SeqKept (do let header ← loadHeader; putHeader (f header) : LedgerM Unit) := by
    intro f hf s
    refine wp_bind.2 (wp_loadHeader.2 (wp_putHeader.2 ?_))
    exact .of_accounts (hf s.header) rfl
  cases upgrade with
  | version _ => exact within_pure
  | baseFee newBaseFee => exact hheader (fun h => { h with baseFee := newBaseFee }) fun _ => rfl
  | maxTxSetSize n => exact hheader (fun h => { h with maxTxSetSize := n }) fun _ => rfl
  | baseReserve newReserve =>
    intro s
    refine wp_bind.2 (wp_loadHeader.2 (wp_bind.2 (wp_putHeader.2 ?_)))
    have hput : SeqKept s (s.putHeader { s.header with baseReserve := newReserve }) :=
      .of_accounts rfl rfl
    have hprepare : Within SeqKept prepareLiabilities :=
      within_bind within_get fun _ => within_forM (fun accountID =>
        within_prepareAccount Written.seqKept (fun _ _ _ _ => .of_accounts rfl rfl) accountID) _
    exact (within_onlyIf hprepare).after hput

end SpnCore.Herder.Upgrades

namespace SpnCore.Ledger

open Lib
open Herder.Upgrades (LedgerUpgrade)

/-! ### Runs -/

/-- The program ends in the state, by returning or by throwing. -/
def Leaves {α : Type} (x : LedgerM α) (s t : LedgerState) : Prop :=
  (∃ a, x s = .ok a t) ∨ ∃ e, x s = .error e t

theorem Leaves.of_within {α : Type} {x : LedgerM α} {R : LedgerState → LedgerState → Prop}
    {s t : LedgerState} (h : Leaves x s t) (hx : Within R x) : R s t := by
  rcases h with ⟨a, ha⟩ | ⟨e, he⟩
  · exact wp_ok (Q := fun _ => R s) (hx s) ha
  · exact wp_error (E := fun _ => R s) (hx s) he

theorem Leaves.leftState_eq {α : Type} {x : LedgerM α} {s t : LedgerState} (h : Leaves x s t) :
    leftState x s = t := by
  rcases h with ⟨a, h⟩ | ⟨e, h⟩ <;> simp only [leftState, h]

theorem within_leaves {α : Type} (x : LedgerM α) : Within (Leaves x) x := by
  intro s
  cases hx : x s with
  | ok a t => exact wp_of_ok hx (.inl ⟨a, hx⟩)
  | error e t => exact wp_of_error hx (.inr ⟨e, hx⟩)

/-- The transaction is valid when it is applied, so that its operations are applied. -/
def Transaction.AppliesOperations (env : Env) (tx : Transaction) (s : LedgerState) : Prop :=
  ∃ preparation t, tx.prepare env s = .ok preparation t ∧ preparation.valid = true

instance (env : Env) (tx : Transaction) (s : LedgerState) :
    Decidable (tx.AppliesOperations env s) :=
  match h : tx.prepare env s with
  | .ok preparation t =>
    decidable_of_iff (preparation.valid = true) ⟨fun hvalid => ⟨preparation, t, h, hvalid⟩, by
      rintro ⟨_, _, h', hvalid⟩
      cases h.symm.trans h'
      exact hvalid⟩
  | .error _ _ => .isFalse (by
      rintro ⟨_, _, h', -⟩
      cases h.symm.trans h')

/-- What happens to a ledger, with the transactions whose operations are applied. -/
inductive Step (env : Env) : LedgerState → List Transaction → LedgerState → Prop
  /-- A later ledger is opened. -/
  | opens {s : LedgerState} {ledgerSeq closeTime : Nat} (later : s.header.ledgerSeq < ledgerSeq)
      (bound : ledgerSeq < 2 ^ 31) :
      Step env s []
        (s.putHeader { s.header with ledgerSeq := ledgerSeq, closeTime := closeTime })
  | charges {s t : LedgerState} {tx : Transaction} (run : Leaves tx.processFeeSeqNum s t) :
      Step env s [] t
  | applies {s t : LedgerState} {tx : Transaction} (valid : tx.AppliesOperations env s)
      (run : Leaves (tx.apply env) s t) : Step env s [tx] t
  | fails {s t : LedgerState} {tx : Transaction} (invalid : ¬ tx.AppliesOperations env s)
      (run : Leaves (tx.apply env) s t) : Step env s [] t
  | upgrades {s t : LedgerState} {upgrade : LedgerUpgrade}
      (run : Leaves (Herder.Upgrades.applyTo upgrade) s t) : Step env s [] t

/-- Any number of steps, with the transactions whose operations are applied, in order. -/
inductive Run (env : Env) : LedgerState → List Transaction → LedgerState → Prop
  | refl {s : LedgerState} : Run env s [] s
  | head {s t u : LedgerState} {applied rest : List Transaction} (step : Step env s applied t)
      (run : Run env t rest u) : Run env s (applied ++ rest) u

section Running

variable {env : Env} {s t : LedgerState} {tx : Transaction} {applied : List Transaction}

theorem getStartingSequenceNumber_eq {header : LedgerHeader} (h : header.ledgerSeq < 2 ^ 31) :
    getStartingSequenceNumber header = header.ledgerSeq * 2 ^ 32 := by
  unfold getStartingSequenceNumber
  rw [Int.bmod_def]
  split <;> omega

/-- Applying a transaction consumes its sequence number. -/
theorem Transaction.AppliesOperations.seqNum (h : tx.AppliesOperations env s)
    (hrun : Leaves (tx.apply env) s t) :
    (∃ acc, s.accounts.lookup tx.sourceAccount = some acc ∧ acc.seqNum + 1 = tx.seqNum) ∧
      NotBelow t tx.sourceAccount tx.seqNum := by
  obtain ⟨preparation, u, hprepare, hvalid⟩ := h
  obtain ⟨hbefore, acc, hacc, hseq⟩ := (wp_ok (tx.prepare_spec env s) hprepare).seqNum hvalid
  refine ⟨hbefore, ?_⟩
  have hafter : NotBelow u tx.sourceAccount tx.seqNum := .inl ⟨acc, hacc, hseq.ge⟩
  have hrest := (tx.operates_afterPrepare env preparation).mono fun _ _ => Operates.seqKept
  refine (Leaves.of_within ?_ hrest).notBelow _ _ hafter
  rwa [Leaves, Transaction.apply, bind_of_ok hprepare] at hrun

theorem Step.notBelow (h : Step env s applied t) (hs : NotBelow s accountID n) :
    NotBelow t accountID n := by
  cases h with
  | @opens ledgerSeq closeTime later bound =>
    rcases hs with hacc | ⟨hnone, hlt⟩
    · exact .inl hacc
    · refine .inr ⟨hnone, hlt.trans_le ?_⟩
      rw [getStartingSequenceNumber_eq (later.trans bound), getStartingSequenceNumber_eq bound]
      exact Int.mul_le_mul_of_nonneg_right (Int.ofNat_le.2 later.le) (by decide)
  | charges run =>
    exact (run.of_within ((Transaction.written_processFeeSeqNum _).mono
      fun _ _ => Written.seqKept)).notBelow _ _ hs
  | applies _ run =>
    exact (run.of_within ((Transaction.operates_apply env _).mono
      fun _ _ => Operates.seqKept)).notBelow _ _ hs
  | fails _ run =>
    exact (run.of_within ((Transaction.operates_apply env _).mono
      fun _ _ => Operates.seqKept)).notBelow _ _ hs
  | upgrades run =>
    exact (run.of_within (Herder.Upgrades.seqKept_applyTo _)).notBelow _ _ hs

theorem Run.notBelow (h : Run env s applied t) (hs : NotBelow s accountID n) :
    NotBelow t accountID n := by
  induction h with
  | refl => exact hs
  | head step _ ih => exact ih (step.notBelow hs)

/-- What a step applies is new to its source account. -/
theorem Step.lt_seqNum (h : Step env s applied t) (hs : NotBelow s accountID n) :
    ∀ tx ∈ applied, tx.sourceAccount = accountID → n < tx.seqNum := by
  intro tx htx hsource
  cases h with
  | applies valid run =>
    cases List.mem_singleton.1 htx
    obtain ⟨⟨acc, hacc, hseq⟩, -⟩ := valid.seqNum run
    rw [hsource] at hacc
    have hle := hs.of_lookup hacc
    omega
  | _ => cases htx

theorem Run.lt_seqNum (h : Run env s applied t) (hs : NotBelow s accountID n) :
    ∀ tx ∈ applied, tx.sourceAccount = accountID → n < tx.seqNum := by
  induction h with
  | refl => exact fun _ h => (List.not_mem_nil h).elim
  | head step _ ih =>
    intro tx htx
    rcases List.mem_append.1 htx with htx | htx
    · exact step.lt_seqNum hs tx htx
    · exact ih (step.notBelow hs) tx htx

theorem Run.trans {s t u : LedgerState} {rest : List Transaction} (h : Run env s applied t)
    (h' : Run env t rest u) : Run env s (applied ++ rest) u := by
  induction h with
  | refl => exact h'
  | head step _ ih =>
    rw [List.append_assoc]
    exact .head step (ih h')

theorem Run.single {s t : LedgerState} (h : Step env s applied t) : Run env s applied t := by
  have hrun : Run env s (applied ++ []) t := .head h .refl
  rwa [List.append_nil] at hrun

/-- Over any run the sequence number under an account identifier does not decrease, whether or not
the account was merged and created again in between, and the operations of no two transactions with
the same source account and sequence number are applied. -/
theorem replay_protection (h : Run env s applied t) :
    (∀ accountID acc acc', s.accounts.lookup accountID = some acc →
      t.accounts.lookup accountID = some acc' → acc.seqNum ≤ acc'.seqNum) ∧
      (applied.map fun tx => (tx.sourceAccount, tx.seqNum)).Nodup := by
  refine ⟨fun accountID acc acc' hacc hacc' => ?_, ?_⟩
  · exact (h.notBelow (.inl ⟨acc, hacc, le_rfl⟩)).of_lookup hacc'
  · induction h with
    | refl => exact List.nodup_nil
    | @head s t u applied rest step run ih =>
      cases step with
      | applies valid hrun =>
        refine List.nodup_cons.2 ⟨fun hmem => ?_, ih⟩
        obtain ⟨tx', htx', heq⟩ := List.mem_map.1 hmem
        obtain ⟨hsource, hseq⟩ := Prod.mk.inj heq
        have hlt := run.lt_seqNum (valid.seqNum hrun).2 tx' htx' hsource
        omega
      | _ => exact ih

end Running

section Recreated

/-- Account 1 is merged into account 2. -/
def mergeOne : Transaction where
  sourceAccount := 1
  fee := 0
  seqNum := 6
  operations := [⟨none, .accountMerge 2⟩]
  signatures := [1]
  contentsHash := 4

/-- Account 2 creates account 1 again. -/
def createOne : Transaction where
  sourceAccount := 2
  fee := 0
  seqNum := 6
  operations := [⟨none, .createAccount ⟨1, 20⟩⟩]
  signatures := [2]
  contentsHash := 5

/-- The ledger after a transaction. -/
def after (tx : Transaction) (s : LedgerState) : LedgerState :=
  (okState (tx.apply Transaction.plainEnv) s).getD s

theorem step_after {tx : Transaction} {s : LedgerState}
    (hvalid :
      (Transaction.Preparation.valid <$> tx.prepare Transaction.plainEnv).run' s = some true)
    (hstate : (okState (tx.apply Transaction.plainEnv) s).isSome) :
    Step Transaction.plainEnv s [tx] (after tx s) := by
  obtain ⟨u, hu⟩ := exists_run_eq hvalid
  have hmap : wp (Transaction.Preparation.valid <$> tx.prepare Transaction.plainEnv)
      (fun valid _ => valid = true) (fun _ _ => False) s := wp_of_ok hu rfl
  have hprepare := wp_map.1 hmap
  obtain ⟨preparation, v, hv⟩ := exists_ok_of_wp hprepare
  have happlies : tx.AppliesOperations Transaction.plainEnv s :=
    ⟨preparation, v, hv, wp_ok (Q := fun p _ => p.valid = true) hprepare hv⟩
  obtain ⟨t, ht⟩ := Option.isSome_iff_exists.1 hstate
  rw [after, ht, Option.getD_some]
  exact .applies happlies (.inl (okState_eq_some.1 ht))

theorem replay_protection_recreated :
    Run Transaction.plainEnv Transaction.twoAccounts [mergeOne, createOne]
        (after createOne (after mergeOne Transaction.twoAccounts)) ∧
      (∀ accountID acc acc', Transaction.twoAccounts.accounts.lookup accountID = some acc →
        (after createOne (after mergeOne Transaction.twoAccounts)).accounts.lookup accountID =
          some acc' → acc.seqNum ≤ acc'.seqNum) ∧
      ([mergeOne, createOne].map fun tx => (tx.sourceAccount, tx.seqNum)).Nodup := by
  have hrun : Run Transaction.plainEnv Transaction.twoAccounts [mergeOne, createOne]
      (after createOne (after mergeOne Transaction.twoAccounts)) :=
    (Run.single (step_after (by decide +kernel) (by decide +kernel))).trans
      (.single (step_after (by decide +kernel) (by decide +kernel)))
  exact ⟨hrun, replay_protection hrun⟩

end Recreated

/-! ### Closing ledgers -/

section Closing

variable {env : Env}

/-- The transactions whose operations are applied, when each is applied in the state that those
before it leave behind. -/
def appliedIn (env : Env) : List Transaction → LedgerState → List Transaction
  | [], _ => []
  | tx :: txs, s =>
    (if tx.AppliesOperations env s then [tx] else []) ++
      appliedIn env txs (leftState (tx.apply env) s)

/-- The transactions whose operations are applied while ledgers are closed one after the other. -/
def appliedOver (env : Env) : List LedgerCloseData → LedgerState → List Transaction
  | [], _ => []
  | ledgerData :: closes, s =>
    appliedIn env ledgerData.txs (leftState (openLedger ledgerData) s) ++
      appliedOver env closes (leftState (closeLedger env ledgerData) s)

/-- A run without transactions reaches the state, in the same ledger. -/
def Reaches (env : Env) (s t : LedgerState) : Prop :=
  t.header.ledgerSeq = s.header.ledgerSeq ∧ Run env s [] t

instance : IsPreorder LedgerState (Reaches env) where
  refl _ := ⟨rfl, .refl⟩
  trans _ _ _ h h' := ⟨h'.1.trans h.1, h.2.trans h'.2⟩

theorem reaches_processFeeOf {tx : Transaction} : Within (Reaches env) (processFeeOf tx) := by
  refine within_nested (within_bind (fun s => ?_) fun _ => within_pure)
  exact wp_ends (wp_and (within_leaves tx.processFeeSeqNum s) (tx.written_processFeeSeqNum s))
    fun t h => ⟨h.2.seqKept.ledgerSeq, .single (.charges h.1)⟩

theorem reaches_applyUpgrade {upgrade : LedgerUpgrade} :
    Within (Reaches env) (applyUpgrade upgrade) := by
  refine within_bind (within_catching (within_nested fun s => ?_)) fun _ => within_pure
  exact wp_ends (wp_and (within_leaves (Herder.Upgrades.applyTo upgrade) s)
    (Herder.Upgrades.seqKept_applyTo upgrade s))
    fun t h => ⟨h.2.ledgerSeq, .single (.upgrades h.1)⟩

theorem apply_run (tx : Transaction) {s t : LedgerState} (h : Leaves (tx.apply env) s t) :
    t.header.ledgerSeq = s.header.ledgerSeq ∧
      Run env s (if tx.AppliesOperations env s then [tx] else []) t := by
  have hoperates : Operates tx.operations.length s t := h.of_within (tx.operates_apply env)
  refine ⟨hoperates.seqKept.ledgerSeq, ?_⟩
  split
  case isTrue hvalid => exact .single (.applies hvalid h)
  case isFalse hinvalid => exact .single (.fails hinvalid h)

/-- Applying transactions is a run that applies the operations of those that are valid. -/
theorem applyTransactions_run {txs : List Transaction} {s : LedgerState} :
    wp (applyTransactions env txs)
      (fun _ t => t.header.ledgerSeq = s.header.ledgerSeq ∧ Run env s (appliedIn env txs s) t)
      (fun _ _ => True) s := by
  induction txs generalizing s with
  | nil => exact wp_pure.2 ⟨rfl, .refl⟩
  | cons tx txs ih =>
    have hrest : ∀ application t, Leaves (tx.apply env) s t → wp (do
        let applications ← applyTransactions env txs
        return application :: applications)
        (fun _ u => u.header.ledgerSeq = s.header.ledgerSeq ∧
          Run env s (appliedIn env (tx :: txs) s) u) (fun _ _ => True) t := by
      intro application t hleaves
      obtain ⟨hseq, hrun⟩ := apply_run tx hleaves
      refine wp_seq ih fun _ u hu => wp_pure.2 ⟨hu.1.trans hseq, ?_⟩
      rw [appliedIn, hleaves.leftState_eq]
      exact hrun.trans hu.2
    refine wp_bind.2 (wp_catching.2 (wp_mono (within_leaves (tx.apply env) s)
      (fun a t h => hrest (some a) t h) fun e t h => ?_))
    split
    · trivial
    · exact hrest none t h

theorem openLedger_run (env : Env) {s : LedgerState} (ledgerData : LedgerCloseData)
    (hbound : s.header.ledgerSeq + 1 < 2 ^ 31) :
    wp (openLedger ledgerData)
      (fun _ t => t.header.ledgerSeq = s.header.ledgerSeq + 1 ∧ Run env s [] t)
      (fun _ _ => True) s := by
  refine wp_bind.2 (wp_loadHeader.2 (wp_bind.2 (wp_putHeader.2 ?_)))
  have hseq : (s.header.ledgerSeq + 1) % 2 ^ 32 = s.header.ledgerSeq + 1 :=
    Nat.mod_eq_of_lt (by omega)
  rw [hseq]
  have hopen := @Step.opens env s (s.header.ledgerSeq + 1) ledgerData.closeTime
    (Nat.lt_succ_self _) hbound
  have hfees : Within (Reaches env) (processFeesSeqNums ledgerData.txs) :=
    within_nested (within_forM (fun _ => reaches_processFeeOf) _)
  exact wp_mono (hfees _) (fun _ t h => ⟨h.1, .head hopen h.2⟩) fun _ _ _ => trivial

/-- Closing a ledger is a run into the next ledger. -/
theorem closeLedger_run (env : Env) {s : LedgerState} (ledgerData : LedgerCloseData)
    (hbound : s.header.ledgerSeq + 1 < 2 ^ 31) :
    wp (closeLedger env ledgerData)
      (fun _ t => t.header.ledgerSeq = s.header.ledgerSeq + 1 ∧
        Run env s (appliedIn env ledgerData.txs (leftState (openLedger ledgerData) s)) t)
      (fun _ t => t = s) s := by
  refine wp_nested.2 (wp_mono (Q := fun _ t => t.header.ledgerSeq = s.header.ledgerSeq + 1 ∧
    Run env s (appliedIn env ledgerData.txs (leftState (openLedger ledgerData) s)) t)
    (E := fun _ _ => True) ?_ (fun _ _ h => h) fun _ _ _ => rfl)
  refine wp_seq_run (openLedger_run env ledgerData hbound) fun _ t hopened ht => ?_
  rw [leftState_of_ok hopened]
  refine wp_seq applyTransactions_run fun _ u hu => ?_
  have hupgrades : Within (Reaches env) (ledgerData.upgrades.forM applyUpgrade) :=
    within_forM (fun _ => reaches_applyUpgrade) _
  refine wp_seq (wp_mono (hupgrades u) (fun _ _ h => h) fun _ _ _ => trivial)
    fun _ v hv => wp_pure.2 ⟨hv.1.trans (hu.1.trans ht.1), ?_⟩
  have hrun := (ht.2.trans hu.2).trans hv.2
  rwa [List.append_nil] at hrun

/-- Closing ledgers one after the other is a run in which the operations of those transactions are
applied that are valid when they are applied. When the close of a ledger throws, the run is that of
the ledgers before. -/
theorem closeLedgers_run (closes : List LedgerCloseData) {s : LedgerState}
    (hbound : s.header.ledgerSeq + closes.length < 2 ^ 31) :
    wp (closeLedgers env closes) (fun _ t => Run env s (appliedOver env closes s) t)
      (fun _ t => ∃ closed, closed <+: closes ∧ Run env s (appliedOver env closed s) t) s := by
  induction closes generalizing s with
  | nil => exact wp_pure.2 .refl
  | cons ledgerData closes ih =>
    rw [List.length_cons] at hbound
    have hfirst := closeLedger_run env (s := s) ledgerData (by omega)
    refine wp_bind.2 (wp_bind.2 ?_)
    cases hclose : closeLedger env ledgerData s with
    | error e t =>
      obtain rfl := wp_error hfirst hclose
      exact wp_of_error hclose ⟨[], List.nil_prefix, .refl⟩
    | ok applications t =>
      obtain ⟨hledger, hrun⟩ := wp_ok hfirst hclose
      refine wp_of_ok hclose (wp_pure.2 (wp_mono (ih (s := t) (by omega)) (fun _ u hu => ?_) ?_))
      · rw [appliedOver, leftState_of_ok hclose]
        exact hrun.trans hu
      · rintro e u ⟨closed, hclosed, hu⟩
        refine ⟨ledgerData :: closed, (List.prefix_cons_inj ledgerData).2 hclosed, ?_⟩
        rw [appliedOver, leftState_of_ok hclose]
        exact hrun.trans hu

/-- A ledger that merges an account and creates it again. -/
def recreatingClose : LedgerCloseData := ⟨1, [mergeOne, createOne], []⟩

open Transaction (plainEnv) in
/-- The operations of both transactions are applied. -/
theorem closeLedgers_run_recreated :
    appliedOver plainEnv [recreatingClose] Transaction.twoAccounts = [mergeOne, createOne] ∧
    wp (closeLedgers plainEnv [recreatingClose])
      (fun _ t => Run plainEnv Transaction.twoAccounts
        (appliedOver plainEnv [recreatingClose] Transaction.twoAccounts) t)
      (fun _ t => ∃ closed, closed <+: [recreatingClose] ∧ Run plainEnv Transaction.twoAccounts
        (appliedOver plainEnv closed Transaction.twoAccounts) t) Transaction.twoAccounts :=
  ⟨by decide +kernel, closeLedgers_run _ (by decide)⟩

end Closing

end SpnCore.Ledger
