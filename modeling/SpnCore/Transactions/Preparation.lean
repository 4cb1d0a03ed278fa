import SpnCore.Transactions.ProgramRules
import SpnCore.Transactions.SignatureSpecs
import SpnCore.Transactions.SignerSpecs

/-!
# What happens before the operations of a transaction run

A transaction that is applied is validated first. Its sequence number is consumed, the signatures
of all operations are checked against the ledger as it is then, and the one-time signers that
matched are removed. Read `apply_atomic` first: a transaction that fails leaves nothing else
behind. `operations_authorized` says what the checks establish for the operations.
-/

namespace SpnCore.Ledger

open Lib SignatureChecker List

namespace Transaction

/-! ### What a transaction consumes -/

/-- The account, apart from its sequence number and from signers that authorized the transaction in
advance. Signers that were in order stay so. -/
structure Consumed (tx : Transaction) (acc acc' : AccountEntry) : Prop where
  frame : acc' = { acc with
    seqNum := acc'.seqNum
    numSubEntries := acc'.numSubEntries
    signers := acc'.signers }
  seqNum : acc'.seqNum = acc.seqNum ∨
    acc.accountID = tx.sourceAccount ∧ acc.seqNum + 1 = tx.seqNum ∧ acc'.seqNum = tx.seqNum
  signers : ∃ removed : List Signer,
    (∀ signer ∈ removed, signer.key = .preAuthTx tx.contentsHash) ∧
      (removed ++ acc'.signers).Perm acc.signers ∧
      acc'.numSubEntries.toNat + removed.length = acc.numSubEntries.toNat
  sorted : acc.signers.Pairwise (fun x y => x.le y = true) → acc'.signers.Sublist acc.signers

variable {tx : Transaction} {acc acc' acc'' : AccountEntry}

theorem Consumed.refl (acc : AccountEntry) : Consumed tx acc acc :=
  ⟨rfl, .inl rfl, ⟨[], by simp, .refl _, rfl⟩, fun _ => .refl _⟩

theorem Consumed.accountID (h : Consumed tx acc acc') : acc'.accountID = acc.accountID := by
  rw [h.frame]

theorem Consumed.trans (h : Consumed tx acc acc') (h' : Consumed tx acc' acc'') :
    Consumed tx acc acc'' where
  frame := by
    rw [h'.frame, h.frame]
  seqNum := by
    rcases h'.seqNum with heq | ⟨hid, hnext, heq⟩
    · rw [heq]
      exact h.seqNum
    · rcases h.seqNum with hsame | ⟨-, -, hconsumed⟩
      · rw [h.accountID] at hid
        rw [hsame] at hnext
        exact .inr ⟨hid, hnext, heq⟩
      · omega
  signers := by
    obtain ⟨removed, hkeys, hperm, hcount⟩ := h.signers
    obtain ⟨removed', hkeys', hperm', hcount'⟩ := h'.signers
    refine ⟨removed ++ removed', ?_, ?_, ?_⟩
    · intro signer hsigner
      rcases mem_append.1 hsigner with hmem | hmem
      · exact hkeys signer hmem
      · exact hkeys' signer hmem
    · rw [append_assoc]
      exact (hperm'.append_left removed).trans hperm
    · rw [length_append]
      omega
  sorted := fun hsorted =>
    have hsub := h.sorted hsorted
    (h'.sorted (hsorted.sublist hsub)).trans hsub

/-- The ledger, apart from the sequence number of the source account and from one-time signers. -/
structure OnlyConsumes (tx : Transaction) (s t : LedgerState) : Prop where
  header : t.header = s.header
  accounts : s.accounts.Rel (Consumed tx) t.accounts
  trustLines : t.trustLines = s.trustLines
  offers : t.offers = s.offers
  data : t.data = s.data

instance (tx : Transaction) : IsPreorder LedgerState (OnlyConsumes tx) where
  refl _ := ⟨rfl, Table.Rel.refl Consumed.refl _, rfl, rfl, rfl⟩
  trans _ _ _ h h' :=
    { header := h'.header.trans h.header
      accounts := h.accounts.trans h'.accounts fun _ _ _ => Consumed.trans
      trustLines := h'.trustLines.trans h.trustLines
      offers := h'.offers.trans h.offers
      data := h'.data.trans h.data }

theorem OnlyConsumes.putAccount {s : LedgerState} {a : AccountID}
    (hacc : s.accounts.lookup a = some acc) (h : Consumed tx acc acc') :
    OnlyConsumes tx s (s.putAccount acc') where
  header := rfl
  accounts := Table.Rel.upsert Consumed.refl hacc h h.accountID
  trustLines := rfl
  offers := rfl
  data := rfl

/-! ### One-time signers -/

theorem SignerRemoved.consumed (h : SignerRemoved (.preAuthTx tx.contentsHash) acc acc') :
    Consumed tx acc acc' := by
  obtain ⟨signer, hsigner⟩ := h.found
  obtain ⟨released, hreleased, rfl⟩ := h.released
  refine ⟨?_, .inl ?_, ⟨[signer], ?_, find?_cons_eraseP_perm hsigner, hreleased.value⟩,
    fun _ => eraseP_sublist⟩
  · rw [hreleased.frame]
  · rw [hreleased.frame]
  · have hkey := List.find?_some hsigner
    simpa using hkey

/-- Sorting the signers only changes their order, and nothing if they are in order. -/
theorem consumed_normalizeSigners (acc : AccountEntry) :
    Consumed tx acc { acc with signers := normalizeSigners acc.signers } where
  frame := rfl
  seqNum := .inl rfl
  signers := ⟨[], by simp, mergeSort_perm _ _, rfl⟩
  sorted := by
    intro hsorted
    show (acc.signers.mergeSort Signer.le).Sublist acc.signers
    rw [mergeSort_of_pairwise hsorted]

theorem within_removeUsedOneTimeSignerKeysOf (accountID : AccountID) {keys : List SignerKey}
    (hkeys : ∀ key ∈ keys, key = .preAuthTx tx.contentsHash) :
    Within (OnlyConsumes tx) (removeUsedOneTimeSignerKeysOf accountID keys) := by
  intro s
  simp only [removeUsedOneTimeSignerKeysOf, wp_bind, wp_loadHeader, wp_loadAccount]
  cases hacc : s.accounts.lookup accountID with
  | none => exact wp_pure.2 (refl_of (OnlyConsumes tx) s)
  | some acc =>
    simp only [wp_bind, wp_runExcept]
    refine ⟨fun removed hremoved => ?_, fun _ _ => refl_of (OnlyConsumes tx) s⟩
    cases removed with
    | none => exact wp_pure.2 (refl_of (OnlyConsumes tx) s)
    | some acc' =>
      obtain ⟨key, hkey, hcases⟩ := removeUsedKeys_cases hremoved
      rw [hkeys key hkey] at hcases
      exact (wp_putAccount _).2
        (.putAccount hacc (hcases.consumed.trans (consumed_normalizeSigners acc')))

theorem within_removeUsedOneTimeSignerKeys {used : List (AccountID × List SignerKey)}
    (hused : ∀ entry ∈ used, ∀ key ∈ entry.2, key = .preAuthTx tx.contentsHash) :
    Within (OnlyConsumes tx) (removeUsedOneTimeSignerKeys used) := by
  induction used with
  | nil => exact within_pure
  | cons entry rest ih =>
    obtain ⟨accountID, keys⟩ := entry
    exact within_bind
      (within_removeUsedOneTimeSignerKeysOf accountID (hused (accountID, keys) mem_cons_self))
      fun _ => ih fun entry hentry => hused entry (mem_cons_of_mem _ hentry)

/-! ### Signatures of the operations -/

variable {env : Env} {s t u : LedgerState} {op : Operation} {checker : SignatureChecker}

/-- The signers that the check of an operation looks at. -/
def operationSigners (tx : Transaction) (ls : LedgerState) (op : Operation) : List Signer :=
  match ls.accounts.lookup (op.getSourceID tx.sourceAccount) with
  | some acc => allSigners acc
  | none => op.sourceAccount.elim [] fun accountID => [⟨.ed25519 accountID, 1⟩]

/-- One of the signers that the checks of a transaction look at. -/
def Consulted (tx : Transaction) (ls : LedgerState) (signer : Signer) : Prop :=
  (∃ acc, ls.accounts.lookup tx.sourceAccount = some acc ∧ signer ∈ allSigners acc) ∨
    ∃ op ∈ tx.operations, signer ∈ tx.operationSigners ls op

/-- The signatures of the transaction reach the threshold of the operation on the ledger. An account
that does not exist is represented by its master key. -/
structure Authorized (env : Env) (tx : Transaction) (ls : LedgerState) (op : Operation) :
    Prop where
  existing : ∀ acc, ls.accounts.lookup (op.getSourceID tx.sourceAccount) = some acc →
    Carries env tx.contentsHash tx.signatures (allSigners acc)
      (getNeededThreshold acc op.body.getThresholdLevel)
  missing : ls.accounts.lookup (op.getSourceID tx.sourceAccount) = none →
    ∃ accountID, op.sourceAccount = some accountID ∧
      ∃ sig ∈ tx.signatures, env.verify sig accountID tx.contentsHash = true

/-- What the checks of a transaction keep of the checker. -/
abbrev SoundOn (env : Env) (tx : Transaction) (ls : LedgerState) (checker : SignatureChecker) :
    Prop :=
  Sound env tx.contentsHash tx.signatures (Consulted tx ls) checker

theorem verified_of_carries {hash : Hash} {sigs : List DecoratedSignature} {accountID : AccountID}
    {weight neededWeight : Nat}
    (h : Carries env hash sigs [⟨.ed25519 accountID, weight⟩] neededWeight) :
    ∃ sig ∈ sigs, env.verify sig accountID hash = true := by
  obtain ⟨matched, hne, hsub, hmatch, -⟩ := h
  obtain ⟨signer, hsigner⟩ := exists_mem_of_ne_nil matched hne
  obtain rfl := mem_singleton.1 (hsub.subset hsigner)
  rcases hmatch _ hsigner with hkey | ⟨sig, hsig, hverifies | hverifies⟩
  · cases hkey
  · cases hverifies
  · exact ⟨sig, hsig, hverifies⟩

theorem checkOperationSignature_spec (hop : op ∈ tx.operations) (h : SoundOn env tx s checker) :
    SoundOn env tx s (tx.checkOperationSignature env op checker s).2 ∧
      ((tx.checkOperationSignature env op checker s).1 = none → Authorized env tx s op) := by
  have hconsulted : ∀ signer ∈ tx.operationSigners s op, Consulted tx s signer :=
    fun signer hsigner => .inr ⟨op, hop, hsigner⟩
  unfold operationSigners at hconsulted
  unfold checkOperationSignature
  cases hacc : s.accounts.lookup (op.getSourceID tx.sourceAccount) with
  | some acc =>
    rw [hacc] at hconsulted
    obtain ⟨hsound, hcarries⟩ := checkSignature_spec acc.accountID (allSigners acc) hconsulted
      (getNeededThreshold acc op.body.getThresholdLevel) checker h
    refine ⟨hsound, fun hnone => ⟨fun acc' hacc' => ?_, fun hmissing => ?_⟩⟩
    · obtain rfl : acc = acc' := Option.mem_unique hacc hacc'
      apply hcarries
      by_contra hfalse
      rw [Bool.not_eq_true] at hfalse
      dsimp only at hnone
      rw [hfalse] at hnone
      cases hnone
    · rw [hacc] at hmissing
      cases hmissing
  | none =>
    rw [hacc] at hconsulted
    cases hsource : op.sourceAccount with
    | none => exact ⟨h, fun hnone => by cases hnone⟩
    | some accountID =>
      rw [hsource] at hconsulted
      obtain ⟨hsound, hcarries⟩ := checkSignature_spec accountID
        [⟨.ed25519 accountID, 1⟩] hconsulted 0 checker h
      refine ⟨hsound, fun hnone => ⟨fun acc' hacc' => ?_, fun _ => ⟨accountID, hsource, ?_⟩⟩⟩
      · rw [hacc] at hacc'
        cases hacc'
      · apply verified_of_carries
        apply hcarries
        by_contra hfalse
        rw [Bool.not_eq_true] at hfalse
        dsimp only at hnone
        rw [hfalse] at hnone
        cases hnone

theorem checkOperationSignatures_spec {ops : List Operation} (hops : ∀ op ∈ ops, op ∈ tx.operations)
    (h : SoundOn env tx s checker) :
    SoundOn env tx s (tx.checkOperationSignatures env s ops checker).2 ∧
      ((tx.checkOperationSignatures env s ops checker).1.any Option.isSome = false →
        ∀ op ∈ ops, Authorized env tx s op) := by
  induction ops generalizing checker with
  | nil => exact ⟨h, fun _ _ hop => by cases hop⟩
  | cons op rest ih =>
    obtain ⟨hsound, hauthorized⟩ := checkOperationSignature_spec (hops op mem_cons_self) h
    obtain ⟨hsound', hauthorized'⟩ := ih (fun op' hop' => hops op' (mem_cons_of_mem op hop'))
      hsound
    refine ⟨hsound', fun hnone => ?_⟩
    have hany : ((tx.checkOperationSignature env op checker s).1.isSome ||
        (tx.checkOperationSignatures env s rest
          (tx.checkOperationSignature env op checker s).2).1.any Option.isSome) = false := hnone
    rw [Bool.or_eq_false_iff, Option.isSome_eq_false_iff, Option.isNone_iff_eq_none] at hany
    intro op' hop'
    rcases mem_cons.1 hop' with rfl | hmem
    · exact hauthorized hany.1
    · exact hauthorized' hany.2 op' hmem

/-- The account, apart from its sequence number. -/
def SeqNumOnly (acc acc' : AccountEntry) : Prop :=
  acc' = { acc with seqNum := acc'.seqNum }

/-- The checks do not look at sequence numbers. -/
theorem checkOperationSignature_congr (h : s.accounts.Rel SeqNumOnly u.accounts) :
    tx.checkOperationSignature env op checker u = tx.checkOperationSignature env op checker s := by
  unfold checkOperationSignature
  cases hacc : s.accounts.lookup (op.getSourceID tx.sourceAccount) with
  | none => rw [h.lookup_none.1 hacc]
  | some acc =>
    obtain ⟨acc', hacc', hframe⟩ := h.lookup hacc
    rw [hacc', hframe]
    rfl

theorem checkOperationSignatures_congr (h : s.accounts.Rel SeqNumOnly u.accounts)
    (ops : List Operation) (checker : SignatureChecker) :
    tx.checkOperationSignatures env u ops checker =
      tx.checkOperationSignatures env s ops checker := by
  induction ops generalizing checker with
  | nil => rfl
  | cons op rest ih =>
    simp only [checkOperationSignatures, checkOperationSignature_congr h, ih]

/-- Every signature of the transaction verifies a signer that was looked at. -/
def SignaturesUsed (env : Env) (tx : Transaction) (ls : LedgerState) : Prop :=
  ∀ sig ∈ tx.signatures, ∃ signer, Consulted tx ls signer ∧
    Verifies env tx.contentsHash sig signer

theorem signaturesUsed_of_check (h : SoundOn env tx s checker)
    (hall : checker.checkAllSignaturesUsed = true) : SignaturesUsed env tx s := by
  intro sig hsig
  obtain ⟨i, hi, hget⟩ := mem_iff_getElem.1 hsig
  have hlt : i < checker.usedSignatures.length := by
    rw [h.length]
    exact hi
  have htrue : checker.usedSignatures[i] = true :=
    all_eq_true.1 hall _ (getElem_mem hlt)
  obtain ⟨sig', signer, hsig', hconsulted, hverifies⟩ :=
    h.used i (List.getElem?_eq_some_iff.2 ⟨hlt, htrue⟩)
  obtain ⟨hi', hget'⟩ := List.getElem?_eq_some_iff.1 hsig'
  obtain rfl : sig' = sig := hget'.symm.trans hget
  exact ⟨signer, hconsulted, hverifies⟩

/-- The signatures are checked on a ledger that differs from `s` in sequence numbers only. -/
theorem processSignatures_spec {code : TransactionResultCode} (h : SoundOn env tx s checker)
    (hu : s.accounts.Rel SeqNumOnly u.accounts) :
    wp (tx.processSignatures env code checker)
      (fun r t => OnlyConsumes tx u t ∧ (r.valid = true →
        (∀ op ∈ tx.operations, Authorized env tx s op) ∧ SignaturesUsed env tx s))
      (fun _ _ => True) u := by
  obtain ⟨hsound, hauthorized⟩ := checkOperationSignatures_spec (fun _ hop => hop) h
  simp only [processSignatures, wp_bind, wp_get, checkOperationSignatures_congr hu]
  have hwithin : Within (OnlyConsumes tx) (removeUsedOneTimeSignerKeys
      ((tx.checkOperationSignatures env s tx.operations checker).2.usedOneTimeSignerKeys.entries.map
        fun entry => (entry.1, entry.2))) := by
    refine within_removeUsedOneTimeSignerKeys fun entry hentry key hkey => ?_
    obtain ⟨⟨accountID, keys⟩, hmem, rfl⟩ := mem_map.1 hentry
    exact hsound.oneTime accountID keys (FMap.mem_entries.1 hmem) key hkey
  refine wp_mono (hwithin u) (fun _ t ht => ?_) fun _ _ _ => trivial
  refine wp_ite.2 ⟨fun _ => ?_, fun hfailures => wp_pure.2 ⟨ht, fun hvalid => ?_⟩⟩
  · refine wp_bind.2 (wp_runExcept.2 ⟨fun _ _ => wp_pure.2 ⟨ht, ?_⟩, fun _ _ => trivial⟩)
    rintro ⟨⟩
  · split at hvalid
    case isTrue => cases hvalid
    case isFalse hunused =>
      rw [Bool.not_eq_true] at hfailures
      rw [Bool.not_eq_true, Bool.not_eq_false'] at hunused
      exact ⟨hauthorized hfailures, signaturesUsed_of_check hsound hunused⟩

/-! ### Validation -/

/-- What is known when the sequence number is to be consumed. -/
structure Validated (env : Env) (tx : Transaction) (current : Int) (s : LedgerState)
    (cv : Validation) : Prop where
  sound : SoundOn env tx s cv.checker
  follows : cv.type.updatesSeqNum = true → ∃ acc, s.accounts.lookup tx.sourceAccount = some acc ∧
    (if current = 0 then acc.seqNum else current) + 1 = tx.seqNum

theorem commonValid_spec {current : Int} {applying : Bool} (h : SoundOn env tx s checker) :
    wp (tx.commonValid env checker current applying)
      (fun cv t => t = s ∧ Validated env tx current s cv) (fun _ _ => True) s := by
  have hinvalid : ∀ code, Validated env tx current s ⟨.invalid, code, checker⟩ := fun code =>
    ⟨h, fun hfalse => (Bool.false_ne_true hfalse).elim⟩
  simp only [commonValid, commonValidPreSeqNum, wp_bind, wp_loadHeader, wp_accountExists, wp_pure]
  split
  case h_1 code _ => exact wp_pure.2 ⟨rfl, hinvalid code⟩
  case h_2 =>
    simp only [wp_bind, wp_loadHeader, wp_activeAccount]
    refine ⟨fun acc hacc => ?_, fun _ => trivial⟩
    refine wp_unless ⟨rfl, hinvalid _⟩ fun hseq => ?_
    rw [not_or, not_not] at hseq
    obtain ⟨hsound, -⟩ := checkSignature_spec tx.sourceAccount (allSigners acc)
      (fun signer hsigner => .inl ⟨acc, hacc, hsigner⟩) acc.thresholds.low checker h
    have hvalidated : ∀ type code, Validated env tx current s ⟨type, code,
        (checker.checkSignature env tx.sourceAccount (allSigners acc) acc.thresholds.low).2⟩ :=
      fun _ _ => ⟨hsound, fun _ => ⟨acc, hacc, hseq.2⟩⟩
    refine wp_unless ⟨rfl, hvalidated _ _⟩ fun _ => ?_
    simp only [wp_bind, wp_runExcept, wp_pure]
    refine ⟨fun available _ => ⟨trivial, ?_⟩, fun _ _ => trivial⟩
    by_cases hlow : available < ((if applying = true then 0 else tx.fee : Nat) : Int)
    · rw [if_pos hlow]
      exact hvalidated _ _
    · rw [if_neg hlow]
      exact hvalidated _ _

/-- What the first part of applying a transaction does and finds. -/
structure Prepares (env : Env) (tx : Transaction) (s : LedgerState) (preparation : Preparation)
    (t : LedgerState) : Prop where
  consumes : OnlyConsumes tx s t
  authorized : preparation.valid = true → ∀ op ∈ tx.operations, Authorized env tx s op
  signatures : preparation.valid = true → SignaturesUsed env tx s
  seqNum : preparation.valid = true →
    (∃ acc, s.accounts.lookup tx.sourceAccount = some acc ∧ acc.seqNum + 1 = tx.seqNum) ∧
      ∃ acc, t.accounts.lookup tx.sourceAccount = some acc ∧ acc.seqNum = tx.seqNum

theorem Prepares.of_invalid {preparation : Preparation} (h : OnlyConsumes tx s t)
    (hinvalid : preparation.valid = false) : Prepares env tx s preparation t := by
  have habsurd : preparation.valid = true → False := by
    rw [hinvalid]
    exact Bool.false_ne_true
  exact ⟨h, fun hv => (habsurd hv).elim, fun hv => (habsurd hv).elim, fun hv => (habsurd hv).elim⟩

theorem processSeqNum_spec (hacc : s.accounts.lookup tx.sourceAccount = some acc)
    (hnext : acc.seqNum + 1 = tx.seqNum) :
    wp tx.processSeqNum (fun _ t => t = s.putAccount { acc with seqNum := tx.seqNum })
      (fun _ _ => False) s := by
  simp only [processSeqNum, wp_bind, wp_activeAccount, wp_ensure, wp_putAccount]
  refine ⟨fun acc' hacc' => ?_, fun hnone => ?_⟩
  · obtain rfl : acc = acc' := Option.mem_unique hacc hacc'
    refine ⟨fun _ => rfl, fun hfalse => ?_⟩
    have := of_decide_eq_false hfalse
    omega
  · rw [hacc] at hnone
    cases hnone

theorem prepare_spec (env : Env) (tx : Transaction) (s : LedgerState) :
    wp (tx.prepare env) (Prepares env tx s) (fun _ t => t = s) s := by
  unfold prepare
  rw [wp_nested]
  simp only [wp_bind, wp_get]
  refine wp_mono (commonValid_spec (sound_init env tx.contentsHash tx.signatures _))
    (fun cv t hcv => ?_) fun _ _ _ => trivial
  obtain ⟨rfl, hvalidated⟩ := hcv
  by_cases hupdates : cv.type.updatesSeqNum = true
  · obtain ⟨acc, hacc, hnext⟩ := hvalidated.follows hupdates
    have hconsumed : Consumed tx acc { acc with seqNum := tx.seqNum } :=
      ⟨rfl, .inr ⟨account_of_lookup hacc, hnext, rfl⟩, ⟨[], by simp, .refl _, rfl⟩,
        fun _ => .refl _⟩
    have hconsumes := OnlyConsumes.putAccount hacc hconsumed
    have hsame :
        t.accounts.Rel SeqNumOnly (t.putAccount { acc with seqNum := tx.seqNum }).accounts :=
      Table.Rel.upsert (fun _ => rfl) hacc rfl rfl
    rw [wp_onlyIf]
    refine ⟨fun _ => wp_mono (processSeqNum_spec hacc hnext) (fun _ u hu => ?_) fun _ _ h => h.elim,
      fun hfalse => ?_⟩
    · subst hu
      refine wp_ite.2 ⟨fun _ => ?_, fun _ => ?_⟩
      · refine wp_bind.2 (wp_mono (processSignatures_spec hvalidated.sound hsame)
          (fun r v hv => ?_) fun _ _ _ => trivial)
        obtain ⟨hrest, hvalid⟩ := hv
        simp only [wp_bind, wp_get, wp_pure, if_true]
        have hsignatures : (r.valid && decide (cv.type = .fullyValid)) = true → r.valid = true :=
          fun hand => (Bool.and_eq_true_iff.1 hand).1
        refine ⟨trans_of (OnlyConsumes tx) hconsumes hrest, fun hv => (hvalid (hsignatures hv)).1,
          fun hv => (hvalid (hsignatures hv)).2, fun _ => ⟨⟨acc, hacc, hnext⟩, ?_⟩⟩
        have hlookup : (t.putAccount { acc with seqNum := tx.seqNum }).accounts.lookup
            tx.sourceAccount = some { acc with seqNum := tx.seqNum } := by
          rw [LedgerState.putAccount, Table.lookup_upsert, key_account, account_of_lookup hacc,
            if_pos rfl]
        obtain ⟨acc', hacc', hconsumed'⟩ := hrest.accounts.lookup hlookup
        refine ⟨acc', hacc', ?_⟩
        rcases hconsumed'.seqNum with heq | ⟨-, -, heq⟩
        · exact heq
        · exact heq
      · simp only [wp_bind, wp_pure, wp_get, if_true, Bool.false_and]
        exact .of_invalid hconsumes rfl
    · rw [hupdates] at hfalse
      cases hfalse
  · have hauth : cv.type.passesAuth = false := by
      cases htype : cv.type with
      | invalid => rfl
      | invalidUpdateSeqNum => rfl
      | invalidPostAuth => exact absurd (by rw [htype]; rfl) hupdates
      | fullyValid => exact absurd (by rw [htype]; rfl) hupdates
    rw [wp_onlyIf]
    refine ⟨fun htrue => absurd htrue hupdates, fun _ => ?_⟩
    rw [hauth, if_neg Bool.false_ne_true]
    simp only [wp_bind, wp_pure, wp_get, if_true, Bool.false_and]
    exact .of_invalid (refl_of (OnlyConsumes tx) t) rfl

/-! ### Transactions that fail -/

/-- A transaction that is applied and fails leaves the ledger as it was, apart from the sequence
number of its source account and from signers that authorized it in advance, and it records no
changes of operations. -/
theorem apply_atomic (env : Env) (tx : Transaction) (s : LedgerState) :
    wp (tx.apply env)
      (fun application t => application.success = false →
        OnlyConsumes tx s t ∧ application.txMeta.operations = [])
      (fun _ _ => True) s := by
  unfold apply
  rw [wp_bind]
  refine wp_mono (prepare_spec env tx s) (fun preparation t ht => ?_) fun _ _ _ => trivial
  refine wp_unless (fun _ => ⟨ht.consumes, rfl⟩) fun _ => ?_
  simp only [applyOperations, wp_bind, wp_nested, wp_pure]
  refine wp_mono (wp_true _ t) (fun execution u _ hfail => ?_) fun _ _ _ => trivial
  by_cases hsucceeds : execution.succeeds = true
  · rw [if_pos hsucceeds, hsucceeds] at hfail
    cases hfail
  · rw [if_neg hsucceeds, if_neg hsucceeds]
    exact ⟨ht.consumes, rfl⟩

end Transaction

/-! ### Operations do not look at signatures -/

/-- The same platform with other answers to the checks of signatures. -/
def Env.withSignatures (env : Env) (verify : DecoratedSignature → AccountID → Hash → Bool)
    (verifyHashX : DecoratedSignature → Hash → Bool) : Env :=
  { env with verify := verify, verifyHashX := verifyHashX }

section WithSignatures

variable (env : Env) (verify : DecoratedSignature → AccountID → Hash → Bool)
  (verifyHashX : DecoratedSignature → Hash → Bool)

theorem convertLoop_withSignatures (sheep wheat : Asset) (filter : OfferFilter)
    (isPathPayment : Bool) (fuel : Nat) (maxSheepSend maxWheatReceive : Int) (total : Conversion) :
    convertLoop (env.withSignatures verify verifyHashX) sheep wheat filter isPathPayment fuel
        maxSheepSend maxWheatReceive total =
      convertLoop env sheep wheat filter isPathPayment fuel maxSheepSend maxWheatReceive total := by
  induction fuel generalizing maxSheepSend maxWheatReceive total with
  | zero => rfl
  | succ fuel ih =>
    have hturn : crossBestOffer (env.withSignatures verify verifyHashX) sheep wheat filter
        isPathPayment = crossBestOffer env sheep wheat filter isPathPayment := rfl
    simp only [convertLoop, hturn, ih]

theorem convertWithOffers_withSignatures (sheep : Asset) (maxSheepSend : Int) (wheat : Asset)
    (maxWheatReceive : Int) (isPathPayment : Bool) (filter : OfferFilter) :
    convertWithOffers (env.withSignatures verify verifyHashX) sheep maxSheepSend wheat
        maxWheatReceive isPathPayment filter =
      convertWithOffers env sheep maxSheepSend wheat maxWheatReceive isPathPayment filter := by
  simp only [convertWithOffers, convertLoop_withSignatures]

theorem convertPath_withSignatures (source : AccountID) (path : List Asset)
    (leg : PathPaymentOp.Leg) :
    PathPaymentOp.convertPath (env.withSignatures verify verifyHashX) source path leg =
      PathPaymentOp.convertPath env source path leg := by
  induction path generalizing leg with
  | nil => rfl
  | cons curA path ih =>
    simp only [PathPaymentOp.convertPath, PathPaymentOp.convertLeg,
      convertWithOffers_withSignatures, ih]

theorem doApply_withSignatures (source : AccountID) (body : OperationBody) :
    body.doApply (env.withSignatures verify verifyHashX) source = body.doApply env source := by
  cases body with
  | payment op =>
    simp only [OperationBody.doApply, PaymentOp.doApply, PathPaymentOp.doApply,
      convertPath_withSignatures]
  | pathPayment op =>
    simp only [OperationBody.doApply, PathPaymentOp.doApply, convertPath_withSignatures]
  | manageOffer op =>
    simp only [OperationBody.doApply, ManageOfferOp.doApply, ManageOfferOp.exchangeOffer,
      convertWithOffers_withSignatures]
  | createPassiveOffer op =>
    simp only [OperationBody.doApply, ManageOfferOp.doApply, ManageOfferOp.exchangeOffer,
      convertWithOffers_withSignatures]
  | _ => rfl

theorem executeOperations_withSignatures (tx : Transaction) (ops : List Operation) :
    tx.executeOperations (env.withSignatures verify verifyHashX) ops =
      tx.executeOperations env ops := by
  induction ops with
  | nil => rfl
  | cons op rest ih =>
    simp only [Transaction.executeOperations, Operation.apply, doApply_withSignatures, ih]

end WithSignatures

namespace Transaction

/-- When the operations of a transaction are applied, each of them was authorized on the ledger that
the transaction was applied to, and all signatures were used. The operations start from this
ledger, apart from what the transaction has consumed, and they run in the same way whatever the
signatures are: none of them relies on signers or thresholds that an earlier one has changed. -/
theorem operations_authorized (env : Env) (tx : Transaction) (s t : LedgerState)
    (preparation : Preparation) (hprepare : tx.prepare env s = .ok preparation t)
    (hvalid : preparation.valid = true) :
    (∀ op ∈ tx.operations, Authorized env tx s op) ∧ SignaturesUsed env tx s ∧
      OnlyConsumes tx s t ∧
      ∀ verify verifyHashX,
        tx.executeOperations (env.withSignatures verify verifyHashX) tx.operations =
          tx.executeOperations env tx.operations := by
  have hprepares := wp_ok (prepare_spec env tx s) hprepare
  exact ⟨hprepares.authorized hvalid, hprepares.signatures hvalid, hprepares.consumes,
    fun verify verifyHashX => executeOperations_withSignatures env verify verifyHashX tx _⟩

section Signed

/-- Signatures are the keys that they verify. -/
def plainEnv : Env where
  priceKey := fun price => price.n
  strKey := fun accountID => accountID
  verify := fun sig accountID _ => sig == accountID
  verifyHashX := fun sig hash => sig == hash

/-- A ledger with the accounts 1 and 2. -/
def twoAccounts : LedgerState where
  header := ⟨8, 100, 1000, 0, 0, 0, 0, 0, 10⟩
  accounts := (Table.empty.upsert { accountID := 1, balance := 50, seqNum := 5 }).upsert
    { accountID := 2, balance := 50, seqNum := 5 }
  trustLines := .empty
  offers := .empty
  data := .empty

/-- Account 1 bumps its own sequence number and that of account 2. -/
def bumpTwo : Transaction where
  sourceAccount := 1
  fee := 0
  seqNum := 6
  operations := [⟨none, .bumpSequence 9⟩, ⟨some 2, .bumpSequence 9⟩]
  signatures := [1, 2]
  contentsHash := 3

theorem operations_authorized_bumpTwo :
    ∃ preparation t, bumpTwo.prepare plainEnv twoAccounts = .ok preparation t ∧
      preparation.valid = true ∧
      (∀ op ∈ bumpTwo.operations, Authorized plainEnv bumpTwo twoAccounts op) ∧
      SignaturesUsed plainEnv bumpTwo twoAccounts := by
  have hvalid : (Preparation.valid <$> bumpTwo.prepare plainEnv).run' twoAccounts = some true := by
    decide +kernel
  obtain ⟨t, ht⟩ := exists_run_eq hvalid
  have hmap : wp (Preparation.valid <$> bumpTwo.prepare plainEnv) (fun valid _ => valid = true)
      (fun _ _ => False) twoAccounts := wp_of_ok ht rfl
  have hprepare := wp_map.1 hmap
  obtain ⟨preparation, u, hu⟩ := exists_ok_of_wp hprepare
  have hpreparation := wp_ok hprepare hu
  obtain ⟨hauthorized, hused, -⟩ := operations_authorized plainEnv bumpTwo twoAccounts u preparation
    hu hpreparation
  exact ⟨preparation, u, hu, hpreparation, hauthorized, hused⟩

end Signed

end Transaction

end SpnCore.Ledger
