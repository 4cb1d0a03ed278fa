import Mathlib.Data.Prod.Lex
import SpnCore.Lib.SortedKeys
import SpnCore.Lib.Wp
import SpnCore.Transactions.TransactionUtils

/-!
# Storing the signers of an account

`storeSigners` walks over the old and the new signers of an account with two cursors and issues
the SQL statements that lead from the ones to the others. While it runs, the rows of the account
are the new signers that were passed and the old ones that were not; `storeSigners_rows` says
that in the end they are the new signers.
-/

namespace SpnCore.Ledger

open Lib List

theorem SignerKey.rank_injective : Function.Injective fun key : SignerKey => toLex key.rank := by
  intro k k' h
  cases k <;> cases k' <;> simpa [rank] using toLex_inj.1 h

/-- Signer keys are ordered by type, then by value. -/
instance : LinearOrder SignerKey :=
  LinearOrder.lift' (fun key => toLex key.rank) SignerKey.rank_injective

instance : Keyed Signer SignerKey where
  key := Signer.key

/-- The table `signers`: the weights by account and public key, which are its primary key. -/
abbrev SignerRows := AccountID × SignerKey → Option Nat

inductive StoreError where
  /-- The signers of an entry are not strictly sorted. -/
  | assertion
  /-- `Could not update data in SQL`. -/
  | couldNotUpdate
  /-- A row with the primary key exists. -/
  | uniqueViolation
deriving DecidableEq, Repr

abbrev StoreM := EStateM StoreError SignerRows

/-- A statement that changes the row of a signer, which it has to find, or must not. -/
def statement (found : Bool) (error : StoreError) (accountID : AccountID) (key : SignerKey)
    (weight : Option Nat) : StoreM Unit := do
  let rows ← get
  ensure ((rows (accountID, key)).isSome == found) error
  set (Function.update rows (accountID, key) weight)

/-- `UPDATE signers set weight`. -/
def updateSigner (accountID : AccountID) (signer : Signer) : StoreM Unit :=
  statement true .couldNotUpdate accountID signer.key (some signer.weight)

/-- `INSERT INTO signers`. -/
def insertSigner (accountID : AccountID) (signer : Signer) : StoreM Unit :=
  statement false .uniqueViolation accountID signer.key (some signer.weight)

/-- `DELETE from signers`. -/
def deleteSigner (accountID : AccountID) (signer : Signer) : StoreM Unit :=
  statement true .couldNotUpdate accountID signer.key none

/-- The loop of `storeSigners`, on what is left of the new and the old signers. -/
def storeSignersLoop (accountID : AccountID) : List Signer → List Signer → StoreM Unit
  | [], [] => pure ()
  | new :: news, [] => do
      insertSigner accountID new
      storeSignersLoop accountID news []
  | [], old :: olds => do
      deleteSigner accountID old
      storeSignersLoop accountID [] olds
  | new :: news, old :: olds =>
    if new.key = old.key then do
      onlyIf (decide (new.weight ≠ old.weight)) (updateSigner accountID new)
      storeSignersLoop accountID news olds
    else if new.key < old.key then do
      insertSigner accountID new
      storeSignersLoop accountID news (old :: olds)
    else do
      deleteSigner accountID old
      storeSignersLoop accountID (new :: news) olds
termination_by news olds => news.length + olds.length

/-- No signer is followed by one whose key is not greater. -/
def sortedSigners (signers : List Signer) : Bool :=
  decide (signers.IsChain fun s s' => s.key < s'.key)

/-- Brings the rows of an account from the signers of its previous version to its own. -/
def storeSigners (account : AccountEntry) (previous : Option AccountEntry) : StoreM Unit := do
  ensure (sortedSigners account.signers) .assertion
  let signers := previous.elim [] AccountEntry.signers
  ensure (sortedSigners signers) .assertion
  storeSignersLoop account.accountID account.signers signers

/-- The rows of the account are the signers, and those of other accounts are as in `before`. -/
structure HoldSigners (accountID : AccountID) (before : SignerRows) (signers : List Signer)
    (rows : SignerRows) : Prop where
  own : ∀ key, rows (accountID, key) = (findKey signers key).map Signer.weight
  others : ∀ id ≠ accountID, ∀ key, rows (id, key) = before (id, key)

variable {accountID : AccountID} {before rows : SignerRows} {new old : Signer}
  {done news olds : List Signer}

/-- A statement leads from one list of signers to another that differs in one key. -/
theorem wp_statement {found : Bool} {error : StoreError} {key : SignerKey} {weight : Option Nat}
    (h : HoldSigners accountID before olds rows) (hfound : (findKey olds key).isSome = found)
    (hweight : (findKey news key).map Signer.weight = weight)
    (hother : ∀ k ≠ key, findKey news k = findKey olds k) :
    wp (statement found error accountID key weight) (fun _ => HoldSigners accountID before news)
      (fun _ _ => False) rows := by
  refine wp_get_bind.2 (wp_bind.2 (wp_ensure.2 ⟨fun _ => ?_, fun hne => ?_⟩))
  · refine wp_set.2 ⟨fun k => ?_, fun id hid k => ?_⟩
    · by_cases hk : k = key
      · rw [hk, Function.update_self, hweight]
      · rw [Function.update_of_ne fun heq => hk (congrArg Prod.snd heq), h.own, hother k hk]
    · rw [Function.update_of_ne fun heq => hid (congrArg Prod.fst heq)]
      exact h.others id hid k
  · rw [h.own, Option.isSome_map, hfound, beq_self_eq_true] at hne
    cases hne

/-- A signer among others with increasing keys. -/
structure Around (done : List Signer) (s : Signer) (left : List Signer) : Prop where
  rest : Increasing (done ++ left)
  lt : ∀ v ∈ left, s.key < v.key
  none : findKey (done ++ left) s.key = none
  self : findKey (done ++ s :: left) s.key = some s
  other : ∀ k ≠ s.key, findKey (done ++ s :: left) k = findKey (done ++ left) k

theorem around (h : Increasing (done ++ old :: olds)) : Around done old olds := by
  have hfind := findKey_perm h.distinct perm_middle
  have hdistinct : DistinctKeys (old :: (done ++ olds)) :=
    h.distinct.perm perm_middle fun h => h.symm
  refine ⟨h.sublist ((sublist_cons_self old olds).append_left done), ?_, ?_, ?_, fun k hk => ?_⟩
  · exact (pairwise_cons.1 (pairwise_append.1 h).2.1).1
  · exact findKey_eq_none.2 fun v hv => ((pairwise_cons.1 hdistinct).1 v hv).symm
  · rw [hfind, findKey_cons]
    exact if_pos rfl
  · rw [hfind, findKey_cons]
    exact if_neg (Ne.symm hk)

/-- The next new signer may come before all old ones that are left. -/
theorem increasing_insert (hnew : Increasing (done ++ new :: news))
    (hold : Increasing (done ++ olds)) (hlt : ∀ old ∈ olds, new.key < old.key) :
    Increasing (done ++ new :: olds) := by
  obtain ⟨-, -, hdone⟩ := pairwise_append.1 hnew
  obtain ⟨hincreasing, holds, hdone'⟩ := pairwise_append.1 hold
  refine pairwise_append.2 ⟨hincreasing, pairwise_cons.2 ⟨hlt, holds⟩, fun v hv w hw => ?_⟩
  rcases mem_cons.1 hw with rfl | hw
  · exact hdone v hv w mem_cons_self
  · exact hdone' v hv w hw

theorem wp_insertSigner (h : HoldSigners accountID before (done ++ olds) rows)
    (hnew : Around done new olds) :
    wp (insertSigner accountID new) (fun _ => HoldSigners accountID before (done ++ new :: olds))
      (fun _ _ => False) rows :=
  wp_statement h (by rw [hnew.none, Option.isSome_none]) (by rw [hnew.self]; rfl) hnew.other

theorem wp_deleteSigner (h : HoldSigners accountID before (done ++ old :: olds) rows)
    (hold : Around done old olds) :
    wp (deleteSigner accountID old) (fun _ => HoldSigners accountID before (done ++ olds))
      (fun _ _ => False) rows :=
  wp_statement h (by rw [hold.self, Option.isSome_some]) (by rw [hold.none]; rfl)
    fun k hk => (hold.other k hk).symm

/-- The rows are the new signers that were passed and the old ones that were not. -/
theorem wp_storeSignersLoop (done : List Signer) (hnews : Increasing (done ++ news))
    (holds : Increasing (done ++ olds)) (h : HoldSigners accountID before (done ++ olds) rows) :
    wp (storeSignersLoop accountID news olds) (fun _ => HoldSigners accountID before (done ++ news))
      (fun _ _ => False) rows := by
  induction news, olds using storeSignersLoop.induct generalizing done rows with
  | case1 =>
    rw [storeSignersLoop]
    exact wp_pure.2 h
  | case2 new news ih =>
    rw [storeSignersLoop]
    have hincreasing := increasing_insert hnews holds fun _ h => (not_mem_nil h).elim
    refine wp_seq (wp_insertSigner h (around hincreasing)) fun _ t ht => ?_
    rw [append_cons] at *
    exact ih _ hnews hincreasing ht
  | case3 old olds ih =>
    rw [storeSignersLoop]
    have hold := around holds
    exact wp_seq (wp_deleteSigner h hold) fun _ t => ih done hnews hold.rest
  | case4 new news old olds hkey ih =>
    rw [storeSignersLoop, if_pos hkey]
    have hold := around holds
    have hincreasing := increasing_insert hnews hold.rest (hkey ▸ hold.lt)
    have hnew := around hincreasing
    have hupdate : wp (onlyIf (decide (new.weight ≠ old.weight)) (updateSigner accountID new))
        (fun _ => HoldSigners accountID before (done ++ new :: olds)) (fun _ _ => False) rows := by
      refine wp_onlyIf.2 ⟨fun _ => ?_, fun hsame => ?_⟩
      · exact wp_statement h (by rw [hkey, hold.self]; rfl) (by rw [hnew.self]; rfl)
          fun k hk => (hnew.other k hk).trans (hold.other k (hkey ▸ hk)).symm
      · obtain ⟨key, weight⟩ := new
        obtain ⟨rfl, rfl⟩ : key = old.key ∧ weight = old.weight := ⟨hkey, by simpa using hsame⟩
        exact h
    refine wp_seq hupdate fun _ t ht => ?_
    rw [append_cons] at *
    exact ih _ hnews hincreasing ht
  | case5 new news old olds hkey hlt ih =>
    rw [storeSignersLoop, if_neg hkey, if_pos hlt]
    have hincreasing : Increasing (done ++ new :: old :: olds) := by
      refine increasing_insert hnews holds fun v hv => ?_
      rcases mem_cons.1 hv with rfl | hv
      · exact hlt
      · exact hlt.trans ((around holds).lt v hv)
    refine wp_seq (wp_insertSigner h (around hincreasing)) fun _ t ht => ?_
    rw [append_cons] at *
    exact ih _ hnews hincreasing ht
  | case6 new news old olds hkey hlt ih =>
    rw [storeSignersLoop, if_neg hkey, if_neg hlt]
    have hold := around holds
    exact wp_seq (wp_deleteSigner h hold) fun _ t => ih done hnews hold.rest

theorem sortedSigners_iff {signers : List Signer} :
    sortedSigners signers = true ↔ Increasing signers := by
  rw [sortedSigners, decide_eq_true_eq, isChain_iff_pairwise]
  rfl

/-- Where the signers of both versions of an account are strictly sorted and the rows of the
account are the old ones, no statement and no assertion fails, and the rows become the new
signers. Those of other accounts stay. -/
theorem storeSigners_rows {account : AccountEntry} {previous : Option AccountEntry}
    (hnew : Increasing account.signers)
    (hold : Increasing (previous.elim [] AccountEntry.signers))
    (hrows : ∀ key, rows (account.accountID, key) =
      (findKey (previous.elim [] AccountEntry.signers) key).map Signer.weight) :
    wp (storeSigners account previous) (fun _ => HoldSigners account.accountID rows account.signers)
      (fun _ _ => False) rows := by
  dsimp only [storeSigners]
  rw [sortedSigners_iff.2 hnew, sortedSigners_iff.2 hold]
  exact wp_storeSignersLoop [] hnew hold ⟨hrows, fun _ _ _ => rfl⟩

/-- An account with some signers. -/
def signedBy (signers : List Signer) : AccountEntry :=
  { accountID := 1, balance := 0, seqNum := 0, numSubEntries := 0, signers }

/-- One signer is dropped, one gets another weight, one is added and one stays. -/
theorem storeSigners_rows_replaced :
    wp (storeSigners (signedBy [⟨.ed25519 2, 7⟩, ⟨.ed25519 3, 1⟩, ⟨.ed25519 4, 9⟩])
        (some (signedBy [⟨.ed25519 1, 5⟩, ⟨.ed25519 2, 5⟩, ⟨.ed25519 4, 9⟩])))
      (fun _ rows => rows (1, .ed25519 1) = none ∧ rows (1, .ed25519 2) = some 7 ∧
        rows (1, .ed25519 3) = some 1 ∧ rows (1, .ed25519 4) = some 9) (fun _ _ => False)
      fun k => (findKey [⟨.ed25519 1, 5⟩, ⟨.ed25519 2, 5⟩, ⟨.ed25519 4, 9⟩] k.2).map
        Signer.weight :=
  wp_imp (storeSigners_rows (sortedSigners_iff.1 (by decide)) (sortedSigners_iff.1 (by decide))
    fun _ => rfl) fun _ _ h => ⟨h.own _, h.own _, h.own _, h.own _⟩

end SpnCore.Ledger
