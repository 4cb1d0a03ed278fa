import SpnCore.Buckets.Merging

/-!
# Comparing records by identity

`BucketEntryIdCmp` compares two records by what identifies their entries, whether a record holds
the entry or only its key. It is the order of the keys, so a merge is described by keys alone.
-/

namespace SpnCore.Buckets

open Lib Ledger

/-- The pattern of the comparisons: the first field decides unless it is the same. -/
def lessThen {α : Type} [LT α] [DecidableLT α] (a b : α) (rest : Bool) : Bool :=
  if a < b then true else if b < a then false else rest

/-- `operator<` of two assets: their types, then the fields. -/
def assetLess : Asset → Asset → Bool
  | .native, .native => false
  | .native, _ => true
  | .alphaNum4 _ _, .native => false
  | .alphaNum4 assetCode issuer, .alphaNum4 assetCode' issuer' =>
    lessThen (assetCode.toList.map UInt8.toNat) (assetCode'.toList.map UInt8.toNat)
      (decide (issuer < issuer'))
  | .alphaNum4 _ _, .alphaNum12 _ _ => true
  | .alphaNum12 assetCode issuer, .alphaNum12 assetCode' issuer' =>
    lessThen (assetCode.toList.map UInt8.toNat) (assetCode'.toList.map UInt8.toNat)
      (decide (issuer < issuer'))
  | .alphaNum12 _ _, _ => false

/-- `LedgerEntryType` -/
def type : LedgerKey → Nat
  | .account _ => 0
  | .trustLine _ _ => 1
  | .offer _ _ => 2
  | .data _ _ => 3

/-- `LedgerEntryIdCmp`. It reads the fields that an entry has in common with its key. -/
def ledgerEntryIdCmp (a b : LedgerKey) : Bool :=
  lessThen (type a) (type b) <|
    match a, b with
    | .account accountID, .account accountID' => decide (accountID < accountID')
    | .trustLine accountID asset, .trustLine accountID' asset' =>
      lessThen accountID accountID' (assetLess asset asset')
    | .offer sellerID offerID, .offer sellerID' offerID' =>
      lessThen sellerID sellerID' (decide (offerID < offerID'))
    | .data accountID dataName, .data accountID' dataName' =>
      lessThen accountID accountID' (decide (dataName.map UInt8.toNat < dataName'.map UInt8.toNat))
    | _, _ => false

/-- `BucketEntryIdCmp` -/
def bucketEntryIdCmp : Record → Record → Bool
  | .live a, .live b => ledgerEntryIdCmp a.data.key b.data.key
  | .live a, .dead b => ledgerEntryIdCmp a.data.key b
  | .dead a, .live b => ledgerEntryIdCmp a b.data.key
  | .dead a, .dead b => ledgerEntryIdCmp a b

/-! ### The order of the keys -/

theorem lessThen_iff {α : Type} [LinearOrder α] [DecidableLT α] {a b : α} {rest : Bool} :
    lessThen a b rest = true ↔ a < b ∨ a = b ∧ rest = true := by
  unfold lessThen
  rcases lt_trichotomy a b with h | rfl | h
  · simp [h]
  · simp
  · simp [h, h.not_gt, h.ne']

/-- Codes of the same length are compared before what follows them. -/
theorem append_lt_append {l l' m m' : List Nat} (h : l.length = l'.length) :
    l ++ m < l' ++ m' ↔ l < l' ∨ l = l' ∧ m < m' := by
  induction l generalizing l' with
  | nil =>
    obtain rfl : l' = [] := List.length_eq_zero_iff.1 h.symm
    simp
  | cons x l ih =>
    cases l' with
    | nil => cases h
    | cons y l' =>
      simp only [List.cons_append, List.cons_lt_cons_iff, ih (Nat.succ.inj h), List.cons.injEq]
      tauto

theorem code_less_iff {n : Nat} {c c' : Vector UInt8 n} {i i' : AccountID} :
    lessThen (c.toList.map UInt8.toNat) (c'.toList.map UInt8.toNat) (decide (i < i')) = true ↔
      c.toList.map UInt8.toNat ++ [i] < c'.toList.map UInt8.toNat ++ [i'] := by
  rw [lessThen_iff, append_lt_append (by simp)]
  simp [List.cons_lt_cons_iff]

theorem assetLess_iff {a b : Asset} : assetLess a b = true ↔ a.encode < b.encode := by
  cases a <;> cases b <;>
    simp [assetLess, Asset.encode, List.cons_lt_cons_iff, code_less_iff]

theorem ledgerEntryIdCmp_iff {a b : LedgerKey} : ledgerEntryIdCmp a b = true ↔ a < b := by
  change _ ↔ a.encode < b.encode
  unfold ledgerEntryIdCmp
  rw [lessThen_iff]
  cases a <;> cases b <;>
    simp [type, LedgerKey.encode, List.cons_lt_cons_iff, lessThen_iff, assetLess_iff]

/-- Records are compared by their keys. -/
theorem bucketEntryIdCmp_iff {a b : Record} :
    bucketEntryIdCmp a b = true ↔ (Keyed.key a : LedgerKey) < Keyed.key b := by
  cases a <;> cases b <;> exact ledgerEntryIdCmp_iff

theorem increasing_iff {b : Bucket} : b.Pairwise (bucketEntryIdCmp · · = true) ↔ Increasing b :=
  iff_of_eq (congrArg b.Pairwise (funext₂ fun _ _ => propext bucketEntryIdCmp_iff))

/-- A sorted bucket holds a record exactly if it is found by its key. -/
theorem mem_iff_findKey {b : Bucket} (hb : Increasing b) {record : Record} :
    record ∈ b ↔ findKey b (Keyed.key record : LedgerKey) = some record :=
  ⟨findKey_of_mem hb.distinct, mem_of_findKey⟩

/-- Merging sorted buckets goes through, with a sorted bucket of the newest records that no shadow
has the key of. The comparison is a strict weak order, in which records are equivalent that have
the same key. -/
theorem merge_correct (old new : Bucket) (shadows : List Bucket) (keepDeadEntries : Bool)
    (hold : old.Pairwise (bucketEntryIdCmp · · = true))
    (hnew : new.Pairwise (bucketEntryIdCmp · · = true))
    (hshadows : ∀ s ∈ shadows, s.Pairwise (bucketEntryIdCmp · · = true)) :
    (∃ b, merge old new shadows keepDeadEntries = some b ∧
      b.Pairwise (bucketEntryIdCmp · · = true) ∧
      ∀ record, record ∈ b ↔
        (∀ s ∈ shadows, ∀ x ∈ s, (Keyed.key x : LedgerKey) ≠ Keyed.key record) ∧
        (record ∈ new ∨
          record ∈ old ∧ ∀ n ∈ new, (Keyed.key n : LedgerKey) ≠ Keyed.key record) ∧
        (keepDeadEntries = true ∨ isDead record = false)) ∧
    IsStrictWeakOrder Record (bucketEntryIdCmp · · = true) ∧
    ∀ a b, (bucketEntryIdCmp a b = false ∧ bucketEntryIdCmp b a = false ↔
      (Keyed.key a : LedgerKey) = Keyed.key b) := by
  simp only [bucketEntryIdCmp_iff, ← Bool.not_eq_true, not_lt]
  refine ⟨?_, ?_, fun a b => ?_⟩
  · obtain ⟨b, hmerge, hb, hfind⟩ := merge_spec shadows keepDeadEntries (increasing_iff.1 hold)
      (increasing_iff.1 hnew) fun s hs => increasing_iff.1 (hshadows s hs)
    refine ⟨b, hmerge, hb, fun record => ?_⟩
    have hshadow : shadows.any (holds (Keyed.key record)) = false ↔
        ∀ s ∈ shadows, ∀ x ∈ s, (Keyed.key x : LedgerKey) ≠ Keyed.key record := by
      simp [holds, findKey_eq_none]
    rw [mem_iff_findKey hb, hfind, ← hshadow, mem_iff_findKey (increasing_iff.1 hnew),
      mem_iff_findKey (increasing_iff.1 hold), ← findKey_eq_none, and_comm (b := _ = none),
      ← Option.or_eq_some_iff]
    cases shadows.any (holds (Keyed.key record)) with
    | true => simp
    | false => simp [Option.filter_eq_some_iff, kept]
  · exact {
      irrefl _ := lt_irrefl _
      trans _ _ _ := lt_trans
      incomp_trans _ _ _ hab hbc :=
        ⟨fun h => hab.1 (h.trans_le (not_lt.1 hbc.1)),
          fun h => hab.2 ((not_lt.1 hbc.2).trans_lt h)⟩ }
  · exact ⟨fun h => le_antisymm h.2 h.1, fun h => ⟨h.ge, h.le⟩⟩

theorem merge_correct_shadowed :
    ∃ b, merge [.dead (.account 1), .dead (.account 2)] [.dead (.account 2)]
        [[.dead (.account 1)]] true = some b ∧ Record.dead (.account 1) ∉ b := by
  obtain ⟨⟨b, hmerge, -, hmem⟩, -⟩ := merge_correct [.dead (.account 1), .dead (.account 2)]
    [.dead (.account 2)] [[.dead (.account 1)]] true (by decide) (by decide) (by decide)
  refine ⟨b, hmerge, fun h => ?_⟩
  exact ((hmem _).1 h).1 _ List.mem_cons_self _ List.mem_cons_self rfl

end SpnCore.Buckets
