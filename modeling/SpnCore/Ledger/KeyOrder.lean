import SpnCore.Ledger.Keys
import Mathlib.Data.List.Lex
import Mathlib.Order.Lattice

/-!
# The order of ledger keys

`LedgerEntryIdCmp` compares the types of two keys first and then their fields, one after the
other. That is the lexicographic order of the keys written out as lists of numbers.
-/

namespace SpnCore.Ledger

/-- An asset as it is compared: its type, code and issuer. -/
def Asset.encode : Asset → List Nat
  | .native => [0]
  | .alphaNum4 assetCode issuer => 1 :: (assetCode.toList.map UInt8.toNat ++ [issuer])
  | .alphaNum12 assetCode issuer => 2 :: (assetCode.toList.map UInt8.toNat ++ [issuer])

/-- A key as it is compared: its type and fields. -/
def LedgerKey.encode : LedgerKey → List Nat
  | .account accountID => [0, accountID]
  | .trustLine accountID asset => 1 :: accountID :: asset.encode
  | .offer sellerID offerID => [2, sellerID, offerID]
  | .data accountID dataName => 3 :: accountID :: dataName.map UInt8.toNat

theorem toNat_map_inj {l l' : List UInt8} (h : l.map UInt8.toNat = l'.map UInt8.toNat) : l = l' :=
  List.map_injective_iff.2 (fun _ _ => UInt8.toNat_inj.1) h

theorem Asset.encode_injective : Function.Injective Asset.encode := by
  have hcode : ∀ {n : Nat} {c c' : Vector UInt8 n} {i i' : AccountID},
      c.toList.map UInt8.toNat ++ [i] = c'.toList.map UInt8.toNat ++ [i'] → c = c' ∧ i = i' := by
    intro n c c' i i' h
    obtain ⟨hc, hi⟩ := List.append_inj' h rfl
    exact ⟨Vector.toList_inj.1 (toNat_map_inj hc), List.singleton_inj.1 hi⟩
  intro a b h
  cases a with
  | native =>
    cases b with
    | native => rfl
    | alphaNum4 c i => simp [encode] at h
    | alphaNum12 c i => simp [encode] at h
  | alphaNum4 c i =>
    cases b with
    | native => simp [encode] at h
    | alphaNum4 c' i' =>
      obtain ⟨rfl, rfl⟩ := hcode (List.cons.inj h).2
      rfl
    | alphaNum12 c' i' => simp [encode] at h
  | alphaNum12 c i =>
    cases b with
    | native => simp [encode] at h
    | alphaNum4 c' i' => simp [encode] at h
    | alphaNum12 c' i' =>
      obtain ⟨rfl, rfl⟩ := hcode (List.cons.inj h).2
      rfl

theorem LedgerKey.encode_injective : Function.Injective LedgerKey.encode := by
  intro a b h
  cases a <;> cases b <;> simp only [encode, List.cons.injEq, reduceCtorEq, and_false,
    OfNat.zero_ne_ofNat, OfNat.ofNat_ne_zero, zero_ne_one, one_ne_zero, OfNat.one_ne_ofNat,
    OfNat.ofNat_ne_one, Nat.reduceEqDiff, false_and, and_true, true_and] at h
  · rw [h]
  · rw [h.1, Asset.encode_injective h.2]
  · rw [h.1, h.2]
  · rw [h.1, toNat_map_inj h.2]

instance : LinearOrder LedgerKey :=
  let lifted := LinearOrder.lift' LedgerKey.encode LedgerKey.encode_injective
  { lifted with
    toDecidableEq := inferInstance
    compare := fun a b => @compareOfLessAndEq LedgerKey a b lifted.toLT (lifted.toDecidableLT a b) _
    compare_eq_compareOfLessAndEq := fun _ _ => rfl }

example : LedgerKey.account 7 < .trustLine 1 .native := by decide

end SpnCore.Ledger
