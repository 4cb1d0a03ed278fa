import SpnCore.Transactions.EntryUpdates
import SpnCore.Transactions.TransactionFrame

/-!
# How the signers of an account change

Signers change when the options of an account are set, and when one-time signers are removed. For
both this module gives the one case analysis of the code. The count of sub-entries changes together
with the list of signers.
-/

namespace SpnCore.Ledger

open Lib List

/-! ### Lower counts -/

namespace AccountEntry

variable {header : LedgerHeader} {acc acc' acc'' : AccountEntry}

/-- Taking one is exact. -/
theorem Counts.exact_remove (h : acc.Counts header (-1) acc') :
    acc'.numSubEntries.toNat + 1 = acc.numSubEntries.toNat := by
  have hvalue := h.value
  have hlt := acc.numSubEntries.toNat_lt
  rw [Int.bmod_def] at hvalue
  split at hvalue <;> omega

/-- The account after a count was lowered `n` times. -/
structure Released (n : Nat) (acc acc' : AccountEntry) : Prop where
  frame : acc' = { acc with numSubEntries := acc'.numSubEntries }
  value : acc'.numSubEntries.toNat + n = acc.numSubEntries.toNat
  lt : n ≠ 0 → acc'.numSubEntries.toNat < 2 ^ 31

theorem Released.refl (acc : AccountEntry) : acc.Released 0 acc :=
  ⟨rfl, rfl, fun h => absurd rfl h⟩

theorem Released.of_counts (h : acc.Counts header (-1) acc') : acc.Released 1 acc' :=
  ⟨h.frame, h.exact_remove, fun _ => h.lt⟩

theorem Released.trans {n m : Nat} (h : acc.Released n acc') (h' : acc'.Released m acc'') :
    acc.Released (n + m) acc'' where
  frame := by rw [h'.frame, h.frame]
  value := by
    have := h.value
    have := h'.value
    omega
  lt := by
    intro hne
    by_cases hm : m = 0
    · have := h.lt (by omega)
      have := h'.value
      omega
    · exact h'.lt hm

end AccountEntry

/-! ### Signers -/

namespace SetOptionsOp

variable {header : LedgerHeader} {acc acc' : AccountEntry} {signer : Signer}
  {result : SetOptionsResult}

/-- Removing a signer leaves the others and lowers the count once for each time it occurred. -/
theorem removeSigner_cases {key : SignerKey} {signers : List Signer}
    (h : removeSigner header key signers acc = .ok acc') :
    ∃ released, acc.Released (signers.filter fun old => old.key = key).length released ∧
      acc' = { released with signers := signers.filter fun old => old.key ≠ key } := by
  induction signers generalizing acc acc' with
  | nil =>
    cases h
    exact ⟨acc, .refl acc, rfl⟩
  | cons old rest ih =>
    rw [removeSigner] at h
    by_cases hkey : old.key = key
    · rw [if_pos hkey] at h
      obtain ⟨counted, hcounted, h⟩ := bind_eq_ok.1 h
      obtain ⟨acc₁, rfl, hcounts⟩ | ⟨-, hpos⟩ := AccountEntry.addNumEntries_cases hcounted
      · obtain ⟨released, hreleased, rfl⟩ := ih h
        refine ⟨released, ?_, ?_⟩
        · have htrans := (AccountEntry.Released.of_counts hcounts).trans hreleased
          rw [filter_cons_of_pos (by simpa using hkey), length_cons, Nat.add_comm]
          exact htrans
        · rw [filter_cons_of_neg (by simpa using hkey)]
      · omega
    · rw [if_neg hkey] at h
      obtain ⟨acc₁, hacc₁, h⟩ := bind_eq_ok.1 h
      cases h
      obtain ⟨released, hreleased, rfl⟩ := ih hacc₁
      refine ⟨released, ?_, ?_⟩
      · rw [filter_cons_of_neg (by simpa using hkey)]
        exact hreleased
      · rw [filter_cons_of_pos (by simpa using hkey)]

/-- The ways in which the signers of an account change, before they are sorted. -/
inductive Resigned (header : LedgerHeader) (acc : AccountEntry) :
    Option Signer → AccountEntry → Prop
  | same {signer : Option Signer} : Resigned header acc signer acc
  | replaced {signer : Signer} (weight : signer.weight ≠ 0)
      (mem : ∃ old ∈ acc.signers, old.key = signer.key) :
      Resigned header acc (some signer)
        { acc with
          signers := normalizeSigners
            (acc.signers.map fun old => if old.key = signer.key then signer else old) }
  | added {signer : Signer} {reserved : AccountEntry} (weight : signer.weight ≠ 0)
      (new : ∀ old ∈ acc.signers, old.key ≠ signer.key) (counts : acc.Counts header 1 reserved) :
      Resigned header acc (some signer)
        { reserved with signers := normalizeSigners (acc.signers ++ [signer]) }
  | removed {signer : Signer} {released : AccountEntry}
      (counts : acc.Released (acc.signers.filter fun old => old.key = signer.key).length released) :
      Resigned header acc (some signer)
        { released with
          signers := normalizeSigners (acc.signers.filter fun old => old.key ≠ signer.key) }

theorem addSigner_resigned (hweight : signer.weight ≠ 0)
    (h : addSigner header signer acc = .ok (acc', result)) :
    Resigned header acc (some signer)
      (if result = .success then { acc' with signers := normalizeSigners acc'.signers }
        else acc') := by
  unfold addSigner at h
  split at h
  case isTrue hany =>
    cases h
    rw [if_pos rfl]
    obtain ⟨old, hold, hkey⟩ := any_eq_true.1 hany
    exact .replaced hweight ⟨old, hold, by simpa using hkey⟩
  case isFalse hany =>
    split at h
    case isTrue =>
      cases h
      exact .same
    case isFalse =>
      obtain ⟨reserved, hreserved, h⟩ := bind_eq_ok.1 h
      obtain ⟨acc₁, rfl, hcounts⟩ | ⟨rfl, -⟩ := AccountEntry.addNumEntries_cases hreserved
      · cases h
        rw [if_pos rfl]
        have hsigners : acc₁.signers = acc.signers := by rw [hcounts.frame]
        rw [hsigners]
        refine @Resigned.added header acc signer acc₁ hweight (fun old hold hkey => hany ?_) hcounts
        exact any_eq_true.2 ⟨old, hold, by simpa using hkey⟩
      · cases h
        exact .same

theorem setSigner_resigned {signer : Option Signer}
    (h : setSigner header acc signer = .ok (acc', result)) : Resigned header acc signer acc' := by
  cases signer with
  | none =>
    cases h
    exact .same
  | some signer =>
    rw [setSigner] at h
    by_cases hweight : signer.weight ≠ 0
    · rw [if_pos hweight] at h
      obtain ⟨⟨acc₁, result₁⟩, hadd, h⟩ := bind_eq_ok.1 h
      have hresigned := addSigner_resigned hweight hadd
      by_cases hsuccess : result₁ = .success
      · rw [if_pos hsuccess] at hresigned
        have heq : acc' = { acc₁ with signers := normalizeSigners acc₁.signers } := by
          have hpair := Except.ok.inj h
          rw [if_pos hsuccess] at hpair
          exact (Prod.mk.inj hpair).1.symm
        rw [heq]
        exact hresigned
      · rw [if_neg hsuccess] at hresigned
        have heq : acc' = acc₁ := by
          have hpair := Except.ok.inj h
          rw [if_neg hsuccess] at hpair
          exact (Prod.mk.inj hpair).1.symm
        rw [heq]
        exact hresigned
    · rw [if_neg hweight] at h
      obtain ⟨acc₁, hremove, h⟩ := bind_eq_ok.1 h
      cases h
      obtain ⟨released, hreleased, rfl⟩ := removeSigner_cases hremove
      exact @Resigned.removed header acc signer released hreleased

/-- The fields that are set, whether or not the operation fails later on. -/
structure FieldsSet (op : SetOptionsOp) (acc acc' : AccountEntry) : Prop where
  frame : acc' = { acc with
    inflationDest := acc'.inflationDest
    flags := acc'.flags
    homeDomain := acc'.homeDomain
    thresholds := acc'.thresholds }
  flags : acc'.flags = acc.flags ∨ acc'.flags = acc.flags &&& ~~~(op.clearFlags.getD 0) ∨
    acc'.flags = acc.flags &&& ~~~(op.clearFlags.getD 0) ||| op.setFlags.getD 0
  homeDomain : acc'.homeDomain = acc.homeDomain ∨
    acc'.homeDomain = op.homeDomain.getD acc.homeDomain

theorem changeAccount_cases {op : SetOptionsOp}
    (h : op.changeAccount header acc = .ok (acc', result)) :
    ∃ acc₁, op.FieldsSet acc acc₁ ∧ Resigned header acc₁ op.signer acc' := by
  dsimp only [changeAccount] at h
  split at h
  case isTrue =>
    cases h
    refine ⟨_, ?_, .same⟩
    exact ⟨rfl, .inl rfl, .inl rfl⟩
  case isFalse =>
    split at h
    case isTrue =>
      cases h
      refine ⟨_, ?_, .same⟩
      exact ⟨rfl, .inr (.inl rfl), .inl rfl⟩
    case isFalse =>
      refine ⟨_, ?_, setSigner_resigned h⟩
      exact ⟨rfl, .inr (.inr rfl), .inr rfl⟩

theorem FieldsSet.accountID {op : SetOptionsOp} (h : op.FieldsSet acc acc') :
    acc'.accountID = acc.accountID ∧ acc'.seqNum = acc.seqNum := by
  rw [h.frame]
  exact ⟨rfl, rfl⟩

theorem Resigned.accountID {signer : Option Signer} (h : Resigned header acc signer acc') :
    acc'.accountID = acc.accountID ∧ acc'.seqNum = acc.seqNum := by
  cases h with
  | same => exact ⟨rfl, rfl⟩
  | replaced => exact ⟨rfl, rfl⟩
  | added _ _ counts =>
    rw [counts.frame]
    exact ⟨rfl, rfl⟩
  | removed counts =>
    rw [counts.frame]
    exact ⟨rfl, rfl⟩

end SetOptionsOp

/-! ### One-time signers -/

namespace Transaction

variable {header : LedgerHeader} {acc acc' : AccountEntry}

/-- The account without the first signer that has the key. -/
structure SignerRemoved (key : SignerKey) (acc acc' : AccountEntry) : Prop where
  found : ∃ signer, acc.signers.find? (fun signer => signer.key == key) = some signer
  released : ∃ released, acc.Released 1 released ∧
    acc' = { released with signers := acc.signers.eraseP fun signer => signer.key == key }

theorem removeAccountSigner_cases {key : SignerKey}
    (h : removeAccountSigner header key acc = .ok (some acc')) : SignerRemoved key acc acc' := by
  unfold removeAccountSigner at h
  split at h
  case isFalse => cases h
  case isTrue hany =>
    obtain ⟨counted, hcounted, h⟩ := bind_eq_ok.1 h
    obtain ⟨released, rfl, hcounts⟩ | ⟨-, hpos⟩ := AccountEntry.addNumEntries_cases hcounted
    · cases h
      have hsigners : released.signers = acc.signers := by rw [hcounts.frame]
      refine ⟨Option.isSome_iff_exists.1 (by simpa using hany), released, .of_counts hcounts, ?_⟩
      rw [hsigners]
    · omega

theorem removeUsedKeys_cases {keys : List SignerKey}
    (h : removeUsedKeys header keys acc = .ok (some acc')) :
    ∃ key ∈ keys, SignerRemoved key acc acc' := by
  induction keys with
  | nil => cases h
  | cons key rest ih =>
    obtain ⟨removed, hremoved, h⟩ := bind_eq_ok.1 h
    cases removed with
    | none =>
      obtain ⟨key', hkey', hcases⟩ := ih h
      exact ⟨key', mem_cons_of_mem key hkey', hcases⟩
    | some acc₁ =>
      cases h
      exact ⟨key, mem_cons_self, removeAccountSigner_cases hremoved⟩

end Transaction

end SpnCore.Ledger
