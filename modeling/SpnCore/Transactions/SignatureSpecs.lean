import SpnCore.Transactions.TransactionFrame

/-!
# What a signature check establishes

A check that succeeds has found signers of the account that the transaction satisfies and whose
weights reach the threshold (`Carries`). All along, the checker marks a signature as used only
when it verifies a signer that was looked at, and keeps no other one-time key than the
transaction's own (`Sound`).
-/

namespace SpnCore.Ledger

open Lib List

namespace SignatureChecker

/-- The signature verifies the signer. -/
def Verifies (env : Env) (hash : Hash) (sig : DecoratedSignature) (signer : Signer) : Prop :=
  verifiesHashX env sig signer = true ∨ verifiesEd25519 env hash sig signer = true

/-- A transaction satisfies a signer: it is the one authorized in advance, or it carries a
signature that verifies the signer. -/
def Matches (env : Env) (hash : Hash) (sigs : List DecoratedSignature) (signer : Signer) : Prop :=
  signer.key = .preAuthTx hash ∨ ∃ sig ∈ sigs, Verifies env hash sig signer

/-- The sum of the weights with which signers count. -/
def totalWeight (signers : List Signer) : Nat :=
  (signers.map weightOf).sum

/-- Some of the signers, each taken once, are satisfied and reach the weight together. -/
def Carries (env : Env) (hash : Hash) (sigs : List DecoratedSignature) (signers : List Signer)
    (neededWeight : Nat) : Prop :=
  ∃ matched : List Signer, matched ≠ [] ∧ matched.Subperm signers ∧
    (∀ signer ∈ matched, Matches env hash sigs signer) ∧ neededWeight ≤ totalWeight matched

/-- What holds of the checker of a transaction when only signers in `P` were looked at. -/
structure Sound (env : Env) (hash : Hash) (sigs : List DecoratedSignature) (P : Signer → Prop)
    (checker : SignatureChecker) : Prop where
  contentsHash : checker.contentsHash = hash
  signatures : checker.signatures = sigs
  length : checker.usedSignatures.length = sigs.length
  used : ∀ i : Nat, checker.usedSignatures[i]? = some true →
    ∃ sig signer, sigs[i]? = some sig ∧ P signer ∧ Verifies env hash sig signer
  oneTime : ∀ accountID keys, checker.usedOneTimeSignerKeys.lookup accountID = some keys →
    ∀ key ∈ keys, key = .preAuthTx hash

variable {env : Env} {hash : Hash} {sigs : List DecoratedSignature} {P : Signer → Prop}
  {checker : SignatureChecker}

theorem sound_init (env : Env) (hash : Hash) (sigs : List DecoratedSignature)
    (P : Signer → Prop) : Sound env hash sigs P (init hash sigs) where
  contentsHash := rfl
  signatures := rfl
  length := by simp [init]
  used := by
    intro i hi
    simp [init, List.getElem?_replicate] at hi
  oneTime := by simp [init]

variable {signer : Signer} {neededWeight start : Nat} {signers rest matched : List Signer}

section

variable (h : Sound env hash sigs P checker)
include h

theorem Sound.useSignature {i : Nat} {sig : DecoratedSignature} (hsig : sigs[i]? = some sig)
    (hP : P signer) (hverifies : Verifies env hash sig signer) :
    Sound env hash sigs P (checker.useSignature i) where
  __ := h
  length := by simpa [SignatureChecker.useSignature] using h.length
  used := by
    intro j hj
    by_cases hij : i = j
    · subst hij
      exact ⟨sig, signer, hsig, hP, hverifies⟩
    · rw [SignatureChecker.useSignature, List.getElem?_set_ne hij] at hj
      exact h.used j hj

theorem Sound.useOneTimeKey (accountID : AccountID) :
    Sound env hash sigs P (checker.useOneTimeKey accountID (.preAuthTx hash)) where
  __ := h
  oneTime := by
    intro a keys hkeys key hkey
    simp only [SignatureChecker.useOneTimeKey, FMap.lookup_insert] at hkeys
    split at hkeys
    case isTrue =>
      cases hkeys
      rcases mem_insert_iff.1 hkey with hnew | hold
      · exact hnew
      · cases hlookup : checker.usedOneTimeSignerKeys.lookup accountID with
        | none => simp [hlookup] at hold
        | some old => exact h.oneTime accountID old hlookup key (by simpa [hlookup] using hold)
    case isFalse => exact h.oneTime a keys hkeys key hkey

/-! ### The three passes -/

omit h in
/-- What a pass over some signers establishes, when it starts from a total weight. -/
structure PassSpec (env : Env) (hash : Hash) (sigs : List DecoratedSignature) (P : Signer → Prop)
    (neededWeight : Nat) (signers : List Signer) (start : Nat) (check : Check)
    (matched : List Signer) : Prop where
  sound : Sound env hash sigs P check.checker
  subperm : matched.Subperm signers
  satisfied : ∀ signer ∈ matched, Matches env hash sigs signer
  weight : check.totalWeight = start + totalWeight matched
  reached : check.reached = true → matched ≠ [] ∧ neededWeight ≤ check.totalWeight

theorem PassSpec.nil :
    PassSpec env hash sigs P neededWeight signers start ⟨false, start, checker⟩ [] where
  sound := h
  subperm := nil_subperm
  satisfied := by simp
  weight := by simp [totalWeight]
  reached := by simp

/-- One more signer matched, and the weight is reached. -/
theorem PassSpec.last (hmatch : Matches env hash sigs signer)
    (hperm : (signer :: rest).Subperm signers) (hreached : neededWeight ≤ start + weightOf signer) :
    PassSpec env hash sigs P neededWeight signers start
      ⟨true, start + weightOf signer, checker⟩ [signer] where
  sound := h
  subperm := (sublist_append_left [signer] rest).subperm.trans hperm
  satisfied := by simpa using hmatch
  weight := by simp [totalWeight]
  reached := by simpa using hreached

end

/-- One more signer matched, and the pass goes on with the others. -/
theorem PassSpec.cons {check : Check}
    (h : PassSpec env hash sigs P neededWeight rest (start + weightOf signer) check matched)
    (hmatch : Matches env hash sigs signer) (hperm : (signer :: rest).Subperm signers) :
    PassSpec env hash sigs P neededWeight signers start check (signer :: matched) where
  sound := h.sound
  subperm := ((subperm_cons signer).2 h.subperm).trans hperm
  satisfied := by simpa using ⟨hmatch, h.satisfied⟩
  weight := by rw [h.weight]; simp [totalWeight]; omega
  reached := by
    intro hr
    exact ⟨cons_ne_nil _ _, (h.reached hr).2⟩

theorem PassSpec.skip {check : Check}
    (h : PassSpec env hash sigs P neededWeight rest start check matched)
    (hperm : rest.Subperm signers) :
    PassSpec env hash sigs P neededWeight signers start check matched where
  __ := h
  subperm := h.subperm.trans hperm

theorem checkPreAuth_spec (accountID : AccountID) (neededWeight : Nat) (signers : List Signer)
    (start : Nat) (checker : SignatureChecker) (h : Sound env hash sigs P checker) :
    ∃ matched, PassSpec env hash sigs P neededWeight signers start
      (checkPreAuth accountID neededWeight signers start checker) matched := by
  induction signers generalizing start checker with
  | nil => exact ⟨[], .nil h⟩
  | cons signer rest ih =>
    rw [checkPreAuth]
    split
    case isTrue hkey =>
      rw [h.contentsHash] at hkey
      have hused : Sound env hash sigs P (checker.useOneTimeKey accountID signer.key) :=
        hkey ▸ h.useOneTimeKey accountID
      dsimp only
      split
      case isTrue hreached =>
        exact ⟨[signer], .last hused (.inl hkey) (List.Subperm.refl _) hreached⟩
      case isFalse =>
        obtain ⟨matched, hspec⟩ := ih (start + weightOf signer) _ hused
        exact ⟨signer :: matched, hspec.cons (.inl hkey) (List.Subperm.refl _)⟩
    case isFalse =>
      obtain ⟨matched, hspec⟩ := ih start checker h
      exact ⟨matched, hspec.skip (sublist_cons_self signer rest).subperm⟩

/-- Taking out the first signer that is found only reorders the signers. -/
theorem find?_cons_eraseP_perm {p : Signer → Bool} (h : signers.find? p = some signer) :
    (signer :: signers.eraseP p).Perm signers := by
  induction signers with
  | nil => cases h
  | cons x rest ih =>
    by_cases hx : p x = true
    · rw [List.find?_cons_of_pos hx] at h
      cases h
      rw [eraseP_cons_of_pos hx]
    · rw [List.find?_cons_of_neg hx] at h
      rw [eraseP_cons_of_neg hx]
      exact (List.Perm.swap x signer _).trans ((ih h).cons x)

theorem verifyAll_spec (verify : DecoratedSignature → Signer → Bool)
    (hverify : ∀ sig signer, verify sig signer = true → Verifies env hash sig signer)
    (neededWeight : Nat) (indexed : List (DecoratedSignature × Nat))
    (hindexed : ∀ p ∈ indexed, sigs[p.2]? = some p.1) (signers : List Signer)
    (hP : ∀ signer ∈ signers, P signer) (start : Nat) (checker : SignatureChecker)
    (h : Sound env hash sigs P checker) :
    ∃ matched, PassSpec env hash sigs P neededWeight signers start
      (verifyAll verify neededWeight indexed signers start checker) matched := by
  induction indexed generalizing signers start checker with
  | nil => exact ⟨[], .nil h⟩
  | cons p rest ih =>
    obtain ⟨sig, i⟩ := p
    have hrest : ∀ p ∈ rest, sigs[p.2]? = some p.1 := fun p hp =>
      hindexed p (mem_cons_of_mem _ hp)
    have hsig : sigs[i]? = some sig := hindexed (sig, i) mem_cons_self
    rw [verifyAll]
    split
    case h_1 => exact ih hrest signers hP start checker h
    case h_2 signer hfind =>
      have hverifies := hverify sig signer (List.find?_some hfind)
      have hmatch : Matches env hash sigs signer :=
        .inr ⟨sig, mem_of_getElem? hsig, hverifies⟩
      have hused := h.useSignature hsig (hP signer (mem_of_find?_eq_some hfind)) hverifies
      have hperm := (find?_cons_eraseP_perm hfind).subperm
      dsimp only
      split
      case isTrue hreached => exact ⟨[signer], .last hused hmatch hperm hreached⟩
      case isFalse =>
        obtain ⟨matched, hspec⟩ := ih hrest (signers.eraseP (verify sig))
          (fun s hs => hP s (mem_of_mem_eraseP hs)) (start + weightOf signer) _ hused
        exact ⟨signer :: matched, hspec.cons hmatch hperm⟩

/-- Every signer belongs to one of the three passes. -/
theorem filter_kinds_perm (signers : List Signer) :
    (signers.filter isPreAuthTx ++ (signers.filter isHashX ++ signers.filter isEd25519)).Perm
      signers := by
  induction signers with
  | nil => exact .nil
  | cons signer rest ih =>
    obtain ⟨key, weight⟩ := signer
    cases key with
    | preAuthTx hash => exact ih.cons _
    | hashX hash =>
      exact perm_middle.trans (ih.cons _)
    | ed25519 key =>
      have hmiddle : (rest.filter isPreAuthTx ++ rest.filter isHashX ++
          (⟨.ed25519 key, weight⟩ : Signer) :: rest.filter isEd25519).Perm _ :=
        perm_middle
      simp only [append_assoc] at hmiddle
      exact hmiddle.trans (ih.cons _)

/-! ### The whole check -/

theorem checkSignature_spec (accountID : AccountID) (signers : List Signer)
    (hP : ∀ signer ∈ signers, P signer) (neededWeight : Nat) (checker : SignatureChecker)
    (h : Sound env hash sigs P checker) :
    Sound env hash sigs P (checkSignature env accountID signers neededWeight checker).2 ∧
      ((checkSignature env accountID signers neededWeight checker).1 = true →
        Carries env hash sigs signers neededWeight) := by
  have hmem : ∀ p : Signer → Bool, ∀ signer ∈ signers.filter p, P signer := fun p signer hs =>
    hP signer (mem_of_mem_filter hs)
  have hindexed : ∀ p ∈ checker.signatures.zipIdx, sigs[p.2]? = some p.1 := by
    intro p hp
    rw [← h.signatures]
    exact mem_zipIdx_iff_getElem?.1 hp
  obtain ⟨m₁, h₁⟩ := checkPreAuth_spec accountID neededWeight (signers.filter isPreAuthTx) 0
    checker h
  obtain ⟨m₂, h₂⟩ := verifyAll_spec (verifiesHashX env) (fun _ _ => .inl) neededWeight
    checker.signatures.zipIdx hindexed (signers.filter isHashX) (hmem _)
    (checkPreAuth accountID neededWeight (signers.filter isPreAuthTx) 0 checker).totalWeight _
    h₁.sound
  obtain ⟨m₃, h₃⟩ := verifyAll_spec (verifiesEd25519 env hash) (fun _ _ => .inr) neededWeight
    checker.signatures.zipIdx hindexed (signers.filter isEd25519) (hmem _)
    (verifyAll (verifiesHashX env) neededWeight checker.signatures.zipIdx
      (signers.filter isHashX) _ _).totalWeight _ h₂.sound
  have hperm : (m₁ ++ (m₂ ++ m₃)).Subperm signers := by
    obtain ⟨l₁, hp₁, hs₁⟩ := h₁.subperm
    obtain ⟨l₂, hp₂, hs₂⟩ := h₂.subperm
    obtain ⟨l₃, hp₃, hs₃⟩ := h₃.subperm
    have hkinds := (filter_kinds_perm signers).subperm
    exact List.Subperm.trans
      ⟨_, hp₁.append (hp₂.append hp₃), hs₁.append (hs₂.append hs₃)⟩ hkinds
  -- the signers matched up to the pass that reaches the weight are among all that match
  have hcarries : m₁ ++ (m₂ ++ m₃) ≠ [] →
      neededWeight ≤ totalWeight m₁ + (totalWeight m₂ + totalWeight m₃) →
      Carries env hash sigs signers neededWeight := by
    intro hne hweight
    refine ⟨_, hne, hperm, fun signer hs => ?_, by simpa [totalWeight] using hweight⟩
    simp only [mem_append] at hs
    rcases hs with hs | hs | hs
    · exact h₁.satisfied signer hs
    · exact h₂.satisfied signer hs
    · exact h₃.satisfied signer hs
  have hw₁ := h₁.weight
  have hw₂ := h₂.weight
  have hw₃ := h₃.weight
  simp only [checkSignature, h.contentsHash]
  split
  case isTrue hr =>
    obtain ⟨hne, hle⟩ := h₁.reached hr
    exact ⟨h₁.sound, fun _ => hcarries (by simp [hne]) (by omega)⟩
  case isFalse =>
    split
    case isTrue hr =>
      obtain ⟨hne, hle⟩ := h₂.reached hr
      exact ⟨h₂.sound, fun _ => hcarries (by simp [hne]) (by omega)⟩
    case isFalse =>
      refine ⟨h₃.sound, fun hr => ?_⟩
      obtain ⟨hne, hle⟩ := h₃.reached hr
      exact hcarries (by simp [hne]) (by omega)

end SignatureChecker

end SpnCore.Ledger
