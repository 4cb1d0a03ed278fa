import SpnCore.Transactions.Preparation

/-!
# What a signature check decides

When no signature verifies two signers, the three passes of a check find all signers that the
transaction satisfies, each of them once. The check succeeds when there is one and their weights
reach the threshold, whatever the order of signatures and signers.
-/

namespace SpnCore.Ledger.SignatureChecker

open List

/-- The signers that the transaction satisfies. -/
def matched (env : Env) (hash : Hash) (sigs : List DecoratedSignature) (signers : List Signer) :
    List Signer :=
  signers.filter fun signer => decide (signer.key = .preAuthTx hash) ||
    sigs.any fun sig => verifiesHashX env sig signer || verifiesEd25519 env hash sig signer

/-- A pass from a total weight counted these signers: it stopped when the weight was reached, and
otherwise added all their weights. -/
structure Tallied (neededWeight start : Nat) (check : Check) (found : List Signer) : Prop where
  reached : check.reached = true ↔ found ≠ [] ∧ neededWeight ≤ start + totalWeight found
  weight : check.reached = false → check.totalWeight = start + totalWeight found

variable {env : Env} {checker : SignatureChecker} {neededWeight start : Nat} {signer : Signer}
  {found found' : List Signer} {check : Check}

theorem totalWeight_cons (signer : Signer) (signers : List Signer) :
    totalWeight (signer :: signers) = weightOf signer + totalWeight signers := rfl

theorem totalWeight_perm (h : found.Perm found') : totalWeight found = totalWeight found' :=
  (h.map weightOf).sum_eq

theorem Tallied.nil : Tallied neededWeight start ⟨false, start, checker⟩ [] :=
  ⟨by simp, fun _ => rfl⟩

/-- The weight is reached with a signer, so it is reached with further ones. -/
theorem Tallied.last (h : neededWeight ≤ start + weightOf signer) (rest : List Signer) :
    Tallied neededWeight start ⟨true, start + weightOf signer, checker⟩ (signer :: rest) := by
  refine ⟨iff_of_true rfl ⟨cons_ne_nil _ _, ?_⟩, by simp⟩
  rw [totalWeight_cons]
  omega

theorem Tallied.cons (h : Tallied neededWeight (start + weightOf signer) check found)
    (hmore : ¬ neededWeight ≤ start + weightOf signer) :
    Tallied neededWeight start check (signer :: found) := by
  constructor
  · rw [h.reached, totalWeight_cons, Nat.add_assoc]
    refine and_congr_left fun hle => iff_of_true ?_ (cons_ne_nil _ _)
    rintro rfl
    exact hmore (by simpa [totalWeight] using hle)
  · intro hr
    rw [h.weight hr, totalWeight_cons]
    omega

theorem Tallied.perm (h : Tallied neededWeight start check found) (hperm : found.Perm found') :
    Tallied neededWeight start check found' := by
  refine ⟨?_, fun hr => by rw [h.weight hr, totalWeight_perm hperm]⟩
  rw [h.reached, totalWeight_perm hperm, ← length_pos_iff, ← length_pos_iff,
    hperm.length_eq]

theorem checkPreAuth_tallied (accountID : AccountID) (signers : List Signer) (start : Nat)
    (checker : SignatureChecker) :
    Tallied neededWeight start (checkPreAuth accountID neededWeight signers start checker)
      (signers.filter fun signer => decide (signer.key = .preAuthTx checker.contentsHash)) := by
  induction signers generalizing start checker with
  | nil => exact .nil
  | cons signer rest ih =>
    rw [checkPreAuth]
    split
    case isTrue hkey =>
      rw [filter_cons_of_pos (by simpa using hkey)]
      dsimp only
      split
      case isTrue hreached => exact .last hreached _
      case isFalse hmore => exact (ih _ (checker.useOneTimeKey accountID signer.key)).cons hmore
    case isFalse hkey =>
      rw [filter_cons_of_neg (by simpa using hkey)]
      exact ih start checker

theorem filter_any_cons {verify : DecoratedSignature → Signer → Bool} {signers : List Signer}
    {p : DecoratedSignature × Nat} (rest : List (DecoratedSignature × Nat))
    (h : ∀ s ∈ signers, verify p.1 s = false) :
    (signers.filter fun s => (p :: rest).any fun p => verify p.1 s) =
      signers.filter fun s => rest.any fun p => verify p.1 s :=
  filter_congr fun s hs => by rw [any_cons, h s hs, Bool.false_or]

/-- A pass over the signatures takes each signer with the first signature that verifies it. -/
theorem verifyAll_tallied {verify : DecoratedSignature → Signer → Bool}
    (indexed : List (DecoratedSignature × Nat)) (signers : List Signer) (hnodup : signers.Nodup)
    (hone : ∀ p ∈ indexed, ∀ s ∈ signers, ∀ s' ∈ signers,
      verify p.1 s = true → verify p.1 s' = true → s = s')
    (start : Nat) (checker : SignatureChecker) :
    Tallied neededWeight start (verifyAll verify neededWeight indexed signers start checker)
      (signers.filter fun s => indexed.any fun p => verify p.1 s) := by
  induction indexed generalizing signers start checker with
  | nil => simpa [verifyAll] using Tallied.nil
  | cons p rest ih =>
    obtain ⟨sig, i⟩ := p
    obtain ⟨hsig, hrest⟩ := forall_mem_cons.1 hone
    rw [verifyAll]
    split
    case h_1 hnone =>
      rw [filter_any_cons rest fun s hs => Bool.of_not_eq_true (List.find?_eq_none.1 hnone s hs)]
      exact ih signers hnodup hrest start checker
    case h_2 signer hfind =>
      have hverifies := List.find?_some hfind
      have hperm := find?_cons_eraseP_perm hfind
      obtain ⟨hfresh, hnodup'⟩ := nodup_cons.1 (hperm.nodup_iff.2 hnodup)
      have hsub : signers.eraseP (verify sig) ⊆ signers := eraseP_subset
      -- no other signer is verified by this signature
      have hothers : ∀ s ∈ signers.eraseP (verify sig), verify sig s = false := fun s hs =>
        Bool.of_not_eq_true fun hs' => hfresh
          (hsig s (hsub hs) signer (mem_of_find?_eq_some hfind) hs' hverifies ▸ hs)
      refine Tallied.perm ?_ (hperm.filter _)
      rw [filter_cons_of_pos (by simp [hverifies]), filter_any_cons rest hothers]
      dsimp only
      split
      case isTrue hreached => exact .last hreached _
      case isFalse hmore =>
        exact (ih _ hnodup' (fun p hp s hs s' hs' => hrest p hp s (hsub hs) s' (hsub hs'))
          _ _).cons hmore

/-- Three passes in a row, each of which goes on where the one before stopped, decide about all
signers they found. -/
theorem tallied_three {a b c : Check} {as bs cs : List Signer}
    (ha : Tallied neededWeight 0 a as) (hb : Tallied neededWeight a.totalWeight b bs)
    (hc : Tallied neededWeight b.totalWeight c cs) :
    ((a.reached || b.reached || c.reached) = true) ↔
      as ++ (bs ++ cs) ≠ [] ∧ neededWeight ≤ totalWeight (as ++ (bs ++ cs)) := by
  have hsum : totalWeight (as ++ (bs ++ cs)) =
      totalWeight as + (totalWeight bs + totalWeight cs) := by simp [totalWeight]
  rw [Bool.or_eq_true, Bool.or_eq_true, hsum]
  by_cases ra : a.reached = true
  · have := ha.reached.1 ra
    refine iff_of_true (.inl (.inl ra)) ⟨by simp [this.1], by omega⟩
  have hwa := ha.weight (Bool.of_not_eq_true ra)
  rw [hwa] at hb
  by_cases rb : b.reached = true
  · have := hb.reached.1 rb
    refine iff_of_true (.inl (.inr rb)) ⟨by simp [this.1], by omega⟩
  rw [hb.weight (Bool.of_not_eq_true rb)] at hc
  have hnone : ¬ (a.reached = true ∨ b.reached = true) := by tauto
  rw [or_iff_right hnone, hc.reached, Nat.zero_add, Nat.add_assoc]
  refine and_congr_left fun hle => ⟨fun h => by simp [h], fun h hcs => ?_⟩
  -- without a signer in the last pass, an earlier one had reached the weight
  subst hcs
  rw [ha.reached] at ra
  rw [hb.reached] at rb
  have hcs : totalWeight [] = 0 := rfl
  by_cases hbs : bs = []
  · subst hbs
    exact ra ⟨by simpa using h, by omega⟩
  · exact rb ⟨hbs, by omega⟩

theorem any_zipIdx {α : Type*} (l : List α) (f : α → Bool) :
    (l.zipIdx.any fun p => f p.1) = l.any f := by
  have hmap : l.zipIdx.any (f ∘ Prod.fst) = (l.zipIdx.map Prod.fst).any f := any_map.symm
  rwa [zipIdx_map_fst] at hmap

/-- The signers found by the passes are those that the transaction satisfies. -/
theorem matched_perm (env : Env) (hash : Hash) (sigs : List DecoratedSignature)
    (signers : List Signer) :
    ((signers.filter isPreAuthTx).filter (fun s => decide (s.key = .preAuthTx hash)) ++
      ((signers.filter isHashX).filter (fun s => sigs.any (verifiesHashX env · s)) ++
        (signers.filter isEd25519).filter fun s => sigs.any (verifiesEd25519 env hash · s))).Perm
      (matched env hash sigs signers) := by
  refine .trans ?_ ((filter_kinds_perm signers).filter _)
  simp only [filter_append, filter_filter]
  refine .append (.of_eq ?_) (.append (.of_eq ?_) (.of_eq ?_))
  all_goals
    refine filter_congr fun s _ => ?_
    obtain ⟨key, weight⟩ := s
    cases key <;> simp [isPreAuthTx, isHashX, isEd25519, verifiesHashX, verifiesEd25519]

/-- No signature verifies two of the signers. -/
def Unambiguous (env : Env) (checker : SignatureChecker) (signers : List Signer) : Prop :=
  ∀ sig ∈ checker.signatures, ∀ s ∈ signers, ∀ s' ∈ signers,
    Verifies env checker.contentsHash sig s → Verifies env checker.contentsHash sig s' → s = s'

theorem checkSignature_eq_true {signers : List Signer} (hnodup : signers.Nodup)
    (hone : Unambiguous env checker signers) (accountID : AccountID) (neededWeight : Nat) :
    (checkSignature env accountID signers neededWeight checker).1 = true ↔
      matched env checker.contentsHash checker.signatures signers ≠ [] ∧
        neededWeight ≤
          totalWeight (matched env checker.contentsHash checker.signatures signers) := by
  have hpass : ∀ (verify : DecoratedSignature → Signer → Bool) (kind : Signer → Bool)
      (start : Nat) (used : SignatureChecker),
      (∀ sig s, verify sig s = true → Verifies env checker.contentsHash sig s) →
      Tallied neededWeight start
        (verifyAll verify neededWeight checker.signatures.zipIdx (signers.filter kind) start used)
        ((signers.filter kind).filter fun s => checker.signatures.any (verify · s)) := by
    intro verify kind start used hverify
    simp only [← any_zipIdx checker.signatures]
    refine verifyAll_tallied _ _ (hnodup.filter kind) (fun p hp s hs s' hs' h h' => ?_) start used
    have hmem := mem_of_getElem? (mem_zipIdx_iff_getElem?.1 hp)
    exact hone p.1 hmem s (mem_of_mem_filter hs) s' (mem_of_mem_filter hs')
      (hverify _ _ h) (hverify _ _ h')
  have hall := matched_perm env checker.contentsHash checker.signatures signers
  have ha := @checkPreAuth_tallied neededWeight accountID
    (signers.filter isPreAuthTx) 0 checker
  rw [checkSignature]
  generalize checkPreAuth accountID neededWeight (signers.filter isPreAuthTx) 0 checker = a at ha ⊢
  have hb := hpass (verifiesHashX env) isHashX a.totalWeight a.checker fun _ _ => .inl
  dsimp only
  generalize verifyAll (verifiesHashX env) neededWeight checker.signatures.zipIdx
    (signers.filter isHashX) a.totalWeight a.checker = b at hb ⊢
  have hc := hpass (verifiesEd25519 env checker.contentsHash) isEd25519 b.totalWeight b.checker
    fun _ _ => .inr
  rw [← totalWeight_perm hall, ← length_pos_iff, ← hall.length_eq, length_pos_iff,
    ← tallied_three ha hb hc]
  split_ifs with ha hb <;> simp [*]

/-- A check succeeds exactly when the transaction satisfies a signer and the weights of all signers
that it satisfies reach the threshold. Neither the order of signatures and signers nor repeated
signatures matter. -/
theorem checkSignature_iff_weight (env : Env) (accountID : AccountID) (signers : List Signer)
    (neededWeight : Nat) (checker : SignatureChecker) (hnodup : signers.Nodup)
    (hone : Unambiguous env checker signers) :
    ((checkSignature env accountID signers neededWeight checker).1 = true ↔
      matched env checker.contentsHash checker.signatures signers ≠ [] ∧
        neededWeight ≤
          totalWeight (matched env checker.contentsHash checker.signatures signers)) ∧
    ∀ (signers' : List Signer) (sigs' : List DecoratedSignature), signers'.Perm signers →
      (∀ sig, sig ∈ sigs' ↔ sig ∈ checker.signatures) →
      (checkSignature env accountID signers' neededWeight
        { checker with signatures := sigs' }).1 =
          (checkSignature env accountID signers neededWeight checker).1 := by
  have hexact := checkSignature_eq_true hnodup hone accountID neededWeight
  refine ⟨hexact, fun signers' sigs' hperm hsigs => ?_⟩
  have hone' : Unambiguous env { checker with signatures := sigs' } signers' :=
    fun sig hsig s hs s' hs' =>
      hone sig ((hsigs sig).1 hsig) s (hperm.subset hs) s' (hperm.subset hs')
  have hsame : (matched env checker.contentsHash sigs' signers').Perm
      (matched env checker.contentsHash checker.signatures signers) := by
    refine (hperm.filter _).trans (.of_eq (filter_congr fun s _ => ?_))
    congr 1
    rw [Bool.eq_iff_iff, any_eq_true, any_eq_true]
    simp only [hsigs]
  rw [Bool.eq_iff_iff, hexact,
    checkSignature_eq_true (hperm.nodup_iff.2 hnodup) hone' accountID neededWeight,
    totalWeight_perm hsame, ← length_pos_iff, hsame.length_eq, length_pos_iff]

/-- A key with a weight of 1 and a preimage with one of 300. -/
def keyAndPreimage : List Signer := [⟨.ed25519 1, 1⟩, ⟨.hashX 2, 300⟩]

/-- Two signatures of one key count once, and a weight counts up to 255. -/
theorem checkSignature_iff_weight_repeated :
    (checkSignature Transaction.plainEnv 9 keyAndPreimage 257 (init 0 [1, 2, 1])).1 = false ∧
      (checkSignature Transaction.plainEnv 9 keyAndPreimage 257
        { init 0 [1, 2, 1] with signatures := [2, 1] }).1 =
          (checkSignature Transaction.plainEnv 9 keyAndPreimage 257 (init 0 [1, 2, 1])).1 :=
  ⟨by decide, (checkSignature_iff_weight Transaction.plainEnv 9 keyAndPreimage 257
    (init 0 [1, 2, 1]) (by decide) (by unfold Unambiguous Verifies; decide)).2 _ [2, 1] (.refl _)
    (by simp [init, or_comm])⟩

end SpnCore.Ledger.SignatureChecker
