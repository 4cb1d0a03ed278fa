import Mathlib.Algebra.Order.Ring.Nat
import Mathlib.Order.Bounds.Basic

/-!
# The skip list of a ledger header

A header keeps the bucket list hashes of four earlier ledgers. The first one is renewed every 50
ledgers. Each other one takes over the value before it, at ledgers that are further apart the
further down the list it stands, so that hashes of older ledgers remain. Where each value comes
from depends on the number of the ledger alone.
-/

namespace SpnCore.Buckets

variable {Hash : Type} [Zero Hash]

/-- The fields of a `LedgerHeader` that the skip list depends on. -/
structure SkipHeader (Hash : Type) [Zero Hash] where
  ledgerSeq : Nat := 0
  bucketListHash : Hash := 0
  skipList : Fin 4 → Hash := fun _ => 0

def SkipHeader.setSkip (i : Fin 4) (hash : Hash) (header : SkipHeader Hash) : SkipHeader Hash :=
  { header with skipList := Function.update header.skipList i hash }

/-- The test of an `int` that was set to the number of the ledger less `back`, in unsigned
arithmetic of 32 bits. -/
def SkipHeader.due (header : SkipHeader Hash) (back period : Nat) : Bool :=
  let v : Int := ((header.ledgerSeq : Int) - back).bmod (2 ^ 32)
  decide (v > 0) && decide (v.tmod period = 0)

def calculateSkipValues (header : SkipHeader Hash) : SkipHeader Hash :=
  if header.ledgerSeq % 50 = 0 then
    let first :=
      if header.due 50 5000 then
        let second :=
          if header.due (5000 + 50) 50000 then
            let third :=
              if header.due (50000 + 5000 + 50) 500000 then header.setSkip 3 (header.skipList 2)
              else header
            third.setSkip 2 (header.skipList 1)
          else header
        second.setSkip 1 (header.skipList 0)
      else header
    first.setSkip 0 header.bucketListHash
  else header

/-- The bucket list has the given hash. -/
def snapshotLedger (hash : Hash) (header : SkipHeader Hash) : SkipHeader Hash :=
  calculateSkipValues { header with bucketListHash := hash }

/-- The header of each ledger, which starts from the header before it. -/
def headerOf (hashes : Nat → Hash) : Nat → SkipHeader Hash
  | 0 => {}
  | n + 1 => snapshotLedger (hashes (n + 1)) { headerOf hashes n with ledgerSeq := n + 1 }

/-! ### One ledger -/

/-- A ledger comes a multiple of the period after the way back. -/
def Due (back period n : Nat) : Prop := back < n ∧ period ∣ n - back

instance (back period n : Nat) : Decidable (Due back period n) :=
  inferInstanceAs (Decidable (_ ∧ _))

theorem due_iff {header : SkipHeader Hash} (hseq : header.ledgerSeq < 2 ^ 31)
    {back period : Nat} (hback : back < 2 ^ 31) :
    header.due back period = true ↔ Due back period header.ledgerSeq := by
  have hv : ((header.ledgerSeq : Int) - back).bmod (2 ^ 32) = header.ledgerSeq - back :=
    Int.bmod_eq_of_le (by omega) (by omega)
  simp only [SkipHeader.due, hv, Bool.and_eq_true, decide_eq_true_eq, gt_iff_lt, Int.sub_pos,
    Int.ofNat_lt]
  refine and_congr_right fun hlt => ?_
  rw [← Int.natCast_sub hlt.le, ← Int.dvd_iff_tmod_eq_zero, Int.natCast_dvd_natCast]

/-- Each value is renewed when its own period is due. -/
theorem skipList_calculateSkipValues (header : SkipHeader Hash)
    (hseq : header.ledgerSeq < 2 ^ 31) (hpos : 0 < header.ledgerSeq) :
    (calculateSkipValues header).skipList 0 =
      (if Due 0 50 header.ledgerSeq then header.bucketListHash else header.skipList 0) ∧
    (calculateSkipValues header).skipList 1 =
      (if Due 50 5000 header.ledgerSeq then header.skipList 0 else header.skipList 1) ∧
    (calculateSkipValues header).skipList 2 =
      (if Due 5050 50000 header.ledgerSeq then header.skipList 1 else header.skipList 2) ∧
    (calculateSkipValues header).skipList 3 =
      (if Due 55050 500000 header.ledgerSeq then header.skipList 2 else header.skipList 3) := by
  -- a longer period is due only where the shorter ones are
  have h0 : header.ledgerSeq % 50 = 0 ↔ Due 0 50 header.ledgerSeq := by unfold Due; omega
  have h1 : Due 50 5000 header.ledgerSeq → Due 0 50 header.ledgerSeq := by unfold Due; omega
  have h2 : Due 5050 50000 header.ledgerSeq → Due 50 5000 header.ledgerSeq := by unfold Due; omega
  have h3 : Due 55050 500000 header.ledgerSeq → Due 5050 50000 header.ledgerSeq := by
    unfold Due
    omega
  unfold calculateSkipValues
  simp only [due_iff hseq (show 50 < 2 ^ 31 by decide),
    due_iff hseq (show 5000 + 50 < 2 ^ 31 by decide),
    due_iff hseq (show 50000 + 5000 + 50 < 2 ^ 31 by decide), h0]
  split_ifs <;> simp_all [SkipHeader.setSkip]

/-! ### Where the values come from -/

/-- The value is the hash of the last ledger whose number is a multiple of the period and lies back
far enough, or zero if there is none. -/
def FromLatest (hashes : Nat → Hash) (period back n : Nat) (value : Hash) : Prop :=
  (∀ M, IsGreatest {M | 0 < M ∧ period ∣ M ∧ M + back ≤ n} M → value = hashes M) ∧
    ((¬ ∃ M, 0 < M ∧ period ∣ M ∧ M + back ≤ n) → value = 0)

section

variable {hashes : Nat → Hash} {period period' back n : Nat} {value value' : Hash}

theorem fromLatest_zero (hashes : Nat → Hash) (period back : Nat) :
    FromLatest hashes period back 0 0 := by
  refine ⟨fun M hM => ?_, fun _ => rfl⟩
  have hpos := hM.1.1
  have hle := hM.1.2.2
  omega

theorem FromLatest.next (h : FromLatest hashes period back n value)
    (htaken : back < n + 1 → period ∣ n + 1 - back → value' = hashes (n + 1 - back)) :
    FromLatest hashes period back (n + 1)
      (if Due back period (n + 1) then value' else value) := by
  split_ifs with hdue
  · obtain ⟨hlt, hdvd⟩ := hdue
    have hmem : n + 1 - back ∈ {M | 0 < M ∧ period ∣ M ∧ M + back ≤ n + 1} :=
      ⟨by omega, hdvd, by omega⟩
    refine ⟨fun M hM => ?_, fun hnone => absurd ⟨_, hmem⟩ hnone⟩
    have hle := hM.1.2.2
    have hge : n + 1 - back ≤ M := hM.2 hmem
    rw [htaken hlt hdvd, show M = n + 1 - back by omega]
  · have hiff : ∀ M, (0 < M ∧ period ∣ M ∧ M + back ≤ n + 1) ↔
        (0 < M ∧ period ∣ M ∧ M + back ≤ n) := by
      refine fun M => and_congr_right fun _ => and_congr_right fun hdvd => ⟨fun hle => ?_, by omega⟩
      by_contra hlt
      exact hdue ⟨by omega, (show M = n + 1 - back by omega) ▸ hdvd⟩
    simpa only [FromLatest, hiff] using h

/-- A value that moves down the list is the one for the ledger where it belongs. -/
theorem FromLatest.moved (period : Nat)
    (h : FromLatest hashes period' (back + period) n value)
    (hprevious : FromLatest hashes period back n value') (hdvd : period ∣ period')
    (hperiod : 0 < period) :
    FromLatest hashes period' (back + period) (n + 1)
      (if Due (back + period) period' (n + 1) then value' else value) := by
  refine h.next fun hlt hdvd' => hprevious.1 _ ⟨⟨by omega, hdvd.trans hdvd', by omega⟩, ?_⟩
  rintro M ⟨-, ⟨k, rfl⟩, hle⟩
  obtain ⟨j, hj⟩ := hdvd.trans hdvd'
  have hk : period * k < period * (j + 1) := by
    rw [Nat.mul_succ]
    omega
  rw [hj]
  exact Nat.mul_le_mul_left _ (Nat.lt_succ_iff.1 (Nat.lt_of_mul_lt_mul_left hk))

end

/-- The skip list of the header of a ledger. -/
theorem skipList_headerOf (hashes : Nat → Hash) (n : Nat) (hn : n < 2 ^ 31) :
    FromLatest hashes 50 0 n ((headerOf hashes n).skipList 0) ∧
      FromLatest hashes 5000 50 n ((headerOf hashes n).skipList 1) ∧
      FromLatest hashes 50000 5050 n ((headerOf hashes n).skipList 2) ∧
      FromLatest hashes 500000 55050 n ((headerOf hashes n).skipList 3) := by
  induction n with
  | zero =>
    exact ⟨fromLatest_zero _ _ _, fromLatest_zero _ _ _, fromLatest_zero _ _ _,
      fromLatest_zero _ _ _⟩
  | succ n ih =>
    obtain ⟨h0, h1, h2, h3⟩ := ih (by omega)
    obtain ⟨e0, e1, e2, e3⟩ := skipList_calculateSkipValues
      { headerOf hashes n with ledgerSeq := n + 1, bucketListHash := hashes (n + 1) } hn
      (Nat.succ_pos n)
    rw [headerOf, snapshotLedger, e0, e1, e2, e3]
    exact ⟨h0.next fun _ _ => rfl, h1.moved 50 h0 (by decide) (by decide),
      h2.moved 5000 h1 (by decide) (by decide),
      h3.moved 50000 h2 (by decide) (by decide)⟩

/-- The first value in the header of ledger 149 is that of ledger 100. -/
theorem skipList_headerOf_149 : (headerOf (fun n => n) 149).skipList 0 = 100 := by
  refine (skipList_headerOf (fun n => n) 149 (by decide)).1.1 100 ⟨by decide, ?_⟩
  rintro M ⟨-, hdvd, hle⟩
  omega

end SpnCore.Buckets
