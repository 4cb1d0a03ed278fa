import Mathlib.Order.Bounds.Basic
import SpnCore.Scp.BallotProtocol

/-!
# The search for a commit interval

`findExtendedInterval` goes through the boundaries from the largest one down. The upper end of the
interval is the first boundary that passes the test on its own, the lower end the last one down to
which all pass it together with the upper end.
-/

namespace SpnCore.Scp

open Lib List

variable {pred : Interval → Bool} {boundaries : List Nat}

/-- The boundaries from which all others up to `upper` extend an interval that passes the test. -/
def reachableFrom (pred : Interval → Bool) (boundaries : List Nat) (upper : Nat) : Set Nat :=
  { l | l ∈ boundaries ∧ l ≤ upper ∧ ∀ b ∈ boundaries, l ≤ b → b ≤ upper → pred (b, upper) = true }

/-- The interval that the search is for. -/
structure LargestInterval (pred : Interval → Bool) (boundaries : List Nat) (found : Interval) :
    Prop where
  upper : IsGreatest { n | n ∈ boundaries ∧ pred (n, n) = true } found.2
  lower : IsLeast (reachableFrom pred boundaries found.2) found.1

/-- An interval that has been found is extended downwards as far as possible. -/
theorem findExtendedInterval_extends {c upper : Nat}
    (hsorted : (c :: boundaries).Pairwise (· > ·)) (hle : c ≤ upper)
    (hpass : pred (c, upper) = true) :
    (findExtendedInterval pred (c, upper) boundaries).2 = upper ∧
      IsLeast (reachableFrom pred (c :: boundaries) upper)
        (findExtendedInterval pred (c, upper) boundaries).1 := by
  induction boundaries generalizing c with
  | nil =>
    refine ⟨rfl, ⟨mem_cons_self, hle, fun b hb _ _ => ?_⟩, fun l hl => ?_⟩
    · exact mem_singleton.1 hb ▸ hpass
    · exact (mem_singleton.1 hl.1).ge
  | cons b rest ih =>
    obtain ⟨hhead, htail⟩ := pairwise_cons.1 hsorted
    have hbc : b < c := hhead b mem_cons_self
    have hskip : ¬ (c ≠ 0 ∧ b > upper) := by omega
    have hc : c ≠ 0 := by omega
    simp only [findExtendedInterval, if_neg hskip, if_neg hc, if_pos hc]
    by_cases hpred : pred (b, upper) = true
    · rw [if_pos hpred]
      obtain ⟨hupper, ⟨hmem, hbelow, hall⟩, hleast⟩ := ih htail (by omega) hpred
      refine ⟨hupper, ⟨mem_cons_of_mem _ hmem, hbelow, by grind⟩, ?_⟩
      rintro l ⟨hl, hlu, hall'⟩
      rcases mem_cons.1 hl with rfl | hl
      · exact (hhead _ hmem).le
      · exact hleast ⟨hl, hlu, fun n hn => hall' n (mem_cons_of_mem _ hn)⟩
    · rw [if_neg hpred]
      refine ⟨rfl, ⟨mem_cons_self, hle, by grind⟩, ?_⟩
      rintro l ⟨hl, -, hall⟩
      rcases mem_cons.1 hl with rfl | hl
      · exact le_rfl
      · have hlb : l ≤ b := by
          rcases mem_cons.1 hl with rfl | hl
          · exact le_rfl
          · exact ((pairwise_cons.1 htail).1 l hl).le
        exact absurd (hall b (by simp) hlb (by omega)) hpred

/-- The search finds the interval if a boundary passes the test on its own. -/
theorem findExtendedInterval_largest (hsorted : boundaries.Pairwise (· > ·)) {n : Nat}
    (hmem : n ∈ boundaries) (hpass : pred (n, n) = true) :
    LargestInterval pred boundaries (findExtendedInterval pred (0, 0) boundaries) := by
  induction boundaries with
  | nil => cases hmem
  | cons b rest ih =>
    obtain ⟨hhead, htail⟩ := pairwise_cons.1 hsorted
    simp only [findExtendedInterval, ne_eq, not_true_eq_false, false_and, if_false, if_true]
    by_cases hpred : pred (b, b) = true
    · rw [if_pos hpred]
      obtain ⟨hupper, hlower⟩ := findExtendedInterval_extends hsorted le_rfl hpred
      refine ⟨?_, by rwa [hupper]⟩
      rw [hupper]
      refine ⟨⟨mem_cons_self, hpred⟩, ?_⟩
      rintro m ⟨hm, -⟩
      rcases mem_cons.1 hm with rfl | hm
      · exact le_rfl
      · exact (hhead m hm).le
    · rw [if_neg hpred]
      have hmem' : n ∈ rest := by
        rcases mem_cons.1 hmem with rfl | hmem
        · exact absurd hpass hpred
        · exact hmem
      obtain ⟨⟨⟨hin, hpass'⟩, hgreatest⟩, ⟨hlow, hle, hall⟩, hleast⟩ := ih htail hmem'
      have habove := hhead _ hin
      refine ⟨⟨⟨mem_cons_of_mem _ hin, hpass'⟩, ?_⟩,
        ⟨mem_cons_of_mem _ hlow, hle, by grind⟩, ?_⟩
      · rintro m ⟨hm, hm'⟩
        rcases mem_cons.1 hm with rfl | hm
        · exact absurd hm' hpred
        · exact hgreatest ⟨hm, hm'⟩
      · rintro l ⟨hl, hlu, hall'⟩
        rcases mem_cons.1 hl with rfl | hl
        · omega
        · exact hleast ⟨hl, hlu, fun m hm => hall' m (mem_cons_of_mem _ hm)⟩

/-- What the search returns is what it is for, unless it found nothing. -/
theorem findExtendedInterval_found (hsorted : boundaries.Pairwise (· > ·))
    (hfound : (findExtendedInterval pred (0, 0) boundaries).1 ≠ 0) :
    LargestInterval pred boundaries (findExtendedInterval pred (0, 0) boundaries) := by
  by_cases hpass : ∃ n ∈ boundaries, pred (n, n) = true
  · obtain ⟨n, hmem, hn⟩ := hpass
    exact findExtendedInterval_largest hsorted hmem hn
  · refine absurd ?_ hfound
    clear hsorted hfound
    induction boundaries with
    | nil => rfl
    | cons b rest ih =>
      rw [exists_mem_cons_iff, not_or] at hpass
      simp [findExtendedInterval, hpass.1, ih hpass.2]

/-- The interval passes the test as a whole. -/
theorem LargestInterval.passes {found : Interval} (h : LargestInterval pred boundaries found) :
    pred found = true ∧ found.1 ≤ found.2 :=
  ⟨h.lower.1.2.2 _ h.lower.1.1 le_rfl h.lower.1.2.1, h.lower.1.2.1⟩

/-- The test of `attemptAcceptCommit`. -/
def acceptsCommit (ctx : Context) (envs : FMap NodeID SCPStatement) (ballot : SCPBallot)
    (cur : Interval) : Bool :=
  federatedAccept ctx envs (votesCommit ballot cur) (commitPredicate ballot cur)

/-- The test of `attemptConfirmCommit`. -/
def ratifiesCommit (ctx : Context) (envs : FMap NodeID SCPStatement) (ballot : SCPBallot)
    (cur : Interval) : Bool :=
  federatedRatify ctx envs (commitPredicate ballot cur)

variable {ctx : Context} {envs : FMap NodeID SCPStatement} {ballot : SCPBallot}

theorem acceptedInterval_largest (h : (acceptedInterval ctx envs ballot).1 ≠ 0) :
    LargestInterval (acceptsCommit ctx envs ballot) (getCommitBoundariesFromStatements envs ballot)
      (acceptedInterval ctx envs ballot) :=
  findExtendedInterval_found descending_pairwise h

theorem ratifiedInterval_largest (h : (ratifiedInterval ctx envs ballot).1 ≠ 0) :
    LargestInterval (ratifiesCommit ctx envs ballot) (getCommitBoundariesFromStatements envs ballot)
      (ratifiedInterval ctx envs ballot) :=
  findExtendedInterval_found descending_pairwise h

end SpnCore.Scp
