import Mathlib.Data.List.Basic
import Mathlib.Data.List.Dedup
import Mathlib.Data.List.Sort
import Mathlib.Order.Basic

/-!
# Shrinking a list to its greatest closed part

`shrink keep` filters a list by a test that itself depends on the list, again and again, until
a round removes nothing. When the test is monotone, what is left is the greatest sublist each
of whose members passes the test against it.

The second part lists a finite set in order, as an ordered container is iterated.
-/

namespace SpnCore.Lib

open List

variable {α : Type*}

/-- Filters until a round removes nothing, for at most `fuel` rounds. -/
def shrink (keep : List α → α → Bool) : Nat → List α → List α
  | 0, l => l
  | fuel + 1, l =>
    let kept := l.filter (keep l)
    if kept.length = l.length then kept else shrink keep fuel kept

/-- Every member of `u` passes the test against `u`. -/
def ClosedUnder (keep : List α → α → Bool) (u : List α) : Prop :=
  ∀ x ∈ u, keep u x = true

/-- The test passes against every larger list. -/
def MonotoneTest (keep : List α → α → Bool) : Prop :=
  ∀ ⦃u v : List α⦄, u ⊆ v → ∀ x, keep u x = true → keep v x = true

variable {keep : List α → α → Bool}

variable {l : List α}

/-- Shrinking only removes members. -/
theorem shrink_subset {fuel : Nat} : shrink keep fuel l ⊆ l := by
  induction fuel generalizing l with
  | zero => exact List.Subset.refl l
  | succ fuel ih =>
    simp only [shrink]
    split
    · exact fun x hx => mem_of_mem_filter hx
    · exact fun x hx => mem_of_mem_filter (ih hx)

/-- With a round for each member, shrinking ends in a closed list. -/
theorem shrink_closed {fuel : Nat} (hfuel : l.length ≤ fuel) :
    ClosedUnder keep (shrink keep fuel l) := by
  induction fuel generalizing l with
  | zero =>
    have hnil : l = [] := eq_nil_of_length_eq_zero (Nat.le_zero.1 hfuel)
    subst hnil
    intro x hx
    simp [shrink] at hx
  | succ fuel ih =>
    simp only [shrink]
    split
    case isTrue hlen =>
      have hsame : l.filter (keep l) = l := filter_eq_self.2 fun x hx =>
        length_filter_eq_length_iff.1 hlen x hx
      intro x hx
      rw [hsame] at hx ⊢
      exact length_filter_eq_length_iff.1 hlen x hx
    case isFalse hlen =>
      apply ih
      have hle := length_filter_le (keep l) l
      omega

/-- Shrinking keeps every closed part of the list. -/
theorem closed_subset_shrink (hmono : MonotoneTest keep) {u : List α}
    (hclosed : ClosedUnder keep u) (fuel : Nat) (hu : u ⊆ l) : u ⊆ shrink keep fuel l := by
  induction fuel generalizing l with
  | zero => exact hu
  | succ fuel ih =>
    have hkept : u ⊆ l.filter (keep l) := fun x hx =>
      mem_filter.2 ⟨hu hx, hmono hu x (hclosed x hx)⟩
    simp only [shrink]
    split
    · exact hkept
    · exact ih hkept

section Ordered

variable [LinearOrder α]

/-- The distinct members of a list, smallest first. -/
def ascending (l : List α) : List α :=
  l.dedup.insertionSort (· ≤ ·)

/-- The distinct members of a list, largest first. -/
def descending (l : List α) : List α :=
  l.dedup.insertionSort (· ≥ ·)

/-- The loop of `std::includes`: it walks over the first list and looks for the members of the
second one in order. -/
def includes : List α → List α → Bool
  | _, [] => true
  | [], _ :: _ => false
  | x :: xs, y :: ys =>
    if y < x then false else if x < y then includes xs (y :: ys) else includes xs ys

@[simp] theorem mem_ascending {x : α} : x ∈ ascending l ↔ x ∈ l := by
  simp [ascending]

@[simp] theorem mem_descending {x : α} : x ∈ descending l ↔ x ∈ l := by
  simp [descending]

theorem ascending_pairwise (l : List α) : (ascending l).Pairwise (· < ·) := by
  have hsorted := pairwise_insertionSort (· ≤ ·) l.dedup
  have hnodup : (ascending l).Nodup :=
    (perm_insertionSort (· ≤ ·) l.dedup).nodup_iff.2 l.nodup_dedup
  exact (hsorted.and hnodup).imp fun h => lt_of_le_of_ne h.1 h.2

theorem descending_pairwise : (descending l).Pairwise (· > ·) := by
  have hsorted := pairwise_insertionSort (· ≥ ·) l.dedup
  have hnodup : (descending l).Nodup :=
    (perm_insertionSort (· ≥ ·) l.dedup).nodup_iff.2 l.nodup_dedup
  exact (hsorted.and hnodup).imp fun h => lt_of_le_of_ne h.1 h.2.symm

theorem subset_of_includes {xs ys : List α} (h : includes xs ys = true) : ys ⊆ xs := by
  induction xs generalizing ys with
  | nil =>
    cases ys with
    | nil => exact List.Subset.refl _
    | cons y ys => simp [includes] at h
  | cons x xs ih =>
    cases ys with
    | nil => exact nil_subset _
    | cons y ys =>
      simp only [includes] at h
      split at h
      · cases h
      case isFalse hge =>
        split at h
        · exact List.Subset.trans (ih h) (subset_cons_self _ _)
        case isFalse hle =>
          obtain rfl : x = y := le_antisymm (not_lt.1 hge) (not_lt.1 hle)
          exact cons_subset_cons x (ih h)

/-- On increasing lists the loop decides inclusion. -/
theorem includes_of_subset {xs ys : List α} (hxs : xs.Pairwise (· < ·)) (hys : ys.Pairwise (· < ·))
    (h : ys ⊆ xs) : includes xs ys = true := by
  induction xs generalizing ys with
  | nil =>
    rw [subset_nil.1 h]
    rfl
  | cons x xs ih =>
    cases ys with
    | nil => rfl
    | cons y ys =>
      obtain ⟨hx, hxs⟩ := pairwise_cons.1 hxs
      obtain ⟨hy, hys'⟩ := pairwise_cons.1 hys
      have hle : x ≤ y := by
        rcases mem_cons.1 (h mem_cons_self) with rfl | hmem
        · exact le_rfl
        · exact (hx y hmem).le
      simp only [includes, if_neg (not_lt.2 hle)]
      split
      case isTrue hlt =>
        refine ih hxs hys fun z hz => ?_
        refine (mem_cons.1 (h hz)).resolve_left ?_
        rintro rfl
        rcases mem_cons.1 hz with rfl | hz
        · exact lt_irrefl _ hlt
        · exact lt_asymm hlt (hy _ hz)
      case isFalse hge =>
        obtain rfl : x = y := le_antisymm hle (not_lt.1 hge)
        refine ih hxs hys' fun z hz => ?_
        exact (mem_cons.1 (h (mem_cons_of_mem _ hz))).resolve_left (hy z hz).ne'

end Ordered

end SpnCore.Lib
