import Mathlib.Algebra.Order.BigOperators.Group.List
import Mathlib.Algebra.Order.Ring.Nat
import Mathlib.Data.List.Sort

/-!
# The cheapest members of a list

A greedy choice takes the `k` cheapest members of a list. No other choice of at least `k` members
costs less; when each member costs something, every further member of the other choice even adds
to the difference.
-/

namespace SpnCore.Lib

open List

variable {α : Type*}

/-- The members in the order of their cost, those of equal cost in their own order. -/
def byCost (cost : α → Nat) (l : List α) : List α :=
  l.insertionSort fun a b => cost a ≤ cost b

theorem byCost_perm (cost : α → Nat) (l : List α) : (byCost cost l).Perm l :=
  perm_insertionSort _ l

/-- The first members of an ascending list are at most those of a sublist. -/
theorem sum_take_le_of_sublist {l s : List Nat} (hl : l.Pairwise (· ≤ ·)) (h : s.Sublist l)
    (k : Nat) (hk : k ≤ s.length) : (l.take k).sum ≤ (s.take k).sum := by
  induction l generalizing s k with
  | nil => simp
  | cons a l ih =>
    obtain ⟨ha, hl⟩ := pairwise_cons.1 hl
    cases k with
    | zero => simp
    | succ k =>
      cases s with
      | nil => simp at hk
      | cons b s =>
        have hlen : k ≤ s.length := Nat.le_of_succ_le_succ hk
        simp only [take_succ_cons, sum_cons]
        cases h with
        | cons _ h =>
          have hab := ha b (h.subset mem_cons_self)
          have htake := ih hl ((sublist_cons_self b s).trans h) k hlen
          omega
        | cons_cons _ h =>
          have htake := ih hl h k hlen
          omega

theorem length_le_sum {s : List Nat} (h : ∀ c ∈ s, 1 ≤ c) : s.length ≤ s.sum := by
  induction s with
  | nil => exact le_rfl
  | cons c s ih =>
    obtain ⟨hc, hs⟩ := forall_mem_cons.1 h
    have := ih hs
    rw [length_cons, sum_cons]
    omega

/-- The `k` cheapest members cost no more than any choice of at least `k` members. -/
theorem sum_take_byCost_le {cost : α → Nat} {l s : List α} (hpos : ∀ a ∈ l, 1 ≤ cost a)
    (h : s.Sublist l) {k : Nat} (hk : k ≤ s.length) :
    (((byCost cost l).take k).map cost).sum + (s.length - k) ≤ (s.map cost).sum := by
  -- the costs in ascending order, of all members and of those chosen
  obtain ⟨costs, hcosts⟩ : ∃ costs, costs = (byCost cost l).map cost := ⟨_, rfl⟩
  obtain ⟨chosen, hchosen⟩ : ∃ chosen, chosen = (s.map cost).insertionSort (· ≤ ·) := ⟨_, rfl⟩
  have hsorted : costs.Pairwise (· ≤ ·) := by
    rw [hcosts, pairwise_map]
    exact pairwise_insertionSort _ l
  have hperm : chosen.Perm (s.map cost) := hchosen ▸ perm_insertionSort _ _
  have hsub : chosen.Sublist costs := by
    have hascending : chosen.Pairwise (· ≤ ·) := hchosen ▸ pairwise_insertionSort _ _
    refine sublist_of_subperm_of_pairwise ?_ hascending hsorted
    have hall : costs.Perm (l.map cost) := hcosts ▸ (byCost_perm cost l).map cost
    exact (hperm.subperm.trans (h.map cost).subperm).trans hall.symm.subperm
  have hlength : chosen.length = s.length := hperm.length_eq.trans (length_map cost)
  have htake := sum_take_le_of_sublist hsorted hsub k (hlength ▸ hk)
  have hrest : (chosen.drop k).length ≤ (chosen.drop k).sum := length_le_sum fun c hc => by
    obtain ⟨a, ha, rfl⟩ := mem_map.1 (hperm.mem_iff.1 (mem_of_mem_drop hc))
    exact hpos a (h.subset ha)
  have hsplit : (chosen.take k).sum + (chosen.drop k).sum = (s.map cost).sum := by
    rw [← sum_append, take_append_drop, hperm.sum_eq]
  rw [map_take, ← hcosts]
  rw [length_drop] at hrest
  omega

/-! ### Counting members of two kinds -/

theorem countP_le_add {p q r : α → Bool} {l : List α}
    (h : ∀ a ∈ l, p a = true → q a = true ∨ r a = true) : l.countP p ≤ l.countP q + l.countP r := by
  induction l with
  | nil => simp
  | cons a l ih =>
    obtain ⟨ha, hl⟩ := forall_mem_cons.1 h
    simp only [countP_cons]
    grind

theorem add_le_countP {p q r : α → Bool} {l : List α} (hq : ∀ a ∈ l, q a = true → p a = true)
    (hr : ∀ a ∈ l, r a = true → p a = true ∧ q a = false) :
    l.countP q + l.countP r ≤ l.countP p := by
  induction l with
  | nil => simp
  | cons a l ih =>
    obtain ⟨hqa, hql⟩ := forall_mem_cons.1 hq
    obtain ⟨hra, hrl⟩ := forall_mem_cons.1 hr
    simp only [countP_cons]
    grind

end SpnCore.Lib
