import Mathlib.Data.Finset.Card
import Mathlib.Data.Finset.Dedup
import Mathlib.Logic.Relation

/-!
# Searching with a work set

A search keeps the members it has looked at and a set of members to look at still. In each round
it takes any of the latter and adds its neighbours, except those it has looked at. Whatever the
order, the search ends with the members that can be reached from the start.
-/

namespace SpnCore.Lib

open Relation List

variable {α : Type*}

/-- The order in which members are taken from a set. It may depend on what was taken before. -/
structure Order (α : Type*) where
  next : List α → Finset α → α
  next_mem : ∀ (seen : List α) {s : Finset α}, s.Nonempty → next seen s ∈ s

/-- What holds between the rounds of a search. -/
structure Searching (Edge : α → α → Prop) (start : α) (visited : List α) (backlog : Finset α) :
    Prop where
  start_mem : start ∈ visited ∨ start ∈ backlog
  reached : ∀ x, x ∈ visited ∨ x ∈ backlog → ReflTransGen Edge start x
  followed : ∀ x ∈ visited, ∀ y, Edge x y → y ∈ visited ∨ y ∈ backlog
  nodup : visited.Nodup
  fresh : ∀ x ∈ backlog, x ∉ visited

namespace Searching

variable {Edge : α → α → Prop} {start : α} {visited : List α} {backlog : Finset α}

theorem init (Edge : α → α → Prop) (start : α) : Searching Edge start [] {start} where
  start_mem := .inr (Finset.mem_singleton_self start)
  reached := by
    rintro x (hx | hx)
    · cases hx
    · rw [Finset.mem_singleton.1 hx]
  followed := by simp
  nodup := nodup_nil
  fresh := by simp

/-- A search that is done has looked at exactly what can be reached. -/
theorem mem_visited_iff (h : Searching Edge start visited ∅) {x : α} :
    x ∈ visited ↔ ReflTransGen Edge start x := by
  constructor
  · exact fun hx => h.reached x (.inl hx)
  · intro hx
    induction hx with
    | refl => simpa using h.start_mem
    | tail _ hyz ih => simpa using h.followed _ ih _ hyz

variable [DecidableEq α]

/-- A round: `c` is taken, and what is added are the neighbours of `c` not looked at yet. -/
theorem round (h : Searching Edge start visited backlog) {c : α} (hc : c ∈ backlog)
    {added : Finset α} (hadded : ∀ y, y ∈ added ↔ Edge c y ∧ y ∉ visited ++ [c]) :
    Searching Edge start (visited ++ [c]) (backlog.erase c ∪ added) where
  start_mem := by
    rcases h.start_mem with hs | hs
    · exact .inl (mem_append_left _ hs)
    · by_cases heq : start = c
      · exact .inl (by simp [heq])
      · exact .inr (Finset.mem_union_left _ (Finset.mem_erase.2 ⟨heq, hs⟩))
  reached := by
    have hcreached := h.reached c (.inr hc)
    intro x hx
    simp only [mem_append, mem_singleton, Finset.mem_union, Finset.mem_erase] at hx
    rcases hx with (hx | rfl) | hx | hx
    · exact h.reached x (.inl hx)
    · exact hcreached
    · exact h.reached x (.inr hx.2)
    · exact hcreached.tail ((hadded x).1 hx).1
  followed := by
    intro x hx y hxy
    by_cases hy : y ∈ visited ++ [c]
    · exact .inl hy
    refine .inr (Finset.mem_union.2 ?_)
    rcases mem_append.1 hx with hx | hx
    · rcases h.followed x hx y hxy with hmem | hmem
      · exact (hy (mem_append_left _ hmem)).elim
      · refine .inl (Finset.mem_erase.2 ⟨?_, hmem⟩)
        rintro rfl
        exact hy (by simp)
    · rw [mem_singleton.1 hx] at hxy
      exact .inr ((hadded y).2 ⟨hxy, hy⟩)
  nodup := by
    rw [nodup_append']
    exact ⟨h.nodup, nodup_singleton c, by simpa using h.fresh c hc⟩
  fresh := by
    intro x hx
    rcases Finset.mem_union.1 hx with hx | hx
    · obtain ⟨hne, hx⟩ := Finset.mem_erase.1 hx
      simp [h.fresh x hx, hne]
    · exact ((hadded x).1 hx).2

/-- A search never looks at more members than a set has that contains the start and all
neighbours. -/
theorem length_le_card (h : Searching Edge start visited backlog) {all : Finset α}
    (hstart : start ∈ all) (hedge : ∀ x y, Edge x y → y ∈ all) : visited.length ≤ all.card := by
  rw [← toFinset_card_of_nodup h.nodup]
  refine Finset.card_le_card fun x hx => ?_
  have hreached := h.reached x (.inl (mem_toFinset.1 hx))
  cases hreached with
  | refl => exact hstart
  | tail _ hxy => exact hedge _ _ hxy

end Searching

end SpnCore.Lib
