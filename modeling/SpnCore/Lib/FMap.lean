import Mathlib.Algebra.BigOperators.Group.List.Basic
import Mathlib.Algebra.Group.Basic
import Mathlib.Data.List.AList
import Mathlib.Tactic.Abel

/-!
# Finite maps

Finite maps are association lists without repeated keys. This module adds to the library's
`AList` the two folds the development needs: the keys whose value satisfies a predicate, and
the sum of a weight over all entries, with the effect of an insertion and of an erasure on it.
-/

namespace SpnCore.Lib

open List

/-- A finite map from `κ` to `ν`. -/
abbrev FMap (κ ν : Type*) := AList fun _ : κ => ν

namespace FMap

variable {κ ν : Type*}

/-- The keys whose value satisfies the predicate. -/
def keysWhere (f : ν → Bool) (m : FMap κ ν) : List κ :=
  (m.entries.filter fun e => f e.2).map Sigma.fst

/-- The map without the entries whose value satisfies the predicate. -/
def eraseIf (f : ν → Bool) (m : FMap κ ν) : FMap κ ν where
  entries := m.entries.filter fun e => !f e.2
  nodupKeys := m.nodupKeys.sublist filter_sublist

section Lookup

variable [DecidableEq κ]

/-- The value bound to a key. -/
def lookup (k : κ) (m : FMap κ ν) : Option ν :=
  AList.lookup k m

/-- The map with a key bound to a value. -/
def insert (k : κ) (v : ν) (m : FMap κ ν) : FMap κ ν :=
  AList.insert k v m

/-- The map without a key. -/
def erase (k : κ) (m : FMap κ ν) : FMap κ ν :=
  AList.erase k m

variable {m : FMap κ ν} {k j : κ} {v : ν}

@[simp] theorem lookup_empty (k : κ) : lookup k (∅ : FMap κ ν) = none := rfl

/-- Looking a key up after an insertion. -/
theorem lookup_insert (m : FMap κ ν) (k j : κ) (v : ν) :
    (m.insert k v).lookup j = if j = k then some v else m.lookup j := by
  split
  case isTrue h => subst h; exact AList.lookup_insert m
  case isFalse h => exact AList.lookup_insert_ne h

/-- Looking a key up after an erasure. -/
theorem lookup_erase (m : FMap κ ν) (k j : κ) :
    (m.erase k).lookup j = if j = k then none else m.lookup j := by
  split
  case isTrue h => subst h; exact AList.lookup_erase j m
  case isFalse h => exact AList.lookup_erase_ne h

@[simp] theorem lookup_insert_self (m : FMap κ ν) (k : κ) (v : ν) :
    (m.insert k v).lookup k = some v := AList.lookup_insert m

theorem lookup_insert_of_ne {m : FMap κ ν} {v : ν} (h : j ≠ k) :
    (m.insert k v).lookup j = m.lookup j := AList.lookup_insert_ne h

@[simp] theorem lookup_erase_self (m : FMap κ ν) (k : κ) :
    (m.erase k).lookup k = none := AList.lookup_erase k m

theorem lookup_erase_of_ne (m : FMap κ ν) (h : j ≠ k) :
    (m.erase k).lookup j = m.lookup j := AList.lookup_erase_ne h

/-- The entries of a map are its bindings. -/
theorem mem_entries : (⟨k, v⟩ : Σ _ : κ, ν) ∈ m.entries ↔ m.lookup k = some v :=
  AList.mem_lookup_iff.symm

/-- A key is selected when it is bound to a value that satisfies the predicate. -/
@[simp] theorem mem_keysWhere {f : ν → Bool} :
    k ∈ keysWhere f m ↔ ∃ v, m.lookup k = some v ∧ f v = true := by
  simp only [keysWhere, mem_map, mem_filter, Sigma.exists, exists_and_right]
  constructor
  · rintro ⟨k', ⟨v, hmem, hv⟩, rfl⟩
    exact ⟨v, mem_entries.1 hmem, hv⟩
  · rintro ⟨v, hlookup, hv⟩
    exact ⟨k, ⟨v, mem_entries.2 hlookup, hv⟩, rfl⟩

/-- Looking a key up after entries were removed by their value. -/
theorem lookup_eraseIf (f : ν → Bool) (m : FMap κ ν) (k : κ) :
    (m.eraseIf f).lookup k = (m.lookup k).filter fun v => !f v := by
  refine Option.ext fun v => ?_
  rw [Option.filter_eq_some_iff, ← mem_entries, ← mem_entries]
  simp [eraseIf]

end Lookup

section Total

variable {M : Type*} [AddCommGroup M]

/-- The sum of the weights of all entries. -/
def total (f : κ → ν → M) (m : FMap κ ν) : M :=
  (m.entries.map fun e => f e.1 e.2).sum

variable [DecidableEq κ]

/-- What a key contributes to a sum: its weight when it is bound, nothing otherwise. -/
def weight (f : κ → ν → M) (m : FMap κ ν) (k : κ) : M :=
  (m.lookup k).elim 0 (f k)

/-- Removing the first entry under a key takes its weight off the sum. -/
theorem sum_kerase (f : κ → ν → M) (k : κ) (l : List (Σ _ : κ, ν)) :
    ((List.kerase k l).map fun e => f e.1 e.2).sum =
      (l.map fun e => f e.1 e.2).sum - (List.dlookup k l).elim 0 (f k) := by
  induction l with
  | nil => simp
  | cons e l ih =>
    obtain ⟨j, v⟩ := e
    by_cases h : k = j
    · subst h
      simp
    · rw [kerase_cons_ne h, dlookup_cons_ne l ⟨j, v⟩ h]
      simp only [map_cons, sum_cons, ih]
      abel

/-- Erasing a key takes its contribution off the sum. -/
theorem total_erase (f : κ → ν → M) (m : FMap κ ν) (k : κ) :
    total f (m.erase k) = total f m - weight f m k :=
  sum_kerase f k m.entries

/-- Inserting a binding replaces the contribution of its key. -/
theorem total_insert (f : κ → ν → M) (m : FMap κ ν) (k : κ) (v : ν) :
    total f (m.insert k v) = total f m - weight f m k + f k v := by
  have h := sum_kerase f k m.entries
  simp only [total, insert, AList.entries_insert, map_cons, sum_cons]
  rw [h]
  simp only [weight, lookup, AList.lookup]
  abel

end Total

end FMap

end SpnCore.Lib
