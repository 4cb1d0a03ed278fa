import Mathlib.Data.List.Basic

/-!
# Least recently used caches

A cache of bounded size, the most recently used item first. What a cache returns was put into it
under the same key: reading and writing only move, replace and drop items.
-/

namespace SpnCore.Lib

variable {κ α : Type} [DecidableEq κ]

/-- A cache of at most `maxSize` items. -/
structure LruCache (κ α : Type) where
  maxSize : Nat
  items : List (κ × α) := []

namespace LruCache

/-- The item under a key, which becomes the most recent one. -/
def get (c : LruCache κ α) (k : κ) : Option (α × LruCache κ α) :=
  match c.items.find? fun item => decide (item.1 = k) with
  | none => none
  | some item =>
    some (item.2, { c with items := item :: c.items.filter fun other => decide (other.1 ≠ k) })

/-- Stores an item, dropping the least recent one if there are too many. -/
def put (c : LruCache κ α) (k : κ) (a : α) : LruCache κ α :=
  let items := (k, a) :: c.items.filter fun other => decide (other.1 ≠ k)
  { c with items := if items.length > c.maxSize then items.dropLast else items }

/-- The cache without items. -/
def clear (c : LruCache κ α) : LruCache κ α :=
  { c with items := [] }

variable {c c' : LruCache κ α} {k : κ} {a : α} {item : κ × α}

/-- What is read is in the cache, and nothing comes in by reading. -/
theorem mem_of_get (h : c.get k = some (a, c')) :
    (k, a) ∈ c.items ∧ ∀ item ∈ c'.items, item ∈ c.items := by
  unfold get at h
  cases hfind : c.items.find? fun item => decide (item.1 = k) with
  | none => simp [hfind] at h
  | some item =>
    simp only [hfind, Option.some.injEq, Prod.mk.injEq] at h
    obtain ⟨rfl, rfl⟩ := h
    have hmem := List.mem_of_find?_eq_some hfind
    have hkey : item.1 = k := by simpa using List.find?_some hfind
    subst hkey
    refine ⟨hmem, fun other hother => ?_⟩
    rcases List.mem_cons.1 hother with rfl | hother
    · exact hmem
    · exact List.mem_of_mem_filter hother

/-- Only the item that is stored comes in. -/
theorem mem_of_put (h : item ∈ (c.put k a).items) : item = (k, a) ∨ item ∈ c.items := by
  have hmem : item ∈ (k, a) :: c.items.filter fun other => decide (other.1 ≠ k) := by
    simp only [put] at h
    split at h
    · exact List.dropLast_subset _ h
    · exact h
  rcases List.mem_cons.1 hmem with rfl | hmem
  · exact Or.inl rfl
  · exact Or.inr (List.mem_of_mem_filter hmem)

end LruCache

end SpnCore.Lib
