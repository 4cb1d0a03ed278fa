import SpnCore.Lib.Table
import Mathlib.Data.List.Sort
import Mathlib.Order.Basic

/-!
# Lists sorted by key

A list of values with increasing keys stands for the map that finds a value by its key. Two such
lists are merged in one pass, and where both have a key the value of the second one is taken.
-/

namespace SpnCore.Lib

open List Option

section Finding

variable {ν κ : Type} [Keyed ν κ] [DecidableEq κ]

/-- The first value with a key. -/
def findKey (l : List ν) (k : κ) : Option ν :=
  l.find? fun v => decide (Keyed.key v = k)

variable {l : List ν} {k : κ} {v : ν}

@[simp] theorem findKey_nil (k : κ) : findKey ([] : List ν) k = none := rfl

theorem findKey_cons (v : ν) (l : List ν) (k : κ) :
    findKey (v :: l) k = if Keyed.key v = k then some v else findKey l k := by
  by_cases h : Keyed.key v = k <;> simp [findKey, h]

theorem findKey_eq_none : findKey l k = none ↔ ∀ v ∈ l, Keyed.key v ≠ k := by
  simp [findKey]

theorem key_of_findKey (h : findKey l k = some v) : Keyed.key v = k := by
  simpa using List.find?_some h

theorem mem_of_findKey (h : findKey l k = some v) : v ∈ l :=
  mem_of_find?_eq_some h

/-- No two values have the same key. -/
def DistinctKeys (l : List ν) : Prop :=
  l.Pairwise fun v w => Keyed.key v ≠ Keyed.key w

theorem findKey_of_mem (hl : DistinctKeys l) (hv : v ∈ l) : findKey l (Keyed.key v) = some v := by
  induction l with
  | nil => cases hv
  | cons w l ih =>
    obtain ⟨hw, hl⟩ := pairwise_cons.1 hl
    rw [findKey_cons]
    rcases mem_cons.1 hv with rfl | hv
    · exact if_pos rfl
    · rw [if_neg (hw v hv), ih hl hv]

/-- Values with different keys are found whatever their order. -/
theorem findKey_perm {l' : List ν} (hl : DistinctKeys l) (hperm : l.Perm l') (k : κ) :
    findKey l k = findKey l' k := by
  have hl' : DistinctKeys l' := hl.perm hperm fun h => h.symm
  cases h : findKey l k with
  | none =>
    rw [findKey_eq_none] at h
    exact (findKey_eq_none.2 fun v hv => h v (hperm.mem_iff.2 hv)).symm
  | some v =>
    rw [← key_of_findKey h]
    exact (findKey_of_mem hl' (hperm.mem_iff.1 (mem_of_findKey h))).symm

theorem findKey_append (l l' : List ν) (k : κ) :
    findKey (l ++ l') k = (findKey l k).or (findKey l' k) := by
  simp [findKey, List.find?_append]

theorem findKey_filter (hl : DistinctKeys l) (p : ν → Bool) (k : κ) :
    findKey (l.filter p) k = (findKey l k).filter p := by
  induction l with
  | nil => rfl
  | cons v l ih =>
    obtain ⟨hv, hl⟩ := pairwise_cons.1 hl
    by_cases hp : p v = true
    · rw [filter_cons_of_pos hp, findKey_cons, findKey_cons, ih hl]
      split
      · rw [filter_some, if_pos hp]
      · rfl
    · rw [filter_cons_of_neg hp, ih hl, findKey_cons]
      split
      case isTrue hk =>
        have hnone : findKey l k = none :=
          findKey_eq_none.2 fun w hw h => hv w hw (hk.trans h.symm)
        rw [hnone, filter_some, if_neg hp]
        rfl
      case isFalse => rfl

/-- A list in which no key is found is empty. -/
theorem eq_nil_of_findKey (h : ∀ k, findKey l k = none) : l = [] := by
  cases l with
  | nil => rfl
  | cons v l =>
    have hv := h (Keyed.key v)
    rw [findKey_cons, if_pos rfl] at hv
    cases hv

end Finding

section Increasing

variable {ν κ : Type} [Keyed ν κ] [LinearOrder κ] {l old new : List ν} {k : κ} {o v w : ν}

/-- The keys of the values increase. -/
def Increasing (l : List ν) : Prop :=
  l.Pairwise fun v w => Keyed.key v < Keyed.key w

theorem Increasing.distinct (hl : Increasing l) : DistinctKeys l :=
  hl.imp fun h => ne_of_lt h

theorem Increasing.filter (hl : Increasing l) (p : ν → Bool) : Increasing (l.filter p) :=
  List.Pairwise.filter p hl

/-- Sorting values with different keys makes the keys increase. -/
theorem increasing_insertionSort (hl : DistinctKeys l) :
    Increasing (l.insertionSort fun v w => Keyed.key v ≤ Keyed.key w) := by
  have hsorted : (l.insertionSort fun v w => Keyed.key v ≤ Keyed.key w).Pairwise
      fun v w => Keyed.key v ≤ Keyed.key w := by
    exact pairwise_insertionSort _ l
  have hdistinct : DistinctKeys (l.insertionSort fun v w => Keyed.key v ≤ Keyed.key w) :=
    hl.perm (perm_insertionSort _ l).symm fun h => h.symm
  exact (hsorted.and hdistinct).imp fun h => lt_of_le_of_ne h.1 h.2

/-- One pass over a list, with the first value of an older list waiting; `rest` goes on with the
older list. -/
def interleaveWith (o : ν) (rest : List ν → List ν) : List ν → List ν
  | [] => o :: rest []
  | n :: new =>
    if Keyed.key o < Keyed.key n then o :: rest (n :: new)
    else if Keyed.key n < Keyed.key o then n :: interleaveWith o rest new
    else n :: rest new

/-- Merges two lists. Where both have a key, the newer value is taken. -/
def interleave : List ν → List ν → List ν
  | [], new => new
  | o :: old, new => interleaveWith o (interleave old) new

theorem mem_interleaveWith {rest : List ν → List ν}
    (hrest : ∀ new, v ∈ rest new → v ∈ old ∨ v ∈ new) (h : v ∈ interleaveWith o rest new) :
    v ∈ o :: old ∨ v ∈ new := by
  induction new with
  | nil =>
    rcases mem_cons.1 h with rfl | h
    · exact Or.inl mem_cons_self
    · exact (hrest [] h).imp_left (mem_cons_of_mem o)
  | cons n new ih =>
    rw [interleaveWith] at h
    split_ifs at h
    · rcases mem_cons.1 h with rfl | h
      · exact Or.inl mem_cons_self
      · exact (hrest _ h).imp_left (mem_cons_of_mem o)
    · rcases mem_cons.1 h with rfl | h
      · exact Or.inr mem_cons_self
      · exact (ih h).imp_right (mem_cons_of_mem n)
    · rcases mem_cons.1 h with rfl | h
      · exact Or.inr mem_cons_self
      · exact (hrest _ h).imp (mem_cons_of_mem o) (mem_cons_of_mem n)

/-- Merging invents nothing. -/
theorem mem_interleave (h : v ∈ interleave old new) : v ∈ old ∨ v ∈ new := by
  induction old generalizing new with
  | nil => exact Or.inr h
  | cons o old ih => exact mem_interleaveWith (fun _ => ih) h

theorem increasing_interleaveWith {rest : List ν → List ν} (hold : Increasing (o :: old))
    (hmem : ∀ new v, v ∈ rest new → v ∈ old ∨ v ∈ new)
    (hrest : ∀ new, Increasing new → Increasing (rest new)) (hnew : Increasing new) :
    Increasing (interleaveWith o rest new) := by
  obtain ⟨ho, hold⟩ := pairwise_cons.1 hold
  induction new with
  | nil =>
    refine pairwise_cons.2 ⟨fun v hv => ?_, hrest [] .nil⟩
    rcases hmem [] v hv with hv | hv
    · exact ho v hv
    · cases hv
  | cons n new ih =>
    obtain ⟨hn, hnew'⟩ := pairwise_cons.1 hnew
    rw [interleaveWith]
    split_ifs with hon hno
    · refine pairwise_cons.2 ⟨fun v hv => ?_, hrest _ hnew⟩
      rcases hmem _ v hv with hv | hv
      · exact ho v hv
      · rcases mem_cons.1 hv with rfl | hv
        · exact hon
        · exact hon.trans (hn v hv)
    · refine pairwise_cons.2 ⟨fun v hv => ?_, ih hnew'⟩
      rcases mem_interleaveWith (fun new => hmem new v) hv with hv | hv
      · rcases mem_cons.1 hv with rfl | hv
        · exact hno
        · exact hno.trans (ho v hv)
      · exact hn v hv
    · have heq : Keyed.key n = Keyed.key o := le_antisymm (not_lt.1 hon) (not_lt.1 hno)
      refine pairwise_cons.2 ⟨fun v hv => ?_, hrest _ hnew'⟩
      rcases hmem _ v hv with hv | hv
      · rw [heq]
        exact ho v hv
      · exact hn v hv

theorem increasing_interleave (hold : Increasing old) (hnew : Increasing new) :
    Increasing (interleave old new) := by
  induction old generalizing new with
  | nil => exact hnew
  | cons o old ih =>
    exact increasing_interleaveWith hold (fun _ _ => mem_interleave)
      (fun _ => ih (pairwise_cons.1 hold).2) hnew

theorem findKey_interleaveWith {rest : List ν → List ν}
    (hrest : ∀ new, Increasing new → findKey (rest new) k = (findKey new k).or (findKey old k))
    (hnew : Increasing new) :
    findKey (interleaveWith o rest new) k = (findKey new k).or (findKey (o :: old) k) := by
  induction new with
  | nil =>
    rw [interleaveWith, findKey_cons, hrest [] .nil, findKey_nil, none_or, none_or,
      findKey_cons]
  | cons n new ih =>
    obtain ⟨hn, hnew'⟩ := pairwise_cons.1 hnew
    rw [interleaveWith]
    split_ifs with hon hno
    · rw [findKey_cons o, findKey_cons o, hrest _ hnew]
      split_ifs with hk
      · -- the keys of the newer list are all greater
        have hnone : findKey (n :: new) k = none := by
          rw [findKey_eq_none, ← hk]
          intro v hv
          rcases mem_cons.1 hv with rfl | hv
          · exact hon.ne'
          · exact (hon.trans (hn v hv)).ne'
        rw [hnone, none_or]
      · rfl
    · rw [findKey_cons n, findKey_cons n, ih hnew']
      split_ifs <;> rfl
    · have heq : Keyed.key n = Keyed.key o := le_antisymm (not_lt.1 hon) (not_lt.1 hno)
      rw [findKey_cons n, findKey_cons n, findKey_cons o, hrest _ hnew', ← heq]
      split_ifs <;> rfl

/-- In a merged list the newer value is found, or else the older one. -/
theorem findKey_interleave (hold : Increasing old) (hnew : Increasing new) (k : κ) :
    findKey (interleave old new) k = (findKey new k).or (findKey old k) := by
  induction old generalizing new with
  | nil => rw [interleave, findKey_nil, or_none]
  | cons o old ih =>
    exact findKey_interleaveWith (fun _ => ih (pairwise_cons.1 hold).2) hnew

end Increasing

end SpnCore.Lib
