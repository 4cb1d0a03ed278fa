import SpnCore.Lib.RoundingUp
import SpnCore.Scp.Slices

/-!
# The weight of a node

`getNodeWeight` goes down to the first occurrence of a node and scales `UINT64_MAX` by threshold
over size on the way back, rounding up at each level. In a sane quorum set a node occurs at most
once, so its weight is within one for each level of the exact product, and no division overflows.
-/

namespace SpnCore.Scp

open Lib Nomination List

/-- The number of members. -/
def SCPQuorumSet.size (q : SCPQuorumSet) : Nat := q.innerSets.length + q.validators.length

/-- The thresholds and sizes of the quorum sets around an occurrence of a node, from the outermost
to the one that lists it. -/
inductive SCPQuorumSet.PathTo (nodeID : NodeID) : SCPQuorumSet → List (Nat × Nat) → Prop
  | validator {q : SCPQuorumSet} : nodeID ∈ q.validators → q.PathTo nodeID [(q.threshold, q.size)]
  | inner {q inner : SCPQuorumSet} {path : List (Nat × Nat)} : inner ∈ q.innerSets →
      inner.PathTo nodeID path → q.PathTo nodeID ((q.threshold, q.size) :: path)

/-! ### Overflows -/

/-- `bigDivide` of `uint64` values, when it does not divide by zero, its operations stay within
128 bits, and it returns true. -/
def divideUpChecked (a b c : Nat) : Option Nat :=
  let x := (a * b + c - 1) / c
  if 0 < c ∧ a * b + c < 2 ^ 128 ∧ x < 2 ^ 64 then some x else none

mutual

/-- `getNodeWeight`, when none of its divisions overflows. -/
def getNodeWeightChecked (nodeID : NodeID) : SCPQuorumSet → Option Nat
  | ⟨threshold, validators, innerSets⟩ =>
    let d := innerSets.length + validators.length
    if nodeID ∈ validators then divideUpChecked (2 ^ 64 - 1) threshold d
    else do
      let leafW ← innerWeightChecked nodeID innerSets
      if leafW ≠ 0 then divideUpChecked leafW threshold d else some 0

/-- `innerWeight`, when no division overflows. -/
def innerWeightChecked (nodeID : NodeID) : List SCPQuorumSet → Option Nat
  | [] => some 0
  | q :: qs => do
    let leafW ← getNodeWeightChecked nodeID q
    if leafW ≠ 0 then some leafW else innerWeightChecked nodeID qs

end

variable {q : SCPQuorumSet} {qs : List SCPQuorumSet} {nodeID : NodeID} {path : List (Nat × Nat)}
  {extraChecks : Bool} {depth : Nat}

theorem divideUp_eq {a t s : Nat} (h : Portion (t, s)) (hs : s ≤ 1000)
    (ha : 0 < a ∧ a ≤ 2 ^ 64 - 1) :
    divideUp a t s = a * t ⌈/⌉ s ∧ divideUpChecked a t s = some (a * t ⌈/⌉ s) := by
  have hlt : a * t ⌈/⌉ s < 2 ^ 64 := by
    have := (ceilDiv_portion h ha.1).2
    omega
  have hproduct : a * t ≤ a * 1000 := Nat.mul_le_mul_left a (h.2.trans hs)
  exact ⟨Nat.mod_eq_of_lt hlt, if_pos ⟨h.1.trans h.2, by omega, hlt⟩⟩

/-! ### The recursion -/

/-- The weight, found without an overflow. -/
def Weighs (nodeID : NodeID) (q : SCPQuorumSet) (w : Nat) : Prop :=
  getNodeWeight nodeID q = w ∧ getNodeWeightChecked nodeID q = some w

/-- The weight in the inner sets, found without an overflow. -/
def InnerWeighs (nodeID : NodeID) (qs : List SCPQuorumSet) (w : Nat) : Prop :=
  innerWeight nodeID qs = w ∧ innerWeightChecked nodeID qs = some w

/-- The search goes on after a set without the node. -/
theorem Weighs.skip {w : Nat} (hq : Weighs nodeID q 0) (hqs : InnerWeighs nodeID qs w) :
    InnerWeighs nodeID (q :: qs) w := by
  rw [InnerWeighs, innerWeight, innerWeightChecked, hq.1, hq.2]
  exact hqs

theorem weighs_zero (h : nodeID ∉ allNodes q) : Weighs nodeID q 0 := by
  induction q with
  | step threshold validators innerSets ih =>
    have hskip : ∀ qs ⊆ innerSets, InnerWeighs nodeID qs 0 := by
      intro qs hqs
      induction qs with
      | nil => exact ⟨rfl, rfl⟩
      | cons q qs ihs =>
        obtain ⟨hq, hqs⟩ := cons_subset.1 hqs
        exact (ih q hq fun hmem => h (mem_allNodes_of_inner hq hmem)).skip (ihs hqs)
    obtain ⟨hinner, hchecked⟩ := hskip innerSets (Subset.refl _)
    have hnot : nodeID ∉ validators := fun hmem => h (mem_allNodes_of_validator hmem)
    rw [Weighs, getNodeWeight, getNodeWeightChecked, if_neg hnot, if_neg hnot, hinner, hchecked]
    exact ⟨rfl, rfl⟩

theorem mem_innerNodes {inner : SCPQuorumSet} (hinner : inner ∈ qs) (h : nodeID ∈ allNodes inner) :
    nodeID ∈ innerNodes qs := by
  rw [innerNodes_eq_flatMap]
  exact mem_flatMap.2 ⟨inner, hinner, h⟩

/-- The node is found in the inner set that it occurs in. -/
theorem Weighs.inner {inner : SCPQuorumSet} {w : Nat} (h : Weighs nodeID inner w) (hw : w ≠ 0)
    (hinner : inner ∈ qs) (hmem : nodeID ∈ allNodes inner) (hnodup : (innerNodes qs).Nodup) :
    InnerWeighs nodeID qs w := by
  induction qs with
  | nil => cases hinner
  | cons q qs ih =>
    rw [innerNodes, nodup_append'] at hnodup
    cases hinner with
    | head =>
      rw [InnerWeighs, innerWeight, innerWeightChecked, h.1, h.2]
      simp [hw]
    | tail _ hinner =>
      exact (weighs_zero fun hq => hnodup.2.2 hq (mem_innerNodes hinner hmem)).skip
        (ih hinner hnodup.2.1)

/-! ### Paths -/

theorem SCPQuorumSet.PathTo.mem_allNodes (h : q.PathTo nodeID path) : nodeID ∈ allNodes q := by
  induction h with
  | validator hmem => exact mem_allNodes_of_validator hmem
  | inner hinner _ ih => exact mem_allNodes_of_inner hinner ih

theorem SCPQuorumSet.exists_pathTo (h : nodeID ∈ allNodes q) : ∃ path, q.PathTo nodeID path := by
  induction q with
  | step threshold validators innerSets ih =>
    rw [allNodes, innerNodes_eq_flatMap, mem_append, mem_flatMap] at h
    obtain hmem | ⟨inner, hinner, hmem⟩ := h
    · exact ⟨_, .validator hmem⟩
    · obtain ⟨path, hpath⟩ := ih inner hinner hmem
      exact ⟨_, .inner hinner hpath⟩

/-- A level is a positive fraction of at most one, and of few members. -/
theorem SCPQuorumSet.Shaped.level (h : q.Shaped extraChecks depth)
    (hsize : (allNodes q).length ≤ 1000) : Portion (q.threshold, q.size) ∧ q.size ≤ 1000 := by
  have hmembers := h.members_le
  cases h with
  | mk _ hpos hle =>
    dsimp only [Portion, SCPQuorumSet.size] at *
    omega

/-- The weight is rounded up at each level of the path to the node. -/
theorem SCPQuorumSet.PathTo.weighs (h : q.PathTo nodeID path) (hshape : q.Shaped extraChecks depth)
    (hnodup : (allNodes q).Nodup) (hsize : (allNodes q).length ≤ 1000) :
    (∀ level ∈ path, Portion level) ∧ Weighs nodeID q (scaleUp (2 ^ 64 - 1) path) := by
  induction h generalizing depth with
  | validator hmem =>
    obtain ⟨hportion, hmax⟩ := hshape.level hsize
    cases hshape with
    | mk =>
      refine ⟨forall_mem_singleton.2 hportion, ?_⟩
      rw [Weighs, getNodeWeight, getNodeWeightChecked, if_pos hmem, if_pos hmem]
      exact divideUp_eq hportion hmax (by decide)
  | @inner q inner path hinner hpath ih =>
    obtain ⟨hportion, hmax⟩ := hshape.level hsize
    have hinnerSize := (length_allNodes_le hinner).trans hsize
    cases hshape with
    | @mk _ threshold validators innerSets _ _ _ _ hshapes =>
      rw [allNodes, nodup_append'] at hnodup
      have hinnerNodup : (allNodes inner).Nodup := by
        rw [innerNodes_eq_flatMap, nodup_flatMap] at hnodup
        exact hnodup.2.1.1 inner hinner
      obtain ⟨hlevels, hweighs⟩ := ih (hshapes inner hinner) hinnerNodup hinnerSize
      have hrange := @scaleUp_range (2 ^ 64 - 1) path hlevels (by decide)
      obtain ⟨hleaf, hchecked⟩ :=
        hweighs.inner hrange.1.ne' hinner hpath.mem_allNodes hnodup.2.1
      have hnot : nodeID ∉ validators := fun hvalidator =>
        hnodup.2.2 hvalidator (mem_innerNodes hinner hpath.mem_allNodes)
      refine ⟨forall_mem_cons.2 ⟨hportion, hlevels⟩, ?_⟩
      rw [Weighs, getNodeWeight, getNodeWeightChecked, if_neg hnot, if_neg hnot, hleaf, hchecked]
      obtain ⟨hdivide, hdivided⟩ := divideUp_eq hportion hmax hrange
      exact ⟨(if_pos hrange.1.ne').trans hdivide, (if_pos hrange.1.ne').trans hdivided⟩

/-- In a sane quorum set the weight of a node is computed without overflow and is positive when the
node occurs. It is `UINT64_MAX` times the thresholds over the sizes on the path to the node, rounded
up at each level, so it exceeds the exact product by at most the depth of the node. -/
theorem getNodeWeight_of_sane (hsane : isQuorumSetSane q extraChecks = true) (nodeID : NodeID) :
    getNodeWeightChecked nodeID q = some (getNodeWeight nodeID q) ∧
      (0 < getNodeWeight nodeID q ↔ nodeID ∈ allNodes q) ∧
      (nodeID ∈ allNodes q ↔ ∃ path, q.PathTo nodeID path) ∧
      ∀ path, q.PathTo nodeID path → getNodeWeight nodeID q = scaleUp (2 ^ 64 - 1) path ∧
        scale (2 ^ 64 - 1) path ≤ getNodeWeight nodeID q ∧
        getNodeWeight nodeID q ≤ scale (2 ^ 64 - 1) path + path.length := by
  obtain ⟨hshape, hnodup, _, hsize⟩ := isQuorumSetSane_iff.1 hsane
  by_cases hmem : nodeID ∈ allNodes q
  · obtain ⟨path, hpath⟩ := SCPQuorumSet.exists_pathTo hmem
    obtain ⟨hlevels, hweight, hchecked⟩ := hpath.weighs hshape hnodup hsize
    have hpos : 0 < getNodeWeight nodeID q := by
      rw [hweight]
      exact (scaleUp_range hlevels (Nat.sub_pos_of_lt (by decide))).1
    refine ⟨hweight ▸ hchecked, iff_of_true hpos hmem, iff_of_true hmem ⟨path, hpath⟩, ?_⟩
    intro path' hpath'
    obtain ⟨hlevels', hweight', -⟩ := hpath'.weighs hshape hnodup hsize
    rw [hweight']
    exact ⟨rfl, scaleUp_bounds hlevels'⟩
  · obtain ⟨hweight, hchecked⟩ := weighs_zero hmem
    have hnone : ∀ path, ¬ q.PathTo nodeID path := fun path h => hmem h.mem_allNodes
    refine ⟨hweight ▸ hchecked, iff_of_false ?_ hmem, iff_of_false hmem fun h => ?_,
      fun path h => absurd h (hnone path)⟩
    · rw [hweight]
      exact lt_irrefl 0
    · exact h.elim hnone

/-- One of two nodes of an inner set, in a set that asks for two of three members. -/
theorem getNodeWeight_of_sane_inner :
    0 < getNodeWeight 3 ⟨2, [1, 2], [⟨1, [3, 4], []⟩]⟩ ∧
      scale (2 ^ 64 - 1) [(2, 3), (1, 2)] ≤ getNodeWeight 3 ⟨2, [1, 2], [⟨1, [3, 4], []⟩]⟩ := by
  obtain ⟨_, hpos, _, hbounds⟩ := @getNodeWeight_of_sane ⟨2, [1, 2], [⟨1, [3, 4], []⟩]⟩ false
    (by decide) 3
  exact ⟨hpos.2 (by decide), (hbounds _ (.inner (.head _) (.validator (.head _)))).2.1⟩

end SpnCore.Scp
