import SpnCore.Scp.Slices

/-!
# Normalization of quorum sets

`normalizeQSet` removes a node from a quorum set when it is given one, moves inner sets that are
a single validator to the validators around them, and replaces a set that only wraps another one
by that one. Each of these steps keeps what the quorum set decides; only the removal changes it,
and then the node removed counts as present.
-/

namespace SpnCore.Scp

open Lib List Option
open Nomination (allNodes innerNodes)

theorem normalizeAll_eq_map (id : Option NodeID) (qs : List SCPQuorumSet) :
    normalizeAll id qs = qs.map (normalizeQSet id) := by
  induction qs with
  | nil => rfl
  | cons q qs ih => rw [normalizeAll, ih, map_cons]

/-! ### Single validators -/

variable {q : SCPQuorumSet} {extraChecks : Bool} {depth : Nat} {node : NodeID → Bool}

theorem singleValidator_eq_some {v : NodeID} : singleValidator q = some v ↔ q = ⟨1, [v], []⟩ := by
  constructor
  · intro h
    unfold singleValidator at h
    split at h
    · cases h
      rfl
    · cases h
  · rintro rfl
    rfl

/-- A set of a single validator is hit when the validator is. -/
theorem isQuorumSlice_single (s : List NodeID) (v : NodeID) :
    isQuorumSlice s ⟨1, [v], []⟩ = decide (v ∈ s) := by
  by_cases hv : v ∈ s <;> simp [isQuorumSlice, innerSlices, thresholdReached, hv]

theorem isVBlocking_single (s : List NodeID) (v : NodeID) :
    isVBlocking s ⟨1, [v], []⟩ = decide (v ∈ s) := by
  by_cases hv : v ∈ s <;> simp [isVBlocking, innerBlocks, blockReached, hv]

/-- Merging keeps the members that are hit, provided a single validator counts like its set. -/
theorem hits_mergeSingletons {inner : SCPQuorumSet → Bool}
    (hsingle : ∀ v, inner ⟨1, [v], []⟩ = node v) (q : SCPQuorumSet) :
    hits node inner (mergeSingletons q) = hits node inner q := by
  obtain ⟨threshold, validators, innerSets⟩ := q
  have hinner : (innerSets.filterMap singleValidator).countP node +
      (innerSets.filter fun p => (singleValidator p).isNone).countP inner =
        innerSets.countP inner := by
    induction innerSets with
    | nil => rfl
    | cons p innerSets ih =>
      cases hp : singleValidator p with
      | none =>
        simp only [filterMap_cons, filter_cons, hp, isNone_none, if_true,
          countP_cons]
        omega
      | some v =>
        obtain rfl := singleValidator_eq_some.1 hp
        simp only [filterMap_cons, filter_cons, hp, isNone_some,
          Bool.false_eq_true, if_false, countP_cons, hsingle]
        omega
  simp only [hits, mergeSingletons, countP_append]
  omega

theorem length_mergeSingletons (q : SCPQuorumSet) :
    (mergeSingletons q).validators.length + (mergeSingletons q).innerSets.length =
      q.validators.length + q.innerSets.length := by
  have h := @hits_mergeSingletons (fun _ => true) (fun _ => true) (fun _ => rfl) q
  simpa [hits] using h

theorem isQuorumSlice_mergeSingletons (s : List NodeID) (q : SCPQuorumSet) :
    isQuorumSlice s (mergeSingletons q) = isQuorumSlice s q := by
  rw [Bool.eq_iff_iff, isQuorumSlice_iff, isQuorumSlice_iff,
    hits_mergeSingletons (isQuorumSlice_single s)]
  exact Iff.rfl

theorem isVBlocking_mergeSingletons (s : List NodeID) (q : SCPQuorumSet) :
    isVBlocking s (mergeSingletons q) = isVBlocking s q := by
  have hlength := length_mergeSingletons q
  have hleft : (mergeSingletons q).leftTillBlock = q.leftTillBlock := by
    unfold SCPQuorumSet.leftTillBlock
    congr 1
    have hthreshold : (mergeSingletons q).threshold = q.threshold := rfl
    omega
  rw [Bool.eq_iff_iff, isVBlocking_iff, isVBlocking_iff,
    hits_mergeSingletons (isVBlocking_single s), hleft]
  exact Iff.rfl

/-! ### Sets around a single set -/

/-- What unwrapping does. -/
theorem unwrap_cases (q : SCPQuorumSet) :
    (∃ inner, q = ⟨1, [], [inner]⟩ ∧ unwrap q = inner) ∨
      (¬ (q.threshold = 1 ∧ q.validators = [] ∧ q.innerSets.length = 1) ∧ unwrap q = q) := by
  unfold unwrap
  split
  case h_1 inner => exact .inl ⟨inner, rfl, rfl⟩
  case h_2 hne =>
    refine .inr ⟨?_, rfl⟩
    rintro ⟨hthreshold, hvalidators, hlength⟩
    obtain ⟨threshold, validators, innerSets⟩ := q
    obtain ⟨inner, rfl⟩ := length_eq_one_iff.1 hlength
    subst hthreshold hvalidators
    exact hne inner rfl

theorem isQuorumSlice_unwrap (s : List NodeID) (q : SCPQuorumSet) :
    isQuorumSlice s (unwrap q) = isQuorumSlice s q := by
  rcases unwrap_cases q with ⟨inner, rfl, hunwrap⟩ | ⟨_, hunwrap⟩
  · rw [hunwrap]
    cases hinner : isQuorumSlice s inner <;>
      simp [isQuorumSlice, innerSlices, thresholdReached, hinner]
  · rw [hunwrap]

theorem isVBlocking_unwrap (s : List NodeID) (q : SCPQuorumSet) :
    isVBlocking s (unwrap q) = isVBlocking s q := by
  rcases unwrap_cases q with ⟨inner, rfl, hunwrap⟩ | ⟨_, hunwrap⟩
  · rw [hunwrap]
    cases hinner : isVBlocking s inner <;> simp [isVBlocking, innerBlocks, blockReached, hinner]
  · rw [hunwrap]

/-! ### What normalization decides -/

/-- Tests of the inner sets may be made on other sets with the same answers. -/
theorem hits_map {inner : SCPQuorumSet → Bool} {f : SCPQuorumSet → SCPQuorumSet} {threshold : Nat}
    {validators : List NodeID} {innerSets : List SCPQuorumSet}
    (h : ∀ q ∈ innerSets, inner (f q) = inner q) :
    hits node inner ⟨threshold, validators, innerSets.map f⟩ =
      hits node inner ⟨threshold, validators, innerSets⟩ := by
  have hinner : innerSets.countP (inner ∘ f) = innerSets.countP inner :=
    countP_congr fun q hq => by rw [Function.comp_apply, h q hq]
  rw [hits, hits, countP_map, hinner]

theorem isQuorumSlice_normalizeQSet (s : List NodeID) (q : SCPQuorumSet) :
    isQuorumSlice s (normalizeQSet none q) = isQuorumSlice s q := by
  induction q with
  | step threshold validators innerSets ih =>
    rw [normalizeQSet, isQuorumSlice_unwrap, isQuorumSlice_mergeSingletons, removeNode,
      normalizeAll_eq_map, Bool.eq_iff_iff, isQuorumSlice_iff, isQuorumSlice_iff, hits_map ih]

theorem isVBlocking_normalizeQSet (s : List NodeID) (q : SCPQuorumSet) :
    isVBlocking s (normalizeQSet none q) = isVBlocking s q := by
  induction q with
  | step threshold validators innerSets ih =>
    rw [normalizeQSet, isVBlocking_unwrap, isVBlocking_mergeSingletons, removeNode,
      normalizeAll_eq_map, Bool.eq_iff_iff, isVBlocking_iff, isVBlocking_iff, hits_map ih]
    simp [SCPQuorumSet.leftTillBlock]

/-! ### Sane quorum sets stay sane -/

section

variable (h : q.Shaped extraChecks depth)
include h

theorem SCPQuorumSet.Shaped.of_le {depth' : Nat} (hle : depth' ≤ depth) :
    q.Shaped extraChecks depth' := by
  induction h generalizing depth' with
  | mk hdepth hpos hthreshold hextra _ ih =>
    exact .mk (by omega) hpos hthreshold hextra fun q hq => ih q hq (by omega)

theorem SCPQuorumSet.Shaped.mergeSingletons : (mergeSingletons q).Shaped extraChecks depth := by
  cases h with
  | @mk _ threshold validators innerSets hdepth hpos hthreshold hextra hinner =>
    have hlength := length_mergeSingletons ⟨threshold, validators, innerSets⟩
    refine .mk hdepth hpos (hlength ▸ hthreshold) (hlength ▸ hextra) ?_
    exact fun p hp => hinner p (mem_of_mem_filter hp)

theorem SCPQuorumSet.Shaped.unwrap : (unwrap q).Shaped extraChecks depth := by
  rcases unwrap_cases q with ⟨inner, rfl, hunwrap⟩ | ⟨_, hunwrap⟩
  · cases h with
    | mk _ _ _ _ hinner =>
      exact (hinner inner (mem_singleton_self inner)).of_le (Nat.le_succ depth)
  · rw [hunwrap]
    exact h

theorem SCPQuorumSet.Shaped.normalizeQSet : (normalizeQSet none q).Shaped extraChecks depth := by
  induction h with
  | mk hdepth hpos hthreshold hextra _ ih =>
    rw [Scp.normalizeQSet, removeNode, normalizeAll_eq_map]
    refine (SCPQuorumSet.Shaped.mergeSingletons (.mk hdepth hpos ?_ ?_ ?_)).unwrap
    · rwa [length_map]
    · rwa [length_map]
    · intro p hp
      obtain ⟨q, hq, rfl⟩ := mem_map.1 hp
      exact ih q hq

end

theorem allNodes_mergeSingletons {q : SCPQuorumSet} :
    (allNodes (mergeSingletons q)).Perm (allNodes q) := by
  obtain ⟨threshold, validators, innerSets⟩ := q
  have hinner : (innerSets.filterMap singleValidator ++
      (innerSets.filter fun p => (singleValidator p).isNone).flatMap allNodes).Perm
        (innerSets.flatMap allNodes) := by
    induction innerSets with
    | nil => exact .nil
    | cons p innerSets ih =>
      cases hp : singleValidator p with
      | none =>
        simp only [filterMap_cons, filter_cons, hp, isNone_none, if_true,
          flatMap_cons]
        exact perm_append_comm_assoc _ _ _ |>.trans (ih.append_left _)
      | some v =>
        obtain rfl := singleValidator_eq_some.1 hp
        exact ih.cons v
  simp only [mergeSingletons, allNodes, innerNodes_eq_flatMap, append_assoc]
  exact hinner.append_left validators

theorem allNodes_unwrap (q : SCPQuorumSet) : allNodes (unwrap q) = allNodes q := by
  rcases unwrap_cases q with ⟨inner, rfl, hunwrap⟩ | ⟨_, hunwrap⟩
  · rw [hunwrap]
    simp [allNodes, innerNodes]
  · rw [hunwrap]

/-- Normalization keeps the nodes, in some order. -/
theorem allNodes_normalizeQSet (q : SCPQuorumSet) :
    (allNodes (normalizeQSet none q)).Perm (allNodes q) := by
  induction q with
  | step threshold validators innerSets ih =>
    rw [normalizeQSet, allNodes_unwrap, removeNode, normalizeAll_eq_map]
    refine allNodes_mergeSingletons.trans ?_
    simp only [allNodes, innerNodes_eq_flatMap, flatMap_map]
    exact (List.Perm.flatMap_left innerSets ih).append_left validators

theorem isQuorumSetSane_normalizeQSet (h : isQuorumSetSane q extraChecks = true) :
    isQuorumSetSane (normalizeQSet none q) extraChecks = true := by
  obtain ⟨hshape, hnodup, hpos, hsize⟩ := isQuorumSetSane_iff.1 h
  have hperm := allNodes_normalizeQSet q
  refine isQuorumSetSane_iff.2 ⟨hshape.normalizeQSet, hperm.nodup_iff.2 hnodup, ?_⟩
  rw [hperm.length_eq]
  exact ⟨hpos, hsize⟩

/-! ### Normal forms -/

/-- A quorum set without an inner set of a single validator and without a set that only wraps
another one. -/
inductive SCPQuorumSet.Normal : SCPQuorumSet → Prop
  | mk {threshold : Nat} {validators : List NodeID} {innerSets : List SCPQuorumSet} :
      (∀ q ∈ innerSets, q.Normal) → (∀ q ∈ innerSets, singleValidator q = none) →
      ¬ (threshold = 1 ∧ validators = [] ∧ innerSets.length = 1) →
      SCPQuorumSet.Normal ⟨threshold, validators, innerSets⟩

theorem normal_normalizeQSet (q : SCPQuorumSet) : (normalizeQSet none q).Normal := by
  induction q with
  | step threshold validators innerSets ih =>
    rw [normalizeQSet, removeNode, normalizeAll_eq_map]
    have hmerged : ∀ p ∈ (mergeSingletons ⟨threshold, validators,
        innerSets.map (normalizeQSet none)⟩).innerSets, p.Normal ∧ singleValidator p = none := by
      intro p hp
      obtain ⟨hmem, hnone⟩ := mem_filter.1 hp
      obtain ⟨q, hq, rfl⟩ := mem_map.1 hmem
      exact ⟨ih q hq, isNone_iff_eq_none.1 hnone⟩
    generalize mergeSingletons ⟨threshold, validators, innerSets.map (normalizeQSet none)⟩ =
      merged at hmerged ⊢
    obtain ⟨threshold, validators, innerSets⟩ := merged
    rcases unwrap_cases ⟨threshold, validators, innerSets⟩ with
      ⟨inner, hq, hunwrap⟩ | ⟨hwraps, hunwrap⟩
    · obtain ⟨rfl, rfl, rfl⟩ := SCPQuorumSet.mk.inj hq
      exact (hmerged inner (mem_singleton_self inner)).1
    · rw [hunwrap]
      exact .mk (fun p hp => (hmerged p hp).1) (fun p hp => (hmerged p hp).2) hwraps

theorem SCPQuorumSet.Normal.normalizeQSet_eq (h : q.Normal) : normalizeQSet none q = q := by
  induction h with
  | @mk threshold validators innerSets _ hsingle hwraps ih =>
    have hinner : innerSets.map (normalizeQSet none) = innerSets :=
      (map_congr_left ih).trans (map_id' innerSets)
    have hmoved : innerSets.filterMap singleValidator = [] :=
      filterMap_eq_nil_iff.2 hsingle
    have hkept : (innerSets.filter fun p => (singleValidator p).isNone) = innerSets :=
      filter_eq_self.2 fun p hp => isNone_iff_eq_none.2 (hsingle p hp)
    have hmerged : mergeSingletons ⟨threshold, validators, innerSets⟩ =
        ⟨threshold, validators, innerSets⟩ := by
      rw [mergeSingletons, hmoved, hkept, append_nil]
    rw [normalizeQSet, removeNode, normalizeAll_eq_map, hinner, hmerged]
    rcases unwrap_cases ⟨threshold, validators, innerSets⟩ with ⟨inner, hq, _⟩ | ⟨_, hunwrap⟩
    · obtain ⟨rfl, rfl, rfl⟩ := SCPQuorumSet.mk.inj hq
      exact (hwraps ⟨rfl, rfl, rfl⟩).elim
    · exact hunwrap

/-! ### Removing a node -/

/-- Without the node, the threshold of each level stays positive. -/
inductive SCPQuorumSet.StaysPositive (id : NodeID) : SCPQuorumSet → Prop
  | mk {threshold : Nat} {validators : List NodeID} {innerSets : List SCPQuorumSet} :
      validators.count id < threshold → (∀ q ∈ innerSets, q.StaysPositive id) →
      SCPQuorumSet.StaysPositive id ⟨threshold, validators, innerSets⟩

/-- The validators other than the removed one. -/
theorem length_eq_filter_add_count (id : NodeID) (validators : List NodeID) :
    validators.length = (validators.filter (· ≠ id)).length + validators.count id := by
  rw [length_eq_countP_add_countP (p := (· ≠ id)), countP_eq_length_filter]
  congr 1
  exact countP_congr fun v _ => by simp

/-- The node counts as present among the validators. -/
theorem countP_mem_cons (id : NodeID) (s validators : List NodeID) :
    validators.countP (· ∈ id :: s) =
      (validators.filter (· ≠ id)).countP (· ∈ s) + validators.count id := by
  induction validators with
  | nil => rfl
  | cons v validators ih =>
    rw [countP_cons, ih]
    by_cases hv : v = id
    · rw [hv, filter_cons_of_neg (by simp), count_cons_self]
      simp [Nat.add_assoc]
    · rw [filter_cons_of_pos (by simpa using hv), countP_cons, count_cons_of_ne hv]
      simp only [mem_cons, hv, false_or]
      omega

/-- Without a node, a quorum set has a slice among some nodes exactly when it has one among them
and that node. -/
theorem isQuorumSlice_normalizeQSet_some {id : NodeID} (hpos : q.Positive)
    (h : q.StaysPositive id) (s : List NodeID) :
    isQuorumSlice s (normalizeQSet (some id) q) = isQuorumSlice (id :: s) q := by
  induction hpos with
  | @mk threshold validators innerSets hpos hlt _ ih =>
    cases h with
    | mk hcount hinner =>
      have hlength := length_eq_filter_add_count id validators
      have hnodes := countP_mem_cons id s validators
      have hneeded := @hitsNeeded_of_pos (threshold - validators.count id) (by omega) (by omega)
      have hleft : (threshold + 2 ^ 32 -
          (validators.length - (validators.filter (· ≠ id)).length) % 2 ^ 32) % 2 ^ 32 =
            threshold - validators.count id := by omega
      have hsets : (innerSets.map (normalizeQSet (some id))).countP (isQuorumSlice s) =
          innerSets.countP (isQuorumSlice (id :: s)) := by
        rw [countP_map]
        exact countP_congr fun q hq => by rw [Function.comp_apply, ih q hq (hinner q hq)]
      rw [normalizeQSet, isQuorumSlice_unwrap, isQuorumSlice_mergeSingletons, removeNode,
        normalizeAll_eq_map, hleft, Bool.eq_iff_iff, isQuorumSlice_iff, isQuorumSlice_iff,
        hneeded, hitsNeeded_of_pos hpos hlt, hits, hits, hsets, hnodes]
      dsimp only
      omega

/-- Normalization without a node to remove keeps what a quorum set decides and whether it is sane,
and it is idempotent. With a node to remove, the node counts as present. -/
theorem normalizeQSet_preserves :
    (∀ (q : SCPQuorumSet) (s : List NodeID),
      isQuorumSlice s (normalizeQSet none q) = isQuorumSlice s q ∧
        isVBlocking s (normalizeQSet none q) = isVBlocking s q) ∧
    (∀ (q : SCPQuorumSet) (extraChecks : Bool), isQuorumSetSane q extraChecks = true →
      isQuorumSetSane (normalizeQSet none q) extraChecks = true) ∧
    (∀ q : SCPQuorumSet, normalizeQSet none (normalizeQSet none q) = normalizeQSet none q) ∧
    (∀ (id : NodeID) (q : SCPQuorumSet) (extraChecks : Bool) (s : List NodeID),
      isQuorumSetSane q extraChecks = true → q.StaysPositive id →
        isQuorumSlice s (normalizeQSet (some id) q) = isQuorumSlice (id :: s) q) := by
  refine ⟨fun q s => ⟨isQuorumSlice_normalizeQSet s q, isVBlocking_normalizeQSet s q⟩,
    fun q _ => isQuorumSetSane_normalizeQSet,
    fun q => (normal_normalizeQSet q).normalizeQSet_eq, ?_⟩
  intro id q extraChecks s hsane hstays
  obtain ⟨hshape, _, _, hsize⟩ := isQuorumSetSane_iff.1 hsane
  exact isQuorumSlice_normalizeQSet_some (hshape.positive hsize) hstays s

/-- Two of three nodes, one of which is alone in a set, without the first. -/
theorem normalizeQSet_preserves_nested :
    isQuorumSlice [3] (normalizeQSet (some 1) ⟨2, [1, 2], [⟨1, [3], []⟩]⟩) =
      isQuorumSlice [1, 3] ⟨2, [1, 2], [⟨1, [3], []⟩]⟩ :=
  normalizeQSet_preserves.2.2.2 1 ⟨2, [1, 2], [⟨1, [3], []⟩]⟩ false [3] (by decide)
    (.mk (by decide) (forall_mem_singleton.2 (.mk (by decide) (forall_mem_nil _))))

end SpnCore.Scp
