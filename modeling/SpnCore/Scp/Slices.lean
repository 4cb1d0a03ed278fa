import SpnCore.Lib.Choices
import SpnCore.Scp.Nomination

/-!
# Slices of a quorum set

What the loops of `LocalNode` and of `QuorumSetUtils` decide. A slice of a quorum set is a choice
of as many members as its threshold, with a slice for each inner set chosen. `isQuorumSlice` asks
for a slice among the nodes, `isVBlocking` whether the nodes meet every slice, and `isQuorum`
whether there is a quorum among the nodes whose statements pass a filter.
-/

namespace SpnCore.Scp

open Lib Nomination List

theorem innerNodes_eq_flatMap (qs : List SCPQuorumSet) : innerNodes qs = qs.flatMap allNodes := by
  induction qs with
  | nil => rfl
  | cons q qs ih => rw [innerNodes, ih, flatMap_cons]

variable {q : SCPQuorumSet} {extraChecks : Bool} {depth : Nat}

theorem hits_congr {node node' : NodeID → Bool} {inner inner' : SCPQuorumSet → Bool}
    (hnode : ∀ v ∈ q.validators, node v = node' v)
    (hinner : ∀ p ∈ q.innerSets, inner p = inner' p) : hits node inner q = hits node' inner' q := by
  have hvalidators := countP_congr fun v hv => iff_of_eq (congrArg (· = true) (hnode v hv))
  have hsets := countP_congr fun p hp => iff_of_eq (congrArg (· = true) (hinner p hp))
  rw [hits, hits, hvalidators, hsets]

/-! ### Slices -/

mutual

/-- The slices of a quorum set. -/
def slices : SCPQuorumSet → List (List NodeID)
  | ⟨threshold, validators, innerSets⟩ =>
    choices threshold (validators.map (fun v => [[v]]) ++ slicesAll innerSets)

/-- The slices of each inner set. -/
def slicesAll : List SCPQuorumSet → List (List (List NodeID))
  | [] => []
  | q :: qs => slices q :: slicesAll qs

end

theorem slicesAll_eq_map (qs : List SCPQuorumSet) : slicesAll qs = qs.map slices := by
  induction qs with
  | nil => rfl
  | cons q qs ih => rw [slicesAll, ih, map_cons]

/-- Some slice lies within a set of nodes when enough members have one there. -/
theorem offers_slices (p : NodeID → Bool) (q : SCPQuorumSet) :
    Offers p (slices q) = true ↔ q.threshold ≤ hits p (fun inner => Offers p (slices inner)) q := by
  obtain ⟨threshold, validators, innerSets⟩ := q
  rw [slices, offers_choices, slicesAll_eq_map, decide_eq_true_eq, countP_append,
    countP_map, countP_map]
  have hvalidators : validators.countP (Offers p ∘ fun v => [[v]]) = validators.countP p :=
    countP_congr fun v _ => by simp
  rw [hvalidators]
  exact Iff.rfl

/-- The thresholds at every level are positive `uint32` values. -/
inductive SCPQuorumSet.Positive : SCPQuorumSet → Prop
  | mk {threshold : Nat} {validators : List NodeID} {innerSets : List SCPQuorumSet} :
      1 ≤ threshold → threshold < 2 ^ 32 → (∀ q ∈ innerSets, q.Positive) →
      SCPQuorumSet.Positive ⟨threshold, validators, innerSets⟩

theorem hitsNeeded_of_pos {threshold : Nat} (hpos : 1 ≤ threshold) (hlt : threshold < 2 ^ 32) :
    hitsNeeded threshold = threshold := by
  rw [hitsNeeded, Nat.mod_eq_of_lt hlt, if_neg (by omega)]

theorem mem_allNodes_of_validator {v : NodeID} (h : v ∈ q.validators) : v ∈ allNodes q := by
  obtain ⟨threshold, validators, innerSets⟩ := q
  exact mem_append_left _ h

theorem mem_allNodes_of_inner {inner : SCPQuorumSet} {v : NodeID} (hinner : inner ∈ q.innerSets)
    (h : v ∈ allNodes inner) : v ∈ allNodes q := by
  obtain ⟨threshold, validators, innerSets⟩ := q
  rw [allNodes, innerNodes_eq_flatMap]
  exact mem_append_right _ (mem_flatMap.2 ⟨inner, hinner, h⟩)

/-- `isQuorumSlice` looks for a slice among the nodes of the quorum set that it is given. -/
theorem SCPQuorumSet.Positive.isQuorumSlice_eq {s : List NodeID} {p : NodeID → Bool}
    (h : q.Positive) (hp : ∀ v ∈ allNodes q, decide (v ∈ s) = p v) :
    isQuorumSlice s q = Offers p (slices q) := by
  induction h with
  | @mk threshold validators innerSets hpos hlt _ ih =>
    rw [Bool.eq_iff_iff, isQuorumSlice_iff, offers_slices, hitsNeeded_of_pos hpos hlt]
    rw [hits_congr (fun v hv => hp v (mem_allNodes_of_validator hv)) fun inner hinner =>
      ih inner hinner fun v hv => hp v (mem_allNodes_of_inner hinner hv)]

/-- The nodes contain a slice of a quorum set, as `isQuorumSlice` decides it. -/
theorem isQuorumSlice_iff_slices {s : List NodeID} (h : q.Positive) :
    isQuorumSlice s q = true ↔ ∃ slice ∈ slices q, slice ⊆ s := by
  rw [h.isQuorumSlice_eq fun _ _ => rfl, offers_iff]
  simp [subset_def]

/-! ### Sane quorum sets -/

/-- What `checkSanity` asks of each level. -/
inductive SCPQuorumSet.Shaped (extraChecks : Bool) : Nat → SCPQuorumSet → Prop
  | mk {depth threshold : Nat} {validators : List NodeID} {innerSets : List SCPQuorumSet} :
      depth ≤ 2 → 1 ≤ threshold → threshold ≤ validators.length + innerSets.length →
      (extraChecks = true → validators.length + innerSets.length - threshold + 1 ≤ threshold) →
      (∀ q ∈ innerSets, q.Shaped extraChecks (depth + 1)) →
      SCPQuorumSet.Shaped extraChecks depth ⟨threshold, validators, innerSets⟩

theorem insertNodes_eq_some {known known' ns : List NodeID} :
    insertNodes known ns = some known' ↔
      (ns.Nodup ∧ ns.Disjoint known) ∧ known' = ns.reverse ++ known := by
  induction ns generalizing known with
  | nil => simp [insertNodes, eq_comm]
  | cons n ns ih =>
    rw [insertNodes]
    split
    case isTrue h => simp [h]
    case isFalse h =>
      rw [ih, nodup_cons, disjoint_cons_left, disjoint_cons_right,
        reverse_cons, append_assoc, singleton_append]
      tauto

/-- A pass of the checker over sets with the given nodes. -/
def SanityChecker.addAll (checker : SanityChecker) (nodes : List NodeID) : SanityChecker where
  knownNodes := nodes.reverse ++ checker.knownNodes
  count := checker.count + nodes.length

theorem SanityChecker.addAll_append (checker : SanityChecker) (ns ms : List NodeID) :
    (checker.addAll ns).addAll ms = checker.addAll (ns ++ ms) := by
  simp [addAll, Nat.add_assoc]

/-- The nodes are new to the checker, and each is seen once. -/
def SanityChecker.Fresh (checker : SanityChecker) (nodes : List NodeID) : Prop :=
  nodes.Nodup ∧ nodes.Disjoint checker.knownNodes

theorem SanityChecker.fresh_append {checker : SanityChecker} {ns ms : List NodeID} :
    checker.Fresh (ns ++ ms) ↔ checker.Fresh ns ∧ (checker.addAll ns).Fresh ms := by
  simp only [Fresh, addAll, nodup_append', disjoint_append_left,
    disjoint_append_right, disjoint_reverse_right]
  tauto

theorem checkSanityAll_eq_some {qs : List SCPQuorumSet}
    (ih : ∀ q ∈ qs, ∀ checker checker', checkSanity extraChecks depth q checker = some checker' ↔
      (q.Shaped extraChecks depth ∧ checker.Fresh (allNodes q)) ∧
        checker' = checker.addAll (allNodes q))
    (checker checker' : SanityChecker) :
    checkSanityAll extraChecks depth qs checker = some checker' ↔
      ((∀ q ∈ qs, q.Shaped extraChecks depth) ∧ checker.Fresh (innerNodes qs)) ∧
        checker' = checker.addAll (innerNodes qs) := by
  induction qs generalizing checker with
  | nil => simp [checkSanityAll, innerNodes, SanityChecker.Fresh, SanityChecker.addAll, eq_comm]
  | cons q qs ihs =>
    obtain ⟨hq, hqs⟩ := forall_mem_cons.1 ih
    simp only [checkSanityAll, bind, Option.bind_eq_some_iff, hq, ihs hqs, innerNodes,
      forall_mem_cons, SanityChecker.fresh_append, ← SanityChecker.addAll_append]
    constructor
    · rintro ⟨_, ⟨⟨hshape, hfresh⟩, rfl⟩, ⟨hshapes, hfreshes⟩, rfl⟩
      exact ⟨⟨⟨hshape, hshapes⟩, hfresh, hfreshes⟩, rfl⟩
    · rintro ⟨⟨⟨hshape, hshapes⟩, hfresh, hfreshes⟩, rfl⟩
      exact ⟨_, ⟨⟨hshape, hfresh⟩, rfl⟩, ⟨hshapes, hfreshes⟩, rfl⟩

/-- What `checkSanity` accepts, and what it accumulates. -/
theorem checkSanity_eq_some {checker checker' : SanityChecker} :
    checkSanity extraChecks depth q checker = some checker' ↔
      (q.Shaped extraChecks depth ∧ checker.Fresh (allNodes q)) ∧
        checker' = checker.addAll (allNodes q) := by
  induction q generalizing depth checker checker' with
  | step threshold validators innerSets ih =>
    have hinner := @checkSanityAll_eq_some extraChecks (depth + 1) innerSets
      fun q hq _ _ => ih q hq
    constructor
    · intro h
      rw [checkSanity] at h
      split_ifs at h with hdepth hpos hle hextra
      simp only [bind, Option.bind_eq_some_iff, insertNodes_eq_some, hinner] at h
      obtain ⟨_, ⟨hfresh, rfl⟩, ⟨hshapes, hfreshes⟩, rfl⟩ := h
      refine ⟨⟨.mk (by omega) (by omega) (by omega) (by simpa using hextra) hshapes, ?_⟩, ?_⟩
      · exact SanityChecker.fresh_append.2 ⟨hfresh, hfreshes⟩
      · exact SanityChecker.addAll_append _ _ _
    · rintro ⟨⟨hshape, hfresh⟩, rfl⟩
      obtain ⟨hfresh, hfreshes⟩ := SanityChecker.fresh_append.1 hfresh
      cases hshape with
      | mk hdepth hpos hle hextra hshapes =>
        rw [checkSanity, if_neg (by omega), if_neg (by omega), if_neg (by omega),
          if_neg (by simpa using hextra)]
        simp only [bind, Option.bind_eq_some_iff, insertNodes_eq_some, hinner]
        exact ⟨_, ⟨hfresh, rfl⟩, ⟨hshapes, hfreshes⟩, (SanityChecker.addAll_append _ _ _).symm⟩

/-- A sane quorum set has its thresholds in range at each of at most three levels, and between
1 and 1000 nodes, none of them twice. -/
theorem isQuorumSetSane_iff :
    isQuorumSetSane q extraChecks = true ↔
      q.Shaped extraChecks 0 ∧ (allNodes q).Nodup ∧
        1 ≤ (allNodes q).length ∧ (allNodes q).length ≤ 1000 := by
  have hcheck := @checkSanity_eq_some q extraChecks 0 {}
  unfold isQuorumSetSane
  split
  case h_1 hnone =>
    rw [hnone] at hcheck
    simp [SanityChecker.Fresh] at hcheck
    tauto
  case h_2 checker hsome =>
    obtain ⟨⟨hshape, hnodup, _⟩, rfl⟩ := hcheck.1 hsome
    simp [hshape, hnodup, SanityChecker.addAll]

theorem length_le_length_innerNodes {qs : List SCPQuorumSet}
    (h : ∀ q ∈ qs, 1 ≤ (allNodes q).length) : qs.length ≤ (innerNodes qs).length := by
  induction qs with
  | nil => exact le_rfl
  | cons q qs ih =>
    obtain ⟨hq, hqs⟩ := forall_mem_cons.1 h
    have := ih hqs
    rw [innerNodes, length_append, length_cons]
    omega

/-- Each member of a well-shaped quorum set brings a node. -/
theorem SCPQuorumSet.Shaped.members_le (h : q.Shaped extraChecks depth) :
    1 ≤ q.validators.length + q.innerSets.length ∧
      q.validators.length + q.innerSets.length ≤ (allNodes q).length := by
  induction h with
  | @mk depth threshold validators innerSets hdepth hpos hle hextra hshapes ih =>
    have hinner := length_le_length_innerNodes fun q hq => (ih q hq).1.trans (ih q hq).2
    rw [allNodes, length_append]
    refine ⟨hpos.trans hle, ?_⟩
    dsimp only
    omega

theorem length_allNodes_le {inner : SCPQuorumSet} (h : inner ∈ q.innerSets) :
    (allNodes inner).length ≤ (allNodes q).length := by
  obtain ⟨threshold, validators, innerSets⟩ := q
  obtain ⟨before, after, rfl⟩ := append_of_mem h
  rw [allNodes, innerNodes_eq_flatMap]
  simp only [flatMap_append, flatMap_cons, length_append]
  omega

section

variable (h : q.Shaped extraChecks depth) (hsize : (allNodes q).length ≤ 1000)
include h hsize

theorem SCPQuorumSet.Shaped.positive : q.Positive := by
  have hmembers := h.members_le
  induction h with
  | @mk depth threshold validators innerSets hdepth hpos hle hextra hshapes ih =>
    refine .mk hpos (by dsimp only at hmembers; omega) fun q hq => ?_
    exact ih q hq ((length_allNodes_le hq).trans hsize) (hshapes q hq).members_le

/-! ### Blocking sets and slices -/

omit h hsize in
/-- Members are hit by a test or by its complement. -/
theorem hits_add_hits {node node' : NodeID → Bool} {inner inner' : SCPQuorumSet → Bool}
    (hnode : ∀ v ∈ q.validators, node v = !node' v)
    (hinner : ∀ p ∈ q.innerSets, inner p = !inner' p) :
    hits node inner q + hits node' inner' q = q.validators.length + q.innerSets.length := by
  rw [hits_congr hnode hinner]
  have hvalidators := @length_eq_countP_add_countP _ node' q.validators
  have hsets := @length_eq_countP_add_countP _ inner' q.innerSets
  simp only [Bool.not_eq_true, Bool.decide_eq_false] at hvalidators hsets
  unfold hits
  omega

/-- A well-shaped quorum set is blocked when the members left are fewer than its threshold. -/
theorem SCPQuorumSet.Shaped.isVBlocking_iff {s : List NodeID} :
    isVBlocking s q = true ↔ 1 + q.validators.length + q.innerSets.length ≤
      q.threshold + hits (· ∈ s) (isVBlocking s) q := by
  have hmembers := h.members_le
  cases h with
  | @mk depth threshold validators innerSets hdepth hpos hle hextra hshapes =>
    have hleft : SCPQuorumSet.leftTillBlock ⟨threshold, validators, innerSets⟩ =
        1 + validators.length + innerSets.length - threshold := by
      apply Int.bmod_eq_of_le <;> dsimp only at hmembers ⊢ <;> omega
    rw [Scp.isVBlocking_iff, hleft]
    dsimp only
    omega

/-- A well-shaped quorum set is blocked by some nodes exactly when the others contain no slice. -/
theorem SCPQuorumSet.Shaped.isVBlocking_eq {s t : List NodeID}
    (ht : ∀ v ∈ allNodes q, v ∈ t ↔ v ∉ s) : isVBlocking s q = !isQuorumSlice t q := by
  have hmembers := h.members_le
  have hblocking := h.isVBlocking_iff (s := s) hsize
  induction h with
  | @mk depth threshold validators innerSets hdepth hpos hle hextra hshapes ih =>
    have hboth : hits (· ∈ s) (isVBlocking s) ⟨threshold, validators, innerSets⟩ +
        hits (· ∈ t) (isQuorumSlice t) ⟨threshold, validators, innerSets⟩ =
          validators.length + innerSets.length := by
      refine hits_add_hits (fun v hv => ?_) fun inner hinner => ?_
      · simp [ht v (mem_allNodes_of_validator hv)]
      · have hsize := (length_allNodes_le hinner).trans hsize
        exact ih inner hinner hsize (fun v hv => ht v (mem_allNodes_of_inner hinner hv))
          (hshapes inner hinner).members_le ((hshapes inner hinner).isVBlocking_iff hsize)
    have hneeded := hitsNeeded_of_pos hpos (by dsimp only at hmembers; omega)
    rw [Bool.eq_iff_iff, Bool.not_eq_true', ← Bool.not_eq_true, hblocking, isQuorumSlice_iff,
      hneeded]
    dsimp only
    omega

end

/-- Some nodes block a sane quorum set exactly when the other nodes contain no slice of it, that
is, when they meet every slice. -/
theorem isVBlocking_iff_meets_slices {q : SCPQuorumSet} {extraChecks : Bool}
    (h : isQuorumSetSane q extraChecks = true) (s : List NodeID) :
    (∀ t : List NodeID, (∀ v ∈ allNodes q, v ∈ t ↔ v ∉ s) →
      (isVBlocking s q = true ↔ ¬ isQuorumSlice t q = true)) ∧
    (isVBlocking s q = true ↔ ∀ slice ∈ slices q, ∃ v ∈ slice, v ∈ s) := by
  obtain ⟨hshape, _, _, hsize⟩ := isQuorumSetSane_iff.1 h
  have hdual : ∀ t : List NodeID, (∀ v ∈ allNodes q, v ∈ t ↔ v ∉ s) →
      (isVBlocking s q = true ↔ ¬ isQuorumSlice t q = true) := by
    intro t ht
    rw [hshape.isVBlocking_eq hsize ht, Bool.not_eq_true', Bool.not_eq_true]
  refine ⟨hdual, ?_⟩
  -- the other nodes of the quorum set stand for the complement
  have hothers : ∀ v ∈ allNodes q, v ∈ (allNodes q).filter (· ∉ s) ↔ v ∉ s := by
    intro v hv
    simp [hv]
  have hslice := (hshape.positive hsize).isQuorumSlice_eq (p := fun v => decide (v ∉ s))
    fun v hv => decide_eq_decide.2 (hothers v hv)
  rw [hdual _ hothers, hslice, offers_iff]
  simp

/-- Three validators of which two are inside a set of their own. -/
theorem isVBlocking_iff_meets_slices_nested :
    isVBlocking [1] ⟨2, [1], [⟨1, [2, 3], []⟩]⟩ = true ↔
      ∀ slice ∈ slices ⟨2, [1], [⟨1, [2, 3], []⟩]⟩, ∃ v ∈ slice, v ∈ [1] :=
  (@isVBlocking_iff_meets_slices _ false (by decide) [1]).2

/-! ### Quorums -/

section Quorums

variable {ν : Type*} (qSet : SCPQuorumSet) (map : FMap NodeID ν)
  (qfun : ν → Option SCPQuorumSet) (filter : ν → Bool)

/-- A set of nodes whose statements pass the filter, with a slice among them for the quorum set
of each member. -/
structure IsQuorumOf (u : List NodeID) : Prop where
  passes : ∀ v ∈ u, ∃ st, map.lookup v = some st ∧ filter st = true
  slice : ∀ v ∈ u, ∃ st q, map.lookup v = some st ∧ qfun st = some q ∧ isQuorumSlice u q = true

variable {map qfun filter} in
theorem isQuorumOf_iff {u : List NodeID} :
    IsQuorumOf map qfun filter u ↔
      u ⊆ map.keysWhere filter ∧ ClosedUnder (sliceFilter map qfun) u := by
  simp only [ClosedUnder, sliceFilter_iff, subset_def, FMap.mem_keysWhere]
  exact ⟨fun h => ⟨fun hv => h.passes _ hv, h.slice⟩, fun h => ⟨fun _ hv => h.1 hv, h.2⟩⟩

/-- `isQuorum` finds a quorum that contains a slice of the local node when there is one, whatever
the order of the statements. More nodes that pass the filter never hide one. -/
theorem isQuorum_iff_exists_quorum :
    (isQuorum qSet map qfun filter = true ↔
      ∃ u, IsQuorumOf map qfun filter u ∧ isQuorumSlice u qSet = true) ∧
    (∀ filter' : ν → Bool,
      (∀ v st, map.lookup v = some st → filter st = true → filter' st = true) →
      isQuorum qSet map qfun filter = true → isQuorum qSet map qfun filter' = true) ∧
    (∀ map' : FMap NodeID ν, (∀ v, map'.lookup v = map.lookup v) →
      isQuorum qSet map' qfun filter = isQuorum qSet map qfun filter) ∧
    ∀ u q, q.Positive → (isQuorumSlice u q = true ↔ ∃ slice ∈ slices q, slice ⊆ u) := by
  refine ⟨?_, ?_, ?_, fun u q hq => isQuorumSlice_iff_slices hq⟩
  · simp only [isQuorum_iff, isQuorumOf_iff, and_assoc]
  · intro filter' hpass h
    exact isQuorum_transfer h fun v st hst hfilter => ⟨st, hst, hpass v st hst hfilter, rfl⟩
  · intro map' hlookup
    rw [Bool.eq_iff_iff]
    constructor
    · intro h
      refine isQuorum_transfer h fun v st hst hfilter => ⟨st, ?_, hfilter, rfl⟩
      rwa [← hlookup]
    · intro h
      refine isQuorum_transfer h fun v st hst hfilter => ⟨st, ?_, hfilter, rfl⟩
      rwa [hlookup]

end Quorums

end SpnCore.Scp
