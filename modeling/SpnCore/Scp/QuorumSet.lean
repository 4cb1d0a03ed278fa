import Mathlib.Algebra.Order.Group.Nat
import Mathlib.Tactic.Linarith
import SpnCore.Lib.FMap
import SpnCore.Lib.Shrink

/-!
# Quorum sets

Quorum slices, v-blocking sets and quorums as `LocalNode` decides them, and the sanity check
of `QuorumSetUtils`. The loops count hits with fixed-width counters; the facts proved here are
that both tests are monotone, that neither is passed by an empty set, and that `isQuorum` finds
a quorum exactly when there is one.
-/

namespace SpnCore.Scp

open Lib List

/-- A node's public key, as the number its bytes spell. -/
abbrev NodeID := Nat

/-- A SHA-256 digest, as the number its bytes spell. -/
abbrev Hash := Nat

/-- A threshold over validators and inner quorum sets. -/
structure SCPQuorumSet where
  threshold : Nat
  validators : List NodeID
  innerSets : List SCPQuorumSet

/-- The quorum set of a node that only listens to `nodeID`. -/
def buildSingletonQSet (nodeID : NodeID) : SCPQuorumSet :=
  { threshold := 1, validators := [nodeID], innerSets := [] }

/-- The loop of `isQuorumSliceInternal` over its members: `uint32 thresholdLeft` is decremented
at each hit, and the loop succeeds when it reaches zero. -/
def thresholdReached : Nat → List Bool → Bool
  | _, [] => false
  | left, false :: hits => thresholdReached left hits
  | left, true :: hits =>
    let left := (left + 2 ^ 32 - 1) % 2 ^ 32
    if left = 0 then true else thresholdReached left hits

/-- The loop of `isVBlockingInternal` over its members: `int leftTillBlock` is decremented at
each hit, and the loop succeeds when it is at most zero. -/
def blockReached : Int → List Bool → Bool
  | _, [] => false
  | left, false :: hits => blockReached left hits
  | left, true :: hits => if left - 1 ≤ 0 then true else blockReached (left - 1) hits

mutual

/-- `nodeSet` contains a slice of the quorum set. -/
def isQuorumSlice (nodeSet : List NodeID) : SCPQuorumSet → Bool
  | ⟨threshold, validators, innerSets⟩ =>
    thresholdReached threshold
      (validators.map (fun v => decide (v ∈ nodeSet)) ++ innerSlices nodeSet innerSets)

/-- The inner quorum sets of which `nodeSet` contains a slice. -/
def innerSlices (nodeSet : List NodeID) : List SCPQuorumSet → List Bool
  | [] => []
  | q :: qs => isQuorumSlice nodeSet q :: innerSlices nodeSet qs

end

mutual

/-- `nodeSet` meets every slice of the quorum set. The distance to a block is computed in
`size_t` and truncated to `int`. -/
def isVBlocking (nodeSet : List NodeID) : SCPQuorumSet → Bool
  | ⟨threshold, validators, innerSets⟩ =>
    if threshold = 0 then false
    else
      let leftTillBlock : Int := 1 + validators.length + innerSets.length - threshold
      blockReached (leftTillBlock.bmod (2 ^ 32))
        (validators.map (fun v => decide (v ∈ nodeSet)) ++ innerBlocks nodeSet innerSets)

/-- The inner quorum sets that `nodeSet` blocks. -/
def innerBlocks (nodeSet : List NodeID) : List SCPQuorumSet → List Bool
  | [] => []
  | q :: qs => isVBlocking nodeSet q :: innerBlocks nodeSet qs

end

/-- What `QuorumSetSanityChecker` accumulates: the nodes seen and their number. -/
structure SanityChecker where
  knownNodes : List NodeID := []
  count : Nat := 0

/-- Adds the validators to the known nodes, unless one was already known. -/
def insertNodes : List NodeID → List NodeID → Option (List NodeID)
  | known, [] => some known
  | known, n :: ns => if n ∈ known then none else insertNodes (n :: known) ns

mutual

/-- `checkSanity` at a nesting depth; `none` when it answers false. -/
def checkSanity (extraChecks : Bool) :
    Nat → SCPQuorumSet → SanityChecker → Option SanityChecker
  | depth, ⟨threshold, validators, innerSets⟩, checker =>
    let totEntries := validators.length + innerSets.length
    let vBlockingSize := totEntries - threshold + 1
    if depth > 2 then none
    else if threshold < 1 then none
    else if threshold > totEntries then none
    else if extraChecks && threshold < vBlockingSize then none
    else do
      let known ← insertNodes checker.knownNodes validators
      checkSanityAll extraChecks (depth + 1) innerSets
        { knownNodes := known, count := checker.count + validators.length }

/-- `checkSanity` of every inner set in turn. -/
def checkSanityAll (extraChecks : Bool) :
    Nat → List SCPQuorumSet → SanityChecker → Option SanityChecker
  | _, [], checker => some checker
  | depth, q :: qs, checker => do
      let checker ← checkSanity extraChecks depth q checker
      checkSanityAll extraChecks depth qs checker

end

/-- The quorum set is well formed: nested at most three deep, thresholds in range, no node
twice, and between 1 and 1000 nodes. -/
def isQuorumSetSane (qSet : SCPQuorumSet) (extraChecks : Bool) : Bool :=
  match checkSanity extraChecks 0 qSet {} with
  | none => false
  | some checker => decide (1 ≤ checker.count ∧ checker.count ≤ 1000)

section Envelopes

variable {ν : Type*}

/-- The nodes whose statement passes the filter block the quorum set. -/
def isVBlockingWith (qSet : SCPQuorumSet) (map : FMap NodeID ν) (filter : ν → Bool) : Bool :=
  isVBlocking (map.keysWhere filter) qSet

/-- The quorum set of `nodeID`'s statement has a slice among `pNodes`. -/
def sliceFilter (map : FMap NodeID ν) (qfun : ν → Option SCPQuorumSet) (pNodes : List NodeID)
    (nodeID : NodeID) : Bool :=
  match (map.lookup nodeID).bind qfun with
  | some qSet => isQuorumSlice pNodes qSet
  | none => false

/-- The nodes whose statement passes the filter contain a quorum: nodes without a slice among
the remaining ones are removed until none is, and then the local quorum set is tried. -/
def isQuorum (qSet : SCPQuorumSet) (map : FMap NodeID ν) (qfun : ν → Option SCPQuorumSet)
    (filter : ν → Bool) : Bool :=
  let pNodes := map.keysWhere filter
  isQuorumSlice (shrink (sliceFilter map qfun) pNodes.length pNodes) qSet

end Envelopes

/-! ### Normalization -/

/-- The only validator of a quorum set of one validator. -/
def singleValidator : SCPQuorumSet → Option NodeID
  | ⟨1, [v], []⟩ => some v
  | _ => none

/-- Drops a node from the validators and lowers the `uint32` threshold for each occurrence. -/
def removeNode : Option NodeID → SCPQuorumSet → SCPQuorumSet
  | none, q => q
  | some id, ⟨threshold, validators, innerSets⟩ =>
    let kept := validators.filter (· ≠ id)
    ⟨(threshold + 2 ^ 32 - (validators.length - kept.length) % 2 ^ 32) % 2 ^ 32, kept, innerSets⟩

/-- Moves the inner sets that are a single validator to the end of the validators. -/
def mergeSingletons (q : SCPQuorumSet) : SCPQuorumSet :=
  ⟨q.threshold, q.validators ++ q.innerSets.filterMap singleValidator,
    q.innerSets.filter fun p => (singleValidator p).isNone⟩

/-- Replaces a set around a single inner set by that one. -/
def unwrap : SCPQuorumSet → SCPQuorumSet
  | ⟨1, [], [q]⟩ => q
  | q => q

mutual

/-- Removes a node, if any, from a quorum set and simplifies it, inner sets first. -/
def normalizeQSet (idToRemove : Option NodeID) : SCPQuorumSet → SCPQuorumSet
  | ⟨threshold, validators, innerSets⟩ =>
    unwrap (mergeSingletons
      (removeNode idToRemove ⟨threshold, validators, normalizeAll idToRemove innerSets⟩))

/-- Normalizes every inner set. -/
def normalizeAll (idToRemove : Option NodeID) : List SCPQuorumSet → List SCPQuorumSet
  | [] => []
  | q :: qs => normalizeQSet idToRemove q :: normalizeAll idToRemove qs

end

/-! ### Counting hits -/

/-- The number of hits `uint32 thresholdLeft` needs to reach zero. -/
def hitsNeeded (threshold : Nat) : Nat :=
  if threshold % 2 ^ 32 = 0 then 2 ^ 32 else threshold % 2 ^ 32

theorem hitsNeeded_pos (threshold : Nat) : 0 < hitsNeeded threshold := by
  unfold hitsNeeded
  split <;> omega

theorem thresholdReached_iff (left : Nat) (hits : List Bool) :
    thresholdReached left hits = true ↔ hitsNeeded left ≤ hits.count true := by
  induction hits generalizing left with
  | nil =>
    have := hitsNeeded_pos left
    simp [thresholdReached]
    omega
  | cons hit hits ih =>
    cases hit with
    | false => simpa [thresholdReached] using ih left
    | true =>
      simp only [thresholdReached, count_cons_self]
      unfold hitsNeeded at ih ⊢
      split
      case isTrue h => split <;> simp <;> omega
      case isFalse h =>
        rw [ih]
        split <;> split <;> omega

theorem blockReached_iff (left : Int) (hits : List Bool) :
    blockReached left hits = true ↔ 1 ≤ hits.count true ∧ left ≤ hits.count true := by
  induction hits generalizing left with
  | nil => simp [blockReached]
  | cons hit hits ih =>
    cases hit with
    | false => simpa [blockReached] using ih left
    | true =>
      simp only [blockReached, count_cons_self]
      split
      case isTrue h => simp; omega
      case isFalse h => rw [ih]; omega

/-! ### Induction over the nesting -/

mutual

@[induction_eliminator]
theorem SCPQuorumSet.nested {P : SCPQuorumSet → Prop}
    (step : ∀ threshold validators innerSets, (∀ q ∈ innerSets, P q) →
      P ⟨threshold, validators, innerSets⟩) : ∀ q : SCPQuorumSet, P q
  | ⟨threshold, validators, innerSets⟩ =>
    step threshold validators innerSets (SCPQuorumSet.nestedAll step innerSets)

theorem SCPQuorumSet.nestedAll {P : SCPQuorumSet → Prop}
    (step : ∀ threshold validators innerSets, (∀ q ∈ innerSets, P q) →
      P ⟨threshold, validators, innerSets⟩) : ∀ qs : List SCPQuorumSet, ∀ q ∈ qs, P q
  | [] => by simp
  | q :: qs => forall_mem_cons.2 ⟨SCPQuorumSet.nested step q, SCPQuorumSet.nestedAll step qs⟩

end

section Members

variable (s : List NodeID) (qs : List SCPQuorumSet)

theorem innerSlices_eq_map : innerSlices s qs = qs.map (isQuorumSlice s) := by
  induction qs with
  | nil => rfl
  | cons q qs ih => rw [innerSlices, ih, map_cons]

theorem innerBlocks_eq_map : innerBlocks s qs = qs.map (isVBlocking s) := by
  induction qs with
  | nil => rfl
  | cons q qs ih => rw [innerBlocks, ih, map_cons]

end Members

/-- The members of a quorum set that pass a test for validators or one for inner sets. -/
def hits (node : NodeID → Bool) (inner : SCPQuorumSet → Bool) (q : SCPQuorumSet) : Nat :=
  q.validators.countP node + q.innerSets.countP inner

theorem count_members (s : List NodeID) (inner : SCPQuorumSet → Bool) (q : SCPQuorumSet) :
    (q.validators.map (fun v => decide (v ∈ s)) ++ q.innerSets.map inner).count true =
      hits (· ∈ s) inner q := by
  rw [List.count, countP_append, countP_map, countP_map, hits]
  congr 1 <;> exact countP_congr fun x _ => by simp

variable {q : SCPQuorumSet} {s t : List NodeID}

/-- `isQuorumSlice` counts the members that are hit. -/
theorem isQuorumSlice_iff :
    isQuorumSlice s q = true ↔ hitsNeeded q.threshold ≤ hits (· ∈ s) (isQuorumSlice s) q := by
  obtain ⟨threshold, validators, innerSets⟩ := q
  rw [isQuorumSlice, thresholdReached_iff, innerSlices_eq_map]
  exact iff_of_eq (congrArg _ (count_members s _ ⟨threshold, validators, innerSets⟩))

/-- What `leftTillBlock` starts with. -/
def SCPQuorumSet.leftTillBlock (q : SCPQuorumSet) : Int :=
  (1 + q.validators.length + q.innerSets.length - q.threshold : Int).bmod (2 ^ 32)

/-- `isVBlocking` counts the members that are hit. -/
theorem isVBlocking_iff :
    isVBlocking s q = true ↔ q.threshold ≠ 0 ∧ 1 ≤ hits (· ∈ s) (isVBlocking s) q ∧
      q.leftTillBlock ≤ hits (· ∈ s) (isVBlocking s) q := by
  obtain ⟨threshold, validators, innerSets⟩ := q
  rw [isVBlocking, innerBlocks_eq_map]
  split
  case isTrue h => simp [h]
  case isFalse h =>
    rw [blockReached_iff, ← count_members s _ ⟨threshold, validators, innerSets⟩]
    simp [h, SCPQuorumSet.leftTillBlock]

/-! ### More nodes hit more -/

theorem hits_mono {inner inner' : SCPQuorumSet → Bool} (h : s ⊆ t)
    (hinner : ∀ p ∈ q.innerSets, inner p = true → inner' p = true) :
    hits (· ∈ s) inner q ≤ hits (· ∈ t) inner' q := by
  refine Nat.add_le_add (countP_mono_left fun v _ hv => ?_) (countP_mono_left hinner)
  exact decide_eq_true (h (of_decide_eq_true hv))

/-- A larger set of nodes still contains a slice. -/
theorem isQuorumSlice_mono (h : s ⊆ t) (q : SCPQuorumSet) :
    isQuorumSlice s q = true → isQuorumSlice t q = true := by
  induction q with
  | step threshold validators innerSets ih =>
    rw [isQuorumSlice_iff, isQuorumSlice_iff]
    exact fun hle => hle.trans (hits_mono h ih)

/-- A larger set of nodes still blocks. -/
theorem isVBlocking_mono (h : s ⊆ t) (q : SCPQuorumSet) :
    isVBlocking s q = true → isVBlocking t q = true := by
  induction q with
  | step threshold validators innerSets ih =>
    have hmono := @hits_mono ⟨threshold, validators, innerSets⟩ s t _ _ h ih
    rw [isVBlocking_iff, isVBlocking_iff]
    exact fun hblocks => ⟨hblocks.1, hblocks.2.1.trans hmono, by omega⟩

/-- No member is hit by an empty set. -/
theorem exists_of_hits {inner : SCPQuorumSet → Bool} (h : 0 < hits (· ∈ s) inner q)
    (hinner : ∀ p ∈ q.innerSets, inner p = true → ∃ v, v ∈ s) : ∃ v, v ∈ s := by
  rcases Nat.add_pos_iff_pos_or_pos.1 h with hpos | hpos
  · obtain ⟨v, -, hv⟩ := countP_pos_iff.1 hpos
    exact ⟨v, of_decide_eq_true hv⟩
  · obtain ⟨p, hp, hhit⟩ := countP_pos_iff.1 hpos
    exact hinner p hp hhit

/-- A set with a slice of some quorum set has a member. -/
theorem exists_mem_of_isQuorumSlice : isQuorumSlice s q = true → ∃ v, v ∈ s := by
  induction q with
  | step threshold validators innerSets ih =>
    rw [isQuorumSlice_iff]
    exact fun hle => exists_of_hits ((hitsNeeded_pos _).trans_le hle) ih

/-- A set that blocks some quorum set has a member. -/
theorem exists_mem_of_isVBlocking : isVBlocking s q = true → ∃ v, v ∈ s := by
  induction q with
  | step threshold validators innerSets ih =>
    rw [isVBlocking_iff]
    exact fun hblocks => exists_of_hits hblocks.2.1 ih

/-! ### What `isQuorum` decides -/

section Envelopes

variable {ν : Type*} {qSet : SCPQuorumSet} {map map' : FMap NodeID ν}
  {qfun : ν → Option SCPQuorumSet} {filter filter' : ν → Bool}

theorem sliceFilter_iff {u : List NodeID} {v : NodeID} :
    sliceFilter map qfun u v = true ↔
      ∃ st q, map.lookup v = some st ∧ qfun st = some q ∧ isQuorumSlice u q = true := by
  unfold sliceFilter
  cases hst : map.lookup v with
  | none => simp
  | some st => cases hq : qfun st <;> simp [hq]

theorem sliceFilter_monotone : MonotoneTest (sliceFilter map qfun) := by
  intro u v huv x hx
  obtain ⟨st, q, hst, hq, hslice⟩ := sliceFilter_iff.1 hx
  exact sliceFilter_iff.2 ⟨st, q, hst, hq, isQuorumSlice_mono huv q hslice⟩

/-- `isQuorum` succeeds exactly when some set of nodes that pass the filter contains a slice of
each member and of the local node. -/
theorem isQuorum_iff :
    isQuorum qSet map qfun filter = true ↔
      ∃ u, u ⊆ map.keysWhere filter ∧ ClosedUnder (sliceFilter map qfun) u ∧
        isQuorumSlice u qSet = true := by
  unfold isQuorum
  constructor
  · intro h
    exact ⟨_, shrink_subset, shrink_closed le_rfl, h⟩
  · rintro ⟨u, hsub, hclosed, hslice⟩
    exact isQuorumSlice_mono (closed_subset_shrink sliceFilter_monotone hclosed _ hsub) _ hslice

/-- A quorum for one filter is one for another, over another map, when each node that passes
the first passes the second with the same quorum set. -/
theorem isQuorum_transfer (h : isQuorum qSet map qfun filter = true)
    (hpass : ∀ v st, map.lookup v = some st → filter st = true →
      ∃ st', map'.lookup v = some st' ∧ filter' st' = true ∧ qfun st' = qfun st) :
    isQuorum qSet map' qfun filter' = true := by
  obtain ⟨u, hsub, hclosed, hslice⟩ := isQuorum_iff.1 h
  refine isQuorum_iff.2 ⟨u, fun v hv => ?_, fun v hv => ?_, hslice⟩
  · obtain ⟨st, hst, hfilter⟩ := FMap.mem_keysWhere.1 (hsub hv)
    obtain ⟨st', hst', hfilter', _⟩ := hpass v st hst hfilter
    exact FMap.mem_keysWhere.2 ⟨st', hst', hfilter'⟩
  · obtain ⟨st, hst, hfilter⟩ := FMap.mem_keysWhere.1 (hsub hv)
    obtain ⟨st', hst', _, hqfun⟩ := hpass v st hst hfilter
    obtain ⟨st₂, q, hst₂, hq, hv⟩ := sliceFilter_iff.1 (hclosed v hv)
    obtain rfl : st₂ = st := Option.mem_unique hst₂ hst
    exact sliceFilter_iff.2 ⟨st', q, hst', hqfun.trans hq, hv⟩

/-- A blocking set for one filter is one for another, over another map, when each node that
passes the first passes the second. -/
theorem isVBlockingWith_transfer (h : isVBlockingWith qSet map filter = true)
    (hpass : ∀ v st, map.lookup v = some st → filter st = true →
      ∃ st', map'.lookup v = some st' ∧ filter' st' = true) :
    isVBlockingWith qSet map' filter' = true := by
  refine isVBlocking_mono (fun v hv => ?_) qSet h
  obtain ⟨st, hst, hfilter⟩ := FMap.mem_keysWhere.1 hv
  exact FMap.mem_keysWhere.2 (hpass v st hst hfilter)

/-- Some node passes the filter of a blocking set. -/
theorem exists_of_isVBlockingWith (h : isVBlockingWith qSet map filter = true) :
    ∃ v st, map.lookup v = some st ∧ filter st = true := by
  obtain ⟨v, hv⟩ := exists_mem_of_isVBlocking h
  exact ⟨v, FMap.mem_keysWhere.1 hv⟩

end Envelopes

end SpnCore.Scp
