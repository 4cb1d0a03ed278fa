import SpnCore.Lib.Cheapest
import SpnCore.Scp.Slices

/-!
# The closest blocking set

`findClosestVBlocking` looks for the fewest agreeing nodes whose failure, together with the nodes
that do not agree, blocks a quorum set; one node is excluded, it never fails. Validators cost one
node each and are taken first, then the inner sets that need the fewest nodes.

An inner set without nodes to take counts as blocked already, and one with too few of them is taken
as if they were enough. Both may be sets that nobody but the excluded node can block. The answer is
never too large; it is the smallest one exactly when no such set is relied on, at any level.
-/

namespace SpnCore.Scp

open Lib List
open Nomination (allNodes innerNodes)

/-! ### The search -/

/-- How a member stands: it never fails, it has failed, or `x` would have to fail. -/
inductive Standing (β : Type) where
  | excluded
  | blocked
  | saved (x : β)

/-- The loops over the members: `size_t leftTillBlock` is decremented for each blocked member, and
`none` says that it reached zero. -/
def scanMembers {β : Type} : List (Standing β) → Nat → List β → Option (Nat × List β)
  | [], left, res => some (left, res)
  | .excluded :: ms, left, res => scanMembers ms left res
  | .blocked :: ms, left, res =>
    let left := (left + 2 ^ 64 - 1) % 2 ^ 64
    if left = 0 then none else scanMembers ms left res
  | .saved x :: ms, left, res => scanMembers ms left (res ++ [x])

/-- How a validator stands. -/
def validatorStanding (nodes : List NodeID) (excluded : Option NodeID) (v : NodeID) :
    Standing NodeID :=
  if excluded = some v then .excluded else if v ∈ nodes then .saved v else .blocked

/-- How an inner set stands, by the nodes found for it. -/
def innerStanding (found : List NodeID) : Standing (List NodeID) :=
  if found.length = 0 then .blocked else .saved found

mutual

/-- The fewest of the agreeing nodes that block the quorum set if they fail as well. -/
def findClosestVBlocking (nodes : List NodeID) (excluded : Option NodeID) :
    SCPQuorumSet → List NodeID
  | ⟨threshold, validators, innerSets⟩ =>
    let leftTillBlock :=
      (1 + validators.length + innerSets.length + 2 ^ 64 - threshold) % 2 ^ 64
    match scanMembers (validators.map (validatorStanding nodes excluded)) leftTillBlock [] with
    | none => []
    | some (leftTillBlock, res) =>
      match scanMembers ((findClosestAll nodes excluded innerSets).map innerStanding)
          leftTillBlock [] with
      | none => []
      | some (leftTillBlock, resInternals) =>
        let res := res.take leftTillBlock
        res ++ ((byCost List.length resInternals).take (leftTillBlock - res.length)).flatten

/-- The nodes found for each inner set. -/
def findClosestAll (nodes : List NodeID) (excluded : Option NodeID) :
    List SCPQuorumSet → List (List NodeID)
  | [] => []
  | q :: qs => findClosestVBlocking nodes excluded q :: findClosestAll nodes excluded qs

end

/-- An inner set of the excluded node alone is taken for blocked: the first validator would have to
fail, and nothing is returned. -/
theorem findClosestVBlocking_excluded_alone :
    isQuorumSetSane ⟨2, [1], [⟨1, [2], []⟩]⟩ true = true ∧
      isVBlocking ([] ++ [1]) ⟨2, [1], [⟨1, [2], []⟩]⟩ = true ∧
      findClosestVBlocking [1, 2] (some 2) ⟨2, [1], [⟨1, [2], []⟩]⟩ = [] ∧
      isVBlocking [] ⟨2, [1], [⟨1, [2], []⟩]⟩ = false := by
  decide

theorem findClosestAll_eq_map (nodes : List NodeID) (excluded : Option NodeID)
    (qs : List SCPQuorumSet) :
    findClosestAll nodes excluded qs = qs.map (findClosestVBlocking nodes excluded) := by
  induction qs with
  | nil => rfl
  | cons q qs ih => rw [findClosestAll, ih, map_cons]

/-! ### What the loops compute -/

/-- The member has failed. -/
def Standing.isBlocked {β : Type} : Standing β → Bool
  | .blocked => true
  | _ => false

/-- What would have to fail. -/
def Standing.saved? {β : Type} : Standing β → Option β
  | .saved x => some x
  | _ => none

variable {left : Nat}

theorem scanMembers_eq {β : Type} (ms : List (Standing β)) (res : List β) (hpos : 1 ≤ left)
    (hlt : left < 2 ^ 64) :
    scanMembers ms left res =
      if left ≤ ms.countP Standing.isBlocked then none
      else some (left - ms.countP Standing.isBlocked, res ++ ms.filterMap Standing.saved?) := by
  induction ms generalizing left res with
  | nil => simp [scanMembers, Nat.not_le.2 hpos]
  | cons m ms ih =>
    cases m with
    | excluded =>
      simpa [scanMembers, Standing.isBlocked, Standing.saved?, filterMap_cons] using
        ih res hpos hlt
    | saved x =>
      simpa [scanMembers, Standing.isBlocked, Standing.saved?] using ih (res ++ [x]) hpos hlt
    | blocked =>
      have hleft : (left + 2 ^ 64 - 1) % 2 ^ 64 = left - 1 := by omega
      have hcount : (Standing.blocked :: ms).countP Standing.isBlocked =
          ms.countP Standing.isBlocked + 1 := countP_cons_of_pos rfl
      rw [scanMembers, hleft, hcount]
      split
      case isTrue hzero => rw [if_pos (by omega)]
      case isFalse hzero =>
        rw [ih res (by omega) (by omega)]
        by_cases hall : left ≤ ms.countP Standing.isBlocked + 1
        · rw [if_pos (by omega), if_pos hall]
        · rw [if_neg (by omega), if_neg hall, Nat.sub_sub, Nat.add_comm 1]
          rfl

section Search

variable (nodes : List NodeID) (excluded : Option NodeID) {q : SCPQuorumSet}

/-- The node agrees and may fail. -/
def MayFail (v : NodeID) : Bool := decide (v ∈ nodes) && decide (excluded ≠ some v)

/-- The node does not agree. -/
def Missing (v : NodeID) : Bool := decide (v ∉ nodes) && decide (excluded ≠ some v)

/-- How many members have to be blocked. -/
def toBlock (q : SCPQuorumSet) : Nat :=
  1 + q.validators.length + q.innerSets.length - q.threshold

mutual

/-- How many nodes are asked for to block the quorum set: a node for each validator, and the
cheapest inner sets for the rest. When all members are too few, all of them are asked for. -/
def price : SCPQuorumSet → Nat
  | ⟨threshold, validators, innerSets⟩ =>
    let prices := priceAll innerSets
    let left := toBlock ⟨threshold, validators, innerSets⟩ -
      (validators.countP (Missing nodes excluded) + prices.countP (· = 0))
    let taken := min left (validators.countP (MayFail nodes excluded))
    taken + ((byCost id (prices.filter (· ≠ 0))).take (left - taken)).sum

/-- The price of each inner set. -/
def priceAll : List SCPQuorumSet → List Nat
  | [] => []
  | q :: qs => price q :: priceAll qs

end

/-- Nodes are asked for to block the quorum set. -/
def Needed (q : SCPQuorumSet) : Bool := decide (price nodes excluded q ≠ 0)

/-- How many members are left to block when those without a price count as blocked. -/
def leftToTake (q : SCPQuorumSet) : Nat :=
  toBlock q - (q.validators.countP (Missing nodes excluded) +
    q.innerSets.countP fun inner => !Needed nodes excluded inner)

/-- The validators that are taken: the first ones. -/
def takenValidators (q : SCPQuorumSet) : List NodeID :=
  (q.validators.filter (MayFail nodes excluded)).take (leftToTake nodes excluded q)

/-- The inner sets that are taken: the cheapest ones, in their order. -/
def takenSets (q : SCPQuorumSet) : List SCPQuorumSet :=
  (byCost (price nodes excluded) (q.innerSets.filter (Needed nodes excluded))).take
    (leftToTake nodes excluded q - (takenValidators nodes excluded q).length)

/-- The inner sets the search relies on: it takes them for blocked, or it blocks them. -/
def reliedOn (q : SCPQuorumSet) : List SCPQuorumSet :=
  q.innerSets.filter (fun inner => !Needed nodes excluded inner) ++ takenSets nodes excluded q

/-- The search is right about a quorum set: the missing nodes block it, or the excluded node is no
slice of it among its validators and the search is right about the inner sets it relies on. -/
inductive SCPQuorumSet.Judged (missing : List NodeID) : SCPQuorumSet → Prop
  | blocked {q : SCPQuorumSet} : isVBlocking missing q = true → q.Judged missing
  | taken {q : SCPQuorumSet} : (∀ v ∈ q.validators, excluded = some v → 2 ≤ q.threshold) →
      (∀ inner ∈ reliedOn nodes excluded q, inner.Judged missing) → q.Judged missing

variable {nodes excluded}

theorem priceAll_eq_map (qs : List SCPQuorumSet) :
    priceAll nodes excluded qs = qs.map (price nodes excluded) := by
  induction qs with
  | nil => rfl
  | cons q qs ih => rw [priceAll, ih, map_cons]

theorem length_takenValidators : (takenValidators nodes excluded q).length =
    min (leftToTake nodes excluded q) (q.validators.countP (MayFail nodes excluded)) := by
  rw [takenValidators, length_take, countP_eq_length_filter]

theorem price_eq : price nodes excluded q = (takenValidators nodes excluded q).length +
    ((takenSets nodes excluded q).map (price nodes excluded)).sum := by
  have hsorted : (byCost (price nodes excluded)
      (q.innerSets.filter (Needed nodes excluded))).map (price nodes excluded) =
        byCost id ((q.innerSets.map (price nodes excluded)).filter (· ≠ 0)) := by
    rw [filter_map]
    exact map_insertionSort _ _ _ _ fun _ _ _ _ => Iff.rfl
  rw [length_takenValidators, takenSets, length_takenValidators, map_take, hsorted, leftToTake]
  obtain ⟨threshold, validators, innerSets⟩ := q
  rw [price, priceAll_eq_map, countP_map]
  have hblocked : innerSets.countP ((fun n => decide (n = 0)) ∘ price nodes excluded) =
      innerSets.countP fun inner => !Needed nodes excluded inner :=
    countP_congr fun inner _ => by simp [Needed]
  rw [hblocked]

/-! ### What the search finds -/

theorem countP_validatorStanding (vs : List NodeID) :
    (vs.map (validatorStanding nodes excluded)).countP Standing.isBlocked =
      vs.countP (Missing nodes excluded) := by
  rw [countP_map]
  refine countP_congr fun v _ => ?_
  by_cases hex : excluded = some v <;> by_cases hv : v ∈ nodes <;>
    simp [validatorStanding, Missing, Standing.isBlocked, hex, hv]

theorem filterMap_validatorStanding (vs : List NodeID) :
    (vs.map (validatorStanding nodes excluded)).filterMap Standing.saved? =
      vs.filter (MayFail nodes excluded) := by
  induction vs with
  | nil => rfl
  | cons v vs ih =>
    by_cases hex : excluded = some v <;> by_cases hv : v ∈ nodes <;>
      simp [validatorStanding, MayFail, Standing.saved?, hex, hv, filterMap_cons] at ih ⊢ <;>
      exact ih

section Prices

variable {qs : List SCPQuorumSet} (hprice : ∀ inner ∈ qs,
  (findClosestVBlocking nodes excluded inner).length = price nodes excluded inner)
include hprice

theorem countP_innerStanding :
    ((qs.map (findClosestVBlocking nodes excluded)).map innerStanding).countP Standing.isBlocked =
      qs.countP fun q => !Needed nodes excluded q := by
  rw [map_map, countP_map]
  refine countP_congr fun q hq => ?_
  by_cases hzero : price nodes excluded q = 0 <;>
    simp [innerStanding, Needed, Standing.isBlocked, hprice q hq, hzero]

theorem filterMap_innerStanding :
    ((qs.map (findClosestVBlocking nodes excluded)).map innerStanding).filterMap Standing.saved? =
      (qs.filter (Needed nodes excluded)).map (findClosestVBlocking nodes excluded) := by
  induction qs with
  | nil => rfl
  | cons q qs ih =>
    obtain ⟨hq, hqs⟩ := forall_mem_cons.1 hprice
    have := ih hqs
    by_cases hzero : price nodes excluded q = 0 <;>
      simp [innerStanding, Needed, Standing.saved?, hq, hzero, filterMap_cons] at this ⊢ <;>
      exact this

theorem byCost_map_find :
    byCost List.length ((qs.filter (Needed nodes excluded)).map
        (findClosestVBlocking nodes excluded)) =
      (byCost (price nodes excluded) (qs.filter (Needed nodes excluded))).map
        (findClosestVBlocking nodes excluded) := by
  refine (map_insertionSort _ _ _ _ fun a ha b hb => ?_).symm
  rw [hprice a (mem_of_mem_filter ha), hprice b (mem_of_mem_filter hb)]

end Prices

/-- The search returns the validators and the nodes of the inner sets that are taken. -/
theorem findClosestVBlocking_eq (hpos : 1 ≤ toBlock q) (hlt : toBlock q < 2 ^ 64)
    (hle : q.threshold ≤ q.validators.length + q.innerSets.length)
    (hprice : ∀ inner ∈ q.innerSets,
      (findClosestVBlocking nodes excluded inner).length = price nodes excluded inner) :
    findClosestVBlocking nodes excluded q = takenValidators nodes excluded q ++
      (takenSets nodes excluded q).flatMap (findClosestVBlocking nodes excluded) := by
  obtain ⟨left, hleft⟩ : ∃ left, left = leftToTake nodes excluded q := ⟨_, rfl⟩
  rw [takenSets, takenValidators, ← hleft]
  unfold leftToTake at hleft
  obtain ⟨threshold, validators, innerSets⟩ := q
  have hwrap : (1 + validators.length + innerSets.length + 2 ^ 64 - threshold) % 2 ^ 64 =
      toBlock ⟨threshold, validators, innerSets⟩ := by
    unfold toBlock at hlt ⊢
    dsimp only at hle hlt ⊢
    omega
  rw [findClosestVBlocking, hwrap, scanMembers_eq _ _ hpos hlt, countP_validatorStanding,
    filterMap_validatorStanding, findClosestAll_eq_map]
  dsimp only at hleft hprice ⊢
  by_cases hvalidators : toBlock ⟨threshold, validators, innerSets⟩ ≤
      validators.countP (Missing nodes excluded)
  · rw [if_pos hvalidators, show left = 0 by omega, take_zero, Nat.zero_sub, take_zero]
    rfl
  rw [if_neg hvalidators]
  dsimp only
  rw [scanMembers_eq _ _ (by omega) (by omega), countP_innerStanding hprice,
    filterMap_innerStanding hprice, Nat.sub_sub, ← hleft]
  by_cases hzero : left = 0
  · rw [if_pos (by omega), hzero, take_zero, Nat.zero_sub, take_zero]
    rfl
  · rw [if_neg (by omega)]
    dsimp only
    rw [nil_append, nil_append, byCost_map_find hprice, ← map_take, flatMap_def]

/-- What the proofs below use of a well-shaped quorum set. -/
structure AtLevel (nodes : List NodeID) (excluded : Option NodeID) (q : SCPQuorumSet) : Prop where
  found : findClosestVBlocking nodes excluded q = takenValidators nodes excluded q ++
    (takenSets nodes excluded q).flatMap (findClosestVBlocking nodes excluded)
  length_eq : (findClosestVBlocking nodes excluded q).length = price nodes excluded q
  blocks : ∀ s, isVBlocking s q = true ↔ toBlock q ≤ hits (· ∈ s) (isVBlocking s) q
  threshold_pos : 1 ≤ q.threshold
  toBlock_add : toBlock q + q.threshold = 1 + q.validators.length + q.innerSets.length
  nonempty : allNodes q ≠ []

/-- It holds at every level. -/
inductive Levels (nodes : List NodeID) (excluded : Option NodeID) : SCPQuorumSet → Prop
  | mk {q : SCPQuorumSet} : AtLevel nodes excluded q →
      (∀ inner ∈ q.innerSets, Levels nodes excluded inner) → Levels nodes excluded q

theorem Levels.here : Levels nodes excluded q → AtLevel nodes excluded q
  | .mk hlevel _ => hlevel

theorem Levels.inner : Levels nodes excluded q → ∀ inner ∈ q.innerSets, Levels nodes excluded inner
  | .mk _ hlevels => hlevels

theorem SCPQuorumSet.Shaped.levels {extraChecks : Bool} {depth : Nat}
    (h : q.Shaped extraChecks depth) (hsize : (allNodes q).length ≤ 1000) :
    Levels nodes excluded q := by
  have hblocking := fun s => h.isVBlocking_iff (s := s) hsize
  have hmembers := h.members_le
  induction h with
  | @mk depth threshold validators innerSets hdepth hpos hle hextra hshapes ih =>
    have hinner : ∀ inner ∈ innerSets, Levels nodes excluded inner := by
      intro inner hmem
      have hsize := (length_allNodes_le hmem).trans hsize
      exact ih inner hmem hsize (fun s => (hshapes inner hmem).isVBlocking_iff hsize)
        (hshapes inner hmem).members_le
    have hprice := fun inner hmem => (hinner inner hmem).here.length_eq
    have hblock : toBlock ⟨threshold, validators, innerSets⟩ + threshold =
        1 + validators.length + innerSets.length := by
      unfold toBlock
      dsimp only
      omega
    dsimp only at hmembers
    have hfound := @findClosestVBlocking_eq nodes excluded ⟨threshold, validators, innerSets⟩
      (by omega) (by omega) hle hprice
    refine .mk ⟨hfound, ?_, fun s => ?_, hpos, hblock, ne_nil_of_length_pos (by omega)⟩ hinner
    · rw [hfound, length_append, length_flatMap, price_eq]
      congr 2
      refine map_congr_left fun inner hmem => hprice inner ?_
      exact mem_of_mem_filter ((byCost_perm _ _).mem_iff.1 (mem_of_mem_take hmem))
    · rw [hblocking s]
      dsimp only
      omega

theorem mem_takenSets {inner : SCPQuorumSet} (h : inner ∈ takenSets nodes excluded q) :
    inner ∈ q.innerSets ∧ Needed nodes excluded inner = true :=
  mem_filter.1 ((byCost_perm _ _).mem_iff.1 (mem_of_mem_take h))

theorem mem_takenValidators {v : NodeID} (h : v ∈ takenValidators nodes excluded q) :
    v ∈ q.validators ∧ MayFail nodes excluded v = true :=
  mem_filter.1 (mem_of_mem_take h)

theorem reliedOn_subperm : (reliedOn nodes excluded q).Subperm q.innerSets := by
  have hsplit := filter_append_perm (fun inner => !Needed nodes excluded inner) q.innerSets
  simp only [Bool.not_not] at hsplit
  refine Subperm.trans ?_ hsplit.subperm
  exact (subperm_append_left _).2
    ((take_sublist _ _).subperm.trans (byCost_perm _ _).subperm)

theorem length_reliedOn : (reliedOn nodes excluded q).length =
    (q.innerSets.countP fun inner => !Needed nodes excluded inner) +
      min (leftToTake nodes excluded q - (takenValidators nodes excluded q).length)
        (q.innerSets.countP (Needed nodes excluded)) := by
  rw [reliedOn, length_append, takenSets, length_take, (byCost_perm _ _).length_eq,
    countP_eq_length_filter, countP_eq_length_filter]

/-- The nodes found are nodes of the quorum set that may fail. -/
theorem Levels.mem_found {v : NodeID} (h : Levels nodes excluded q)
    (hv : v ∈ findClosestVBlocking nodes excluded q) :
    v ∈ allNodes q ∧ MayFail nodes excluded v = true := by
  induction h with
  | mk hlevel _ ih =>
    rw [hlevel.found, mem_append, mem_flatMap] at hv
    rcases hv with hv | ⟨inner, hinner, hv⟩
    · exact (mem_takenValidators hv).imp_left mem_allNodes_of_validator
    · have hmem := (mem_takenSets hinner).1
      exact (ih inner hmem hv).imp_left (mem_allNodes_of_inner hmem)

/-! ### The nodes found are the fewest -/

section Fewest

variable {missing t : List NodeID} (ht : ∀ v ∈ t, MayFail nodes excluded v = true)

include ht in
/-- The members that nodes hit, beyond those that count as blocked already. -/
theorem hits_le (hmissing : ∀ v ∈ q.validators, v ∈ missing → Missing nodes excluded v = true) :
    hits (· ∈ missing ++ t) (isVBlocking (missing ++ t)) q ≤
      q.validators.countP (Missing nodes excluded) +
        (q.innerSets.countP fun inner => !Needed nodes excluded inner) +
        ((q.validators.filter (MayFail nodes excluded)).countP (· ∈ t) +
          (q.innerSets.filter (Needed nodes excluded)).countP (isVBlocking (missing ++ t))) := by
  have hvalidators := countP_le_add (p := (· ∈ missing ++ t)) (q := Missing nodes excluded)
    (r := fun v => decide (v ∈ t) && MayFail nodes excluded v) (l := q.validators) fun v hv h => by
      rcases mem_append.1 (of_decide_eq_true h) with hmem | hmem
      · exact .inl (hmissing v hv hmem)
      · exact .inr (by simp [hmem, ht v hmem])
  have hsets := countP_le_add (p := isVBlocking (missing ++ t))
    (q := fun inner => !Needed nodes excluded inner)
    (r := fun inner => isVBlocking (missing ++ t) inner && Needed nodes excluded inner)
    (l := q.innerSets) fun inner _ h => by
      cases hneeded : Needed nodes excluded inner <;> simp [h]
  rw [countP_filter, countP_filter]
  unfold hits
  omega

/-- The inner sets that nodes block are paid for. -/
theorem sum_price_le_countP {qs : List SCPQuorumSet} {p : SCPQuorumSet → Bool}
    (hinner : ∀ inner ∈ qs, p inner = true →
      price nodes excluded inner ≤ (allNodes inner).countP (· ∈ t)) :
    ((qs.filter p).map (price nodes excluded)).sum ≤ (innerNodes qs).countP (· ∈ t) := by
  induction qs with
  | nil => simp
  | cons inner qs ih =>
    obtain ⟨hpaid, hrest⟩ := forall_mem_cons.1 hinner
    have hsum := ih hrest
    rw [innerNodes, countP_append, filter_cons]
    split
    case isTrue h =>
      have := hpaid h
      rw [map_cons, sum_cons]
      omega
    case isFalse h => omega

include ht in
/-- Other nodes that block the quorum set are not fewer, whether or not the search is right. -/
theorem Levels.price_le (h : Levels nodes excluded q)
    (hmissing : ∀ v ∈ allNodes q, v ∈ missing → Missing nodes excluded v = true)
    (hblocks : isVBlocking (missing ++ t) q = true) :
    price nodes excluded q ≤ (allNodes q).countP (· ∈ t) := by
  induction h with
  | @mk q hlevel _ ih =>
    have hhits := ((hlevel.blocks _).1 hblocks).trans
      (hits_le ht fun v hv => hmissing v (mem_allNodes_of_validator hv))
    have hsum := sum_price_le_countP (p := isVBlocking (missing ++ t)) fun inner hmem =>
      ih inner hmem fun v hv => hmissing v (mem_allNodes_of_inner hmem hv)
    obtain ⟨hit, hhit⟩ : ∃ hit, hit =
      (q.innerSets.filter (Needed nodes excluded)).filter (isVBlocking (missing ++ t)) := ⟨_, rfl⟩
    have hpaid :
        (hit.map (price nodes excluded)).sum ≤ (innerNodes q.innerSets).countP (· ∈ t) := by
      rw [hhit, filter_comm]
      exact (filter_sublist.map _).sum_le_sum (fun _ _ => Nat.zero_le _) |>.trans hsum
    rw [countP_eq_length_filter (l := q.innerSets.filter _), ← hhit] at hhits
    have hcheapest := @sum_take_byCost_le _ (price nodes excluded)
      (q.innerSets.filter (Needed nodes excluded)) hit
    have hnodes : (allNodes q).countP (· ∈ t) =
      q.validators.countP (· ∈ t) + (innerNodes q.innerSets).countP (· ∈ t) := by
      obtain ⟨threshold, validators, innerSets⟩ := q
      rw [allNodes, countP_append]
    have hfilter : (q.validators.filter (MayFail nodes excluded)).countP (· ∈ t) ≤
      q.validators.countP (· ∈ t) := filter_sublist.countP_le
    have hmost : (q.validators.filter (MayFail nodes excluded)).countP (· ∈ t) ≤
      q.validators.countP (MayFail nodes excluded) := by
      rw [countP_eq_length_filter (l := q.validators)]
      exact countP_le_length
    have hvalidators := @length_takenValidators nodes excluded q
    have hleft : leftToTake nodes excluded q = toBlock q - _ := rfl
    have hcost := hcheapest (fun inner hinner => Nat.one_le_iff_ne_zero.2 (by
      simpa [Needed] using (mem_filter.1 hinner).2)) (hhit ▸ filter_sublist)
      (k := leftToTake nodes excluded q - (takenValidators nodes excluded q).length) (by omega)
    rw [price_eq, takenSets]
    omega

end Fewest

/-! ### When the nodes found block -/

/-- Only the nodes of a quorum set matter for whether it is blocked. -/
theorem isVBlocking_congr {s s' : List NodeID} (h : ∀ v ∈ allNodes q, v ∈ s ↔ v ∈ s') :
    isVBlocking s q = isVBlocking s' q := by
  induction q with
  | step threshold validators innerSets ih =>
    have hhits : hits (· ∈ s) (isVBlocking s) ⟨threshold, validators, innerSets⟩ =
        hits (· ∈ s') (isVBlocking s') ⟨threshold, validators, innerSets⟩ :=
      hits_congr (fun v hv => by simp [h v (mem_allNodes_of_validator hv)])
        fun inner hmem => ih inner hmem fun v hv => h v (mem_allNodes_of_inner hmem hv)
    rw [Bool.eq_iff_iff, isVBlocking_iff, isVBlocking_iff, hhits]

/-- The members of a quorum set without repetitions share no node. -/
theorem nodup_members (hnodup : (allNodes q).Nodup) :
    q.validators.Nodup ∧ (∀ inner ∈ q.innerSets, (allNodes inner).Nodup) ∧
      (∀ v ∈ q.validators, ∀ inner ∈ q.innerSets, v ∉ allNodes inner) ∧
      q.innerSets.Pairwise fun a b => (allNodes a).Disjoint (allNodes b) := by
  obtain ⟨threshold, validators, innerSets⟩ := q
  rw [allNodes, innerNodes_eq_flatMap, nodup_append', nodup_flatMap] at hnodup
  obtain ⟨hvalidators, ⟨hinner, hpairwise⟩, hdisjoint⟩ := hnodup
  refine ⟨hvalidators, hinner, fun v hv inner hmem hin => ?_, hpairwise⟩
  exact hdisjoint hv (mem_flatMap.2 ⟨inner, hmem, hin⟩)

/-- The excluded node is one of the validators at most. -/
theorem length_validators (hvalidators : q.validators.Nodup) :
    ∃ k ≤ 1, q.validators.length = q.validators.countP (Missing nodes excluded) +
        q.validators.countP (MayFail nodes excluded) + k ∧
      (k = 0 ↔ ∀ v ∈ q.validators, excluded ≠ some v) := by
  refine ⟨q.validators.countP fun v => decide (excluded = some v), ?_, ?_, by simp⟩
  · cases excluded with
    | none => simp
    | some e =>
      refine le_trans (Nat.le_of_eq (countP_congr fun v _ => ?_))
        (nodup_iff_count_le_one.1 hvalidators e)
      simp [@eq_comm _ e]
  · induction q.validators with
    | nil => rfl
    | cons v vs ih =>
      by_cases hv : v ∈ nodes <;> by_cases hex : excluded = some v <;>
        simp [Missing, MayFail, hv, hex] at ih ⊢ <;> omega

section Judged

variable {missing : List NodeID} {inner : SCPQuorumSet} (h : Levels nodes excluded q)
  (hnodup : (allNodes q).Nodup)
  (hmissing : ∀ v ∈ allNodes q, v ∈ missing ↔ Missing nodes excluded v = true)
include h

include hnodup in
/-- The nodes found of an inner set are those found for it, and it is taken. -/
theorem mem_taken_of_mem_found {v : NodeID} (hmem : inner ∈ q.innerSets)
    (hin : v ∈ allNodes inner) (hv : v ∈ findClosestVBlocking nodes excluded q) :
    inner ∈ takenSets nodes excluded q ∧ v ∈ findClosestVBlocking nodes excluded inner := by
  obtain ⟨_, _, hdisjoint, hpairwise⟩ := nodup_members hnodup
  rw [h.here.found, mem_append, mem_flatMap] at hv
  rcases hv with hv | ⟨other, hother, hv⟩
  · exact absurd hin (hdisjoint v (mem_takenValidators hv).1 inner hmem)
  · have hmem' := (mem_takenSets hother).1
    have hsame : inner = other := by
      have : Std.Symm fun a b : SCPQuorumSet => (allNodes a).Disjoint (allNodes b) :=
        ⟨fun _ _ h => h.symm⟩
      by_contra hne
      exact hpairwise.forall hmem hmem' hne hin ((h.inner other hmem').mem_found hv).1
    exact hsame ▸ ⟨hother, hv⟩

theorem found_subset (hrelied : inner ∈ reliedOn nodes excluded q) :
    findClosestVBlocking nodes excluded inner ⊆ findClosestVBlocking nodes excluded q := by
  rcases mem_append.1 hrelied with hfree | htaken
  · obtain ⟨hmem, hfree⟩ := mem_filter.1 hfree
    have hlength := (h.inner inner hmem).here.length_eq
    have hzero : price nodes excluded inner = 0 := by simpa [Needed] using hfree
    rw [length_eq_zero_iff.1 (hlength.trans hzero)]
    exact nil_subset _
  · rw [h.here.found]
    exact fun v hv => mem_append_right _ (mem_flatMap.2 ⟨inner, htaken, hv⟩)

include hnodup hmissing in
/-- An inner set that the nodes found block is one the search relies on and is right about. -/
theorem relied_of_blocked (hmem : inner ∈ q.innerSets)
    (hblocks : isVBlocking (missing ++ findClosestVBlocking nodes excluded q) inner = true) :
    inner ∈ reliedOn nodes excluded q ∧
      isVBlocking (missing ++ findClosestVBlocking nodes excluded inner) inner = true := by
  by_cases htaken : inner ∈ takenSets nodes excluded q
  · have hrelied := mem_append_right (q.innerSets.filter fun inner => !Needed nodes excluded inner)
      htaken
    refine ⟨hrelied, (isVBlocking_congr fun v hin => ?_) ▸ hblocks⟩
    have hfound := mem_taken_of_mem_found h hnodup hmem hin
    have hsubset := @found_subset _ _ _ _ h hrelied v
    rw [mem_append, mem_append]
    exact or_congr_right ⟨fun hv => (hfound hv).2, fun hv => hsubset hv⟩
  · have halone : isVBlocking (missing ++ []) inner = true := by
      refine (isVBlocking_congr fun v hin => ?_) ▸ hblocks
      have hfound := mem_taken_of_mem_found h hnodup hmem hin
      rw [mem_append, append_nil]
      exact or_iff_left fun hv => htaken (hfound hv).1
    have hprice := (h.inner inner hmem).price_le (t := []) (by simp)
      (fun v hv => (hmissing v (mem_allNodes_of_inner hmem hv)).1) halone
    have hzero : price nodes excluded inner = 0 := by simpa using hprice
    have hnone := length_eq_zero_iff.1 ((h.inner inner hmem).here.length_eq.trans hzero)
    exact ⟨mem_append_left _ (mem_filter.2 ⟨hmem, by simp [Needed, hzero]⟩), hnone ▸ halone⟩

include hnodup hmissing in
/-- The nodes found hit the validators that are missing or taken. -/
theorem countP_validators_found :
    q.validators.countP (· ∈ missing ++ findClosestVBlocking nodes excluded q) =
      q.validators.countP (Missing nodes excluded) + (takenValidators nodes excluded q).length := by
  obtain ⟨hvalidators, _, hdisjoint, _⟩ := nodup_members hnodup
  have htaken : q.validators.countP (· ∈ takenValidators nodes excluded q) =
      (takenValidators nodes excluded q).length := by
    rw [countP_eq_length_filter]
    refine Perm.length_eq ((perm_ext_iff_of_nodup (hvalidators.filter _) ?_).2 fun v => ?_)
    · exact (hvalidators.filter _).sublist (take_sublist _ _)
    · simpa using fun hv => (mem_takenValidators hv).1
  have hhit : ∀ v ∈ q.validators, v ∈ missing ++ findClosestVBlocking nodes excluded q ↔
      Missing nodes excluded v = true ∨ v ∈ takenValidators nodes excluded q := by
    intro v hv
    rw [mem_append, hmissing v (mem_allNodes_of_validator hv), h.here.found, mem_append]
    refine or_congr_right (or_iff_left fun hin => ?_)
    obtain ⟨inner, hinner, hin⟩ := mem_flatMap.1 hin
    have hmem := (mem_takenSets hinner).1
    exact hdisjoint v hv inner hmem ((h.inner inner hmem).mem_found hin).1
  rw [← htaken]
  refine Nat.le_antisymm (countP_le_add fun v hv h => ?_)
    (add_le_countP (fun v hv h => ?_) fun v hv h => ?_)
  · simpa using (hhit v hv).1 (of_decide_eq_true h)
  · exact decide_eq_true ((hhit v hv).2 (.inl h))
  · have htaken := of_decide_eq_true h
    refine ⟨decide_eq_true ((hhit v hv).2 (.inr htaken)), ?_⟩
    have := (mem_takenValidators htaken).2
    simp_all [MayFail, Missing]

include hnodup hmissing in
/-- The inner sets that the nodes found block are among those the search relies on and is right
about. -/
theorem countP_blocked_le :
    q.innerSets.countP (isVBlocking (missing ++ findClosestVBlocking nodes excluded q)) ≤
      (reliedOn nodes excluded q).countP fun inner =>
        isVBlocking (missing ++ findClosestVBlocking nodes excluded inner) inner := by
  have hsets : q.innerSets.Nodup := (nodup_members hnodup).2.2.2.imp_of_mem
    fun hmem _ hdisjoint heq => by
      obtain ⟨v, hv⟩ := exists_mem_of_ne_nil _ (h.inner _ hmem).here.nonempty
      exact hdisjoint hv (heq ▸ hv)
  rw [countP_eq_length_filter, countP_eq_length_filter]
  refine ((hsets.filter _).subperm fun inner hinner => ?_).length_le
  obtain ⟨hmem, hblocks⟩ := mem_filter.1 hinner
  exact mem_filter.2 (relied_of_blocked h hnodup hmissing hmem hblocks)

/-- The nodes found block every inner set the search relies on when it is right about them. -/
theorem length_reliedOn_le (hright : ∀ inner ∈ reliedOn nodes excluded q,
      isVBlocking (missing ++ findClosestVBlocking nodes excluded inner) inner = true) :
    (reliedOn nodes excluded q).length ≤ q.innerSets.countP
      (isVBlocking (missing ++ findClosestVBlocking nodes excluded q)) := by
  refine le_trans (Nat.le_of_eq (countP_eq_length.2 fun inner hinner => ?_).symm)
    (reliedOn_subperm.countP_le _)
  exact isVBlocking_mono (append_subset.2 ⟨subset_append_left _ _,
    fun v hv => mem_append_right _ (found_subset h hinner hv)⟩) _ (hright inner hinner)

include hnodup hmissing in
/-- The nodes found block the quorum set exactly when the missing nodes do or the search is right
about the inner sets it relies on. -/
theorem blocks_iff :
    isVBlocking (missing ++ findClosestVBlocking nodes excluded q) q = true ↔
      isVBlocking missing q = true ∨
        (∀ v ∈ q.validators, excluded = some v → 2 ≤ q.threshold) ∧
        ∀ inner ∈ reliedOn nodes excluded q,
          isVBlocking (missing ++ findClosestVBlocking nodes excluded inner) inner = true := by
  have hvalidators := countP_validators_found h hnodup hmissing
  obtain ⟨k, hk, hmembers, hzero⟩ := @length_validators nodes excluded _ (nodup_members hnodup).1
  have htaken := @length_takenValidators nodes excluded q
  have hrelied := @length_reliedOn nodes excluded q
  have hadd := h.here.toBlock_add
  have hpos := h.here.threshold_pos
  have hsets := @length_eq_countP_add_countP _ (Needed nodes excluded) q.innerSets
  simp only [Bool.not_eq_true, Bool.decide_eq_false] at hsets
  have hleft : leftToTake nodes excluded q = toBlock q - _ := rfl
  have hhits : hits (· ∈ missing ++ findClosestVBlocking nodes excluded q)
      (isVBlocking (missing ++ findClosestVBlocking nodes excluded q)) q = _ :=
    congrArg (· + _) hvalidators
  constructor
  · intro hblocks
    by_cases hnone : leftToTake nodes excluded q = 0
    · left
      have hfound : findClosestVBlocking nodes excluded q = [] := by
        rw [h.here.found, takenSets, takenValidators, hnone]
        rfl
      rwa [hfound, append_nil] at hblocks
    have hright := countP_blocked_le h hnodup hmissing
    have hmost := hright.trans countP_le_length
    rw [h.here.blocks, hhits] at hblocks
    refine .inr ⟨fun v hv hex => ?_, ?_⟩
    · have : k ≠ 0 := fun h => hzero.1 h v hv hex
      omega
    · exact countP_eq_length.1 (Nat.le_antisymm countP_le_length (by omega))
  · rintro (halone | ⟨hexcluded, hright⟩)
    · exact isVBlocking_mono (subset_append_left _ _) _ halone
    · have hall := length_reliedOn_le h hright
      have : k = 0 ∨ 2 ≤ q.threshold := by
        by_contra hboth
        rw [not_or] at hboth
        exact hboth.1 (hzero.2 fun v hv hex => hboth.2 (hexcluded v hv hex))
      rw [h.here.blocks, hhits]
      omega

end Judged

/-- The nodes found block a quorum set exactly when the search is right about it. -/
theorem Levels.blocks_iff_judged {missing : List NodeID} (h : Levels nodes excluded q)
    (hnodup : (allNodes q).Nodup)
    (hmissing : ∀ v ∈ allNodes q, v ∈ missing ↔ Missing nodes excluded v = true) :
    isVBlocking (missing ++ findClosestVBlocking nodes excluded q) q = true ↔
      q.Judged nodes excluded missing := by
  induction h with
  | @mk q hlevel hlevels ih =>
    have hinner : ∀ inner ∈ reliedOn nodes excluded q,
        isVBlocking (missing ++ findClosestVBlocking nodes excluded inner) inner = true ↔
          inner.Judged nodes excluded missing := by
      intro inner hrelied
      have hmem := reliedOn_subperm.subset hrelied
      exact ih inner hmem ((nodup_members hnodup).2.1 inner hmem)
        fun v hv => hmissing v (mem_allNodes_of_inner hmem hv)
    rw [blocks_iff (.mk hlevel hlevels) hnodup hmissing, forall₂_congr hinner]
    constructor
    · rintro (halone | ⟨hexcluded, hjudged⟩)
      · exact .blocked halone
      · exact .taken hexcluded hjudged
    · rintro (halone | ⟨hexcluded, hjudged⟩)
      · exact .inl halone
      · exact .inr ⟨hexcluded, hjudged⟩

end Search

/-- The members of a list without repetitions that are in another list are not more than those. -/
theorem countP_mem_le_length {l : List NodeID} (h : l.Nodup) (t : List NodeID) :
    l.countP (· ∈ t) ≤ t.dedup.length := by
  rw [countP_eq_length_filter]
  refine ((h.filter _).subperm fun v hv => ?_).length_le
  simpa using (mem_filter.1 hv).2

/-- Whenever agreeing nodes other than the excluded one can block a sane quorum set, the search
finds the fewest of them, and none exactly when the missing nodes block it alone: this holds exactly
when the search is right about the quorum set, which depends on the inner sets it relies on. -/
theorem findClosestVBlocking_closest {q : SCPQuorumSet} {extraChecks : Bool}
    {nodes missing : List NodeID} {excluded : NodeID}
    (hsane : isQuorumSetSane q extraChecks = true)
    (hmissing : ∀ v ∈ allNodes q, v ∈ missing ↔ v ∉ nodes ∧ v ≠ excluded) :
    let Suits := fun t => (∀ v ∈ t, v ∈ nodes ∧ v ≠ excluded) ∧ isVBlocking (missing ++ t) q = true
    let r := findClosestVBlocking nodes (some excluded) q
    ((∃ t, Suits t) → Suits r ∧ r.Nodup ∧ (∀ t, Suits t → r.length ≤ t.length) ∧
        (r = [] ↔ isVBlocking missing q = true)) ↔
      ((∃ t, Suits t) → q.Judged nodes (some excluded) missing) := by
  intro Suits r
  obtain ⟨hshape, hnodup, _, hsize⟩ := isQuorumSetSane_iff.1 hsane
  have hlevels : Levels nodes (some excluded) q := hshape.levels hsize
  have hmayFail : ∀ v, MayFail nodes (some excluded) v = true ↔ v ∈ nodes ∧ v ≠ excluded := by
    simp [MayFail, @eq_comm _ excluded]
  have hmissing' : ∀ v ∈ allNodes q, v ∈ missing ↔ Missing nodes (some excluded) v = true := by
    simpa [Missing, @eq_comm _ excluded] using hmissing
  have hblocks : isVBlocking (missing ++ r) q = true ↔ q.Judged nodes (some excluded) missing :=
    hlevels.blocks_iff_judged hnodup hmissing'
  have hfail : ∀ v ∈ r, v ∈ nodes ∧ v ≠ excluded := fun v hv =>
    (hmayFail v).1 (hlevels.mem_found hv).2
  have hleast : ∀ t, Suits t → r.length ≤ t.dedup.length := by
    rintro t ⟨ht, htblocks⟩
    calc r.length = price nodes (some excluded) q := hlevels.here.length_eq
      _ ≤ (allNodes q).countP (· ∈ t) := hlevels.price_le (fun v hv => (hmayFail v).2 (ht v hv))
        (fun v hv => (hmissing' v hv).1) htblocks
      _ ≤ t.dedup.length := countP_mem_le_length hnodup t
  refine imp_congr_right fun _ => ⟨fun h => hblocks.1 h.1.2, fun h => ?_⟩
  have hsuits : Suits r := ⟨hfail, hblocks.2 h⟩
  refine ⟨hsuits, ?_, fun t ht => (hleast t ht).trans (dedup_sublist t).length_le, ?_, ?_⟩
  · -- as many distinct nodes as nodes
    exact dedup_eq_self.1 ((dedup_sublist r).eq_of_length_le (hleast r hsuits))
  · intro hnil
    simpa [hnil] using hsuits.2
  · intro halone
    have hzero := hleast [] ⟨by simp, by simpa using halone⟩
    exact length_eq_zero_iff.1 (Nat.le_zero.1 hzero)

/-- Two of three members, one of which is a set of two nodes, without the first node. -/
theorem findClosestVBlocking_closest_nested :
    findClosestVBlocking [1, 2, 3, 4] (some 1) ⟨2, [1, 2], [⟨2, [3, 4], []⟩]⟩ = [2, 3] ∧
      ∀ t, (∀ v ∈ t, v ∈ [1, 2, 3, 4] ∧ v ≠ 1) ∧
        isVBlocking ([] ++ t) ⟨2, [1, 2], [⟨2, [3, 4], []⟩]⟩ = true → 2 ≤ t.length := by
  have hrelied : reliedOn [1, 2, 3, 4] (some 1) ⟨2, [1, 2], [⟨2, [3, 4], []⟩]⟩ =
      [⟨2, [3, 4], []⟩] := rfl
  have hjudged : SCPQuorumSet.Judged [1, 2, 3, 4] (some 1) [] ⟨2, [1, 2], [⟨2, [3, 4], []⟩]⟩ :=
    .taken (by decide) (hrelied ▸ forall_mem_singleton.2 (.taken (by decide) (forall_mem_nil _)))
  exact ⟨by decide, ((@findClosestVBlocking_closest ⟨2, [1, 2], [⟨2, [3, 4], []⟩]⟩ true
    [1, 2, 3, 4] [] 1 (by decide) (by decide)).2 (fun _ => hjudged)
    ⟨[2, 3], by decide, by decide⟩).2.2.1⟩

end SpnCore.Scp
