import SpnCore.Lib.Worklist
import SpnCore.Scp.Slices

/-!
# Nodes in the quorum

`isNodeInQuorum` follows the quorum sets of the statements recorded in a slot, starting with the
local node. It answers that a node is in the quorum when it comes by it, that it may be when
something on the way was not known, and that it is not otherwise.

The work set is an unordered container: the order in which it is walked is arbitrary, and the
answer does not depend on it.
-/

namespace SpnCore.Scp

open Lib Relation List
open Nomination (allNodes)

/-- `SCP::TriBool`. -/
inductive TriBool where
  | tbTrue
  | tbFalse
  | tbMaybe
deriving DecidableEq, Repr

namespace LocalNode

variable {ν : Type*}

/-- Adds the nodes of a statement's quorum set that were not visited to the work set. -/
def explore (qfun : ν → Option SCPQuorumSet) (visited : List NodeID) :
    Finset NodeID × TriBool → ν → Finset NodeID × TriBool
  | (backlog, res), st =>
    match qfun st with
    | none => (backlog, .tbMaybe)
    | some qset => (backlog ∪ ((allNodes qset).filter (· ∉ visited)).toFinset, res)

/-- The loop over the work set; `none` when it is cut off. -/
def search (order : Order NodeID) (node : NodeID) (qfun : ν → Option SCPQuorumSet)
    (map : FMap NodeID (List ν)) : Nat → List NodeID → Finset NodeID → TriBool → Option TriBool
  | 0, _, _, _ => none
  | fuel + 1, visited, backlog, res =>
    if backlog = ∅ then some res
    else
      let c := order.next visited backlog
      if c = node then some .tbTrue
      else
        let visited := visited ++ [c]
        let backlog := backlog.erase c
        match map.lookup c with
        | none => search order node qfun map fuel visited backlog .tbMaybe
        | some sts =>
          let (backlog, res) := sts.foldl (explore qfun visited) (backlog, res)
          search order node qfun map fuel visited backlog res

/-- Whether a node is in the quorum of the local node `self`. -/
def isNodeInQuorum (order : Order NodeID) (fuel : Nat) (self node : NodeID)
    (qfun : ν → Option SCPQuorumSet) (map : FMap NodeID (List ν)) : Option TriBool :=
  search order node qfun map fuel [] {self} .tbFalse

end LocalNode

/-! ### The statements of a slot -/

/-- A statement of either protocol. -/
inductive SlotStatement where
  | nominate (st : Nomination.Statement)
  | ballot (st : SCPStatement)

namespace SlotStatement

/-- The node that made the statement. -/
def nodeID : SlotStatement → NodeID
  | nominate st => st.nodeID
  | ballot st => st.nodeID

/-- The hash of the quorum set that the node used, also for the externalized ballot. -/
def getCompanionQuorumSetHash : SlotStatement → Hash
  | nominate st => st.nominate.quorumSetHash
  | ballot st =>
    match st.pledges with
    | .prepare p => p.quorumSetHash
    | .confirm c => c.quorumSetHash
    | .externalize e => e.commitQuorumSetHash

end SlotStatement

namespace Slot

/-- The statements of each node, in the order they were recorded in. -/
def statementsByNode (history : List SlotStatement) : FMap NodeID (List SlotStatement) :=
  history.foldl (fun m st => m.insert st.nodeID ((m.lookup st.nodeID).getD [] ++ [st])) ∅

/-- Whether a node is in the quorum, by the statements recorded. -/
def isNodeInQuorum (ctx : Context) (order : Order NodeID) (fuel : Nat)
    (history : List SlotStatement) (node : NodeID) : Option TriBool :=
  LocalNode.isNodeInQuorum order fuel ctx.nodeID node
    (fun st => ctx.getQSet st.getCompanionQuorumSetHash) (statementsByNode history)

end Slot

/-! ### What the loop does -/

namespace LocalNode

variable {ν : Type*} {qfun : ν → Option SCPQuorumSet} {map : FMap NodeID (List ν)}
  {order : Order NodeID} {visited : List NodeID}

/-- A statement of `c` has `n` in its quorum set. -/
def Names (qfun : ν → Option SCPQuorumSet) (map : FMap NodeID (List ν)) (c n : NodeID) : Prop :=
  ∃ sts, map.lookup c = some sts ∧ ∃ st ∈ sts, ∃ q, qfun st = some q ∧ n ∈ allNodes q

/-- There are statements of `c`, and the quorum sets of all of them are known. -/
def Known (qfun : ν → Option SCPQuorumSet) (map : FMap NodeID (List ν)) (c : NodeID) : Prop :=
  ∃ sts, map.lookup c = some sts ∧ ∀ st ∈ sts, (qfun st).isSome = true

/-- What a walk over the statements of a node adds to the work set. -/
theorem foldl_explore (visited : List NodeID) (sts : List ν) (backlog : Finset NodeID)
    (res : TriBool) :
    ∃ added : Finset NodeID,
      (∀ n, n ∈ added ↔ (∃ st ∈ sts, ∃ q, qfun st = some q ∧ n ∈ allNodes q) ∧ n ∉ visited) ∧
      sts.foldl (explore qfun visited) (backlog, res) =
        (backlog ∪ added, if ∀ st ∈ sts, (qfun st).isSome = true then res else .tbMaybe) := by
  induction sts generalizing backlog res with
  | nil => exact ⟨∅, by simp, by simp⟩
  | cons st sts ih =>
    rw [foldl_cons]
    cases hq : qfun st with
    | none =>
      obtain ⟨added, hadded, hfold⟩ := ih backlog .tbMaybe
      refine ⟨added, fun n => by simp [hadded, hq], ?_⟩
      simp only [explore, hq, hfold, forall_mem_cons, Option.isSome_none,
        Bool.false_eq_true, false_and, if_false, ite_self]
    | some q =>
      obtain ⟨added, hadded, hfold⟩ :=
        ih (backlog ∪ ((allNodes q).filter (· ∉ visited)).toFinset) res
      refine ⟨((allNodes q).filter (· ∉ visited)).toFinset ∪ added, fun n => ?_, ?_⟩
      · simp only [Finset.mem_union, hadded, mem_toFinset, mem_filter,
          decide_eq_true_eq, exists_mem_cons_iff, hq, Option.some.injEq,
          exists_eq_left']
        tauto
      · simp only [explore, hq, hfold, forall_mem_cons, Option.isSome_some, true_and,
          Finset.union_assoc]

/-- The answer after a search that has visited some nodes. -/
def Settled (visited : List NodeID) (res : TriBool) (qfun : ν → Option SCPQuorumSet)
    (map : FMap NodeID (List ν)) : Prop :=
  (res = .tbFalse ∧ ∀ c ∈ visited, Known qfun map c) ∨
    (res = .tbMaybe ∧ ∃ c ∈ visited, ¬ Known qfun map c)

theorem Settled.append {res : TriBool} {c : NodeID} (h : Settled visited res qfun map)
    [Decidable (Known qfun map c)] :
    Settled (visited ++ [c]) (if Known qfun map c then res else .tbMaybe) qfun map := by
  split
  case isTrue hc =>
    rcases h with ⟨rfl, hknown⟩ | ⟨rfl, d, hd, hunknown⟩
    · refine .inl ⟨rfl, fun d hd => ?_⟩
      rcases mem_append.1 hd with hd | hd
      · exact hknown d hd
      · rwa [mem_singleton.1 hd]
    · exact .inr ⟨rfl, d, mem_append_left _ hd, hunknown⟩
  case isFalse hc => exact .inr ⟨rfl, c, by simp, hc⟩

open Classical in
/-- A round of the loop that does not come by the node. -/
theorem search_succ {node : NodeID} {fuel : Nat} {backlog : Finset NodeID} {res : TriBool}
    (hbacklog : backlog ≠ ∅) (hnode : order.next visited backlog ≠ node) :
    let c := order.next visited backlog
    ∃ added : Finset NodeID,
      (∀ n, n ∈ added ↔ Names qfun map c n ∧ n ∉ visited ++ [c]) ∧
      search order node qfun map (fuel + 1) visited backlog res =
        search order node qfun map fuel (visited ++ [c]) (backlog.erase c ∪ added)
          (if Known qfun map c then res else .tbMaybe) := by
  intro c
  cases hlookup : map.lookup c with
  | none =>
    have hknown : ¬ Known qfun map c := by simp [Known, hlookup]
    refine ⟨∅, fun n => by simp [Names, hlookup], ?_⟩
    rw [search, if_neg hbacklog, if_neg hnode, if_neg hknown, Finset.union_empty]
    simp only [hlookup, c]
  | some sts =>
    obtain ⟨added, hadded, hfold⟩ :=
      @foldl_explore ν qfun (visited ++ [c]) sts (backlog.erase c) res
    have hknown : Known qfun map c ↔ ∀ st ∈ sts, (qfun st).isSome = true := by
      simp [Known, hlookup]
    refine ⟨added, fun n => by simp [hadded, Names, hlookup], ?_⟩
    rw [search, if_neg hbacklog, if_neg hnode]
    simp only [hlookup, hfold, c, hknown]

/-- What the search answers, whatever the order. -/
theorem search_eq {node self : NodeID} {all : Finset NodeID} (hself : self ∈ all)
    (hall : ∀ c n, Names qfun map c n → n ∈ all) {fuel : Nat} {visited : List NodeID}
    {backlog : Finset NodeID} {res : TriBool} (h : Searching (Names qfun map) self visited backlog)
    (hnode : node ∉ visited) (hres : Settled visited res qfun map)
    (hfuel : all.card + 1 ≤ fuel + visited.length) :
    (ReflTransGen (Names qfun map) self node ∧
      search order node qfun map fuel visited backlog res = some .tbTrue) ∨
    (¬ ReflTransGen (Names qfun map) self node ∧
      (∀ c, ReflTransGen (Names qfun map) self c → Known qfun map c) ∧
      search order node qfun map fuel visited backlog res = some .tbFalse) ∨
    (¬ ReflTransGen (Names qfun map) self node ∧
      (¬ ∀ c, ReflTransGen (Names qfun map) self c → Known qfun map c) ∧
      search order node qfun map fuel visited backlog res = some .tbMaybe) := by
  classical
  induction fuel generalizing visited backlog res with
  | zero =>
    have := h.length_le_card hself hall
    omega
  | succ fuel ih =>
    by_cases hbacklog : backlog = ∅
    · subst hbacklog
      simp only [← h.mem_visited_iff]
      rcases hres with ⟨rfl, hknown⟩ | ⟨rfl, c, hc, hunknown⟩
      · exact .inr (.inl ⟨hnode, hknown, rfl⟩)
      · exact .inr (.inr ⟨hnode, fun hknown => hunknown (hknown c hc), rfl⟩)
    · have hc := order.next_mem visited (Finset.nonempty_iff_ne_empty.2 hbacklog)
      by_cases hfound : order.next visited backlog = node
      · refine .inl ⟨hfound ▸ h.reached _ (.inr hc), ?_⟩
        rw [search, if_neg hbacklog, if_pos hfound]
      · obtain ⟨added, hadded, hsearch⟩ := search_succ hbacklog hfound
        rw [hsearch]
        refine ih (h.round hc hadded) ?_ hres.append ?_
        · simp [hnode, Ne.symm hfound]
        · rw [length_append, length_singleton]
          omega

end LocalNode

namespace Slot

variable (ctx : Context) (history : List SlotStatement)

/-- A recorded statement of `c` has `n` in its quorum set. -/
def Names (c n : NodeID) : Prop :=
  ∃ st ∈ history, st.nodeID = c ∧
    ∃ q, ctx.getQSet st.getCompanionQuorumSetHash = some q ∧ n ∈ allNodes q

/-- There are recorded statements of `c`, and the quorum sets of all of them are known. -/
def Known (c : NodeID) : Prop :=
  (∃ st ∈ history, st.nodeID = c) ∧
    ∀ st ∈ history, st.nodeID = c → (ctx.getQSet st.getCompanionQuorumSetHash).isSome = true

/-- The nodes that recorded statements have in their quorum sets. -/
def namedNodes : List NodeID :=
  history.flatMap fun st =>
    ((ctx.getQSet st.getCompanionQuorumSetHash).map allNodes).getD []

theorem lookup_statementsByNode (c : NodeID) :
    (statementsByNode history).lookup c =
      if history.filter (·.nodeID = c) = [] then none
      else some (history.filter (·.nodeID = c)) := by
  induction history using List.reverseRecOn with
  | nil => simp [statementsByNode]
  | append_singleton history st ih =>
    have hlast : statementsByNode (history ++ [st]) =
        (statementsByNode history).insert st.nodeID
          (((statementsByNode history).lookup st.nodeID).getD [] ++ [st]) := by
      rw [statementsByNode, foldl_append]
      rfl
    rw [hlast, FMap.lookup_insert]
    by_cases hc : c = st.nodeID
    · subst hc
      rw [if_pos rfl, ih]
      by_cases hnone : history.filter (·.nodeID = st.nodeID) = []
      · simp [hnone]
      · simp [hnone]
    · rw [if_neg hc, ih]
      simp [filter_append, Ne.symm hc]

theorem names_iff {c n : NodeID} :
    LocalNode.Names (fun st => ctx.getQSet st.getCompanionQuorumSetHash)
      (statementsByNode history) c n ↔ Names ctx history c n := by
  simp only [LocalNode.Names, lookup_statementsByNode, Names]
  constructor
  · rintro ⟨sts, hsts, st, hst, hq⟩
    split at hsts
    · cases hsts
    · cases hsts
      obtain ⟨hmem, hnode⟩ := mem_filter.1 hst
      exact ⟨st, hmem, of_decide_eq_true hnode, hq⟩
  · rintro ⟨st, hmem, hnode, hq⟩
    have hst : st ∈ history.filter (·.nodeID = c) := mem_filter.2 ⟨hmem, by simpa using hnode⟩
    exact ⟨_, if_neg (ne_nil_of_mem hst), st, hst, hq⟩

theorem known_iff {c : NodeID} :
    LocalNode.Known (fun st => ctx.getQSet st.getCompanionQuorumSetHash)
      (statementsByNode history) c ↔ Known ctx history c := by
  simp only [LocalNode.Known, lookup_statementsByNode, Known]
  constructor
  · rintro ⟨sts, hsts, hall⟩
    split at hsts
    · cases hsts
    case isFalse hne =>
      cases hsts
      obtain ⟨st, hst⟩ := exists_mem_of_ne_nil _ hne
      obtain ⟨hmem, hnode⟩ := mem_filter.1 hst
      refine ⟨⟨st, hmem, of_decide_eq_true hnode⟩, fun st hst hnode => hall st ?_⟩
      exact mem_filter.2 ⟨hst, by simpa using hnode⟩
  · rintro ⟨⟨st, hst, hnode⟩, hall⟩
    have hmem : st ∈ history.filter (·.nodeID = c) := mem_filter.2 ⟨hst, by simpa using hnode⟩
    refine ⟨_, if_neg (ne_nil_of_mem hmem), fun st hst => ?_⟩
    obtain ⟨hst, hnode⟩ := mem_filter.1 hst
    exact hall st hst (of_decide_eq_true hnode)

/-- A node is in the quorum exactly when it can be reached from the local node through quorum sets
of recorded statements. It is not when it cannot be reached and all nodes that can are known;
otherwise the answer is open. The order of the work set does not matter, and a round for each node
is enough. -/
theorem isNodeInQuorum_iff_reachable (order : Order NodeID) (node : NodeID) {fuel : Nat}
    (hfuel : (namedNodes ctx history).length + 2 ≤ fuel) :
    (isNodeInQuorum ctx order fuel history node = some .tbTrue ↔
      ReflTransGen (Names ctx history) ctx.nodeID node) ∧
    (isNodeInQuorum ctx order fuel history node = some .tbFalse ↔
      ¬ ReflTransGen (Names ctx history) ctx.nodeID node ∧
        ∀ c, ReflTransGen (Names ctx history) ctx.nodeID c → Known ctx history c) ∧
    (isNodeInQuorum ctx order fuel history node = some .tbMaybe ↔
      ¬ ReflTransGen (Names ctx history) ctx.nodeID node ∧
        ∃ c, ReflTransGen (Names ctx history) ctx.nodeID c ∧ ¬ Known ctx history c) := by
  have hnames : LocalNode.Names (fun st => ctx.getQSet st.getCompanionQuorumSetHash)
      (statementsByNode history) = Names ctx history := by
    funext c n
    exact propext (names_iff ctx history)
  have hall : ∀ c n, Names ctx history c n →
      n ∈ insert ctx.nodeID (namedNodes ctx history).toFinset := by
    rintro c n ⟨st, hst, _, q, hq, hn⟩
    refine Finset.mem_insert_of_mem (mem_toFinset.2 (mem_flatMap.2 ⟨st, hst, ?_⟩))
    simpa [hq] using hn
  have hcard : (insert ctx.nodeID (namedNodes ctx history).toFinset).card + 1 ≤ fuel := by
    have hinsert := Finset.card_insert_le ctx.nodeID (namedNodes ctx history).toFinset
    have hlength := toFinset_card_le (namedNodes ctx history)
    omega
  have hanswer := @LocalNode.search_eq _ (fun st => ctx.getQSet st.getCompanionQuorumSetHash)
    (statementsByNode history) order node ctx.nodeID _ (Finset.mem_insert_self _ _)
    (hnames ▸ hall) fuel [] {ctx.nodeID} .tbFalse (.init _ _) (by simp) (.inl ⟨rfl, by simp⟩)
    (by simpa using hcard)
  simp only [hnames, known_iff] at hanswer
  unfold isNodeInQuorum LocalNode.isNodeInQuorum
  push Not at hanswer
  rcases hanswer with ⟨hreach, heq⟩ | ⟨hreach, hknown, heq⟩ | ⟨hreach, hunknown, heq⟩
  · simp [heq, hreach]
  · simpa [heq, hreach] using hknown
  · simpa [heq, hreach] using hunknown

/-- The work set is walked from its least node. -/
def leastFirst : Order NodeID where
  next _ s := if h : s.Nonempty then s.min' h else 0
  next_mem _ s h := by
    rw [dif_pos h]
    exact s.min'_mem h

/-- Nodes 0 and 1 with each other in their quorum sets. -/
def pairContext : Context where
  nodeID := 0
  isValidator := true
  qSet := ⟨1, [1], []⟩
  qSetHash := 7
  getQSet h := if h = 7 then some ⟨1, [1], []⟩ else if h = 8 then some ⟨1, [0], []⟩ else none
  validateValue _ := .fullyValidatedValue

/-- A nomination of each node. -/
def pairHistory : List SlotStatement :=
  [.nominate ⟨0, ⟨7, [], []⟩⟩, .nominate ⟨1, ⟨8, [], []⟩⟩]

/-- The search goes around the cycle once. -/
theorem isNodeInQuorum_iff_reachable_pair :
    isNodeInQuorum pairContext leastFirst 4 pairHistory 2 = some .tbFalse ∧
      ¬ ReflTransGen (Names pairContext pairHistory) 0 2 := by
  have h : isNodeInQuorum pairContext leastFirst 4 pairHistory 2 = some .tbFalse := by decide
  exact ⟨h, ((isNodeInQuorum_iff_reachable pairContext pairHistory leastFirst 2
    (by decide)).2.1.1 h).1⟩

end Slot

end SpnCore.Scp
