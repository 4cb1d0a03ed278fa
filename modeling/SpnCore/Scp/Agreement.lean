import Mathlib.Data.List.Pairwise
import SpnCore.Scp.Decided

/-!
# Agreement between the nodes of a network

A network of nodes takes steps in any order: a node makes a change of its own, or records a
statement that another node has made. Of all ballots that a quorum has voted for committing by
the end of a run, the lowest one is decided. Since any two quorums share a node, every change
made during the run follows it, so only its value is ever externalized.
-/

namespace SpnCore.Scp

open Lib Relation List

/-- Nodes with fixed quorum sets that resolve by their hash. -/
structure Network where
  nodes : List NodeID
  ctx : NodeID → Context
  self : ∀ v ∈ nodes, (ctx v).nodeID = v
  resolves : ∀ v ∈ nodes, ∀ w ∈ nodes, (ctx v).getQSet (ctx w).qSetHash = some (ctx w).qSet

namespace Network

variable (N : Network)

/-- A set of nodes that contains a slice of each member. -/
def IsQuorum (u : List NodeID) : Prop :=
  u ≠ [] ∧ u ⊆ N.nodes ∧ ∀ v ∈ u, isQuorumSlice u (N.ctx v).qSet = true

/-- Any two quorums share a node. -/
def Intersects : Prop :=
  ∀ u w, N.IsQuorum u → N.IsQuorum w → ∃ v, v ∈ u ∧ v ∈ w

/-- The protocol states of all nodes. -/
abbrev Cores := NodeID → Core

/-- A step of one node. -/
inductive CoreStep (K : Cores) : Cores → Prop
  | own (v : NodeID) (hv : v ∈ N.nodes) (k : Core) (hstep : OwnStep (N.ctx v) (K v) k) :
      CoreStep K (Function.update K v k)
  | receive (v : NodeID) (hv : v ∈ N.nodes) (st : SCPStatement) (hsender : st.nodeID ∈ N.nodes)
      (hother : st.nodeID ≠ v) (hsent : st ∈ (K st.nodeID).history) :
      CoreStep K (Function.update K v ((K v).record st))

/-- The statements a node of the network has made. -/
def own (K : Cores) (v : NodeID) : List SCPStatement :=
  (K v).own (N.ctx v)

/-- A node has only recorded what nodes of the network have stated. -/
def Hears (K : Cores) (k : Core) : Prop :=
  ∀ w st, k.envs.lookup w = some st → w ∈ N.nodes ∧ st ∈ N.own K w

/-- Nothing was recorded, logged or set yet. -/
def initCores : Cores :=
  fun _ => ⟨{}, ∅, [], []⟩

/-- What holds in every reachable state, whatever was decided. -/
structure Valid (K : Cores) : Prop where
  inv : ∀ v ∈ N.nodes, (K v).Inv (N.ctx v)
  ordered : ∀ v ∈ N.nodes, (K v).Ordered (N.ctx v)
  heard : ∀ v ∈ N.nodes, N.Hears K (K v)

end Network

namespace Network

variable {N : Network} {K K' : Cores} {v : NodeID} {st : SCPStatement}

/-! ### Steps of the network -/

theorem CoreStep.own_grows (h : N.CoreStep K K') (w : NodeID) : N.own K w <+: N.own K' w := by
  cases h with
  | own v hv k hstep =>
    unfold Network.own
    by_cases hw : w = v
    · subst hw
      rw [Function.update_self]
      exact hstep.step.own_grows
    · rw [Function.update_of_ne hw]
  | receive v hv st hsender hother hsent =>
    unfold Network.own
    by_cases hw : w = v
    · subst hw
      rw [Function.update_self, own_record_other (by rwa [N.self w hv])]
    · rw [Function.update_of_ne hw]

/-- The statements of a node only grow. -/
theorem own_grows (h : ReflTransGen N.CoreStep K K') (w : NodeID) : N.own K w <+: N.own K' w := by
  induction h with
  | refl => exact prefix_rfl
  | tail _ hstep ih => exact ih.trans (hstep.own_grows w)

/-- A property of all nodes after one of them moved. -/
theorem forall_update {P : NodeID → Core → Prop} {k : Core} (hK : ∀ w ∈ N.nodes, P w (K w))
    (hv : P v k) : ∀ w ∈ N.nodes, P w (Function.update K v k w) := by
  intro w hw
  by_cases hwv : w = v
  · subst hwv
    rwa [Function.update_self]
  · rw [Function.update_of_ne hwv]
    exact hK w hw

theorem Valid.step (hK : N.Valid K) (h : N.CoreStep K K') : N.Valid K' := by
  have hgrows := fun w => (h.own_grows w).subset
  have hheard : ∀ w ∈ N.nodes, N.Hears K' (K w) :=
    fun w hw x st hst => (hK.heard w hw x st hst).imp_right (hgrows x ·)
  cases h with
  | own v hv k hstep =>
    obtain ⟨u, hact⟩ := hstep
    refine ⟨forall_update hK.inv (hact.inv (hK.inv v hv)),
      forall_update hK.ordered (hact.ordered (hK.ordered v hv)), ?_⟩
    refine forall_update (P := fun _ k => N.Hears _ k) hheard ?_
    intro x st hst
    rcases hact.lookup_cases hst with hold | ⟨hx, hmem⟩
    · exact hheard v hv x st hold
    · rw [N.self v hv] at hx
      subst hx
      refine ⟨hv, ?_⟩
      rwa [Network.own, Function.update_self]
  | receive v hv st hsender hother hsent =>
    have hother' : st.nodeID ≠ (N.ctx v).nodeID := by rwa [N.self v hv]
    refine ⟨forall_update hK.inv ((hK.inv v hv).record hother'),
      forall_update hK.ordered ((hK.ordered v hv).record hother'), ?_⟩
    refine forall_update (P := fun _ k => N.Hears _ k) hheard ?_
    intro x st' hst'
    simp only [Core.record, FMap.lookup_insert] at hst'
    split at hst'
    case isTrue hx =>
      obtain rfl := Option.some.inj hst'
      subst hx
      refine ⟨hsender, hgrows _ (mem_own.2 ⟨hsent, ?_⟩)⟩
      rw [N.self _ hsender]
    case isFalse => exact hheard v hv x st' hst'

/-- Every reachable state is valid. -/
theorem valid_of_run (h : ReflTransGen N.CoreStep initCores K) : N.Valid K := by
  induction h with
  | refl =>
    refine ⟨fun v _ => ?_, fun v _ => ?_, fun v _ w st hst => ?_⟩
    · exact ⟨consistent_default, .inl ⟨rfl, FMap.lookup_empty _⟩,
        fun w st hst => absurd hst (by simp [initCores])⟩
    · refine ⟨?_, ?_, ?_, List.Pairwise.nil⟩ <;> simp [initCores, Core.own]
    · exact absurd hst (by simp [initCores])
  | tail _ hstep ih => exact ih.step hstep

/-! ### What a quorum stands for -/

/-- The node that a statement is counted for gave its quorum set, unless it externalized. -/
theorem Valid.qSet_of_own (hK : N.Valid K) {w : NodeID} (hv : v ∈ N.nodes) (hw : w ∈ N.nodes)
    (hst : st ∈ N.own K w) (htype : ∀ e, st.pledges ≠ .externalize e) :
    getQuorumSetFromStatement (N.ctx v) st = some (N.ctx w).qSet := by
  have hnames := (hK.ordered w hw).names st hst
  unfold getQuorumSetFromStatement
  unfold NamesQSet at hnames
  cases hp : st.pledges with
  | prepare q =>
    simp only [hp] at hnames ⊢
    rw [hnames]
    exact N.resolves v hv w hw
  | confirm c =>
    simp only [hp] at hnames ⊢
    rw [hnames]
    exact N.resolves v hv w hw
  | externalize e => exact absurd hp (htype e)

/-- What `isQuorum` finds is a quorum of the network, or contains a node that externalized. -/
theorem Valid.quorum_cases (hK : N.Valid K) (hv : v ∈ N.nodes) {filter : SCPStatement → Bool}
    (h : isQuorum (N.ctx v).qSet (K v).envs (getQuorumSetFromStatement (N.ctx v)) filter = true) :
    (∃ w ∈ N.nodes, ∃ st ∈ N.own K w, filter st = true ∧ ∃ e, st.pledges = .externalize e) ∨
      ∃ u, N.IsQuorum u ∧ ∀ w ∈ u, ∃ st ∈ N.own K w, filter st = true := by
  obtain ⟨u, hsub, hclosed, hslice⟩ := isQuorum_iff.1 h
  have hmember : ∀ w ∈ u, ∃ st, (K v).envs.lookup w = some st ∧ filter st = true ∧
      w ∈ N.nodes ∧ st ∈ N.own K w := by
    intro w hw
    obtain ⟨st, hst, hfilter⟩ := FMap.mem_keysWhere.1 (hsub hw)
    exact ⟨st, hst, hfilter, hK.heard v hv w st hst⟩
  by_cases hext : ∃ w ∈ u, ∃ st, (K v).envs.lookup w = some st ∧ ∃ e, st.pledges = .externalize e
  · left
    obtain ⟨w, hw, st, hst, he⟩ := hext
    obtain ⟨st', hst', hfilter, hnode, hown⟩ := hmember w hw
    obtain rfl : st = st' := Option.mem_unique hst hst'
    exact ⟨w, hnode, st, hown, hfilter, he⟩
  · right
    refine ⟨u, ⟨?_, fun w hw => ?_, fun w hw => ?_⟩, fun w hw => ?_⟩
    · obtain ⟨w, hw⟩ := exists_mem_of_isQuorumSlice hslice
      exact ne_nil_of_mem hw
    · obtain ⟨_, _, _, hnode, _⟩ := hmember w hw
      exact hnode
    · obtain ⟨st, q, hst, hq, hslice⟩ := sliceFilter_iff.1 (hclosed w hw)
      obtain ⟨st', hst', _, hnode, hown⟩ := hmember w hw
      obtain rfl : st = st' := Option.mem_unique hst hst'
      have hqSet := hK.qSet_of_own hv hnode hown fun e he => hext ⟨w, hw, st, hst, e, he⟩
      rwa [Option.mem_unique hq hqSet] at hslice
    · obtain ⟨st, _, hfilter, _, hown⟩ := hmember w hw
      exact ⟨st, hown, hfilter⟩

/-- What a blocking set accepts, some node of the network accepts. -/
theorem Valid.exists_of_blocking (hK : N.Valid K) (hv : v ∈ N.nodes) {filter : SCPStatement → Bool}
    (h : isVBlockingWith (N.ctx v).qSet (K v).envs filter = true) :
    ∃ w ∈ N.nodes, ∃ st ∈ N.own K w, filter st = true := by
  obtain ⟨w, st, hst, hfilter⟩ := exists_of_isVBlockingWith h
  obtain ⟨hw, hown⟩ := hK.heard v hv w st hst
  exact ⟨w, hw, st, hown, hfilter⟩

/-- What a quorum votes for, some node of the network votes for. -/
theorem Valid.exists_of_quorum (hK : N.Valid K) (hv : v ∈ N.nodes) {filter : SCPStatement → Bool}
    (h : isQuorum (N.ctx v).qSet (K v).envs (getQuorumSetFromStatement (N.ctx v)) filter = true) :
    ∃ w ∈ N.nodes, ∃ st ∈ N.own K w, filter st = true := by
  rcases hK.quorum_cases hv h with ⟨w, hw, st, hst, hfilter, _⟩ | ⟨u, ⟨hne, hsub, _⟩, hu⟩
  · exact ⟨w, hw, st, hst, hfilter⟩
  · obtain ⟨w, hw⟩ := exists_mem_of_ne_nil u hne
    obtain ⟨st, hst, hfilter⟩ := hu w hw
    exact ⟨w, hsub hw, st, hst, hfilter⟩

/-! ### The decided ballot -/

variable (N) in
/-- A quorum has voted for committing the ballot. -/
def Committed (K : Cores) (b : SCPBallot) : Prop :=
  ∃ u, N.IsQuorum u ∧ ∀ v ∈ u, ∃ st ∈ N.own K v, VotesFor b st

variable (N) in
/-- The lowest ballot that a quorum has voted for committing, if there is one. -/
def IsDecided (K : Cores) : Option SCPBallot → Prop
  | some b => N.Committed K b ∧ ∀ b', N.Committed K b' → b ≤ b'
  | none => ∀ b, ¬ N.Committed K b

/-- The ballots a statement may vote for committing. -/
def votedBallots (st : SCPStatement) : List SCPBallot :=
  match st.pledges with
  | .prepare q => (List.range (q.nH + 1)).map fun n => ⟨n, q.ballot.value⟩
  | _ => []

theorem mem_votedBallots {b : SCPBallot} (h : VotesFor b st) : b ∈ votedBallots st := by
  obtain ⟨q, hq, _, _, hle, hval⟩ := h
  simp only [votedBallots, hq, mem_map, mem_range]
  exact ⟨b.counter, by omega, by rw [hval]⟩

/-- There are finitely many votes, so there is a lowest ballot a quorum voted for. -/
theorem exists_isDecided (N : Network) (K : Cores) : ∃ decided, N.IsDecided K decided := by
  classical
  let ballots := N.nodes.flatMap fun v => (N.own K v).flatMap votedBallots
  have hmem : ∀ b, N.Committed K b → b ∈ ballots := by
    rintro b ⟨u, ⟨hne, hsub, _⟩, hu⟩
    obtain ⟨v, hv⟩ := exists_mem_of_ne_nil u hne
    obtain ⟨st, hst, hvotes⟩ := hu v hv
    exact mem_flatMap.2 ⟨v, hsub hv, mem_flatMap.2 ⟨st, hst, mem_votedBallots hvotes⟩⟩
  by_cases hany : ∃ b, N.Committed K b
  · obtain ⟨b₀, hb₀⟩ := hany
    obtain ⟨b, hb, hmin⟩ := Finset.exists_min_image
      (ballots.toFinset.filter fun b => N.Committed K b) id
      ⟨b₀, by simp [hmem b₀ hb₀, hb₀]⟩
    simp only [Finset.mem_filter, mem_toFinset, id, and_imp] at hb hmin
    exact ⟨some b, hb.2, fun b' hb' => hmin b' (hmem b' hb') hb'⟩
  · exact ⟨none, fun b hb => hany ⟨b, hb⟩⟩

section Run

variable {T : Cores} {decided : Option SCPBallot} {v w : NodeID}

/-- A node that votes for the decided ballot by the end of the run never votes to prepare a
harmful ballot before. -/
theorem harmless_of_voter (hT : N.Valid T) (hw : w ∈ N.nodes) (hordered : (K w).Ordered (N.ctx w))
    (hfollows : (K w).Follows (N.ctx w) decided) (hgrows : N.own K w <+: N.own T w)
    (hst : st ∈ N.own K w) {q : SCPPrepare} (hq : st.pledges = .prepare q) {x : SCPBallot}
    (hle : x ≤ q.ballot) (hval : x.value = q.ballot.value) {b : SCPBallot} (hb : decided = some b)
    {st' : SCPStatement} (hst' : st' ∈ N.own T w) (hvotes : VotesFor b st') :
    x.value = b.value ∨ x ≤ b := by
  obtain ⟨q', hq', hnC, hlow, _, hval'⟩ := id hvotes
  have hbefore : CommitAfter st st' → x.value = b.value ∨ x ≤ b := by
    intro hafter
    refine (hafter q q' hq hq' hnC).imp (fun h => hval.trans (h.trans hval')) fun h => ?_
    exact hle.trans (h.trans (SCPBallot.mk_le hval' hlow))
  by_cases hmem : st' ∈ N.own K w
  · -- both statements were made by now, in one order or the other
    have hpairs := hordered.pairs.and hfollows.keeps
    by_cases heq : st = st'
    · subst heq
      obtain rfl : q = q' := SCPPledges.prepare.inj (hq.symm.trans hq')
      exact .inl (hval.trans hval')
    · let Rel : SCPStatement → SCPStatement → Prop := fun a c =>
        (CommitAfter a c ∧ KeepsValue decided a c) ∨ CommitAfter c a ∧ KeepsValue decided c a
      have hsymm : Std.Symm Rel := ⟨fun _ _ => Or.symm⟩
      have hrel : (N.own K w).Pairwise Rel := hpairs.imp Or.inl
      rcases hrel.forall hst hmem heq with ⟨hafter, _⟩ | ⟨_, hkeeps⟩
      · exact hbefore hafter
      · exact .inl (hval.trans (hkeeps b hb hvotes q hq))
  · obtain ⟨rest, hrest⟩ := hgrows
    have hpairs : (N.own T w).Pairwise CommitAfter := (hT.ordered w hw).pairs
    rw [← hrest] at hpairs hst'
    exact hbefore ((pairwise_append.1 hpairs).2.2 st hst st'
      ((mem_append.1 hst').resolve_left hmem))

/-- A change made during the run follows the ballot decided by its end. -/
theorem update_follows (hinter : N.Intersects) (hT : N.Valid T) (hdecided : N.IsDecided T decided)
    (hK : N.Valid K) (hfollows : ∀ w ∈ N.nodes, (K w).Follows (N.ctx w) decided)
    (hgrows : ∀ w, N.own K w <+: N.own T w) (hv : v ∈ N.nodes) {u : Update}
    (hguard : Guard (N.ctx v) (K v) u) : u.Follows decided := by
  have hown : ∀ w ∈ N.nodes, ∀ st ∈ N.own K w, st.Follows decided := fun w hw =>
    (hfollows w hw).own
  cases u with
  | preparedAccept ballot =>
    intro b hb
    have haccept := hguard.2.2.2.2
    simp only [federatedAccept, Bool.or_eq_true] at haccept
    rcases haccept with hblock | hquorum
    · obtain ⟨w, hw, st, hst, hacc⟩ := hK.exists_of_blocking hv hblock
      exact (hown w hw st hst).harmless_of_prepared hacc b hb
    · rcases hK.quorum_cases hv hquorum with ⟨w, hw, st, hst, hacc, e, he⟩ | ⟨u, hu, hacc⟩
      · rcases Bool.or_eq_true_iff.1 hacc with hacc | hacc
        · exact (hown w hw st hst).harmless_of_prepared hacc b hb
        · rcases (hown w hw st hst).harmless_of_votes hacc with h | ⟨q, hq, _⟩
          · exact h b hb
          · rw [he] at hq
            cases hq
      · -- the quorum shares a node with the one that decided the ballot
        subst hb
        obtain ⟨u', hu', hvoted⟩ := hdecided.1
        obtain ⟨w, hwu, hwu'⟩ := hinter u u' hu hu'
        have hw := hu.2.1 hwu
        obtain ⟨st, hst, hacc⟩ := hacc w hwu
        obtain ⟨st', hst', hvotes⟩ := hvoted w hwu'
        rcases Bool.or_eq_true_iff.1 hacc with hacc | hacc
        · exact (hown w hw st hst).harmless_of_prepared hacc b rfl
        · rcases (hown w hw st hst).harmless_of_votes hacc with h | ⟨q, hq, hle, hval⟩
          · exact h b rfl
          · exact harmless_of_voter hT hw (hK.ordered w hw) (hfollows w hw) (hgrows w) hst hq
              hle hval rfl hst' hvotes
  | preparedConfirmed newC newH =>
    obtain ⟨_, _, _, hratified, _⟩ := hguard
    obtain ⟨w, hw, st, hst, hacc⟩ := hK.exists_of_quorum hv hratified
    exact (hown w hw st hst).harmless_of_prepared hacc
  | acceptCommit c h =>
    obtain ⟨_, _, _, _, hle, haccept, _⟩ := hguard
    simp only [federatedAccept, Bool.or_eq_true] at haccept
    rcases haccept with hblock | hquorum
    · obtain ⟨w, hw, st, hst, hacc⟩ := hK.exists_of_blocking hv hblock
      rcases (hown w hw st hst).agrees_of_commit (by rw [hacc]; rfl) hle with
        hagrees | ⟨⟨q, hq, _⟩, _⟩
      · exact hagrees
      · simp [commitPredicate, hq] at hacc
    · by_contra hnot
      have hvotes : ∀ w ∈ N.nodes, ∀ st ∈ N.own K w,
          (commitPredicate h (c.counter, h.counter) st ||
            votesCommit h (c.counter, h.counter) st) = true →
          VotesFor ⟨c.counter, h.value⟩ st ∧
            ∃ n, c.counter ≤ n ∧ Harmless decided ⟨n, h.value⟩ :=
        fun w hw st hst hacc => ((hown w hw st hst).agrees_of_commit hacc hle).resolve_left hnot
      rcases hK.quorum_cases hv hquorum with ⟨w, hw, st, hst, hacc, e, he⟩ | ⟨u, hu, hacc⟩
      · obtain ⟨⟨q, hq, _⟩, _⟩ := hvotes w hw st hst hacc
        rw [he] at hq
        cases hq
      · -- the quorum has voted for committing another value: at a higher ballot
        have hcommitted : N.Committed T ⟨c.counter, h.value⟩ := by
          refine ⟨u, hu, fun w hw => ?_⟩
          obtain ⟨st, hst, hacc⟩ := hacc w hw
          exact ⟨st, (hgrows w).subset hst, (hvotes w (hu.2.1 hw) st hst hacc).1⟩
        obtain ⟨w, hw⟩ := exists_mem_of_ne_nil u hu.1
        obtain ⟨st, hst, hacc⟩ := hacc w hw
        obtain ⟨_, n, hn, hharmless⟩ := hvotes w (hu.2.1 hw) st hst hacc
        cases hd : decided with
        | none =>
          rw [hd] at hdecided
          exact hdecided _ hcommitted
        | some b =>
          rw [hd] at hdecided
          have hb := hdecided.2 _ hcommitted
          have hraise : (⟨c.counter, h.value⟩ : SCPBallot) ≤ ⟨n, h.value⟩ :=
            SCPBallot.mk_le rfl hn
          rcases hharmless b hd with hval | hle'
          · exact hnot ⟨b, hd, hval⟩
          · have heq : b = ⟨n, h.value⟩ := le_antisymm (hb.trans hraise) hle'
            exact hnot ⟨b, hd, by rw [heq]⟩
  | confirmCommit c h => trivial
  | bump ballot => trivial

/-- Every state of the run follows the ballot decided by its end. -/
theorem follows_of_run (hinter : N.Intersects) (hT : N.Valid T) (hdecided : N.IsDecided T decided)
    (hrun : ReflTransGen N.CoreStep initCores K) (hrest : ReflTransGen N.CoreStep K T) :
    ∀ w ∈ N.nodes, (K w).Follows (N.ctx w) decided := by
  induction hrun with
  | refl =>
    intro w _
    refine ⟨⟨?_, ?_, ?_, ?_⟩, ?_, ?_, List.Pairwise.nil, ?_⟩ <;> simp [initCores, Core.own]
  | tail hrun hstep ih =>
    have hK := valid_of_run hrun
    have hprev := ih (.head hstep hrest)
    cases hstep with
    | own v hv k hstep =>
      obtain ⟨u, hact⟩ := hstep
      have hgrows := own_grows (.head (.own v hv k ⟨u, hact⟩) hrest)
      refine forall_update hprev (hact.follows (hK.inv v hv) (hprev v hv) ?_)
      exact update_follows hinter hT hdecided hK hprev hgrows hv hact.guard
    | receive v hv st hsender hother hsent =>
      exact forall_update hprev ((hprev v hv).record (by rwa [N.self v hv]))

/-- No two nodes confirm commits on different values. -/
theorem confirmed_values_eq (hinter : N.Intersects)
    (hrun : ReflTransGen N.CoreStep initCores K) (hv : v ∈ N.nodes) (hw : w ∈ N.nodes)
    {l l' : LocalState} {c h c' h' : SCPBallot} (hlog : (l, .confirmCommit c h) ∈ (K v).log)
    (hlog' : (l', .confirmCommit c' h') ∈ (K w).log) : c.value = c'.value := by
  obtain ⟨decided, hdecided⟩ := exists_isDecided N K
  have hfollows := follows_of_run hinter (valid_of_run hrun) hdecided hrun .refl
  obtain ⟨b, hb, hval⟩ := (hfollows v hv).log l c h hlog
  obtain ⟨b', hb', hval'⟩ := (hfollows w hw).log l' c' h' hlog'
  obtain rfl : b = b' := Option.mem_unique hb hb'
  exact hval.trans hval'.symm

end Run

end Network

end SpnCore.Scp
