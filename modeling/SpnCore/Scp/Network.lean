import SpnCore.Scp.Agreement
import SpnCore.Scp.Invariants

/-!
# Networks of slots

Every node of a network runs the ballot protocol of one slot. Calls come in any order: a node is
handed any envelope that some node has emitted, as often as the network likes and never if it
likes, its timer fires, or it is bumped. A node whose call fails stops. The protocol states of
the nodes take the steps of `Network.CoreStep`, so the nodes agree on what they externalize.
-/

namespace SpnCore.Scp

open Lib Relation List

/-- A node: its slot, and whether an error has stopped it. -/
structure Node where
  slot : BallotState
  stopped : Bool := false

/-- The node has called `setConfirmCommit` on the value. -/
def Node.Confirms (node : Node) (value : Value) : Prop :=
  ∃ l c h, (l, .confirmCommit c h) ∈ node.slot.log ∧ c.value = value

/-- The protocol state behind a node. A stopped node may have left its local state half updated,
but its history and log are those of its last protocol state. -/
structure Core.Represents (ctx : Context) (k : Core) (node : Node) : Prop where
  core : node.stopped = false → k = node.slot.core
  log : k.log = node.slot.log
  history : k.history = node.slot.statementsHistory
  emissions : Emissions ctx node.slot

namespace Network

/-- The nodes of a network. -/
abbrev State := NodeID → Node

variable (N : Network)

/-- Every slot is fresh. -/
def init : State :=
  fun v => { slot := .init (N.ctx v) }

/-- Some node has emitted the envelope. -/
def Sent (σ : State) (st : SCPStatement) : Prop :=
  ∃ w ∈ N.nodes, .emitEnvelope st ∈ (σ w).slot.driverCalls

/-- A call runs on one node. -/
inductive Step (σ : State) : State → Prop
  | returns (v : NodeID) (hv : v ∈ N.nodes) (halive : (σ v).stopped = false) (call : Call)
      (hsent : ∀ st, call = .recvSCPEnvelope st → N.Sent σ st) (t : BallotState)
      (hrun : call.run (N.ctx v) (σ v).slot = .ok () t) :
      Step σ (Function.update σ v { slot := t })
  | fails (v : NodeID) (hv : v ∈ N.nodes) (halive : (σ v).stopped = false) (call : Call)
      (hsent : ∀ st, call = .recvSCPEnvelope st → N.Sent σ st) (e : ScpError) (t : BallotState)
      (hrun : call.run (N.ctx v) (σ v).slot = .error e t) :
      Step σ (Function.update σ v { slot := t, stopped := true })

/-- Every node is represented by its protocol state. -/
def Represents (K : Cores) (σ : State) : Prop :=
  ∀ v ∈ N.nodes, (K v).Represents (N.ctx v) (σ v)

variable {N} {K : Cores} {σ σ' : State} {v : NodeID}

/-- The changes of one node are steps of the network. -/
theorem run_of_own (hv : v ∈ N.nodes) {k : Core} (h : ReflTransGen (OwnStep (N.ctx v)) (K v) k) :
    ReflTransGen N.CoreStep K (Function.update K v k) := by
  induction h with
  | refl => rw [Function.update_eq_self]
  | @tail k₁ k₂ _ hstep ih =>
    have hmove : N.CoreStep (Function.update K v k₁)
        (Function.update (Function.update K v k₁) v k₂) :=
      .own v hv k₂ (by rwa [Function.update_self])
    rw [Function.update_idem] at hmove
    exact ih.tail hmove

/-- An envelope that was sent is a statement its node has made. -/
theorem Represents.of_sent (h : N.Represents K σ) {st : SCPStatement} (hsent : N.Sent σ st) :
    st.nodeID ∈ N.nodes ∧ st ∈ (K st.nodeID).history := by
  obtain ⟨w, hw, hcall⟩ := hsent
  obtain ⟨hmem, hself⟩ := (h w hw).emissions.emitted st hcall
  rw [N.self w hw] at hself
  rw [hself, (h w hw).history]
  exact ⟨hw, hmem⟩

/-- What a call admits and the changes that follow are steps of the network. -/
theorem Represents.run_of_call (h : N.Represents K σ) (hv : v ∈ N.nodes) {call : Call}
    (hsent : ∀ st, call = .recvSCPEnvelope st → N.Sent σ st) {k₁ k : Core}
    (hadmits : Admits (N.ctx v) call (K v) k₁) (hown : ReflTransGen (OwnStep (N.ctx v)) k₁ k) :
    ReflTransGen N.CoreStep K (Function.update K v k) := by
  cases hadmits with
  | skip => exact run_of_own hv hown
  | receive st hcall hother hsane =>
    obtain ⟨hsender, hmem⟩ := h.of_sent (hsent st hcall)
    have hreceive : N.CoreStep K (Function.update K v ((K v).record st)) :=
      .receive v hv st hsender (by rwa [N.self v hv] at hother) hmem
    have hrest : ReflTransGen N.CoreStep (Function.update K v ((K v).record st))
        (Function.update (Function.update K v ((K v).record st)) v k) :=
      run_of_own hv (by rwa [Function.update_self])
    rw [Function.update_idem] at hrest
    exact .head hreceive hrest

/-- The network stays represented when one node moves. -/
theorem Represents.update (h : N.Represents K σ) {k : Core} {node : Node}
    (hnode : k.Represents (N.ctx v) node) :
    N.Represents (Function.update K v k) (Function.update σ v node) := by
  intro w hw
  by_cases hwv : w = v
  · subst hwv
    simpa only [Function.update_self] using hnode
  · simpa only [Function.update_of_ne hwv] using h w hw

/-- A call on a node is a run of steps of the protocol states. -/
theorem Represents.step (h : N.Represents K σ) (hK : N.Valid K) (hstep : N.Step σ σ') :
    ∃ K', ReflTransGen N.CoreStep K K' ∧ N.Represents K' σ' := by
  cases hstep with
  | returns v hv halive call hsent t hrun =>
    have hcore := (h v hv).core halive
    have hspec := run_spec (hcore ▸ hK.inv v hv) (h v hv).emissions call
    obtain ⟨k₁, hadmits, hown, hem⟩ := wp_ok hspec hrun
    rw [← hcore] at hadmits
    exact ⟨_, h.run_of_call hv hsent hadmits hown, h.update ⟨fun _ => rfl, rfl, rfl, hem⟩⟩
  | fails v hv halive call hsent e t hrun =>
    have hcore := (h v hv).core halive
    have hspec := run_spec (hcore ▸ hK.inv v hv) (h v hv).emissions call
    obtain ⟨k₁, hadmits, hem, k, hown, hlog, hhistory, _⟩ := wp_error hspec hrun
    rw [← hcore] at hadmits
    refine ⟨_, h.run_of_call hv hsent hadmits hown, h.update ⟨?_, hlog, hhistory, hem⟩⟩
    intro halive'
    cases halive'

/-- Every reachable state of the network is represented by a reachable protocol state. -/
theorem exists_represents (h : ReflTransGen N.Step N.init σ) :
    ∃ K, ReflTransGen N.CoreStep initCores K ∧ N.Represents K σ := by
  induction h with
  | refl => exact ⟨initCores, .refl, fun v _ => ⟨fun _ => rfl, rfl, rfl, init_emissions (N.ctx v)⟩⟩
  | tail _ hstep ih =>
    obtain ⟨K, hrun, hrep⟩ := ih
    obtain ⟨K', hrun', hrep'⟩ := hrep.step (valid_of_run hrun) hstep
    exact ⟨K', hrun.trans hrun', hrep'⟩

/-- In a network where any two quorums intersect, no two nodes reach `setConfirmCommit` with
different values, and none hand different values to their driver. -/
theorem agreement (hinter : N.Intersects) (hrun : ReflTransGen N.Step N.init σ) {v w : NodeID}
    (hv : v ∈ N.nodes) (hw : w ∈ N.nodes) :
    (∀ x y, (σ v).Confirms x → (σ w).Confirms y → x = y) ∧
      ∀ x y, .valueExternalized x ∈ (σ v).slot.driverCalls →
        .valueExternalized y ∈ (σ w).slot.driverCalls → x = y := by
  obtain ⟨K, hcores, hrep⟩ := exists_represents hrun
  have hconfirms : ∀ x y, (σ v).Confirms x → (σ w).Confirms y → x = y := by
    rintro x y ⟨l, c, h, hlog, rfl⟩ ⟨l', c', h', hlog', rfl⟩
    rw [← (hrep v hv).log] at hlog
    rw [← (hrep w hw).log] at hlog'
    exact confirmed_values_eq hinter hcores hv hw hlog hlog'
  refine ⟨hconfirms, fun x y hx hy => hconfirms x y ?_ ?_⟩
  · exact (hrep v hv).emissions.externalized x hx
  · exact (hrep w hw).emissions.externalized y hy

/-- Behind all commitments there is one ballot that a quorum has voted for committing: every value
confirmed is its value, and every envelope ever sent follows it. -/
theorem commitments_backed (hinter : N.Intersects) (hrun : ReflTransGen N.Step N.init σ) :
    ∃ decided : Option SCPBallot,
      (∀ b, decided = some b → ∃ u, N.IsQuorum u ∧ ∀ v ∈ u,
        ∃ st ∈ (σ v).slot.statementsHistory, st.nodeID = v ∧ VotesFor b st) ∧
      (∀ st, N.Sent σ st → st.Follows decided) ∧
      ∀ v ∈ N.nodes, ∀ x, (σ v).Confirms x → Agrees decided x := by
  obtain ⟨K, hcores, hrep⟩ := exists_represents hrun
  obtain ⟨decided, hdecided⟩ := exists_isDecided N K
  have hfollows := follows_of_run hinter (valid_of_run hcores) hdecided hcores .refl
  refine ⟨decided, ?_, ?_, ?_⟩
  · rintro b rfl
    obtain ⟨u, hu, hvotes⟩ := hdecided.1
    refine ⟨u, hu, fun v hv => ?_⟩
    have hnode := hu.2.1 hv
    obtain ⟨st, hst, hvote⟩ := hvotes v hv
    obtain ⟨hmem, hself⟩ := mem_own.1 hst
    rw [(hrep v hnode).history] at hmem
    exact ⟨st, hmem, hself.trans (N.self v hnode), hvote⟩
  · intro st hsent
    obtain ⟨hnode, hmem⟩ := hrep.of_sent hsent
    exact (hfollows _ hnode).own st (mem_own.2 ⟨hmem, (N.self _ hnode).symm⟩)
  · rintro v hv x ⟨l, c, h, hlog, rfl⟩
    rw [← (hrep v hv).log] at hlog
    exact (hfollows v hv).log l c h hlog

/-! ### A run of three nodes -/

/-- What happens to a node: it is bumped, or handed the last envelope of another node. -/
inductive Move where
  | bump (value : Value)
  | hear (w : NodeID)

def Move.call (σ : State) : Move → Option Call
  | .bump value => some (.bumpState value true)
  | .hear w => (σ w).slot.lastEnvelopeEmit.map .recvSCPEnvelope

/-- The envelope of a call was sent. -/
def sentFor (N : Network) (σ : State) : Call → Bool
  | .recvSCPEnvelope st => N.nodes.any fun w => decide (.emitEnvelope st ∈ (σ w).slot.driverCalls)
  | _ => true

/-- Moves of nodes, one after the other. -/
def play (N : Network) : List (NodeID × Move) → State → Option State
  | [], σ => some σ
  | (v, move) :: rest, σ =>
    match move.call σ with
    | none => none
    | some call =>
      if v ∈ N.nodes ∧ (σ v).stopped = false ∧ N.sentFor σ call = true then
        match call.run (N.ctx v) (σ v).slot with
        | .ok _ t => play N rest (Function.update σ v { slot := t })
        | .error _ _ => none
      else none

theorem sent_of_sentFor {call : Call} (h : N.sentFor σ call = true) (st : SCPStatement)
    (hcall : call = .recvSCPEnvelope st) : N.Sent σ st := by
  subst hcall
  obtain ⟨w, hw, hsent⟩ := any_eq_true.1 h
  exact ⟨w, hw, of_decide_eq_true hsent⟩

/-- What was played is a run of the network. -/
theorem run_of_play {moves : List (NodeID × Move)} (h : N.play moves σ = some σ') :
    ReflTransGen N.Step σ σ' := by
  induction moves generalizing σ with
  | nil =>
    cases h
    exact .refl
  | cons move rest ih =>
    rw [play] at h
    split at h
    case h_1 => cases h
    case h_2 call _ =>
      split at h
      case isFalse => cases h
      case isTrue hmove =>
        obtain ⟨hv, halive, hsent⟩ := hmove
        split at h
        case h_2 => cases h
        case h_1 u t hrun =>
          exact .head (.returns _ hv halive call (sent_of_sentFor hsent) t hrun) (ih h)

/-- Three nodes, of which any two form a quorum. -/
def trio : Network where
  nodes := [0, 1, 2]
  ctx v := { twoOfThree with nodeID := v }
  self := fun _ _ => rfl
  resolves := fun _ _ _ _ => rfl

theorem trio_intersects : trio.Intersects := by
  have hmost : ∀ u, trio.IsQuorum u → 2 ≤ [0, 1, 2].countP (· ∈ u) := by
    rintro u ⟨hne, -, hslice⟩
    obtain ⟨v, hv⟩ := exists_mem_of_ne_nil u hne
    exact isQuorumSlice_iff.1 (hslice v hv)
  intro u w hu hw
  have hu := hmost u hu
  have hw := hmost w hw
  by_contra hnone
  simp only [not_exists, not_and] at hnone
  have h0 := hnone 0
  have h1 := hnone 1
  have h2 := hnone 2
  simp only [countP_cons, countP_nil, decide_eq_true_eq] at hu hw
  split_ifs at hu hw <;> simp_all

/-- Nodes 0 and 1 vote for the value `[1]` and hear from each other until they externalize it. -/
def decidingRun : List (NodeID × Move) :=
  [(0, .bump [1]), (1, .bump [1]), (0, .hear 1), (1, .hear 0), (0, .hear 1), (1, .hear 0),
    (0, .hear 1)]

set_option maxRecDepth 100000 in
theorem trio_externalizes :
    ∃ σ, ReflTransGen trio.Step trio.init σ ∧ .valueExternalized [1] ∈ (σ 0).slot.driverCalls ∧
      .valueExternalized [1] ∈ (σ 1).slot.driverCalls := by
  have hplay : (trio.play decidingRun trio.init).any (fun σ =>
      decide (.valueExternalized [1] ∈ (σ 0).slot.driverCalls ∧
        .valueExternalized [1] ∈ (σ 1).slot.driverCalls)) = true := by
    decide +kernel
  obtain ⟨σ, hσ, hcalls⟩ := (Option.any_eq_true _ _).1 hplay
  exact ⟨σ, run_of_play hσ, of_decide_eq_true hcalls⟩

theorem agreement_trio :
    ∃ σ, ReflTransGen trio.Step trio.init σ ∧ .valueExternalized [1] ∈ (σ 0).slot.driverCalls ∧
      .valueExternalized [1] ∈ (σ 1).slot.driverCalls ∧
      ∀ y, .valueExternalized y ∈ (σ 1).slot.driverCalls → [1] = y := by
  obtain ⟨σ, hrun, hzero, hone⟩ := trio_externalizes
  exact ⟨σ, hrun, hzero, hone, fun y hy =>
    (agreement trio_intersects hrun (v := 0) (w := 1) (by decide) (by decide)).2 [1] y hzero hy⟩

theorem commitments_backed_trio :
    ∃ σ, .valueExternalized [1] ∈ (σ 0).slot.driverCalls ∧
      .valueExternalized [1] ∈ (σ 1).slot.driverCalls ∧
      ∃ decided, (∀ b, decided = some b → ∃ u, trio.IsQuorum u ∧ ∀ v ∈ u,
          ∃ st ∈ (σ v).slot.statementsHistory, st.nodeID = v ∧ VotesFor b st) ∧
        ∀ st, trio.Sent σ st → st.Follows decided := by
  obtain ⟨σ, hrun, hzero, hone⟩ := trio_externalizes
  obtain ⟨decided, hquorum, hsent, -⟩ := commitments_backed trio_intersects hrun
  exact ⟨σ, hzero, hone, decided, hquorum, hsent⟩

end Network

end SpnCore.Scp
