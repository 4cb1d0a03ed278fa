import SpnCore.Overlay.OverlayManager

/-!
# The lists are those of the live connections

As long as no peer is evicted for a preferred one and no peer is dropped by command, the
authenticated list holds exactly the connections whose handshake is complete, and an event at one
connection takes no other one out of the lists.
-/

namespace SpnCore.Overlay

open List

/-! ### States and ids after a handler -/

namespace Peer

variable {p : Peer} (circ : Circumstances)

@[simp]
theorem sendHello_state (certExpiration : Nat) : (p.sendHello certExpiration).state = p.state :=
  sendMessage_state _ _

@[simp]
theorem sendHello_peerID (certExpiration : Nat) :
    (p.sendHello certExpiration).peerID = p.peerID :=
  sendMessage_peerID _ _

@[simp]
theorem dropWith_state (err : ErrorCode) (msg : String) : (p.dropWith err msg).state = .closing :=
  rfl

@[simp]
theorem dropWith_peerID (err : ErrorCode) (msg : String) :
    (p.dropWith err msg).peerID = p.peerID :=
  sendMessage_peerID _ _

/-- A HELLO closes the connection or is accepted. -/
theorem recvHello_cases (elo : Hello) (p : Peer) :
    (p.recvHello circ elo).state = .closing ∨
      p.state.reachedHello = false ∧ (p.recvHello circ elo).state = .gotHello ∧
        (p.recvHello circ elo).peerID = elo.peerID := by
  by_cases hstate : p.state.reachedHello = true
  · rw [recvHello, if_pos hstate]
    exact Or.inl rfl
  rw [recvHello, if_neg hstate]
  split
  · exact Or.inl rfl
  split
  · exact Or.inl rfl
  cases helloFailure circ elo p.config with
  | some msg => exact Or.inl rfl
  | none =>
    refine Or.inr ⟨Bool.eq_false_iff.2 hstate, ?_, ?_⟩ <;> dsimp only <;> split_ifs <;>
      simp [agree]

theorem sendScpState_state_peerID (p : Peer) :
    (p.sendScpState circ).state = p.state ∧ (p.sendScpState circ).peerID = p.peerID := by
  unfold sendScpState
  rw [sendMessage_state, sendMessage_peerID]
  induction circ.scpState generalizing p with
  | nil => exact ⟨rfl, rfl⟩
  | cons body bodies ih =>
    obtain ⟨hstate, hid⟩ := ih (p.sendMessage (.other .scpMessage body))
    exact ⟨hstate.trans (sendMessage_state _ _), hid.trans (sendMessage_peerID _ _)⟩

/-- An AUTH out of order or of a peer that is not accepted closes the connection. -/
theorem dispatch_auth_refused (p : Peer) (h : p.state = .gotHello → circ.accepted = false) :
    (p.dispatch circ .auth).state = .closing ∧ (p.dispatch circ .auth).peerID = p.peerID := by
  by_cases hstate : p.state = .gotHello
  · simp only [dispatch, recvAuth, hstate, h hstate, ne_eq, not_true_eq_false, if_false,
      Bool.not_false, if_true, dropWith_state, dropWith_peerID, true_and]
    split <;> simp
  · simp [dispatch, recvAuth, hstate]

theorem dispatch_auth_accepted (hstate : p.state = .gotHello) (haccepted : circ.accepted = true) :
    (p.dispatch circ .auth).state = .gotAuth ∧ (p.dispatch circ .auth).peerID = p.peerID := by
  simp only [dispatch, recvAuth, hstate, haccepted, ne_eq, not_true_eq_false, if_false,
    Bool.not_true, Bool.false_eq_true, sendScpState_state_peerID]
  split <;> simp

/-- Any other message closes the connection or leaves it as it is. -/
theorem recvPlain_cases {msg : StellarMessage} (hello : ∀ elo, msg ≠ .hello elo)
    (auth : msg ≠ .auth) :
    (p.recvPlain circ msg).peerID = p.peerID ∧
      ((p.recvPlain circ msg).state = .closing ∨ (p.recvPlain circ msg).state = p.state) := by
  cases msg with
  | hello elo => exact absurd rfl (hello elo)
  | auth => exact absurd rfl auth
  | errorMsg code text => exact ⟨rfl, Or.inl rfl⟩
  | other type body =>
    unfold recvPlain
    dsimp only
    split
    · exact ⟨rfl, Or.inr rfl⟩
    · exact ⟨rfl, Or.inl rfl⟩

end Peer

namespace OverlayManager

variable {m m' : OverlayManager} {i j : ConnectionID} {c c' : Connection} {circ : Circumstances}

theorem setConnection_connections (hi : m.connections[i]? = some c) (j : ConnectionID) :
    (m.setConnection i c').connections[j]? = if j = i then some c' else m.connections[j]? := by
  have hlt : i < m.connections.length := (List.getElem?_eq_some_iff.1 hi).1
  rw [setConnection, List.getElem?_set]
  by_cases h : i = j
  · rw [if_pos h, if_pos hlt, if_pos h.symm]
  · rw [if_neg h, if_neg fun h' => h h'.symm]

/-- What holds of a connection. One that is live and in neither list never gets to know its
node. -/
structure Placed (m : OverlayManager) (i : ConnectionID) (c : Connection) : Prop where
  named : c.peer.state = .gotHello ∨ c.peer.state = .gotAuth → c.peer.peerID ≠ 0
  unlisted : c.peer.state ≠ .closing → c.peer.state ≠ .gotAuth → i ∉ m.pendingPeers →
    c.peer.peerID = 0 ∧ c.reading = false ∧ (c.outstanding = true → m.shuttingDown = true)
  outstanding : c.outstanding = true → c.reading = false ∧ c.peer.peerID = 0 ∧
    (c.peer.state = .connecting ∨ c.peer.state = .closing)

theorem Placed.not_outstanding (h : m.Placed i c) (hreading : c.reading = true) :
    ¬ c.outstanding = true := by
  intro hout
  have := (h.outstanding hout).1
  rw [hreading] at this
  cases this

/-- What holds of the lists while nobody is evicted. -/
structure Booked (m : OverlayManager) : Prop where
  pending_nodup : m.pendingPeers.Nodup
  pending : ∀ i ∈ m.pendingPeers, ∃ c, m.connections[i]? = some c ∧
    c.peer.state ≠ .closing ∧ c.peer.state ≠ .gotAuth
  authenticated : ∀ id i, (id, i) ∈ m.authenticatedPeers ↔ ∃ c, m.connections[i]? = some c ∧
    c.peer.state = .gotAuth ∧ c.peer.peerID = id
  keys : (m.authenticatedPeers.map Prod.fst).Nodup
  places : m.authenticatedPeers.length ≤ m.config.maxPeerConnections
  placed : ∀ i c, m.connections[i]? = some c → m.Placed i c

/-- A change of connection `i` alone, with what it takes to keep the lists in order. -/
structure Changes (i : ConnectionID) (c : Connection) (m m' : OverlayManager) : Prop where
  config : m'.config = m.config
  connections : ∀ j, m'.connections[j]? = if j = i then some c else m.connections[j]?
  shuttingDown : m'.shuttingDown = m.shuttingDown
  pending_nodup : m'.pendingPeers.Nodup
  pending : ∀ j ≠ i, j ∈ m'.pendingPeers ↔ j ∈ m.pendingPeers
  pending_self : i ∈ m'.pendingPeers → c.peer.state ≠ .closing ∧ c.peer.state ≠ .gotAuth
  authenticated : ∀ id, ∀ j ≠ i, (id, j) ∈ m'.authenticatedPeers ↔ (id, j) ∈ m.authenticatedPeers
  authenticated_self : ∀ id, (id, i) ∈ m'.authenticatedPeers ↔
    c.peer.state = .gotAuth ∧ c.peer.peerID = id
  keys : (m'.authenticatedPeers.map Prod.fst).Nodup
  places : m'.authenticatedPeers.length ≤ m.config.maxPeerConnections
  placed : m'.Placed i c

theorem Changes.booked (h : Changes i c m m') (hm : m.Booked) : m'.Booked := by
  refine ⟨h.pending_nodup, fun j hj => ?_, fun id j => ?_, h.keys, h.config ▸ h.places,
    fun j d hd => ?_⟩
  · rw [h.connections]
    split_ifs with hji
    · exact ⟨c, rfl, h.pending_self (hji ▸ hj)⟩
    · exact hm.pending j ((h.pending j hji).1 hj)
  · rw [h.connections]
    split_ifs with hji
    · rw [hji, h.authenticated_self id]
      simp
    · exact (h.authenticated id j hji).trans (hm.authenticated id j)
  · rw [h.connections] at hd
    split_ifs at hd with hji
    · cases hd
      exact hji ▸ h.placed
    · obtain ⟨hnamed, hunlisted, hout⟩ := hm.placed j d hd
      refine ⟨hnamed, fun hopen hauth hj => ?_, hout⟩
      rw [h.shuttingDown]
      exact hunlisted hopen hauth fun hj' => hj ((h.pending j hji).2 hj')

/-- An event at connection `i` takes no other connection out of the lists. -/
structure Spares (i : ConnectionID) (m m' : OverlayManager) : Prop where
  config : m'.config = m.config
  pending : ∀ j ≠ i, j ∈ m.pendingPeers → j ∈ m'.pendingPeers
  authenticated : ∀ id, ∀ j ≠ i, (id, j) ∈ m.authenticatedPeers → (id, j) ∈ m'.authenticatedPeers

theorem Changes.spares (h : Changes i c m m') : Spares i m m' :=
  ⟨h.config, fun j hj => (h.pending j hj).2, fun id j hj => (h.authenticated id j hj).2⟩

/-- The event at connection `i` keeps the lists in order. -/
def Keeps (i : ConnectionID) (m m' : OverlayManager) : Prop :=
  m.Booked → m'.Booked ∧ Spares i m m'

theorem Changes.keeps (h : m.Booked → Changes i c m m') : Keeps i m m' :=
  fun hm => ⟨(h hm).booked hm, (h hm).spares⟩

theorem keeps_refl (i : ConnectionID) (m : OverlayManager) : Keeps i m m :=
  fun hm => ⟨hm, rfl, fun _ _ => id, fun _ _ _ => id⟩

theorem Keeps.trans {m'' : OverlayManager} (h : Keeps i m m') (h' : Keeps i m' m'') :
    Keeps i m m'' := by
  intro hm
  obtain ⟨hm', hspares⟩ := h hm
  obtain ⟨hm'', hspares'⟩ := h' hm'
  exact ⟨hm'', hspares'.config.trans hspares.config,
    fun j hj hmem => hspares'.pending j hj (hspares.pending j hj hmem), fun id j hj hmem =>
    hspares'.authenticated id j hj (hspares.authenticated id j hj hmem)⟩

/-! ### Changes of one connection -/

/-- The id of a live connection that is not pending is not that of another stored connection: it
is stored itself, or it does not know its node. -/
theorem Booked.ne_of_entry (hm : m.Booked) (hi : m.connections[i]? = some c)
    (hopen : c.peer.state ≠ .closing) (hpending : i ∉ m.pendingPeers) {id : NodeID}
    (hentry : (id, j) ∈ m.authenticatedPeers) (hj : j ≠ i) : id ≠ c.peer.peerID := by
  rintro rfl
  by_cases hauth : c.peer.state = .gotAuth
  · have hself : (c.peer.peerID, i) ∈ m.authenticatedPeers :=
      (hm.authenticated _ i).2 ⟨c, hi, hauth, rfl⟩
    exact hj (congrArg Prod.snd (inj_on_of_nodup_map hm.keys hentry hself rfl))
  · obtain ⟨d, hd, hd', hid⟩ := (hm.authenticated _ j).1 hentry
    have hzero := ((hm.placed i c hi).unlisted hopen hauth hpending).1
    exact (hm.placed j d hd).named (Or.inr hd') (hid.trans hzero)

section

variable (hi : m.connections[i]? = some c)
include hi

/-- The connection stays in the list where it is. -/
theorem keeps_setConnection (hstate : c'.peer.state = c.peer.state)
    (hid : c'.peer.peerID = c.peer.peerID) (hreading : c'.reading = c.reading)
    (hout : c'.outstanding = true → c.outstanding = true) : Keeps i m (m.setConnection i c') := by
  refine Changes.keeps (c := c') fun hm => ?_
  obtain ⟨hnamed, hunlisted, houtstanding⟩ := hm.placed i c hi
  refine ⟨rfl, setConnection_connections hi, rfl, hm.pending_nodup, fun _ _ => Iff.rfl,
    fun hmem => ?_, fun _ _ _ => Iff.rfl, fun id => ?_, hm.keys, hm.places, ⟨?_, ?_, fun h => ?_⟩⟩
  · obtain ⟨d, hd, hd'⟩ := hm.pending i hmem
    cases hd.symm.trans hi
    rwa [hstate]
  · refine (hm.authenticated id i).trans ?_
    rw [hi, hstate, hid]
    simp
  · rwa [hstate, hid]
  · rw [hstate, hid, hreading]
    exact fun hopen hauth hmem =>
      (hunlisted hopen hauth hmem).imp id fun h => h.imp id fun h h' => h (hout h')
  · rw [hstate, hid, hreading]
    exact houtstanding (hout h)

/-- The connection goes on with the handshake. -/
theorem keeps_handshake (hauth : c.peer.state ≠ .gotAuth) (hopen' : c'.peer.state ≠ .closing)
    (hauth' : c'.peer.state ≠ .gotAuth) (hplaced : m.Booked → m.Placed i c') :
    Keeps i m (m.setConnection i c') := by
  refine Changes.keeps (c := c') fun hm => ?_
  obtain ⟨hnamed, hunlisted, hout⟩ := hplaced hm
  refine ⟨rfl, setConnection_connections hi, rfl, hm.pending_nodup, fun _ _ => Iff.rfl,
    fun _ => ⟨hopen', hauth'⟩, fun _ _ _ => Iff.rfl, fun id => ?_, hm.keys, hm.places,
    ⟨hnamed, hunlisted, hout⟩⟩
  refine (hm.authenticated id i).trans ?_
  rw [hi]
  simp [hauth, hauth']

/-- A connection that is dropped is found in its list. -/
theorem keeps_settle_closing (hopen : c.peer.state ≠ .closing) (hclosing : c'.peer.state = .closing)
    (hid : i ∉ m.pendingPeers → c'.peer.peerID = c.peer.peerID)
    (hout : c'.outstanding = true → c'.reading = false ∧ c'.peer.peerID = 0) :
    Keeps i m (m.settle i c') := by
  rw [settle, if_pos hclosing]
  refine Changes.keeps (c := c') fun hm => ?_
  have hplaced : ∀ m' : OverlayManager, m'.Placed i c' := by
    refine fun m' => ⟨fun h => ?_, fun h => absurd hclosing h, fun h => ?_⟩
    · rw [hclosing] at h
      rcases h with h | h <;> cases h
    · exact ⟨(hout h).1, (hout h).2, Or.inr hclosing⟩
  by_cases hpending : i ∈ m.pendingPeers
  · rw [dropPeer, if_pos (show i ∈ (m.setConnection i c').pendingPeers from hpending)]
    refine ⟨rfl, setConnection_connections hi, rfl, hm.pending_nodup.erase i,
      fun j hj => mem_erase_of_ne hj, fun hmem => absurd hmem hm.pending_nodup.not_mem_erase,
      fun _ _ _ => Iff.rfl, fun id => ?_, hm.keys, hm.places, hplaced _⟩
    refine (hm.authenticated id i).trans ?_
    obtain ⟨d, hd, -, hauth⟩ := hm.pending i hpending
    rw [hd, hclosing]
    simp [hauth]
  · have hget : (m.setConnection i c').connections[i]? = some c' := by
      rw [setConnection_connections hi, if_pos rfl]
    rw [dropPeer, if_neg (show i ∉ (m.setConnection i c').pendingPeers from hpending), hget]
    dsimp only
    rw [hid hpending]
    have hmem : ∀ id j, (id, j) ∈ m.authenticatedPeers.filter
        (fun e => decide (e.1 ≠ c.peer.peerID)) ↔
          (id, j) ∈ m.authenticatedPeers ∧ id ≠ c.peer.peerID := by
      intro id j
      rw [mem_filter, decide_eq_true_eq]
    refine ⟨rfl, setConnection_connections hi, rfl, hm.pending_nodup, fun _ _ => Iff.rfl,
      fun h => absurd h hpending, fun id j hj => ?_, fun id => ?_,
      hm.keys.sublist (filter_sublist.map _), (length_filter_le _ _).trans hm.places,
      hplaced _⟩
    · refine (hmem id j).trans ⟨And.left, fun h => ⟨h, ?_⟩⟩
      exact hm.ne_of_entry hi hopen hpending h hj
    · refine (hmem id i).trans ⟨fun h => ?_, fun h => ?_⟩
      · obtain ⟨d, hd, -, hd'⟩ := (hm.authenticated id i).1 h.1
        cases hd.symm.trans hi
        exact absurd hd'.symm h.2
      · rw [hclosing] at h
        cases h.1

end

/-! ### Events -/

theorem keeps_drop (i : ConnectionID) (m : OverlayManager) : Keeps i m (m.drop i) := by
  unfold drop
  split
  · exact keeps_refl i m
  · rename_i c hi
    split_ifs with habort
    · exact keeps_refl i m
    · intro hm
      have hopen : c.peer.state ≠ .closing := fun h => habort (by simp [shouldAbort, h])
      refine keeps_settle_closing hi hopen rfl (fun _ => rfl) (fun h => ?_) hm
      obtain ⟨hreading, hzero, -⟩ := (hm.placed i c hi).outstanding h
      exact ⟨hreading, hzero⟩

theorem keeps_dropWith (err : ErrorCode) (msg : String) (i : ConnectionID) (m : OverlayManager) :
    Keeps i m (m.dropWith err msg i) := by
  unfold dropWith
  split
  · exact keeps_refl i m
  · rename_i c hi
    have hsend : Keeps i m (m.setConnection i
        { c with peer := c.peer.sendMessage (.errorMsg err msg) }) :=
      keeps_setConnection hi (Peer.sendMessage_state _ _) (Peer.sendMessage_peerID _ _) rfl id
    exact hsend.trans (keeps_drop i _)

theorem keeps_connectHandler (error : Bool) (certExpiration : Nat) (i : ConnectionID)
    (m : OverlayManager) : Keeps i m (m.connectHandler error certExpiration i) := by
  unfold connectHandler
  split
  · exact keeps_refl i m
  · rename_i c hi
    split_ifs with hout herror
    · exact keeps_refl i m
    · have hdone : Keeps i m (m.setConnection i { c with outstanding := false }) :=
        keeps_setConnection hi rfl rfl rfl (by rintro ⟨⟩)
      exact hdone.trans (keeps_drop i _)
    · intro hm
      obtain ⟨hnamed, hunlisted, houtstanding⟩ := hm.placed i c hi
      obtain ⟨-, hzero, hstate⟩ := houtstanding (by simpa using hout)
      have hauth : c.peer.state ≠ .gotAuth := by
        rintro h
        rw [h] at hstate
        rcases hstate with hstate | hstate <;> cases hstate
      have hconnected : (c.peer.connectHandler false certExpiration).state = .connected := by
        simp [Peer.connectHandler]
      have hid : (c.peer.connectHandler false certExpiration).peerID = 0 := by
        simp [Peer.connectHandler, hzero]
      refine keeps_handshake hi hauth (by rw [hconnected]; rintro ⟨⟩)
        (by rw [hconnected]; rintro ⟨⟩) (fun _ => ⟨fun h => ?_, fun _ _ hpending => ?_, ?_⟩) hm
      · rcases h with h | h <;> cases h
      · refine ⟨hid, ?_, by rintro ⟨⟩⟩
        -- Nothing is read from a connection that is in neither list.
        change (!m.shouldAbort c.peer) = false
        by_cases hclosing : c.peer.state = .closing
        · simp [shouldAbort, hclosing]
        · have hshut := (hunlisted hclosing hauth hpending).2.2 (by simpa using hout)
          simp [shouldAbort, hshut]
      · rintro ⟨⟩

theorem find_eq_none {id : NodeID} : m.find id = none ↔ ∀ j, (id, j) ∉ m.authenticatedPeers := by
  rw [find, Option.map_eq_none_iff, List.find?_eq_none]
  constructor
  · intro h j hj
    exact h _ hj (decide_eq_true rfl)
  · rintro h ⟨id', j⟩ hj hid
    cases of_decide_eq_true hid
    exact h j hj

theorem settle_setConnection (d : Connection) :
    (m.setConnection i c).settle i d = m.settle i d := by
  simp [settle, setConnection]

/-- A peer moves from the pending list to a free place under its id. -/
def authenticate (i : ConnectionID) (c : Connection) (m : OverlayManager) : OverlayManager :=
  { m.setConnection i c with
    pendingPeers := m.pendingPeers.erase i
    authenticatedPeers := m.authenticatedPeers.orderedInsert (fun a b => a.1 ≤ b.1)
      (c.peer.peerID, i) }

section

variable (hi : m.connections[i]? = some c)
include hi

theorem keeps_recvHello {address : PeerAddress} {elo : Hello} (hreading : c.reading = true)
    (hopen : c.peer.state ≠ .closing) (helo : elo.peerID ≠ 0) :
    Keeps i m (m.recvHello circ address elo i c) := by
  intro hm
  have hpending : c.peer.state ≠ .gotAuth → i ∈ m.pendingPeers := by
    intro hauth
    by_contra hpending
    have := ((hm.placed i c hi).unlisted hopen hauth hpending).2.1
    rw [hreading] at this
    cases this
  have hout := (hm.placed i c hi).not_outstanding hreading
  unfold recvHello
  rcases Peer.recvHello_cases { circ with alreadyConnected := m.alreadyConnected i elo.peerID } elo
    c.peer with hclosing | ⟨hreached, hstate, hid⟩
  · refine keeps_settle_closing hi hopen hclosing (fun h => ?_) (fun h => absurd h hout) hm
    -- Only a connection whose handshake is complete is not pending, and a second HELLO just
    -- closes it.
    have hauth : c.peer.state = .gotAuth := by
      by_contra hauth
      exact h (hpending hauth)
    rw [Peer.recvHello, if_pos (by rw [hauth]; rfl)]
    rfl
  · have hauth : c.peer.state ≠ .gotAuth := by
      intro h
      rw [h] at hreached
      cases hreached
    rw [settle, if_neg (by rw [hstate]; rintro ⟨⟩)]
    refine keeps_handshake hi hauth (by rw [hstate]; rintro ⟨⟩) (by rw [hstate]; rintro ⟨⟩)
      (fun _ => ⟨fun _ => hid.symm ▸ helo, fun _ _ h => absurd (hpending hauth) h,
        fun h => absurd h hout⟩) hm

/-- Without an eviction a peer is refused or moved to a free place under its id. -/
theorem acceptAuthenticatedPeer_cases (hevicted : m.evicted i = none) :
    m.acceptAuthenticatedPeer i = (false, m) ∨
      i ∈ m.pendingPeers ∧ (∀ j, (c.peer.peerID, j) ∉ m.authenticatedPeers) ∧
        m.authenticatedPeers.length < m.config.maxPeerConnections ∧
        m.acceptAuthenticatedPeer i = (true, { m with
          pendingPeers := m.pendingPeers.erase i
          authenticatedPeers := m.authenticatedPeers.orderedInsert (fun a b => a.1 ≤ b.1)
            (c.peer.peerID, i) }) := by
  rw [acceptAuthenticatedPeer, hevicted]
  split_ifs with hplace
  · rw [moveToAuthenticated, hi]
    dsimp only
    split_ifs with hpending hfind
    · exact Or.inl rfl
    · refine Or.inr ⟨hpending, find_eq_none.1 ?_, ?_, rfl⟩
      · simpa using hfind
      · exact of_decide_eq_true (Bool.and_eq_true_iff.1 hplace).2
    · exact Or.inl rfl
  · exact Or.inl rfl

theorem keeps_authenticate (hstate : c.peer.state = .gotHello)
    (hfree : ∀ j, (c.peer.peerID, j) ∉ m.authenticatedPeers)
    (hplace : m.authenticatedPeers.length < m.config.maxPeerConnections)
    (hauth : c'.peer.state = .gotAuth) (hid : c'.peer.peerID = c.peer.peerID)
    (hout : ¬ c'.outstanding = true) : Keeps i m (m.authenticate i c') := by
  refine Changes.keeps (c := c') fun hm => ?_
  have hmem : ∀ e, e ∈ (m.authenticate i c').authenticatedPeers ↔
      e = (c'.peer.peerID, i) ∨ e ∈ m.authenticatedPeers := fun e => mem_orderedInsert _
  have hnot : ∀ id, (id, i) ∉ m.authenticatedPeers := by
    intro id h
    obtain ⟨d, hd, hd', -⟩ := (hm.authenticated id i).1 h
    cases hd.symm.trans hi
    rw [hstate] at hd'
    cases hd'
  refine ⟨rfl, setConnection_connections hi, rfl, hm.pending_nodup.erase i,
    fun j hj => mem_erase_of_ne hj, fun h => absurd h hm.pending_nodup.not_mem_erase,
    fun id j hj => ?_, fun id => ?_, ?_, ?_, fun _ => ?_, fun _ h => absurd hauth h,
    fun h => absurd h hout⟩
  · refine (hmem _).trans ⟨fun h => h.resolve_left fun h => ?_, Or.inr⟩
    exact hj (congrArg Prod.snd h)
  · refine (hmem _).trans ⟨fun h => ?_, fun h => Or.inl ?_⟩
    · exact ⟨hauth, (congrArg Prod.fst (h.resolve_right (hnot id))).symm⟩
    · rw [h.2]
  · refine ((perm_orderedInsert _ _ _).map Prod.fst).nodup_iff.2 ?_
    refine nodup_cons.2 ⟨fun h => ?_, hm.keys⟩
    obtain ⟨⟨id, j⟩, hj, hsame⟩ := mem_map.1 h
    cases hsame.trans hid
    exact hfree j hj
  · change (List.orderedInsert _ _ _).length ≤ _
    rw [orderedInsert_length]
    exact hplace
  · rw [hid]
    exact (hm.placed i c hi).named (Or.inl hstate)

theorem keeps_recvAuth (hreading : c.reading = true) (hopen : c.peer.state ≠ .closing)
    (hevicted : c.peer.state = .gotHello → evicted i (m.setConnection i { c with peer := { c.peer
      with state := .gotAuth } }) = none) : Keeps i m (m.recvAuth circ i c) := by
  intro hm
  have hout := (hm.placed i c hi).not_outstanding hreading
  unfold recvAuth
  split_ifs with hstate
  · obtain ⟨hclosing, hid⟩ := Peer.dispatch_auth_refused circ c.peer fun h => absurd h hstate
    exact keeps_settle_closing hi hopen hclosing (fun _ => hid) (fun h => absurd h hout) hm
  · replace hstate := not_not.1 hstate
    have hget : (m.setConnection i
        { c with peer := { c.peer with state := .gotAuth } }).connections[i]? =
        some { c with peer := { c.peer with state := .gotAuth } } := by
      rw [setConnection_connections hi, if_pos rfl]
    rcases acceptAuthenticatedPeer_cases hget (hevicted hstate) with
      hrefused | ⟨hpending, hfree, hplace, haccepted⟩
    · rw [hrefused]
      dsimp only
      obtain ⟨hclosing, hid⟩ := Peer.dispatch_auth_refused { circ with accepted := false } c.peer
        fun _ => rfl
      rw [settle_setConnection]
      exact keeps_settle_closing hi hopen hclosing (fun _ => hid) (fun h => absurd h hout) hm
    · rw [haccepted]
      dsimp only
      obtain ⟨hauth, hid⟩ := Peer.dispatch_auth_accepted { circ with accepted := true } hstate rfl
      rw [settle, if_neg (by rw [hauth]; rintro ⟨⟩)]
      have hkeeps : Keeps i m (m.authenticate i
          { c with peer := c.peer.dispatch { circ with accepted := true } .auth }) :=
        keeps_authenticate hi hstate hfree hplace hauth hid hout
      simpa only [authenticate, setConnection, set_set, hid] using hkeeps hm

end

/-- The events after which the lists are kept in order: no peer is evicted for this one, none is
dropped by command, and no HELLO names the node whose key is all zeros, which cannot sign. -/
structure Undisturbed (ev : Event) (m : OverlayManager) : Prop where
  eviction : ∀ i circ address c, ev = .recvMessage i circ address .auth →
    m.connections[i]? = some c → c.peer.state = .gotHello →
      evicted i (m.setConnection i { c with peer := { c.peer with state := .gotAuth } }) = none
  command : ∀ id, ev ≠ .commandDropPeer id
  hello : ∀ i circ address elo, ev = .recvMessage i circ address (.hello elo) → elo.peerID ≠ 0

theorem keeps_recvMessage {address : PeerAddress} {msg : StellarMessage}
    (hev : Undisturbed (.recvMessage i circ address msg) m) :
    Keeps i m (m.recvMessage circ address msg i) := by
  unfold recvMessage
  split
  · exact keeps_refl i m
  · rename_i c hi
    split_ifs with hguard
    · exact keeps_refl i m
    · have hreading : c.reading = true := by
        by_contra h
        exact hguard (by simp [h])
      have hopen : c.peer.state ≠ .closing := by
        intro h
        exact hguard (by simp [shouldAbort, h])
      have hplain : (∀ elo, msg ≠ .hello elo) → msg ≠ .auth →
          Keeps i m (m.settle i { c with peer := c.peer.recvPlain circ msg }) := by
        intro hhello hauth hm
        obtain ⟨hid, hclosing | hstate⟩ := Peer.recvPlain_cases (p := c.peer) circ hhello hauth
        · refine keeps_settle_closing hi hopen hclosing (fun _ => hid) (fun h => ?_) hm
          obtain ⟨hread, hzero, -⟩ := (hm.placed i c hi).outstanding h
          exact ⟨hread, hid.trans hzero⟩
        · rw [settle, if_neg (by rwa [hstate])]
          exact keeps_setConnection hi hstate hid rfl id hm
      cases msg with
      | hello elo => exact keeps_recvHello hi hreading hopen (hev.hello _ _ _ _ rfl)
      | auth => exact keeps_recvAuth hi hreading hopen (hev.eviction _ _ _ _ rfl hi)
      | errorMsg code text => exact hplain (by rintro _ ⟨⟩) (by rintro ⟨⟩)
      | other type body => exact hplain (by rintro _ ⟨⟩) (by rintro ⟨⟩)

theorem Booked.pending_lt (hm : m.Booked) (hi : i ∈ m.pendingPeers) : i < m.connections.length := by
  obtain ⟨c, hc, -⟩ := hm.pending i hi
  exact (List.getElem?_eq_some_iff.1 hc).1

theorem Booked.authenticated_lt (hm : m.Booked) {id : NodeID}
    (hi : (id, i) ∈ m.authenticatedPeers) : i < m.connections.length := by
  obtain ⟨c, hc, -⟩ := (hm.authenticated id i).1 hi
  exact (List.getElem?_eq_some_iff.1 hc).1

theorem Booked.filter_zero (hm : m.Booked) :
    (m.authenticatedPeers.filter fun e => decide (e.1 ≠ 0)) = m.authenticatedPeers := by
  refine filter_eq_self.2 ?_
  rintro ⟨id, i⟩ hi
  obtain ⟨c, hc, hauth, hid⟩ := (hm.authenticated id i).1 hi
  exact decide_eq_true (hid ▸ (hm.placed i c hc).named (Or.inr hauth))

theorem append_connections (c : Connection) (m : OverlayManager) (j : ConnectionID) :
    (m.connections ++ [c])[j]? =
      if j = m.connections.length then some c else m.connections[j]? := by
  by_cases hj : j = m.connections.length
  · simp [hj]
  · rw [if_neg hj]
    rcases Nat.lt_or_gt_of_ne hj with hlt | hgt
    · exact List.getElem?_append_left hlt
    · rw [List.getElem?_eq_none (by simp; omega), List.getElem?_eq_none (by omega)]

/-- A new connection that is in neither list. -/
theorem Booked.append (hm : m.Booked) (hauth : c.peer.state ≠ .gotAuth)
    (hplaced : m.Placed m.connections.length c) :
    Changes m.connections.length c m { m with connections := m.connections ++ [c] } := by
  refine ⟨rfl, append_connections c m, rfl, hm.pending_nodup, fun _ _ => Iff.rfl,
    fun h => absurd rfl (hm.pending_lt h).ne, fun _ _ _ => Iff.rfl, fun id => ?_, hm.keys,
    hm.places, hplaced.named, hplaced.unlisted, hplaced.outstanding⟩
  exact ⟨fun h => absurd rfl (hm.authenticated_lt h).ne, fun h => absurd h.1 hauth⟩

/-- A new connection joins the pending ones. -/
theorem Booked.append_pending (hm : m.Booked) (hopen : c.peer.state ≠ .closing)
    (hauth : c.peer.state ≠ .gotAuth) (hhello : c.peer.state ≠ .gotHello)
    (hout : c.outstanding = true → c.reading = false ∧ c.peer.peerID = 0 ∧
      (c.peer.state = .connecting ∨ c.peer.state = .closing)) :
    Changes m.connections.length c m { m with
      connections := m.connections ++ [c]
      pendingPeers := m.pendingPeers ++ [m.connections.length] } := by
  refine ⟨rfl, append_connections c m, rfl, ?_, fun j hj => ?_, fun _ => ⟨hopen, hauth⟩,
    fun _ _ _ => Iff.rfl, fun id => ?_, hm.keys, hm.places, fun h => ?_, fun _ _ h => ?_, hout⟩
  · exact nodup_append.2 ⟨hm.pending_nodup, nodup_singleton _, fun j hj k hk => by
      rw [mem_singleton.1 hk]
      exact (hm.pending_lt hj).ne⟩
  · simp [hj]
  · exact ⟨fun h => absurd rfl (hm.authenticated_lt h).ne, fun h => absurd h.1 hauth⟩
  · exact absurd h (not_or.2 ⟨hhello, hauth⟩)
  · simp at h

/-- A new connection that is refused is closed and was in no list. -/
theorem Booked.settle_append (hm : m.Booked) (hid : c.peer.peerID = 0) :
    settle m.connections.length { c with peer := c.peer.drop }
      { m with connections := m.connections ++ [c] } =
      { m with connections := m.connections ++ [{ c with peer := c.peer.drop }] } := by
  have hset : (m.connections ++ [c]).set m.connections.length { c with peer := c.peer.drop } =
      m.connections ++ [{ c with peer := c.peer.drop }] := by
    rw [set_append_right _ _ le_rfl, Nat.sub_self]
    rfl
  have hget : (m.connections ++ [{ c with peer := c.peer.drop }])[m.connections.length]? =
      some { c with peer := c.peer.drop } := by simp
  have hpending : m.connections.length ∉ m.pendingPeers := fun h => (hm.pending_lt h).ne rfl
  rw [settle, if_pos (show c.peer.drop.state = .closing from rfl), setConnection, hset, dropPeer,
    if_neg hpending, hget]
  dsimp only
  rw [show c.peer.drop.peerID = 0 from hid, hm.filter_zero]

theorem keeps_connect (role : PeerRole) (address : PeerAddress) (sendNonce : Nonce)
    (m : OverlayManager) : Keeps m.connections.length m (m.connect role address sendNonce) := by
  intro hm
  obtain ⟨hopen, hauth, hhello⟩ : (m.newConnection role address sendNonce).peer.state ≠ .closing ∧
      (m.newConnection role address sendNonce).peer.state ≠ .gotAuth ∧
      (m.newConnection role address sendNonce).peer.state ≠ .gotHello := by
    cases role <;> exact ⟨by rintro ⟨⟩, by rintro ⟨⟩, by rintro ⟨⟩⟩
  have hout : (m.newConnection role address sendNonce).outstanding = true →
      (m.newConnection role address sendNonce).reading = false ∧
        (m.newConnection role address sendNonce).peer.state = .connecting := by
    cases role
    · rintro ⟨⟩
    · exact fun _ => ⟨rfl, rfl⟩
  have hid : (m.newConnection role address sendNonce).peer.peerID = 0 := rfl
  have hread : m.shuttingDown = true →
      (m.newConnection role address sendNonce).reading = false := by
    intro h
    simp [newConnection, h]
  unfold connect
  generalize m.newConnection role address sendNonce = c at *
  have hplaced : c.outstanding = true → c.reading = false ∧ c.peer.peerID = 0 ∧
      (c.peer.state = .connecting ∨ c.peer.state = .closing) :=
    fun h => ⟨(hout h).1, hid, Or.inl (hout h).2⟩
  have hget : (m.connections ++ [c])[m.connections.length]? = some c := by simp
  unfold addPendingPeer
  split_ifs with hfull
  · unfold drop
    rw [hget]
    dsimp only
    split_ifs with habort
    · have hshut : m.shuttingDown = true := by
        simpa [shouldAbort, hopen] using habort
      refine Changes.keeps (fun hm => hm.append hauth ?_) hm
      exact ⟨fun h => absurd h (not_or.2 ⟨hhello, hauth⟩),
        fun _ _ _ => ⟨hid, hread hshut, fun _ => hshut⟩, hplaced⟩
    · rw [hm.settle_append hid]
      refine Changes.keeps (fun hm => hm.append (by rintro ⟨⟩) ?_) hm
      exact ⟨fun h => absurd h (not_or.2 ⟨by rintro ⟨⟩, by rintro ⟨⟩⟩), fun h => absurd rfl h,
        fun h => ⟨(hout h).1, hid, Or.inr rfl⟩⟩
  · exact Changes.keeps (fun hm => hm.append_pending hopen hauth hhello hplaced) hm

/-- The lists are those of before. -/
def SameLists (m m' : OverlayManager) : Prop :=
  m'.pendingPeers = m.pendingPeers ∧ m'.authenticatedPeers = m.authenticatedPeers

/-- Nobody is dropped any more once the shutdown has begun. -/
theorem dropWith_of_shuttingDown (h : m.shuttingDown = true) (err : ErrorCode) (msg : String)
    (i : ConnectionID) :
    (m.dropWith err msg i).shuttingDown = true ∧ SameLists m (m.dropWith err msg i) := by
  unfold dropWith
  split
  · exact ⟨h, rfl, rfl⟩
  · unfold drop
    split
    · exact ⟨h, rfl, rfl⟩
    · rw [if_pos (by simp [shouldAbort, setConnection, h])]
      exact ⟨h, rfl, rfl⟩

theorem booked_shutdown (hm : m.Booked) :
    m.shutdown.Booked ∧ m.shutdown.config = m.config ∧ SameLists m m.shutdown := by
  have hfold : ∀ (is : List ConnectionID) (m : OverlayManager), m.shuttingDown = true → m.Booked →
      let m' := is.foldl (fun m i => m.dropWith .misc "peer shutdown" i) m
      m'.Booked ∧ m'.config = m.config ∧ SameLists m m' := by
    intro is
    induction is with
    | nil => exact fun m _ hm => ⟨hm, rfl, rfl, rfl⟩
    | cons i is ih =>
      intro m hshut hm
      obtain ⟨hshut', hpending, hauth⟩ := dropWith_of_shuttingDown hshut .misc "peer shutdown" i
      obtain ⟨hbooked, hspares⟩ := keeps_dropWith .misc "peer shutdown" i m hm
      obtain ⟨hbooked', hconfig, hpending', hauth'⟩ := ih _ hshut' hbooked
      exact ⟨hbooked', hconfig.trans hspares.config, hpending'.trans hpending, hauth'.trans hauth⟩
  unfold shutdown
  split_ifs
  · exact ⟨hm, rfl, rfl, rfl⟩
  · refine hfold _ _ rfl ⟨hm.pending_nodup, hm.pending, hm.authenticated, hm.keys, hm.places,
      fun i c hi => ?_⟩
    obtain ⟨hnamed, hunlisted, hout⟩ := hm.placed i c hi
    exact ⟨hnamed, fun hopen hauth hpending =>
      (hunlisted hopen hauth hpending).imp id fun h => h.imp id fun _ _ => rfl, hout⟩

/-! ### Runs -/

/-- The connection at which an event happens. -/
def Event.connection : Event → Option ConnectionID
  | .connect _ _ _ => none
  | .connectHandler i _ _ => some i
  | .recvMessage i _ _ _ => some i
  | .drop i => some i
  | .dropWith i _ _ => some i
  | .commandDropPeer _ => none
  | .shutdown => none

/-- The connection is in the same list as before. -/
def Spared (i : ConnectionID) (m m' : OverlayManager) : Prop :=
  (i ∈ m.pendingPeers → i ∈ m'.pendingPeers) ∧
    ∀ id, (id, i) ∈ m.authenticatedPeers → (id, i) ∈ m'.authenticatedPeers

theorem Keeps.booked (h : Keeps i m m') (hm : m.Booked) :
    m'.Booked ∧ m'.config = m.config ∧ ∀ j, some i ≠ some j → Spared j m m' := by
  obtain ⟨hm', hconfig, hpending, hauth⟩ := h hm
  refine ⟨hm', hconfig, fun j hj => ?_⟩
  have hne : j ≠ i := fun h => hj (congrArg some h.symm)
  exact ⟨hpending j hne, fun id => hauth id j hne⟩

theorem booked_handle {ev : Event} (hm : m.Booked) (hev : Undisturbed ev m) :
    (m.handle ev).Booked ∧ (m.handle ev).config = m.config ∧
      ∀ j, ev.connection ≠ some j → Spared j m (m.handle ev) := by
  cases ev with
  | connect role address sendNonce =>
    obtain ⟨hm', hconfig, hpending, hauth⟩ := keeps_connect role address sendNonce m hm
    refine ⟨hm', hconfig, fun j _ => ⟨fun hj => ?_, fun id hj => ?_⟩⟩
    · exact hpending j (hm.pending_lt hj).ne hj
    · exact hauth id j (hm.authenticated_lt hj).ne hj
  | connectHandler i error certExpiration =>
    exact (keeps_connectHandler error certExpiration i m).booked hm
  | recvMessage i circ address msg => exact (keeps_recvMessage hev).booked hm
  | drop i => exact (keeps_drop i m).booked hm
  | dropWith i err msg => exact (keeps_dropWith err msg i m).booked hm
  | commandDropPeer id => exact absurd rfl (hev.command id)
  | shutdown =>
    obtain ⟨hbooked, hconfig, hpending, hauth⟩ := booked_shutdown hm
    refine ⟨hbooked, hconfig, fun j _ => ⟨fun hj => ?_, fun id hj => ?_⟩⟩
    · exact hpending.symm ▸ hj
    · exact hauth.symm ▸ hj

/-- All that can happen to a node from its start on without a disturbance. -/
inductive Run (config : OverlayConfig) : OverlayManager → Prop
  | init : Run config { config := config }
  | handle {m : OverlayManager} (ev : Event) (run : Run config m) (hev : Undisturbed ev m) :
      Run config (m.handle ev)

theorem Run.booked {config : OverlayConfig} (h : Run config m) :
    m.Booked ∧ m.config = config := by
  induction h with
  | init =>
    exact ⟨⟨nodup_nil, by simp, by simp, nodup_nil, Nat.zero_le _, by simp⟩, rfl⟩
  | handle ev _ hev ih =>
    obtain ⟨hbooked, hconfig, -⟩ := booked_handle ih.1 hev
    exact ⟨hbooked, hconfig.trans ih.2⟩

theorem Booked.find_eq_some (hm : m.Booked) {id : NodeID} :
    m.find id = some i ↔ (id, i) ∈ m.authenticatedPeers := by
  rw [find, Option.map_eq_some_iff]
  constructor
  · rintro ⟨⟨id', j⟩, hfind, rfl⟩
    have hid : id' = id := by simpa using List.find?_some hfind
    exact hid ▸ mem_of_find?_eq_some hfind
  · intro hmem
    obtain ⟨e, he⟩ : ∃ e, m.authenticatedPeers.find? (fun e => decide (e.1 = id)) = some e :=
      Option.isSome_iff_exists.1 (List.find?_isSome.2 ⟨_, hmem, decide_eq_true rfl⟩)
    have hid : e.1 = id := by simpa using List.find?_some he
    have hsame : e = (id, i) :=
      inj_on_of_nodup_map hm.keys (mem_of_find?_eq_some he) hmem hid
    exact ⟨e, he, congrArg Prod.snd hsame⟩

/-- The live connections whose handshake is complete. -/
def authenticatedConnections (m : OverlayManager) : List ConnectionID :=
  (List.range m.connections.length).filter fun i =>
    (m.connections[i]?).any fun c => c.peer.isAuthenticated

theorem Booked.length_authenticatedConnections (hm : m.Booked) :
    m.authenticatedConnections.length ≤ m.config.maxPeerConnections := by
  have hsubset : m.authenticatedConnections ⊆ m.authenticatedPeers.map Prod.snd := by
    intro i hi
    have hany := (mem_filter.1 hi).2
    cases hc : m.connections[i]? with
    | none =>
      rw [hc] at hany
      cases hany
    | some c =>
      rw [hc] at hany
      have hentry := (hm.authenticated c.peer.peerID i).2 ⟨c, hc, of_decide_eq_true hany, rfl⟩
      exact mem_map.2 ⟨_, hentry, rfl⟩
  have hnodup : m.authenticatedConnections.Nodup := nodup_range.filter _
  calc m.authenticatedConnections.length
    _ ≤ (m.authenticatedPeers.map Prod.snd).length :=
      (subperm_of_subset hnodup hsubset).length_le
    _ = m.authenticatedPeers.length := length_map _
    _ ≤ m.config.maxPeerConnections := hm.places

/-- While nobody is evicted or dropped by command, the connections whose handshake is complete are
those that are stored under the ids of their nodes, no closed connection is pending, no more
connections than allowed are authenticated, and an event at one connection takes no other one out
of the lists. -/
theorem lists_of_live_connections {config : OverlayConfig} (h : Run config m) :
    (∀ i c, m.connections[i]? = some c → c.peer.state = .gotAuth →
      m.find c.peer.peerID = some i) ∧
    (∀ id i, m.find id = some i → ∃ c, m.connections[i]? = some c ∧
      c.peer.state = .gotAuth ∧ c.peer.peerID = id) ∧
    (∀ i ∈ m.pendingPeers, ∃ c, m.connections[i]? = some c ∧ c.peer.state ≠ .closing) ∧
    m.authenticatedConnections.length ≤ config.maxPeerConnections ∧
    ∀ ev, Undisturbed ev m → ∀ j, ev.connection ≠ some j → Spared j m (m.handle ev) := by
  obtain ⟨hm, hconfig⟩ := h.booked
  refine ⟨fun i c hi hauth => ?_, fun id i hfind => ?_, fun i hi => ?_, ?_, fun ev hev => ?_⟩
  · exact hm.find_eq_some.2 ((hm.authenticated _ i).2 ⟨c, hi, hauth, rfl⟩)
  · exact (hm.authenticated id i).1 (hm.find_eq_some.1 hfind)
  · obtain ⟨c, hc, hopen, -⟩ := hm.pending i hi
    exact ⟨c, hc, hopen⟩
  · exact hconfig ▸ hm.length_authenticatedConnections
  · exact (booked_handle hm hev).2.2

/-! ### Eviction -/

/-- A node with one place and one preferred remote node. -/
def sampleConfig : OverlayConfig where
  node := ⟨1, 10, 7, 8, 8⟩
  maxPendingConnections := 10
  maxPeerConnections := 1
  preferredPeerKeys := [9]

/-- A node calls us and completes the handshake on connection `i`. -/
def handshake (i : ConnectionID) (id : NodeID) : List Event :=
  [.connect .remoteCalledUs 0 i,
    .recvMessage i {} 100 (.hello ⟨8, 8, 7, id, makeAuthCert id 7 50 0, 77⟩),
    .recvMessage i {} 100 .auth]

def handleAll (evs : List Event) (m : OverlayManager) : OverlayManager :=
  evs.foldl (fun m ev => m.handle ev) m

/-- Node 9 is preferred and takes the place of node 5. -/
def evicting : OverlayManager :=
  handleAll (handshake 0 5 ++ handshake 1 9) { config := sampleConfig }

/-- Node 9 leaves and node 5 calls again. -/
def returned : OverlayManager :=
  handleAll (.drop 1 :: handshake 2 5) evicting

/-- A peer that has been evicted is still connected and authenticated but in no list, so that there
are more live connections than allowed. When it is dropped at last, a newer connection of the same
node is taken out of the list in its place. -/
theorem evicted_peer_lives :
    (evicting.connections.map fun c => c.peer.state) = [.gotAuth, .gotAuth] ∧
    (evicting.connections.map fun c => c.peer.peerID) = [5, 9] ∧
    evicting.find 5 = none ∧
    evicting.authenticatedConnections.length = 2 ∧ sampleConfig.maxPeerConnections = 1 ∧
    returned.find 5 = some 2 ∧ (returned.handle (.drop 0)).find 5 = none ∧
    ((returned.handle (.drop 0)).connections.map fun c => c.peer.state) =
      [.closing, .closing, .gotAuth] := by
  decide +kernel

theorem evicted_of_place (h : m.authenticatedPeers.length < m.config.maxPeerConnections)
    (i : ConnectionID) : m.evicted i = none := by
  rw [evicted, if_neg]
  simp
  omega

theorem run_handshake :
    Run sampleConfig (handleAll (handshake 0 5) { config := sampleConfig }) := by
  have hconnect : Run sampleConfig
      (handleAll ((handshake 0 5).take 1) { config := sampleConfig }) :=
    .handle (.connect .remoteCalledUs 0 0) .init
      ⟨by rintro _ _ _ _ ⟨⟩, by rintro _ ⟨⟩, by rintro _ _ _ _ ⟨⟩⟩
  have hhello : Run sampleConfig
      (handleAll ((handshake 0 5).take 2) { config := sampleConfig }) := by
    refine .handle (.recvMessage 0 {} 100 (.hello ⟨8, 8, 7, 5, makeAuthCert 5 7 50 0, 77⟩))
      hconnect ⟨by rintro _ _ _ _ ⟨⟩, by rintro _ ⟨⟩, ?_⟩
    rintro _ _ _ _ ⟨⟩
    decide
  refine .handle (.recvMessage 0 {} 100 .auth) hhello ⟨fun i circ address c _ _ _ =>
    evicted_of_place ?_ i, by rintro _ ⟨⟩, by rintro _ _ _ _ ⟨⟩⟩
  have hplace : (handleAll ((handshake 0 5).take 2)
      { config := sampleConfig }).authenticatedPeers.length < 1 := by decide +kernel
  exact hplace

theorem lists_of_live_connections_handshake :
    ∃ m, Run sampleConfig m ∧ m.find 5 = some 0 ∧
      m.authenticatedConnections.length ≤ sampleConfig.maxPeerConnections :=
  ⟨_, run_handshake, by decide +kernel, (lists_of_live_connections run_handshake).2.2.2.1⟩

end OverlayManager

end SpnCore.Overlay
