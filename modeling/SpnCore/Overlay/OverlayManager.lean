import SpnCore.Overlay.Peer
import Mathlib.Data.List.Sort

/-!
# The lists of connections

An `OverlayManager` keeps the connections whose handshake is not complete in `pendingPeers` and the
others in `authenticatedPeers` under the id of the remote node. Connections are identified by their
place in the list of all connections ever made, as the source does by their address in memory.

Each event at a connection may change its state, drop it from the lists or move it from one list to
the other.
-/

namespace SpnCore.Overlay

abbrev PeerAddress := Nat

/-- `Peer::pointer` -/
abbrev ConnectionID := Nat

structure OverlayConfig where
  node : Config
  maxPendingConnections : Nat
  maxPeerConnections : Nat
  preferredPeersOnly : Bool := false
  preferredPeers : List PeerAddress := []
  preferredPeerKeys : List NodeID := []

structure Connection where
  peer : Peer
  address : PeerAddress
  /-- The socket has not been connected yet. -/
  outstanding : Bool
  /-- Messages are read from the socket. -/
  reading : Bool

structure OverlayManager where
  config : OverlayConfig
  connections : List Connection := []
  pendingPeers : List ConnectionID := []
  /-- `std::map<NodeID, Peer::pointer>`, in the order of the ids. -/
  authenticatedPeers : List (NodeID × ConnectionID) := []
  shuttingDown : Bool := false

namespace OverlayManager

def find (id : NodeID) (m : OverlayManager) : Option ConnectionID :=
  (m.authenticatedPeers.find? fun e => decide (e.1 = id)).map Prod.snd

def shouldAbort (m : OverlayManager) (peer : Peer) : Bool :=
  decide (peer.state = .closing) || m.shuttingDown

def setConnection (i : ConnectionID) (c : Connection) (m : OverlayManager) : OverlayManager :=
  { m with connections := m.connections.set i c }

/-! ### Leaving the lists -/

/-- A pending peer is found by its address in memory, an authenticated one by the id of its node. -/
def dropPeer (i : ConnectionID) (m : OverlayManager) : OverlayManager :=
  if i ∈ m.pendingPeers then { m with pendingPeers := m.pendingPeers.erase i }
  else
    match m.connections[i]? with
    | none => m
    | some c =>
      { m with
        authenticatedPeers := m.authenticatedPeers.filter fun e => decide (e.1 ≠ c.peer.peerID) }

/-- A handler has run that may have closed the connection. -/
def settle (i : ConnectionID) (c : Connection) (m : OverlayManager) : OverlayManager :=
  if c.peer.state = .closing then (m.setConnection i c).dropPeer i else m.setConnection i c

/-- `TCPPeer::drop` -/
def drop (i : ConnectionID) (m : OverlayManager) : OverlayManager :=
  match m.connections[i]? with
  | none => m
  | some c =>
    if m.shouldAbort c.peer then m else m.settle i { c with peer := c.peer.drop }

/-- `Peer::drop` with a message that says why. -/
def dropWith (err : ErrorCode) (msg : String) (i : ConnectionID) (m : OverlayManager) :
    OverlayManager :=
  match m.connections[i]? with
  | none => m
  | some c =>
    (m.setConnection i { c with peer := c.peer.sendMessage (.errorMsg err msg) }).drop i

/-! ### Entering the lists -/

def addPendingPeer (i : ConnectionID) (m : OverlayManager) : OverlayManager :=
  if m.shuttingDown || decide (m.config.maxPendingConnections ≤ m.pendingPeers.length) then
    m.drop i
  else { m with pendingPeers := m.pendingPeers ++ [i] }

/-- `TCPPeer::initiate` or `TCPPeer::accept` -/
def newConnection (role : PeerRole) (address : PeerAddress) (sendNonce : Nonce)
    (m : OverlayManager) : Connection where
  peer := Peer.init m.config.node role sendNonce
  address := address
  outstanding := decide (role = .weCalledRemote)
  reading := decide (role = .remoteCalledUs) && !m.shuttingDown

def connect (role : PeerRole) (address : PeerAddress) (sendNonce : Nonce) (m : OverlayManager) :
    OverlayManager :=
  addPendingPeer m.connections.length
    { m with connections := m.connections ++ [m.newConnection role address sendNonce] }

/-- The state is `CONNECTED` afterwards even if the connection has been dropped meanwhile, but then
nothing is read from it. -/
def connectHandler (error : Bool) (certExpiration : Nat) (i : ConnectionID) (m : OverlayManager) :
    OverlayManager :=
  match m.connections[i]? with
  | none => m
  | some c =>
    if !c.outstanding then m
    else if error then (m.setConnection i { c with outstanding := false }).drop i
    else
      m.setConnection i { c with
        peer := c.peer.connectHandler false certExpiration
        outstanding := false
        reading := !m.shouldAbort c.peer }

def moveToAuthenticated (i : ConnectionID) (m : OverlayManager) : Bool × OverlayManager :=
  match m.connections[i]? with
  | none => (false, m)
  | some c =>
    if i ∉ m.pendingPeers then (false, m)
    else if (m.find c.peer.peerID).isSome then (false, m)
    else
      (true, { m with
        pendingPeers := m.pendingPeers.erase i
        authenticatedPeers := m.authenticatedPeers.orderedInsert (fun a b => a.1 ≤ b.1)
          (c.peer.peerID, i) })

def isPreferred (i : ConnectionID) (m : OverlayManager) : Bool :=
  match m.connections[i]? with
  | none => false
  | some c =>
    decide (c.address ∈ m.config.preferredPeers) ||
      c.peer.isAuthenticated && decide (c.peer.peerID ∈ m.config.preferredPeerKeys)

/-- The first authenticated peer that is not preferred. -/
def victim (m : OverlayManager) : Option ConnectionID :=
  (m.authenticatedPeers.find? fun e => !m.isPreferred e.2).map Prod.snd

/-- A preferred peer that finds all places taken takes the one of a peer that is not preferred. -/
def evicted (i : ConnectionID) (m : OverlayManager) : Option ConnectionID :=
  if m.isPreferred i && decide (m.config.maxPeerConnections ≤ m.authenticatedPeers.length) then
    m.victim
  else none

def acceptAuthenticatedPeer (i : ConnectionID) (m : OverlayManager) : Bool × OverlayManager :=
  match m.evicted i with
  | some j => (m.dropPeer j).moveToAuthenticated i
  | none =>
    if (m.isPreferred i || !m.config.preferredPeersOnly) &&
        decide (m.authenticatedPeers.length < m.config.maxPeerConnections) then
      m.moveToAuthenticated i
    else (false, m)

/-! ### Messages -/

/-- Another connection to the node is in one of the lists. -/
def alreadyConnected (i : ConnectionID) (id : NodeID) (m : OverlayManager) : Bool :=
  m.authenticatedPeers.any (fun e => decide (e.1 = id ∧ e.2 ≠ i)) ||
    m.pendingPeers.any fun j => decide (j ≠ i) &&
      (m.connections[j]?).any fun c => decide (c.peer.peerID = id)

def recvHello (circ : Circumstances) (address : PeerAddress) (elo : Hello) (i : ConnectionID)
    (c : Connection) (m : OverlayManager) : OverlayManager :=
  let peer := c.peer.recvHello { circ with alreadyConnected := m.alreadyConnected i elo.peerID } elo
  m.settle i { c with
    peer := peer
    address := if peer.state = .closing then c.address else address }

def recvAuth (circ : Circumstances) (i : ConnectionID) (c : Connection) (m : OverlayManager) :
    OverlayManager :=
  if c.peer.state ≠ .gotHello then m.settle i { c with peer := c.peer.dispatch circ .auth }
  else
    let (accepted, answered) := acceptAuthenticatedPeer i
      (m.setConnection i { c with peer := { c.peer with state := .gotAuth } })
    answered.settle i { c with
      peer := c.peer.dispatch { circ with accepted := accepted } .auth }

/-- A message that has passed the checks of its code. -/
def recvMessage (circ : Circumstances) (address : PeerAddress) (msg : StellarMessage)
    (i : ConnectionID) (m : OverlayManager) : OverlayManager :=
  match m.connections[i]? with
  | none => m
  | some c =>
    if !c.reading || m.shouldAbort c.peer then m
    else
      match msg with
      | .hello elo => m.recvHello circ address elo i c
      | .auth => m.recvAuth circ i c
      | .errorMsg _ _ | .other _ _ => m.settle i { c with peer := c.peer.recvPlain circ msg }

/-! ### Events -/

/-- `CommandHandler::dropPeer` -/
def commandDropPeer (id : NodeID) (m : OverlayManager) : OverlayManager :=
  match m.find id with
  | some i => m.dropPeer i
  | none => m

def shutdown (m : OverlayManager) : OverlayManager :=
  if m.shuttingDown then m
  else
    (m.pendingPeers ++ m.authenticatedPeers.map Prod.snd).foldl
      (fun m i => m.dropWith .misc "peer shutdown" i) { m with shuttingDown := true }

/-- What can happen: a drop is an error of the socket, a timeout, a message with a wrong code or
load shedding. -/
inductive Event where
  | connect (role : PeerRole) (address : PeerAddress) (sendNonce : Nonce)
  | connectHandler (i : ConnectionID) (error : Bool) (certExpiration : Nat)
  | recvMessage (i : ConnectionID) (circ : Circumstances) (address : PeerAddress)
      (msg : StellarMessage)
  | drop (i : ConnectionID)
  | dropWith (i : ConnectionID) (err : ErrorCode) (msg : String)
  | commandDropPeer (id : NodeID)
  | shutdown

def handle : Event → OverlayManager → OverlayManager
  | .connect role address sendNonce => connect role address sendNonce
  | .connectHandler i error certExpiration => connectHandler error certExpiration i
  | .recvMessage i circ address msg => recvMessage circ address msg i
  | .drop i => drop i
  | .dropWith i err msg => dropWith err msg i
  | .commandDropPeer id => commandDropPeer id
  | .shutdown => shutdown

end OverlayManager

end SpnCore.Overlay
