import SpnCore.Overlay.PeerAuth

/-!
# One side of a connection

A `Peer` sends and receives the messages of one connection. Once it has received a HELLO, every
message but ERROR_MSG must carry the next sequence number and a code under the receiving key. What
a peer has put on the wire and what it has passed on to a handler is kept as its history.

What the rest of the node decides while a message is handled is an argument: the time, whether the
remote node is banned or already connected, and so on.
-/

namespace SpnCore.Overlay

/-! ### Messages -/

inductive ErrorCode where
  | misc
  | data
  | conf
  | auth
  | load
deriving DecidableEq, Repr

/-- The messages that are not part of the handshake. -/
inductive MessageType where
  | dontHave
  | getPeers
  | peers
  | getTxSet
  | txSet
  | transaction
  | getScpQuorumset
  | scpQuorumset
  | scpMessage
  | getScpState
deriving DecidableEq, Repr

structure Hello where
  overlayVersion : Nat
  overlayMinVersion : Nat
  networkID : Nat
  peerID : NodeID
  cert : AuthCert
  nonce : Nonce
deriving DecidableEq, Repr

inductive StellarMessage where
  | errorMsg (code : ErrorCode) (msg : String)
  | hello (elo : Hello)
  | auth
  | other (type : MessageType) (body : Bytes)
deriving DecidableEq, Repr

/-- All messages but HELLO and ERROR_MSG are sent with a code. -/
def StellarMessage.carriesMac : StellarMessage → Bool
  | .errorMsg _ _ => false
  | .hello _ => false
  | .auth => true
  | .other _ _ => true

def StellarMessage.isError : StellarMessage → Bool
  | .errorMsg _ _ => true
  | _ => false

/-- `HmacSha256Mac`: the code of a message with its sequence number, or some other bytes. -/
inductive Mac where
  | hmac (key : MacKey) (sequence : UInt64) (message : StellarMessage)
  | other (bytes : Bytes)
deriving DecidableEq, Repr

structure AuthenticatedMessage where
  sequence : UInt64 := 0
  message : StellarMessage
  mac : Mac := .other []
deriving DecidableEq, Repr

def hmacSha256Verify (mac : Mac) (key : MacKey) (sequence : UInt64) (message : StellarMessage) :
    Bool :=
  decide (mac = .hmac key sequence message)

/-! ### Peers -/

inductive PeerState where
  | connecting
  | connected
  | gotHello
  | gotAuth
  | closing
deriving DecidableEq, Repr

/-- `mState >= GOT_HELLO` -/
def PeerState.reachedHello : PeerState → Bool
  | .connecting => false
  | .connected => false
  | .gotHello => true
  | .gotAuth => true
  | .closing => true

/-- The node that a peer belongs to. -/
structure Config where
  nodeID : NodeID
  publicKey : Curve25519Public
  networkID : Nat
  overlayProtocolVersion : Nat
  overlayProtocolMinVersion : Nat
deriving DecidableEq, Repr

/-- What the rest of the node decides. -/
structure Circumstances where
  timeNow : Nat := 0
  certExpiration : Nat := 0
  isBanned : Bool := false
  alreadyConnected : Bool := false
  badAddress : Bool := false
  accepted : Bool := true
  peers : Bytes := []
  scpState : List Bytes := []
  lastClosedLedger : Bytes := []

/-- A message that was passed on to its handler, with the state the peer was in. -/
structure Handled where
  state : PeerState
  message : StellarMessage
deriving DecidableEq, Repr

structure Peer where
  config : Config
  role : PeerRole
  state : PeerState
  peerID : NodeID := 0
  sendNonce : Nonce
  recvNonce : Nonce := 0
  sendMacKey : MacKey := .zero
  recvMacKey : MacKey := .zero
  sendMacSeq : UInt64 := 0
  recvMacSeq : UInt64 := 0
  /-- All messages put on the wire. -/
  transmitted : List AuthenticatedMessage := []
  /-- All messages with a code that were passed on to a handler. -/
  handled : List Handled := []
deriving DecidableEq, Repr

namespace Peer

def init (config : Config) (role : PeerRole) (sendNonce : Nonce) : Peer where
  config := config
  role := role
  state := if role = .weCalledRemote then .connecting else .connected
  sendNonce := sendNonce

def isAuthenticated (peer : Peer) : Bool :=
  decide (peer.state = .gotAuth)

/-- The messages with a code that were put on the wire. -/
def sent (peer : Peer) : List StellarMessage :=
  (peer.transmitted.map AuthenticatedMessage.message).filter StellarMessage.carriesMac

def handledMessages (peer : Peer) : List StellarMessage :=
  peer.handled.map Handled.message

/-! ### Sending -/

/-- `TCPPeer::sendMessage` -/
def transmit (am : AuthenticatedMessage) (peer : Peer) : Peer :=
  if peer.state = .closing then peer
  else { peer with transmitted := peer.transmitted ++ [am] }

def sendMessage (msg : StellarMessage) (peer : Peer) : Peer :=
  if msg.carriesMac then
    transmit ⟨peer.sendMacSeq, msg, .hmac peer.sendMacKey peer.sendMacSeq msg⟩
      { peer with sendMacSeq := peer.sendMacSeq + 1 }
  else
    transmit { message := msg } peer

@[simp]
theorem sendMessage_state (msg : StellarMessage) (peer : Peer) :
    (peer.sendMessage msg).state = peer.state := by
  unfold sendMessage transmit
  split_ifs <;> rfl

@[simp]
theorem sendMessage_peerID (msg : StellarMessage) (peer : Peer) :
    (peer.sendMessage msg).peerID = peer.peerID := by
  unfold sendMessage transmit
  split_ifs <;> rfl

def sendHello (certExpiration : Nat) (peer : Peer) : Peer :=
  peer.sendMessage (.hello {
    overlayVersion := peer.config.overlayProtocolVersion
    overlayMinVersion := peer.config.overlayProtocolMinVersion
    networkID := peer.config.networkID
    peerID := peer.config.nodeID
    cert := makeAuthCert peer.config.nodeID peer.config.networkID peer.config.publicKey
      certExpiration
    nonce := peer.sendNonce })

/-- `TCPPeer::drop` -/
def drop (peer : Peer) : Peer :=
  { peer with state := .closing }

def dropWith (err : ErrorCode) (msg : String) (peer : Peer) : Peer :=
  (peer.sendMessage (.errorMsg err msg)).drop

def connectHandler (error : Bool) (certExpiration : Nat) (peer : Peer) : Peer :=
  if error then peer.drop
  else sendHello certExpiration { peer with state := .connected }

/-! ### Receiving -/

/-- The state after an acceptable HELLO. -/
def agree (elo : Hello) (peer : Peer) : Peer :=
  { peer with
    peerID := elo.peerID
    recvNonce := elo.nonce
    sendMacSeq := 0
    recvMacSeq := 0
    sendMacKey := getSendingMacKey peer.config.publicKey elo.cert.pubkey peer.sendNonce elo.nonce
      peer.role
    recvMacKey := getReceivingMacKey peer.config.publicKey elo.cert.pubkey peer.sendNonce elo.nonce
      peer.role
    state := .gotHello }

/-- Why the connection is dropped after a HELLO. -/
def helloFailure (circ : Circumstances) (elo : Hello) (config : Config) : Option String :=
  if elo.overlayVersion < elo.overlayMinVersion ∨
      elo.overlayVersion < config.overlayProtocolMinVersion ∨
      config.overlayProtocolVersion < elo.overlayMinVersion then
    some "wrong protocol version"
  else if elo.peerID = config.nodeID then some "connecting to self"
  else if elo.networkID ≠ config.networkID then some "wrong network passphrase"
  else if circ.alreadyConnected then some "connecting already-connected peer"
  else if circ.badAddress then some "bad address"
  else none

def recvHello (circ : Circumstances) (elo : Hello) (peer : Peer) : Peer :=
  if peer.state.reachedHello then peer.drop
  else if !verifyRemoteAuthCert circ.timeNow peer.config.networkID elo.peerID elo.cert then
    peer.drop
  else if circ.isBanned then peer.drop
  else
    let agreed := peer.agree elo
    let greeted :=
      if peer.role = .remoteCalledUs then agreed.sendHello circ.certExpiration else agreed
    match helloFailure circ elo peer.config with
    | some msg => greeted.dropWith .conf msg
    | none => if peer.role = .weCalledRemote then greeted.sendMessage .auth else greeted

/-- What a peer sends when it has been accepted. -/
def sendScpState (circ : Circumstances) (peer : Peer) : Peer :=
  (circ.scpState.foldl (fun p body => p.sendMessage (.other .scpMessage body)) peer).sendMessage
    (.other .getScpState circ.lastClosedLedger)

def recvAuth (circ : Circumstances) (peer : Peer) : Peer :=
  if peer.state ≠ .gotHello then peer.dropWith .misc "out-of-order AUTH message"
  else
    let authenticated := { peer with state := .gotAuth }
    let answered :=
      if peer.role = .remoteCalledUs then
        (authenticated.sendMessage .auth).sendMessage (.other .peers circ.peers)
      else authenticated
    if !circ.accepted then answered.dropWith .load "peer rejected"
    else answered.sendScpState circ

/-- The message has passed the checks and goes to its handler. What the handler of a message other
than HELLO, AUTH and ERROR_MSG sends in answer is sent later. -/
def dispatch (circ : Circumstances) (msg : StellarMessage) (peer : Peer) : Peer :=
  match msg with
  | .errorMsg _ _ => peer.drop
  | .hello elo => peer.recvHello circ elo
  | .auth => recvAuth circ { peer with handled := peer.handled ++ [⟨peer.state, msg⟩] }
  | .other _ _ => { peer with handled := peer.handled ++ [⟨peer.state, msg⟩] }

/-- Before the handshake is complete only its messages are accepted. -/
def recvPlain (circ : Circumstances) (msg : StellarMessage) (peer : Peer) : Peer :=
  match msg with
  | .other _ _ => if peer.isAuthenticated then peer.dispatch circ msg else peer.drop
  | .errorMsg _ _ | .hello _ | .auth => peer.dispatch circ msg

def recvMessage (circ : Circumstances) (msg : AuthenticatedMessage) (peer : Peer) : Peer :=
  if peer.state = .closing then peer
  else if peer.state.reachedHello && !msg.message.isError then
    let counted := { peer with recvMacSeq := peer.recvMacSeq + 1 }
    if msg.sequence ≠ peer.recvMacSeq then counted.dropWith .auth "unexpected auth sequence"
    else if !hmacSha256Verify msg.mac peer.recvMacKey msg.sequence msg.message then
      counted.dropWith .auth "unexpected MAC"
    else counted.recvPlain circ msg.message
  else peer.recvPlain circ msg.message

end Peer

end SpnCore.Overlay
