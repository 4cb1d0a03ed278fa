import SpnCore.Overlay.PeerSpecs
import Mathlib.Data.List.Nodup
import Mathlib.Logic.Relation

/-!
# Authenticated channels

Honest nodes and a network that drops, repeats, reorders, alters and injects messages as it likes.
It cannot make a code under a key that two honest nodes share, and no certificate of an honest node
over another public key. What a peer has passed on to its handlers is what the other side has sent,
up to some point and in that order.
-/

namespace SpnCore.Overlay

open List

variable {nodes : Set Config} {peers peers' : List Peer} {p q : Peer}

/-! ### The network -/

/-- No two nodes have the same public key. -/
def DistinctKeys (nodes : Set Config) : Prop :=
  ∀ c ∈ nodes, ∀ d ∈ nodes, c.publicKey = d.publicKey → c.nodeID = d.nodeID

/-- What the network can deliver: it copies codes under a key that two honest nodes share, and
makes all others. -/
structure Deliverable (nodes : Set Config) (peers : List Peer) (msg : AuthenticatedMessage) :
    Prop where
  code : ∀ c ∈ nodes, ∀ d ∈ nodes, ∀ tag n₁ n₂ seq m,
    msg.mac = .hmac (.expanded ⟨c.publicKey, d.publicKey⟩ tag n₁ n₂) seq m →
      ∃ p ∈ peers, ∃ am ∈ p.transmitted, am.mac = msg.mac
  cert : ∀ elo, msg.message = .hello elo → Peer.Certified nodes elo.cert

/-- What can happen to a peer. The handlers of messages and the rest of the node send whatever
they like once the handshake is complete. -/
inductive Event (nodes : Set Config) (peers : List Peer) (p : Peer) : Peer → Prop
  | connectHandler (error : Bool) (certExpiration : Nat)
      (h : p.state = .connecting ∨
        p.state = .closing ∧ p.recvMacKey = .zero ∧ p.handled = []) :
      Event nodes peers p (p.connectHandler error certExpiration)
  | send (type : MessageType) (body : Bytes) (h : p.state = .gotAuth ∨ p.state = .closing) :
      Event nodes peers p (p.sendMessage (.other type body))
  | drop : Event nodes peers p p.drop
  | dropWith (err : ErrorCode) (msg : String) : Event nodes peers p (p.dropWith err msg)
  | receive (circ : Circumstances) (msg : AuthenticatedMessage) (h : p.state ≠ .connecting)
      (deliverable : Deliverable nodes peers msg) : Event nodes peers p (p.recvMessage circ msg)

inductive Step (nodes : Set Config) : List Peer → List Peer → Prop
  | connect {peers : List Peer} {config : Config} (role : PeerRole) {sendNonce : Nonce}
      (honest : config ∈ nodes) (fresh : ∀ p ∈ peers, p.sendNonce ≠ sendNonce) :
      Step nodes peers (Peer.init config role sendNonce :: peers)
  | event (before : List Peer) {after : List Peer} {p q : Peer}
      (h : Event nodes (before ++ p :: after) p q) :
      Step nodes (before ++ p :: after) (before ++ q :: after)

def Reachable (nodes : Set Config) : List Peer → Prop := Relation.ReflTransGen (Step nodes) []

namespace Peer

/-- The honest peer that has sent the nonce of the HELLO that `p` has accepted. -/
def OtherSide (p q : Peer) : Prop :=
  q.config.nodeID = p.peerID ∧ q.sendNonce = p.recvNonce

/-- A peer that has agreed on keys with an honest node. -/
def Keyed (nodes : Set Config) (p : Peer) : Prop :=
  p.recvMacKey ≠ .zero ∧ ∃ c ∈ nodes, c.nodeID = p.peerID

/-- Everything `p` has passed on has been sent under its receiving key. -/
def Genuine (nodes : Set Config) (peers : List Peer) (p : Peer) : Prop :=
  p.Keyed nodes → p.handled = [] ∨ ∃ q ∈ peers, q.recvMacKey ≠ .zero ∧
    q.sendMacKey = p.recvMacKey ∧ p.handledMessages ⊆ q.sent ∧
    (q.sent.length < UInt64.size → p.handledMessages <+: q.sent)

end Peer

/-- What holds of all peers. -/
structure Sound (nodes : Set Config) (peers : List Peer) : Prop where
  honest : ∀ p ∈ peers, p.config ∈ nodes
  nonces : (peers.map Peer.sendNonce).Nodup
  good : ∀ p ∈ peers, p.Good nodes
  counted : ∀ p ∈ peers, p.Counted
  genuine : ∀ p ∈ peers, p.Genuine nodes peers

/-! ### One step -/

theorem Peer.good_init {config : Config} {role : PeerRole} {sendNonce : Nonce} :
    (Peer.init config role sendNonce).Good nodes := by
  refine ⟨fun _ h => ?_, fun _ _ => rfl, fun _ => rfl, fun _ => ⟨?_, Or.inl rfl⟩, fun h => ?_,
    fun _ h => ?_⟩
  · cases h
  · cases role <;> exact ⟨by rintro ⟨⟩, by rintro ⟨⟩⟩
  · exact absurd rfl h
  · cases h

/-- An event passes on nothing, or a message that the network could deliver. -/
theorem Event.cases (hp : p.Good nodes) (hcounted : p.Counted) (h : Event nodes peers p q) :
    Peer.Quiet nodes p q ∨ ∃ msg, Deliverable nodes peers msg ∧ Peer.Received nodes msg p q := by
  cases h with
  | connectHandler error certExpiration hstate =>
    exact Or.inl (Peer.quiet_connectHandler hstate error certExpiration)
  | send type body hstate =>
    refine Or.inl (Peer.quiet_sendMessage fun hopen _ hzero => ?_)
    exact (hp.waits hzero).1.2 (hstate.resolve_right hopen)
  | drop => exact Or.inl Peer.quiet_drop
  | dropWith err msg => exact Or.inl (Peer.quiet_dropWith err msg)
  | receive circ msg hstate hmsg =>
    exact Or.inr ⟨msg, hmsg, Peer.received_recvMessage hp hcounted circ hmsg.cert⟩

theorem Event.good (hp : p.Good nodes) (hcounted : p.Counted) (h : Event nodes peers p q) :
    q.Good nodes ∧ q.Counted ∧ p.Grows q := by
  rcases h.cases hp hcounted with hquiet | ⟨msg, -, hquiet | hpasses | ⟨hgood, hclosing, hgrows, -⟩⟩
  · exact ⟨hquiet.good hp, hquiet.counted hcounted, hquiet.grows⟩
  · exact ⟨hquiet.good hp, hquiet.counted hcounted, hquiet.grows⟩
  · exact ⟨hpasses.good, hpasses.counted, hpasses.grows⟩
  · exact ⟨hgood, Peer.counted_of_closing hclosing, hgrows⟩

variable {msg : AuthenticatedMessage} {a b : Peer}

namespace Sound

/-- Two peers never send under the same key. -/
theorem eq_of_sendMacKey (hs : Sound nodes peers) (hp : p ∈ peers) (hq : q ∈ peers)
    (hpkey : p.recvMacKey ≠ .zero) (hqkey : q.recvMacKey ≠ .zero)
    (h : p.sendMacKey = q.sendMacKey) : p = q := by
  obtain ⟨-, premote, hpsend, -⟩ := (hs.good p hp).agreed hpkey
  obtain ⟨-, qremote, hqsend, -⟩ := (hs.good q hq).agreed hqkey
  rw [hpsend, hqsend] at h
  refine inj_on_of_nodup_map hs.nonces hp hq ?_
  cases hprole : p.role <;> cases hqrole : q.role <;> rw [hprole, hqrole] at h <;>
    simp only [getSendingMacKey, MacKey.expanded.injEq] at h
  all_goals exact h.2.2.1

/-- A code under the receiving key of a peer has been put on the wire by some other peer, with the
message at that place of its sequence. -/
theorem sent_of_deliverable (hs : Sound nodes peers) (hp : p ∈ peers) (hkey : p.Keyed nodes)
    (hmsg : Deliverable nodes peers msg) {seq : UInt64}
    (hmac : msg.mac = .hmac p.recvMacKey seq msg.message) :
    ∃ q ∈ peers, q.recvMacKey ≠ .zero ∧ q.sendMacKey = p.recvMacKey ∧
      ∃ i, q.sent[i]? = some msg.message ∧ seq = UInt64.ofNat i := by
  obtain ⟨hne, c, hc, hid⟩ := hkey
  obtain ⟨-, remotePublic, -, hrecv, hcertified⟩ := (hs.good p hp).agreed hne
  obtain ⟨q, hq, am, ham, hcode⟩ :
      ∃ q ∈ peers, ∃ am ∈ q.transmitted, am.mac = msg.mac := by
    rw [hrecv, hcertified c hc hid] at hmac
    cases hrole : p.role with
    | weCalledRemote =>
      rw [hrole] at hmac
      exact hmsg.code p.config (hs.honest p hp) c hc _ _ _ _ _ hmac
    | remoteCalledUs =>
      rw [hrole] at hmac
      exact hmsg.code c hc p.config (hs.honest p hp) _ _ _ _ _ hmac
  obtain ⟨hsend, i, hi, hseq⟩ := (hs.good q hq).transmitted am ham _ _ _ (hcode.trans hmac)
  refine ⟨q, hq, fun hzero => ?_, hsend.symm, i, hi, hseq⟩
  rw [(hs.good q hq).unsent hzero] at hi
  cases hi

end Sound

theorem Peer.Genuine.mono (h : p.Genuine nodes peers)
    (hgrows : ∀ q ∈ peers, ∃ r ∈ peers', q.Grows r) : p.Genuine nodes peers' := by
  intro hkey
  refine (h hkey).imp id ?_
  rintro ⟨q, hq, hqkey, hsend, hsubset, hsent⟩
  obtain ⟨r, hr, hqr⟩ := hgrows q hq
  obtain ⟨hsend', hrecv', -, -⟩ := hqr.keys hqkey
  exact ⟨r, hr, hrecv' ▸ hqkey, hsend'.trans hsend, fun m hm => hqr.sent.subset (hsubset hm),
    fun hlt => (hsent (hqr.sent.length_le.trans_lt hlt)).trans hqr.sent⟩

theorem prefix_concat {α : Type} {l m : List α} {a : α} (h : l <+: m)
    (ha : m[l.length]? = some a) : l ++ [a] <+: m := by
  obtain ⟨t, rfl⟩ := h
  rw [List.getElem?_append_right le_rfl, Nat.sub_self] at ha
  obtain ⟨t', rfl⟩ : ∃ t', t = a :: t' := by
    cases t with
    | nil => cases ha
    | cons b t' => exact ⟨t', by cases ha; rfl⟩
  exact ⟨t', by simp⟩

/-- A message that is passed on is the next one that the other side has sent. -/
theorem Sound.genuine_passes (hs : Sound nodes peers) (hp : p ∈ peers)
    (hmsg : Deliverable nodes peers msg) (h : Peer.Passes nodes msg p q) :
    q.Genuine nodes peers := by
  obtain ⟨hsend', hrecv', hpeer', -⟩ := h.grows.keys h.keyed
  intro hqkey
  have hkey : p.Keyed nodes := ⟨h.keyed, hpeer' ▸ hqkey.2⟩
  obtain ⟨r, hr, hrkey, hsend, i, hi, hseq⟩ := hs.sent_of_deliverable hp hkey hmsg h.verified
  have hbefore : p.handledMessages ⊆ r.sent ∧
      (r.sent.length < UInt64.size → p.handledMessages <+: r.sent) := by
    rcases hs.genuine p hp hkey with hnone | ⟨r', hr', hrkey', hsend', hsent'⟩
    · rw [Peer.handledMessages, hnone]
      exact ⟨nil_subset _, fun _ => nil_prefix⟩
    · cases hs.eq_of_sendMacKey hr' hr hrkey' hrkey (hsend'.trans hsend.symm)
      exact hsent'
  refine Or.inr ⟨r, hr, hrkey, hsend.trans hrecv'.symm, ?_, fun hlt => ?_⟩
  · rw [h.handled]
    exact append_subset.2 ⟨hbefore.1, by simpa using mem_of_getElem? hi⟩
  have hprefix := hbefore.2 hlt
  have hlen : p.handled.length = i := by
    have hle : p.handled.length ≤ r.sent.length := by
      simpa [Peer.handledMessages] using hprefix.length_le
    have hilt : i < r.sent.length := (List.getElem?_eq_some_iff.1 hi).1
    have htoNat := congrArg UInt64.toNat hseq
    rw [UInt64.toNat_ofNat', UInt64.toNat_ofNat'] at htoNat
    rwa [Nat.mod_eq_of_lt (hle.trans_lt hlt), Nat.mod_eq_of_lt (hilt.trans hlt)] at htoNat
  rw [h.handled]
  refine prefix_concat hprefix ?_
  rw [Peer.handledMessages, length_map, hlen]
  exact hi

theorem Sound.genuine_event (hs : Sound nodes peers) (hp : p ∈ peers)
    (h : Event nodes peers p q) : q.Genuine nodes peers := by
  have hquiet : Peer.Quiet nodes p q → q.Genuine nodes peers := by
    intro hquiet hqkey
    by_cases hzero : p.recvMacKey = .zero
    · exact Or.inl (hquiet.handled.trans (hquiet.fresh hzero hqkey.1))
    · obtain ⟨-, hrecv, hpeer, -⟩ := hquiet.grows.keys hzero
      rw [Peer.handledMessages, hquiet.handled, hrecv]
      exact hs.genuine p hp ⟨hzero, hpeer ▸ hqkey.2⟩
  rcases h.cases (hs.good p hp) (hs.counted p hp) with
    hq | ⟨msg, hmsg, hq | hpasses | ⟨-, -, -, hzero⟩⟩
  · exact hquiet hq
  · exact hquiet hq
  · exact hs.genuine_passes hp hmsg hpasses
  · exact fun hqkey => absurd hzero hqkey.1

theorem Sound.connect (hs : Sound nodes peers) {config : Config} (role : PeerRole)
    {sendNonce : Nonce} (honest : config ∈ nodes) (fresh : ∀ p ∈ peers, p.sendNonce ≠ sendNonce) :
    Sound nodes (Peer.init config role sendNonce :: peers) where
  honest := forall_mem_cons.2 ⟨honest, hs.honest⟩
  nonces := by
    refine nodup_cons.2 ⟨fun hmem => ?_, hs.nonces⟩
    obtain ⟨p, hp, hsame⟩ := mem_map.1 hmem
    exact fresh p hp hsame
  good := forall_mem_cons.2 ⟨Peer.good_init, hs.good⟩
  counted := forall_mem_cons.2 ⟨fun h => absurd rfl h, hs.counted⟩
  genuine := forall_mem_cons.2 ⟨fun h => absurd rfl h.1, fun p hp =>
    (hs.genuine p hp).mono fun q hq => ⟨q, mem_cons_of_mem _ hq, Peer.Grows.refl q⟩⟩

theorem Sound.event {before after : List Peer} (hs : Sound nodes (before ++ p :: after))
    (h : Event nodes (before ++ p :: after) p q) : Sound nodes (before ++ q :: after) := by
  have hp : p ∈ before ++ p :: after := by simp
  obtain ⟨hgood, hcounted, hgrows⟩ := h.good (hs.good p hp) (hs.counted p hp)
  -- Whatever holds of the others still does.
  have hall : ∀ {P : Peer → Prop}, (∀ r ∈ before ++ p :: after, P r) → P q →
      ∀ r ∈ before ++ q :: after, P r := by
    intro P hP hPq r hr
    rcases mem_append.1 hr with hr | hr
    · exact hP r (mem_append_left _ hr)
    · rcases mem_cons.1 hr with rfl | hr
      · exact hPq
      · exact hP r (mem_append_right _ (mem_cons_of_mem _ hr))
  have hother : ∀ r ∈ before ++ p :: after, ∃ r' ∈ before ++ q :: after, r.Grows r' := by
    intro r hr
    rcases mem_append.1 hr with hr | hr
    · exact ⟨r, mem_append_left _ hr, Peer.Grows.refl r⟩
    · rcases mem_cons.1 hr with rfl | hr
      · exact ⟨q, by simp, hgrows⟩
      · exact ⟨r, mem_append_right _ (mem_cons_of_mem _ hr), Peer.Grows.refl r⟩
  refine ⟨hall hs.honest (hgrows.config ▸ hs.honest p hp), ?_, hall hs.good hgood,
    hall hs.counted hcounted, fun r hr => ?_⟩
  · have hnonces := hs.nonces
    rw [map_append, map_cons, ← hgrows.sendNonce] at hnonces
    rwa [map_append, map_cons]
  · exact (hall hs.genuine (hs.genuine_event hp h) r hr).mono hother

theorem Sound.step (hs : Sound nodes peers) (h : Step nodes peers peers') :
    Sound nodes peers' := by
  cases h with
  | connect role honest fresh => exact hs.connect role honest fresh
  | event before h => exact hs.event h

theorem Reachable.sound (h : Reachable nodes peers) : Sound nodes peers := by
  induction h with
  | refl => exact ⟨by simp, nodup_nil, by simp, by simp, by simp⟩
  | tail _ hstep ih => exact ih.step hstep

/-! ### The channel -/

theorem Sound.otherSide (hs : Sound nodes peers) (hkeys : DistinctKeys nodes) (hp : p ∈ peers)
    (hkey : p.Keyed nodes) (hq : q ∈ peers) (hqkey : q.recvMacKey ≠ .zero)
    (hsend : q.sendMacKey = p.recvMacKey) : p.OtherSide q := by
  obtain ⟨hne, c, hc, hid⟩ := hkey
  obtain ⟨-, remotePublic, -, hrecv, hcertified⟩ := (hs.good p hp).agreed hne
  obtain ⟨-, remotePublic', hsend', -, -⟩ := (hs.good q hq).agreed hqkey
  rw [hsend', hrecv] at hsend
  obtain ⟨-, hpublic, hnonce, -⟩ := sides_of_keys hsend
  rw [hcertified c hc hid] at hpublic
  exact ⟨(hkeys _ (hs.honest q hq) c hc hpublic).trans hid, hnonce⟩

/-- On a connection between two honest nodes, what one side passes on to its handlers is what the
other side has sent, and it is what it has sent up to some point as long as that is fewer than
`2 ^ 64` messages. No message but AUTH is passed on before the handshake is complete. Before the
first HELLO at most an AUTH is passed on, and that closes the connection. -/
theorem authenticated_channel (hkeys : DistinctKeys nodes) (hreach : Reachable nodes peers)
    (hp : p ∈ peers) :
    (∀ h ∈ p.handled, h.message ≠ .auth → h.state = .gotAuth) ∧
    (p.recvMacKey = .zero → p.handled = [] ∨ p.handledMessages = [.auth] ∧ p.state = .closing) ∧
    (p.Keyed nodes →
      (p.handled ≠ [] → ∃ q ∈ peers, p.OtherSide q) ∧
      ∀ q ∈ peers, p.OtherSide q → (∀ m ∈ p.handledMessages, m ∈ q.sent) ∧
        (q.sent.length < UInt64.size → p.handledMessages <+: q.sent)) := by
  have hs := hreach.sound
  refine ⟨(hs.good p hp).complete, fun hzero => ((hs.good p hp).waits hzero).2, fun hkey => ?_⟩
  rcases hs.genuine p hp hkey with hnone | ⟨q, hq, hqkey, hsend, hsent⟩
  · refine ⟨fun h => absurd hnone h, fun q _ _ => ?_⟩
    rw [Peer.handledMessages, hnone]
    exact ⟨by simp, fun _ => nil_prefix⟩
  · have hside : p.OtherSide q := hs.otherSide hkeys hp hkey hq hqkey hsend
    refine ⟨fun _ => ⟨q, hq, hside⟩, fun r hr hrside => ?_⟩
    have hsame : r = q := inj_on_of_nodup_map hs.nonces hr hq (hrside.2.trans hside.2.symm)
    rw [hsame]
    exact hsent

/-! ### Two nodes -/

def callerNode : Config := ⟨1, 10, 7, 8, 8⟩

def calledNode : Config := ⟨2, 20, 7, 8, 8⟩

def twoNodes : Set Config := {callerNode, calledNode}

theorem distinctKeys_twoNodes : DistinctKeys twoNodes := by
  rintro c (rfl | rfl) d (rfl | rfl) h <;> first | rfl | cases h

theorem certified_makeAuthCert {c : Config} (hc : c ∈ twoNodes) (networkID expiration : Nat) :
    Peer.Certified twoNodes (makeAuthCert c.nodeID networkID c.publicKey expiration) := by
  intro signer _ _ pubkey hsig d hd hid
  cases hsig
  rcases hc with rfl | rfl <;> rcases hd with rfl | rfl <;> first | rfl | cases hid

/-- What a peer has put on the wire can be delivered. -/
theorem deliverable_of_transmitted (hp : p ∈ peers) (hmsg : msg ∈ p.transmitted)
    (hcert : ∀ elo, msg.message = .hello elo → Peer.Certified nodes elo.cert) :
    Deliverable nodes peers msg :=
  ⟨fun _ _ _ _ _ _ _ _ _ _ => ⟨p, hp, msg, hmsg, rfl⟩, hcert⟩

def helloMessage (c : Config) (nonce : Nonce) : AuthenticatedMessage :=
  { message := .hello ⟨8, 8, 7, c.nodeID, makeAuthCert c.nodeID 7 c.publicKey 0, nonce⟩ }

def codedMessage (key : MacKey) (sequence : UInt64) (message : StellarMessage) :
    AuthenticatedMessage :=
  ⟨sequence, message, .hmac key sequence message⟩

/-- The key under which the caller sends. -/
def callerKey : MacKey := .expanded ⟨10, 20⟩ 0 1 2

def calledKey : MacKey := .expanded ⟨10, 20⟩ 1 2 1

/-- The caller and the other side, message by message. -/
def callerHello : Peer := (Peer.init callerNode .weCalledRemote 1).connectHandler false 0

def calledHello : Peer :=
  (Peer.init calledNode .remoteCalledUs 2).recvMessage {} (helloMessage callerNode 1)

def callerAuth : Peer := callerHello.recvMessage {} (helloMessage calledNode 2)

def calledAuth : Peer := calledHello.recvMessage {} (codedMessage callerKey 0 .auth)

def callerReady : Peer := callerAuth.recvMessage {} (codedMessage calledKey 0 .auth)

def calledReady : Peer :=
  calledAuth.recvMessage {} (codedMessage callerKey 1 (.other .getScpState []))

theorem Reachable.left {a' : Peer} (h : Reachable nodes [a, b]) (hevent : Event nodes [a, b] a a') :
    Reachable nodes [a', b] :=
  h.tail (Step.event [] hevent)

theorem Reachable.right {b' : Peer} (h : Reachable nodes [a, b])
    (hevent : Event nodes [a, b] b b') : Reachable nodes [a, b'] :=
  h.tail (Step.event [a] hevent)

/-- A HELLO that one of the two nodes has made. -/
theorem deliverable_hello {c : Config} (hc : c ∈ twoNodes) (nonce : Nonce) :
    Deliverable twoNodes peers (helloMessage c nonce) := by
  refine ⟨fun _ _ _ _ _ _ _ _ _ h => ?_, fun elo h => ?_⟩
  · cases h
  · cases h
    exact certified_makeAuthCert hc 7 0

theorem deliverable_coded {key : MacKey} {seq : UInt64} {msg : StellarMessage} (hp : p ∈ peers)
    (hmsg : codedMessage key seq msg ∈ p.transmitted) (hcarries : msg.carriesMac = true) :
    Deliverable nodes peers (codedMessage key seq msg) := by
  refine deliverable_of_transmitted hp hmsg fun elo h => ?_
  cases (show msg = .hello elo from h)
  cases hcarries

theorem reachable_handshake : Reachable twoNodes [callerReady, calledReady] := by
  have hcalled : Reachable twoNodes [Peer.init calledNode .remoteCalledUs 2] :=
    Relation.ReflTransGen.single (.connect _ (Or.inr rfl) (by simp))
  have hcaller : Reachable twoNodes
      [Peer.init callerNode .weCalledRemote 1, Peer.init calledNode .remoteCalledUs 2] :=
    hcalled.tail (.connect _ (Or.inl rfl) (by simp [Peer.init]))
  have h₁ : Reachable twoNodes [callerHello, Peer.init calledNode .remoteCalledUs 2] :=
    hcaller.left (.connectHandler false 0 (Or.inl rfl))
  have h₂ : Reachable twoNodes [callerHello, calledHello] :=
    h₁.right (.receive {} _ (by decide) (deliverable_hello (Or.inl rfl) 1))
  have h₃ : Reachable twoNodes [callerAuth, calledHello] :=
    h₂.left (.receive {} _ (by decide) (deliverable_hello (Or.inr rfl) 2))
  have h₄ : Reachable twoNodes [callerAuth, calledAuth] :=
    h₃.right (.receive {} _ (by decide +kernel)
      (deliverable_coded (p := callerAuth) (by simp) (by decide +kernel) rfl))
  have h₅ : Reachable twoNodes [callerReady, calledAuth] :=
    h₄.left (.receive {} _ (by decide +kernel)
      (deliverable_coded (p := calledAuth) (by simp) (by decide +kernel) rfl))
  exact h₅.right (.receive {} _ (by decide +kernel)
    (deliverable_coded (p := callerReady) (by simp) (by decide +kernel) rfl))

theorem authenticated_channel_handshake :
    DistinctKeys twoNodes ∧ Reachable twoNodes [callerReady, calledReady] ∧
      calledReady.handledMessages.length = 2 ∧
      calledReady.handledMessages <+: callerReady.sent := by
  refine ⟨distinctKeys_twoNodes, reachable_handshake, by decide +kernel, ?_⟩
  have hchannel := authenticated_channel distinctKeys_twoNodes reachable_handshake
    (p := calledReady) (by simp)
  exact ((hchannel.2.2 ⟨by decide +kernel, callerNode, Or.inl rfl, by decide +kernel⟩).2
    callerReady (by simp) ⟨by decide +kernel, by decide +kernel⟩).2 (by decide +kernel)

/-- The caller has sent `n` messages and the other side has passed them on. -/
structure Exchanged (n : Nat) (a b : Peer) : Prop where
  reachable : Reachable twoNodes [a, b]
  states : a.state = .gotAuth ∧ b.state = .gotAuth
  keys : (a.sendMacKey = callerKey ∧ a.recvMacKey = calledKey) ∧ b.recvMacKey = callerKey
  sent : a.sent.length = n
  handled : b.handled.length = n
  first : codedMessage callerKey 0 .auth ∈ a.transmitted
  sides : b.peerID = callerNode.nodeID ∧ b.OtherSide a

theorem exchanged_handshake : Exchanged 2 callerReady calledReady where
  reachable := reachable_handshake
  states := by decide +kernel
  keys := by decide +kernel
  sent := by decide +kernel
  handled := by decide +kernel
  first := by decide +kernel
  sides := ⟨by decide +kernel, by decide +kernel, by decide +kernel⟩

/-- A verified message that is not part of the handshake is put in the history. -/
theorem Peer.recvMessage_coded (hstate : p.state = .gotAuth) (type : MessageType) (body : Bytes) :
    p.recvMessage {} (codedMessage p.recvMacKey p.recvMacSeq (.other type body)) =
      { p with
        recvMacSeq := p.recvMacSeq + 1
        handled := p.handled ++ [⟨p.state, .other type body⟩] } := by
  simp [recvMessage, codedMessage, hstate, PeerState.reachedHello, StellarMessage.isError,
    hmacSha256Verify, recvPlain, isAuthenticated, dispatch]

theorem Exchanged.next {n : Nat} (h : Exchanged n a b) : ∃ a' b', Exchanged (n + 1) a' b' := by
  obtain ⟨hreach, ⟨hastate, hbstate⟩, ⟨⟨hakey, harecv⟩, hbkey⟩, hsent, hhandled, hfirst, hpeer,
    hside⟩ := h
  have hs := hreach.sound
  have haopen : a.state ≠ .closing := by
    rw [hastate]
    rintro ⟨⟩
  have hbopen : b.state ≠ .closing := by
    rw [hbstate]
    rintro ⟨⟩
  have haseq : a.sendMacSeq = UInt64.ofNat n :=
    hsent ▸ (hs.good a (by simp)).sendMacSeq (by rw [harecv]; rintro ⟨⟩) haopen
  have hbseq : b.recvMacSeq = UInt64.ofNat n :=
    hhandled ▸ hs.counted b (by simp) (by rw [hbkey]; rintro ⟨⟩) hbopen
  have hsend : Reachable twoNodes [a.sendMessage (.other .getPeers []), b] :=
    hreach.left (.send .getPeers [] (Or.inl hastate))
  have hcoded : codedMessage b.recvMacKey b.recvMacSeq (.other .getPeers []) ∈
      (a.sendMessage (.other .getPeers [])).transmitted := by
    rw [Peer.sendMessage_of_mac haopen rfl, hbkey, hbseq, ← hakey, ← haseq]
    exact mem_append_right _ (mem_singleton.2 rfl)
  have hrecv := hsend.right (.receive {} _ (by rw [hbstate]; rintro ⟨⟩)
    (deliverable_coded (p := a.sendMessage (.other .getPeers [])) (by simp) hcoded rfl))
  rw [Peer.sendMessage_of_mac haopen rfl, Peer.recvMessage_coded hbstate] at hrecv
  refine ⟨_, _, hrecv, ⟨hastate, hbstate⟩, ⟨⟨hakey, harecv⟩, hbkey⟩, ?_, ?_,
    mem_append_left _ hfirst, hpeer, hside⟩
  · rw [Peer.sent, Peer.sent_append, length_append]
    exact congrArg (· + 1) hsent
  · rw [length_append, hhandled]
    rfl

theorem exists_exchanged (n : Nat) : ∃ a b, Exchanged (n + 2) a b := by
  induction n with
  | zero => exact ⟨_, _, exchanged_handshake⟩
  | succ n ih =>
    obtain ⟨a, b, h⟩ := ih
    exact h.next

/-- Before the first HELLO an injected AUTH is passed on, though nobody has sent anything. After
`2 ^ 64` messages the sequence numbers start again, and the first message is passed on once more. -/
theorem channel_repeats :
    DistinctKeys twoNodes ∧
    (∃ peers, Reachable twoNodes peers ∧ (∀ q ∈ peers, q.sent = []) ∧
      ∃ p ∈ peers, p.handledMessages = [.auth]) ∧
    ∃ peers, Reachable twoNodes peers ∧ ∃ p ∈ peers, ∃ q ∈ peers,
      p.Keyed twoNodes ∧ p.OtherSide q ∧ ¬ p.handledMessages <+: q.sent := by
  refine ⟨distinctKeys_twoNodes, ?_, ?_⟩
  · have hconnect : Reachable twoNodes [Peer.init calledNode .remoteCalledUs 2] :=
      Relation.ReflTransGen.single (.connect _ (Or.inr rfl) (by simp))
    have hmsg : Deliverable twoNodes [Peer.init calledNode .remoteCalledUs 2]
        { message := .auth } := by
      refine ⟨fun _ _ _ _ _ _ _ _ _ h => ?_, fun _ h => ?_⟩
      · cases h
      · cases h
    have hauth := hconnect.tail
      (.event [] (.receive {} { message := .auth } (by decide) hmsg))
    exact ⟨_, hauth, by decide +kernel, _, mem_singleton.2 rfl, by decide +kernel⟩
  · obtain ⟨a, b, hreach, ⟨hastate, hbstate⟩, ⟨⟨hakey, harecv⟩, hbkey⟩, hsent, hhandled, hfirst,
      hpeer, hside⟩ := exists_exchanged (UInt64.size - 2)
    have hbopen : b.state ≠ .closing := by
      rw [hbstate]
      rintro ⟨⟩
    have hkey : b.recvMacKey ≠ .zero := by
      rw [hbkey]
      rintro ⟨⟩
    have hbseq : b.recvMacSeq = 0 := by
      rw [hreach.sound.counted b (by simp) hkey hbopen, hhandled]
      decide +kernel
    have hmsg : Deliverable twoNodes [a, b] (codedMessage callerKey 0 .auth) :=
      deliverable_coded (p := a) (by simp) hfirst rfl
    have hevent : Event twoNodes [a, b] b (b.recvMessage {} (codedMessage callerKey 0 .auth)) :=
      .receive {} _ (by rw [hbstate]; rintro ⟨⟩) hmsg
    have hagain : b.recvMessage {} (codedMessage callerKey 0 .auth) = { b with
        recvMacSeq := b.recvMacSeq + 1
        state := .closing
        transmitted :=
          b.transmitted ++ [{ message := .errorMsg .misc "out-of-order AUTH message" }]
        handled := b.handled ++ [⟨b.state, .auth⟩] } := by
      simp [Peer.recvMessage, codedMessage, hbstate, hbseq, hbkey, PeerState.reachedHello,
        StellarMessage.isError, hmacSha256Verify, Peer.recvPlain, Peer.dispatch, Peer.recvAuth,
        Peer.dropWith, Peer.sendMessage, StellarMessage.carriesMac, Peer.transmit, Peer.drop]
    rw [hagain] at hevent
    refine ⟨_, hreach.right hevent, _, mem_cons_of_mem _ (mem_singleton.2 rfl), a,
      mem_cons_self, ⟨hkey, callerNode, Or.inl rfl, hpeer.symm⟩, hside, fun hprefix => ?_⟩
    have hle := hprefix.length_le
    rw [hsent, Peer.handledMessages, length_map, length_append, hhandled] at hle
    exact absurd hle (Nat.not_succ_le_self _)

end SpnCore.Overlay
