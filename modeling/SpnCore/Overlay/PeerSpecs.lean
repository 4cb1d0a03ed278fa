import SpnCore.Overlay.Peer
import Mathlib.Data.List.Infix

/-!
# What a peer keeps

Every code that a peer puts on the wire is that of the next message in its sequence, and every
message that it passes on carried the code that was due. Most events pass on nothing.
-/

namespace SpnCore.Overlay

open List

variable {nodes : Set Config}

namespace Peer

variable {p q : Peer}

/-! ### What holds of one peer -/

/-- The keys were agreed with the node that the peer takes for the other side. -/
def Agreed (nodes : Set Config) (p : Peer) (remotePublic : Curve25519Public) : Prop :=
  p.sendMacKey = getSendingMacKey p.config.publicKey remotePublic p.sendNonce p.recvNonce p.role ∧
  p.recvMacKey = getReceivingMacKey p.config.publicKey remotePublic p.sendNonce p.recvNonce p.role ∧
  ∀ c ∈ nodes, c.nodeID = p.peerID → remotePublic = c.publicKey

/-- Nothing is passed on before a HELLO has been accepted, but an AUTH that closes the
connection. -/
def Waits (p : Peer) : Prop :=
  (p.state ≠ .gotHello ∧ p.state ≠ .gotAuth) ∧
    (p.handled = [] ∨ p.handledMessages = [.auth] ∧ p.state = .closing)

structure Good (nodes : Set Config) (p : Peer) : Prop where
  /-- A code on the wire is that of a sent message at its place in the sequence. -/
  transmitted : ∀ am ∈ p.transmitted, ∀ key seq msg, am.mac = .hmac key seq msg →
    key = p.sendMacKey ∧ ∃ i, p.sent[i]? = some msg ∧ seq = UInt64.ofNat i
  sendMacSeq : p.recvMacKey ≠ .zero → p.state ≠ .closing →
    p.sendMacSeq = UInt64.ofNat p.sent.length
  unsent : p.recvMacKey = .zero → p.sent = []
  waits : p.recvMacKey = .zero → p.Waits
  agreed : p.recvMacKey ≠ .zero → p.state.reachedHello = true ∧ ∃ remotePublic,
    p.Agreed nodes remotePublic
  complete : ∀ h ∈ p.handled, h.message ≠ .auth → h.state = .gotAuth

/-- The next sequence number that is expected. -/
def Counted (p : Peer) : Prop :=
  p.recvMacKey ≠ .zero → p.state ≠ .closing → p.recvMacSeq = UInt64.ofNat p.handled.length

theorem counted_of_closing (h : p.state = .closing) : p.Counted := fun _ hopen => absurd h hopen

/-- What an event never takes back. -/
structure Grows (p q : Peer) : Prop where
  config : q.config = p.config
  role : q.role = p.role
  sendNonce : q.sendNonce = p.sendNonce
  sent : p.sent <+: q.sent
  keys : p.recvMacKey ≠ .zero → q.sendMacKey = p.sendMacKey ∧ q.recvMacKey = p.recvMacKey ∧
    q.peerID = p.peerID ∧ q.recvNonce = p.recvNonce

theorem Grows.refl (p : Peer) : Grows p p :=
  ⟨rfl, rfl, rfl, prefix_rfl, fun _ => ⟨rfl, rfl, rfl, rfl⟩⟩

theorem Grows.trans {r : Peer} (h : Grows p q) (h' : Grows q r) : Grows p r where
  config := h'.config.trans h.config
  role := h'.role.trans h.role
  sendNonce := h'.sendNonce.trans h.sendNonce
  sent := h.sent.trans h'.sent
  keys hkey := by
    obtain ⟨hsend, hrecv, hpeer, hnonce⟩ := h.keys hkey
    obtain ⟨hsend', hrecv', hpeer', hnonce'⟩ := h'.keys (hrecv ▸ hkey)
    exact ⟨hsend'.trans hsend, hrecv'.trans hrecv, hpeer'.trans hpeer, hnonce'.trans hnonce⟩

theorem grows_update (state : PeerState) (seq : UInt64) (handled : List Handled) :
    Grows p { p with state := state, recvMacSeq := seq, handled := handled } :=
  ⟨rfl, rfl, rfl, prefix_rfl, fun _ => ⟨rfl, rfl, rfl, rfl⟩⟩

/-- An event at which no message is passed on. -/
structure Quiet (nodes : Set Config) (p q : Peer) : Prop where
  good : p.Good nodes → q.Good nodes
  counted : p.Counted → q.Counted
  grows : p.Grows q
  handled : q.handled = p.handled
  fresh : p.recvMacKey = .zero → q.recvMacKey ≠ .zero → p.handled = []

theorem Quiet.refl (p : Peer) : Quiet nodes p p :=
  ⟨id, id, Grows.refl p, rfl, fun h h' => absurd h h'⟩

theorem Quiet.trans {r : Peer} (h : Quiet nodes p q) (h' : Quiet nodes q r) : Quiet nodes p r where
  good hp := h'.good (h.good hp)
  counted hp := h'.counted (h.counted hp)
  grows := h.grows.trans h'.grows
  handled := h'.handled.trans h.handled
  fresh hp hr := by
    by_cases hq : q.recvMacKey = .zero
    · exact h.handled ▸ h'.fresh hq hr
    · exact h.fresh hp hq

theorem Quiet.keyed (h : Quiet nodes p q) (hkey : p.recvMacKey ≠ .zero) : q.recvMacKey ≠ .zero :=
  (h.grows.keys hkey).2.1 ▸ hkey

/-! ### Sending -/

theorem sent_append (ams : List AuthenticatedMessage) (am : AuthenticatedMessage) :
    ((ams ++ [am]).map AuthenticatedMessage.message).filter StellarMessage.carriesMac =
      (ams.map AuthenticatedMessage.message).filter StellarMessage.carriesMac ++
        if am.message.carriesMac then [am.message] else [] := by
  cases hmac : am.message.carriesMac <;> simp [hmac]

/-- A closed peer puts nothing on the wire. -/
theorem sendMessage_of_closing (h : p.state = .closing) (msg : StellarMessage) :
    ∃ seq, p.sendMessage msg = { p with sendMacSeq := seq } := by
  unfold sendMessage
  split
  · exact ⟨p.sendMacSeq + 1, if_pos h⟩
  · exact ⟨p.sendMacSeq, if_pos h⟩

variable {msg : StellarMessage}

theorem sendMessage_of_mac (h : p.state ≠ .closing) (hmac : msg.carriesMac = true) :
    p.sendMessage msg = { p with
      sendMacSeq := p.sendMacSeq + 1
      transmitted := p.transmitted ++
        [⟨p.sendMacSeq, msg, .hmac p.sendMacKey p.sendMacSeq msg⟩] } := by
  rw [sendMessage, if_pos hmac]
  exact if_neg h

theorem sendMessage_of_plain (h : p.state ≠ .closing) (hmac : ¬ msg.carriesMac = true) :
    p.sendMessage msg = { p with transmitted := p.transmitted ++ [{ message := msg }] } := by
  rw [sendMessage, if_neg hmac]
  exact if_neg h

/-- Nothing is sent with a code before the keys are agreed. -/
theorem quiet_sendMessage
    (hkey : p.state ≠ .closing → msg.carriesMac = true → p.recvMacKey ≠ .zero) :
    Quiet nodes p (p.sendMessage msg) := by
  by_cases hclosing : p.state = .closing
  · obtain ⟨seq, hseq⟩ := sendMessage_of_closing hclosing msg
    rw [hseq]
    refine ⟨fun hp => ?_, id, ⟨rfl, rfl, rfl, prefix_rfl, fun _ => ⟨rfl, rfl, rfl, rfl⟩⟩, rfl,
      fun h h' => absurd h h'⟩
    exact ⟨hp.transmitted, fun _ h => absurd hclosing h, hp.unsent, hp.waits, hp.agreed,
      hp.complete⟩
  · by_cases hmac : msg.carriesMac = true
    · rw [sendMessage_of_mac hclosing hmac]
      have hsent : ({ p with
          sendMacSeq := p.sendMacSeq + 1
          transmitted := p.transmitted ++
            [⟨p.sendMacSeq, msg, .hmac p.sendMacKey p.sendMacSeq msg⟩] } : Peer).sent =
          p.sent ++ [msg] := by
        rw [sent, sent_append, if_pos hmac]
        rfl
      refine ⟨fun hp => ?_, id, ⟨rfl, rfl, rfl, hsent ▸ prefix_append _ _,
        fun _ => ⟨rfl, rfl, rfl, rfl⟩⟩, rfl, fun h h' => absurd h h'⟩
      have hseq : p.sendMacSeq = UInt64.ofNat p.sent.length :=
        hp.sendMacSeq (hkey hclosing hmac) hclosing
      refine ⟨fun am ham key seq msg' hcode => ?_, fun _ _ => ?_,
        fun h => absurd h (hkey hclosing hmac), hp.waits, hp.agreed, hp.complete⟩
      · rw [hsent]
        rcases mem_append.1 ham with ham | ham
        · obtain ⟨hsame, i, hi, hplace⟩ := hp.transmitted am ham key seq msg' hcode
          have hlt : i < p.sent.length := (List.getElem?_eq_some_iff.1 hi).1
          exact ⟨hsame, i, (List.getElem?_append_left hlt).trans hi, hplace⟩
        · cases mem_singleton.1 ham
          cases hcode
          refine ⟨rfl, p.sent.length, ?_, hseq⟩
          rw [List.getElem?_append_right le_rfl, Nat.sub_self]
          rfl
      · rw [hsent, length_append, hseq]
        exact (UInt64.ofNat_add _ _).symm
    · rw [sendMessage_of_plain hclosing hmac]
      have hsent : ({ p with
          transmitted := p.transmitted ++ [{ message := msg }] } : Peer).sent = p.sent := by
        rw [sent, sent_append, if_neg hmac, append_nil]
        rfl
      refine ⟨fun hp => ?_, id, ⟨rfl, rfl, rfl, hsent ▸ prefix_rfl,
        fun _ => ⟨rfl, rfl, rfl, rfl⟩⟩, rfl, fun h h' => absurd h h'⟩
      refine ⟨fun am ham key seq msg' hcode => ?_, fun h h' => hsent ▸ hp.sendMacSeq h h',
        fun h => hsent.trans (hp.unsent h), hp.waits, hp.agreed, hp.complete⟩
      rw [hsent]
      rcases mem_append.1 ham with ham | ham
      · exact hp.transmitted am ham key seq msg' hcode
      · cases mem_singleton.1 ham
        cases hcode

theorem quiet_drop : Quiet nodes p p.drop := by
  refine ⟨fun hp => ?_, fun _ => counted_of_closing rfl, grows_update _ _ _, rfl,
    fun h h' => absurd h h'⟩
  refine ⟨hp.transmitted, fun _ h => absurd rfl h, hp.unsent, fun h => ?_,
    fun h => ⟨rfl, (hp.agreed h).2⟩, hp.complete⟩
  refine ⟨⟨by rintro ⟨⟩, by rintro ⟨⟩⟩, ?_⟩
  exact (hp.waits h).2.imp id fun hauth => ⟨hauth.1, rfl⟩

theorem quiet_dropWith (err : ErrorCode) (msg : String) : Quiet nodes p (p.dropWith err msg) :=
  (quiet_sendMessage (fun _ => by rintro ⟨⟩)).trans quiet_drop

theorem dropWith_of_open (h : p.state ≠ .closing) (err : ErrorCode) (msg : String) :
    p.dropWith err msg = { p with
      state := .closing, transmitted := p.transmitted ++ [{ message := .errorMsg err msg }] } := by
  rw [dropWith, sendMessage_of_plain h (by rintro ⟨⟩)]
  rfl

theorem quiet_sendHello (certExpiration : Nat) : Quiet nodes p (p.sendHello certExpiration) :=
  quiet_sendMessage (fun _ => by rintro ⟨⟩)

theorem unkeyed_of_state (hp : p.Good nodes) (hstate : p.state.reachedHello = false) :
    p.recvMacKey = .zero := by
  by_contra hkey
  have hreached := (hp.agreed hkey).1
  rw [hstate] at hreached
  cases hreached

theorem keyed_of_state (hp : p.Good nodes) (hreached : p.state.reachedHello = true)
    (hopen : p.state ≠ .closing) : p.recvMacKey ≠ .zero := by
  intro hzero
  obtain ⟨hhello, hauth⟩ := (hp.waits hzero).1
  cases hstate : p.state with
  | connecting | connected =>
    rw [hstate] at hreached
    cases hreached
  | gotHello => exact hhello hstate
  | gotAuth => exact hauth hstate
  | closing => exact hopen hstate

/-- A connection that is established when it has already been dropped is taken up again. -/
theorem quiet_connectHandler
    (hstate : p.state = .connecting ∨ p.state = .closing ∧ p.recvMacKey = .zero ∧ p.handled = [])
    (error : Bool) (certExpiration : Nat) :
    Quiet nodes p (p.connectHandler error certExpiration) := by
  unfold connectHandler
  split
  · exact quiet_drop
  · have hconnected : Quiet nodes p { p with state := .connected } := by
      rcases hstate with hstate | ⟨-, hzero, hnone⟩
      · have hopen : p.state ≠ .closing := by
          rw [hstate]
          rintro ⟨⟩
        refine ⟨fun hp => ?_, fun hp h _ => hp h hopen, grows_update _ _ _, rfl,
          fun h h' => absurd h h'⟩
        have hzero : p.recvMacKey = .zero := unkeyed_of_state hp (hstate ▸ rfl)
        refine ⟨hp.transmitted, fun h => absurd hzero h, hp.unsent,
          fun h => ⟨⟨by rintro ⟨⟩, by rintro ⟨⟩⟩, ?_⟩, fun h => absurd hzero h, hp.complete⟩
        exact Or.inl ((hp.waits h).2.resolve_right fun h => hopen h.2)
      · refine ⟨fun hp => ?_, fun _ h => absurd hzero h, grows_update _ _ _, rfl,
          fun h h' => absurd h h'⟩
        exact ⟨hp.transmitted, fun h => absurd hzero h, hp.unsent,
          fun _ => ⟨⟨by rintro ⟨⟩, by rintro ⟨⟩⟩, Or.inl hnone⟩, fun h => absurd hzero h,
          hp.complete⟩
    exact hconnected.trans (quiet_sendHello certExpiration)

/-! ### Receiving -/

/-- A certificate of an honest node is over its own public key. -/
def Certified (nodes : Set Config) (cert : AuthCert) : Prop :=
  ∀ signer networkID expiration pubkey, cert.sig = .signed signer networkID expiration pubkey →
    ∀ c ∈ nodes, c.nodeID = signer → pubkey = c.publicKey

theorem receivingMacKey_ne_zero {localPublic remotePublic : Curve25519Public}
    {localNonce remoteNonce : Nonce} {role : PeerRole} :
    getReceivingMacKey localPublic remotePublic localNonce remoteNonce role ≠ .zero := by
  cases role <;> rintro ⟨⟩

theorem quiet_agree (hp : p.Good nodes) (hstate : p.state.reachedHello = false) {elo : Hello}
    {timeNow : Nat} (hcert : Certified nodes elo.cert)
    (hverify : verifyRemoteAuthCert timeNow p.config.networkID elo.peerID elo.cert = true) :
    Quiet nodes p (p.agree elo) := by
  have hzero : p.recvMacKey = .zero := unkeyed_of_state hp hstate
  have hunsent : p.sent = [] := hp.unsent hzero
  have hkey : (p.agree elo).recvMacKey ≠ .zero := receivingMacKey_ne_zero
  have hnone : p.handled = [] := by
    refine (hp.waits hzero).2.resolve_right fun h => ?_
    rw [h.2] at hstate
    cases hstate
  refine ⟨fun _ => ?_, fun _ _ _ => ?_, ⟨rfl, rfl, rfl, prefix_rfl, fun h => absurd hzero h⟩,
    rfl, fun _ _ => hnone⟩
  · refine ⟨fun am ham key seq msg hcode => ?_, fun _ _ => ?_, fun h => absurd h hkey,
      fun h => absurd h hkey, fun _ => ⟨rfl, elo.cert.pubkey, rfl, rfl, fun c hc hid => ?_⟩,
      hp.complete⟩
    · obtain ⟨-, i, hi, -⟩ := hp.transmitted am ham key seq msg hcode
      rw [hunsent] at hi
      cases hi
    · change 0 = UInt64.ofNat p.sent.length
      rw [hunsent]
      rfl
    · unfold verifyRemoteAuthCert at hverify
      split_ifs at hverify with hexpired
      exact hcert _ _ _ _ (of_decide_eq_true hverify) c hc hid
  · change 0 = UInt64.ofNat p.handled.length
    rw [hnone]
    rfl

theorem quiet_recvHello (hp : p.Good nodes) (circ : Circumstances) {elo : Hello}
    (hcert : Certified nodes elo.cert) : Quiet nodes p (p.recvHello circ elo) := by
  by_cases hstate : p.state.reachedHello = true
  · rw [recvHello, if_pos hstate]
    exact quiet_drop
  rw [recvHello, if_neg hstate]
  by_cases hverify : verifyRemoteAuthCert circ.timeNow p.config.networkID elo.peerID elo.cert = true
  · have hagree : Quiet nodes p (p.agree elo) :=
      quiet_agree hp (Bool.eq_false_iff.2 hstate) hcert hverify
    have hgreet : Quiet nodes (p.agree elo) (if p.role = .remoteCalledUs then
        (p.agree elo).sendHello circ.certExpiration else p.agree elo) := by
      split
      · exact quiet_sendHello _
      · exact Quiet.refl _
    rw [if_neg (by simp [hverify])]
    split
    · exact quiet_drop
    · refine hagree.trans (hgreet.trans ?_)
      cases helloFailure circ elo p.config with
      | some msg => exact quiet_dropWith _ _
      | none =>
        dsimp only
        by_cases hrole : p.role = .weCalledRemote
        · rw [if_pos hrole]
          exact quiet_sendMessage fun _ _ => hgreet.keyed receivingMacKey_ne_zero
        · rw [if_neg hrole]
          exact Quiet.refl _
  · rw [if_pos (by simp [hverify])]
    exact quiet_drop

theorem quiet_sendScpState (hkey : p.recvMacKey ≠ .zero) (circ : Circumstances) :
    Quiet nodes p (p.sendScpState circ) := by
  have hfold : ∀ (bodies : List Bytes) (p : Peer), p.recvMacKey ≠ .zero →
      Quiet nodes p (bodies.foldl (fun p body => p.sendMessage (.other .scpMessage body)) p) := by
    intro bodies
    induction bodies with
    | nil => exact fun p _ => Quiet.refl p
    | cons body bodies ih =>
      intro p hkey
      have hsend : Quiet nodes p (p.sendMessage (.other .scpMessage body)) :=
        quiet_sendMessage fun _ _ => hkey
      exact hsend.trans (ih _ (hsend.keyed hkey))
  exact (hfold _ p hkey).trans (quiet_sendMessage fun _ _ => (hfold _ p hkey).keyed hkey)

theorem quiet_recvAuth (hkey : p.recvMacKey ≠ .zero) (circ : Circumstances) :
    Quiet nodes p (p.recvAuth circ) := by
  by_cases hstate : p.state = .gotHello
  · have hopen : p.state ≠ .closing := by
      rw [hstate]
      rintro ⟨⟩
    have hauth : Quiet nodes p { p with state := .gotAuth } := by
      refine ⟨fun hp => ?_, fun hp h _ => hp h hopen, grows_update _ _ _, rfl,
        fun h h' => absurd h h'⟩
      exact ⟨hp.transmitted, fun h _ => hp.sendMacSeq h hopen, hp.unsent, fun h => absurd h hkey,
        fun h => ⟨rfl, (hp.agreed h).2⟩, hp.complete⟩
    have hanswer : Quiet nodes { p with state := .gotAuth } (if p.role = .remoteCalledUs then
        (sendMessage .auth { p with state := .gotAuth }).sendMessage (.other .peers circ.peers)
        else { p with state := .gotAuth }) := by
      split
      · have hsend : Quiet nodes { p with state := .gotAuth }
            (sendMessage .auth { p with state := .gotAuth }) := quiet_sendMessage fun _ _ => hkey
        exact hsend.trans (quiet_sendMessage fun _ _ => hsend.keyed hkey)
      · exact Quiet.refl _
    rw [recvAuth, if_neg (not_not.2 hstate)]
    refine hauth.trans (hanswer.trans ?_)
    cases circ.accepted with
    | false => exact quiet_dropWith _ _
    | true => exact quiet_sendScpState (hanswer.keyed hkey) circ
  · rw [recvAuth, if_pos hstate]
    exact quiet_dropWith _ _

/-- A message with the code that is due is passed on. -/
structure Passes (nodes : Set Config) (msg : AuthenticatedMessage) (p q : Peer) : Prop where
  keyed : p.recvMacKey ≠ .zero
  verified : msg.mac = .hmac p.recvMacKey (UInt64.ofNat p.handled.length) msg.message
  good : q.Good nodes
  counted : q.Counted
  grows : p.Grows q
  handled : q.handledMessages = p.handledMessages ++ [msg.message]

/-- What can happen when a message arrives. The last case is an AUTH that comes before a HELLO. -/
inductive Received (nodes : Set Config) (msg : AuthenticatedMessage) (p q : Peer) : Prop
  | quiet (h : Quiet nodes p q)
  | passes (h : Passes nodes msg p q)
  | early (good : q.Good nodes) (closing : q.state = .closing) (grows : p.Grows q)
      (unkeyed : q.recvMacKey = .zero)

/-- Counting a message does not matter if the connection is closed at once. -/
theorem Quiet.of_counted {seq : UInt64} (h : Quiet nodes { p with recvMacSeq := seq } q)
    (hclosing : q.state = .closing) : Quiet nodes p q where
  good hp := h.good ⟨hp.transmitted, hp.sendMacSeq, hp.unsent, hp.waits, hp.agreed, hp.complete⟩
  counted _ := counted_of_closing hclosing
  grows := (grows_update p.state seq p.handled).trans h.grows
  __ := h

/-- A peer with a verified message, counted and put in the history. -/
theorem good_handled (hp : p.Good nodes) (hkey : p.recvMacKey ≠ .zero) (seq : UInt64)
    (hstate : msg ≠ .auth → p.state = .gotAuth) :
    Good nodes { p with recvMacSeq := seq, handled := p.handled ++ [⟨p.state, msg⟩] } := by
  refine ⟨hp.transmitted, hp.sendMacSeq, hp.unsent, fun h => absurd h hkey, hp.agreed,
    fun h hmem hauth => ?_⟩
  rcases mem_append.1 hmem with hmem | hmem
  · exact hp.complete h hmem hauth
  · cases mem_singleton.1 hmem
    exact hstate hauth

theorem counted_handled (hp : p.Counted) (msg : StellarMessage) :
    Counted { p with
      recvMacSeq := p.recvMacSeq + 1, handled := p.handled ++ [⟨p.state, msg⟩] } := by
  intro hkey hopen
  change p.recvMacSeq + 1 = UInt64.ofNat (p.handled ++ [Handled.mk p.state msg]).length
  rw [hp hkey hopen, length_append]
  exact (UInt64.ofNat_add _ _).symm

/-- A message whose code has been verified. -/
theorem received_verified (hp : p.Good nodes) (hcounted : p.Counted)
    (hreached : p.state.reachedHello = true) (hopen : p.state ≠ .closing) (circ : Circumstances)
    {msg : AuthenticatedMessage} (herror : msg.message.isError = false)
    (hmac : msg.mac = .hmac p.recvMacKey p.recvMacSeq msg.message) :
    Received nodes msg p
      (recvPlain circ msg.message { p with recvMacSeq := p.recvMacSeq + 1 }) := by
  have hkey : p.recvMacKey ≠ .zero := keyed_of_state hp hreached hopen
  have hverified : msg.mac = .hmac p.recvMacKey (UInt64.ofNat p.handled.length) msg.message :=
    hcounted hkey hopen ▸ hmac
  cases hmsg : msg.message with
  | errorMsg code text =>
    rw [hmsg] at herror
    cases herror
  | hello elo =>
    -- The state is at least GOT_HELLO, so that a second HELLO closes the connection.
    have hdrop : recvPlain circ (.hello elo) { p with recvMacSeq := p.recvMacSeq + 1 } =
        drop { p with recvMacSeq := p.recvMacSeq + 1 } := if_pos hreached
    rw [hdrop]
    exact .quiet (quiet_drop.of_counted rfl)
  | auth =>
    have hquiet : Quiet nodes { p with
        recvMacSeq := p.recvMacSeq + 1, handled := p.handled ++ [⟨p.state, .auth⟩] }
        (recvPlain circ .auth { p with recvMacSeq := p.recvMacSeq + 1 }) :=
      quiet_recvAuth (p := { p with
        recvMacSeq := p.recvMacSeq + 1, handled := p.handled ++ [⟨p.state, .auth⟩] }) hkey circ
    refine .passes ⟨hkey, hverified, ?_, ?_, (grows_update _ _ _).trans hquiet.grows, ?_⟩
    · exact hquiet.good (good_handled hp hkey _ fun h => absurd rfl h)
    · exact hquiet.counted (counted_handled hcounted .auth)
    · rw [handledMessages, hquiet.handled, hmsg]
      exact map_append
  | other type body =>
    unfold recvPlain
    split_ifs with hauth
    · have hstate : p.state = .gotAuth := of_decide_eq_true hauth
      refine .passes ⟨hkey, hverified, good_handled hp hkey _ fun _ => hstate,
        counted_handled hcounted _, grows_update _ _ _, ?_⟩
      rw [hmsg]
      exact map_append
    · exact .quiet (quiet_drop.of_counted rfl)

/-- An AUTH that comes before a HELLO is put in the history, and the connection is closed. -/
theorem received_early (hp : p.Good nodes) (hstate : p.state.reachedHello = false)
    (circ : Circumstances) (msg : AuthenticatedMessage) :
    Received nodes msg p (p.dispatch circ .auth) := by
  have hzero : p.recvMacKey = .zero := unkeyed_of_state hp hstate
  have hhello : p.state ≠ .gotHello := by
    intro h
    rw [h] at hstate
    cases hstate
  have hopen : p.state ≠ .closing := by
    intro h
    rw [h] at hstate
    cases hstate
  have hnone : p.handled = [] :=
    (hp.waits hzero).2.resolve_right fun h => hopen h.2
  have hquiet : Quiet nodes p (p.dropWith .misc "out-of-order AUTH message") := quiet_dropWith _ _
  have hgood := hquiet.good hp
  have hgrows := hquiet.grows
  rw [dropWith_of_open hopen] at hgood hgrows
  have hdispatch : p.dispatch circ .auth = { p with
      state := .closing
      transmitted := p.transmitted ++ [{ message := .errorMsg .misc "out-of-order AUTH message" }]
      handled := p.handled ++ [⟨p.state, .auth⟩] } :=
    (if_pos hhello).trans
      (dropWith_of_open (p := { p with handled := p.handled ++ [⟨p.state, .auth⟩] }) hopen _ _)
  rw [hdispatch, hnone]
  refine .early ⟨hgood.transmitted, hgood.sendMacSeq, hgood.unsent, fun h => ?_, hgood.agreed,
    fun h hmem hauth => ?_⟩ rfl ⟨rfl, rfl, rfl, hgrows.sent, hgrows.keys⟩ hzero
  · exact ⟨(hgood.waits h).1, Or.inr ⟨rfl, rfl⟩⟩
  · cases mem_singleton.1 hmem
    exact absurd rfl hauth

theorem received_recvMessage (hp : p.Good nodes) (hcounted : p.Counted) (circ : Circumstances)
    {msg : AuthenticatedMessage}
    (hcert : ∀ elo, msg.message = .hello elo → Certified nodes elo.cert) :
    Received nodes msg p (p.recvMessage circ msg) := by
  unfold recvMessage
  split_ifs with hclosing hcheck hseq hmac
  · exact .quiet (Quiet.refl p)
  · exact .quiet ((quiet_dropWith _ _).of_counted rfl)
  · exact .quiet ((quiet_dropWith _ _).of_counted rfl)
  · obtain ⟨hreached, herror⟩ := Bool.and_eq_true_iff.1 hcheck
    have hcode : msg.mac = .hmac p.recvMacKey msg.sequence msg.message := by
      simpa [hmacSha256Verify] using hmac
    rw [not_not.1 hseq] at hcode
    exact received_verified hp hcounted hreached hclosing circ (by simpa using herror) hcode
  · -- Without a code only an ERROR_MSG, or whatever comes before the first HELLO.
    rw [Bool.and_eq_true_iff, not_and] at hcheck
    cases hmsg : msg.message with
    | errorMsg code text => exact .quiet quiet_drop
    | hello elo => exact .quiet (quiet_recvHello hp circ (hcert elo hmsg))
    | auth =>
      rw [hmsg] at hcheck
      exact received_early hp (Bool.eq_false_iff.2 fun h => hcheck h rfl) circ msg
    | other type body =>
      rw [hmsg] at hcheck
      have hauth : ¬ p.isAuthenticated = true := by
        intro h
        have hstate : p.state = .gotAuth := of_decide_eq_true h
        exact hcheck (hstate ▸ rfl) rfl
      have hdrop : p.recvPlain circ (.other type body) = p.drop := if_neg hauth
      rw [hdrop]
      exact .quiet quiet_drop

end Peer

end SpnCore.Overlay
