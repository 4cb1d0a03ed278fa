import Mathlib.Data.Set.Basic

/-!
# Keys and certificates of connections

The two sides of a connection derive the keys of their message authentication codes from an
agreement on their public keys and from a nonce of each side. Keys, codes and signatures are
symbols here: two of them are equal only if they were made from the same parts.
-/

namespace SpnCore.Overlay

abbrev NodeID := Nat

abbrev Nonce := Nat

abbrev Curve25519Public := Nat

abbrev Bytes := List UInt8

inductive PeerRole where
  | remoteCalledUs
  | weCalledRemote
deriving DecidableEq, Repr

/-! ### Certificates -/

/-- A signature of a node under the hash of a certificate, or some other bytes. -/
inductive Signature where
  | signed (signer : NodeID) (networkID : Nat) (expiration : Nat) (pubkey : Curve25519Public)
  | other (bytes : Bytes)
deriving DecidableEq, Repr

structure AuthCert where
  pubkey : Curve25519Public
  expiration : Nat
  sig : Signature
deriving DecidableEq, Repr

def makeAuthCert (nodeID : NodeID) (networkID : Nat) (pub : Curve25519Public) (expiration : Nat) :
    AuthCert where
  pubkey := pub
  expiration := expiration
  sig := .signed nodeID networkID expiration pub

def verifyRemoteAuthCert (timeNow networkID : Nat) (remoteNode : NodeID) (cert : AuthCert) : Bool :=
  if cert.expiration < timeNow then false
  else decide (cert.sig = .signed remoteNode networkID cert.expiration cert.pubkey)

/-! ### Keys -/

/-- The key that both sides agree on. It depends on who called whom. -/
structure SharedKey where
  publicA : Curve25519Public
  publicB : Curve25519Public
deriving DecidableEq, Repr

def ecdhDeriveSharedKey (localPublic remotePublic : Curve25519Public) (localFirst : Bool) :
    SharedKey where
  publicA := if localFirst then localPublic else remotePublic
  publicB := if localFirst then remotePublic else localPublic

def getSharedKey (localPublic remotePublic : Curve25519Public) (role : PeerRole) : SharedKey :=
  ecdhDeriveSharedKey localPublic remotePublic (decide (role = .weCalledRemote))

/-- `HmacSha256Key`: all bytes zero until it is expanded from a shared key. -/
inductive MacKey where
  | zero
  | expanded (shared : SharedKey) (tag : UInt8) (nonce₁ nonce₂ : Nonce)
deriving DecidableEq, Repr

/-- The caller A sends with the key of A and B, and the other side B with the one of B and A. -/
def getSendingMacKey (localPublic remotePublic : Curve25519Public) (localNonce remoteNonce : Nonce)
    (role : PeerRole) : MacKey :=
  match role with
  | .weCalledRemote =>
    .expanded (getSharedKey localPublic remotePublic role) 0 localNonce remoteNonce
  | .remoteCalledUs =>
    .expanded (getSharedKey localPublic remotePublic role) 1 localNonce remoteNonce

def getReceivingMacKey (localPublic remotePublic : Curve25519Public)
    (localNonce remoteNonce : Nonce) (role : PeerRole) : MacKey :=
  match role with
  | .weCalledRemote =>
    .expanded (getSharedKey localPublic remotePublic role) 1 remoteNonce localNonce
  | .remoteCalledUs =>
    .expanded (getSharedKey localPublic remotePublic role) 0 remoteNonce localNonce

/-- A side sends with the key with which another one receives only if the other one has called it
or was called by it, with the same nonces. -/
theorem sides_of_keys {localPublic remotePublic localPublic' remotePublic' : Curve25519Public}
    {localNonce remoteNonce localNonce' remoteNonce' : Nonce} {role role' : PeerRole}
    (h : getSendingMacKey localPublic remotePublic localNonce remoteNonce role =
      getReceivingMacKey localPublic' remotePublic' localNonce' remoteNonce' role') :
    role ≠ role' ∧ localPublic = remotePublic' ∧ localNonce = remoteNonce' ∧
      remoteNonce = localNonce' := by
  cases role <;> cases role' <;>
    simp [getSendingMacKey, getReceivingMacKey, getSharedKey, ecdhDeriveSharedKey] at h ⊢
  · exact ⟨h.1.2, h.2.1, h.2.2⟩
  · exact ⟨h.1.1, h.2.1, h.2.2⟩

end SpnCore.Overlay
