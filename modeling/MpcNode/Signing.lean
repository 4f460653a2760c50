import MpcNode.Channel

/-!
# The signing node

Nonces are drawn and never removed, commitments and shares are kept under
the name the payload gives. The share sent is a placeholder; the aggregate
is formed and dropped. Every guard is released before the next one that
could conflict is awaited, so no call waits for itself.
-/

set_option autoImplicit false

namespace MpcNode.Signing
open MpcNode.Bls MpcNode.Guarded MpcNode.Messages MpcNode.Wire MpcNode.Channels MpcNode.Tables
open MpcNode.Guarded.Handler (withGuard bind_ok withGuard_free top_blocks)

structure SigningNode (G1 : Type) where
  id : String
  threshold : Usize
  nonces : List (Scalar × Scalar)
  commitments : HashMap (List (FrostCommitment G1))
  signatureShares : HashMap Scalar

variable {G1 : Type}

def SigningNode.new (id : String) (threshold : Usize) : SigningNode G1 where
  id := id
  threshold := threshold
  nonces := []
  commitments := ∅
  signatureShares := ∅

def SigningNode.insertCommitments (signer : String) (commitments : List (FrostCommitment G1))
    (node : SigningNode G1) : SigningNode G1 :=
  { node with commitments := node.commitments.insert signer commitments }

def SigningNode.insertShare (signer : String) (share : Scalar) (node : SigningNode G1) :
    SigningNode G1 :=
  { node with signatureShares := node.signatureShares.insert signer share }

/-- Draws come in pairs from the random source. -/
def SigningNode.generateNonces (count : ℕ) (rng : ℕ → Scalar) (node : SigningNode G1) :
    SigningNode G1 :=
  { node with nonces := node.nonces ++ (List.range count).map (fun k => (rng (2*k),rng (2*k+1))) }

/-- The loop of `aggregate_signature_shares`. -/
def SigningNode.aggregate (node : SigningNode G1) : Scalar :=
  (values node.signatureShares).foldl (fun signature share => signature+share) 0

abbrev SigningCall (G1 : Type) := Call (SigningNode G1) Scalar

def aggregateSignatureShares : SigningCall G1 Scalar :=
  withGuard .signatureShares .read (do
    let self ← node
    record self.aggregate
    pure self.aggregate)

def checkSignatureCompletion : SigningCall G1 Unit :=
  withGuard .signatureShares .read (do
    let self ← node
    if self.threshold.toNat ≤ len self.signatureShares then
      let _ ← aggregateSignatureShares
      pure ())

theorem checkSignatureCompletion_run (policy : Policy) (c : Ctx (SigningNode G1) Scalar) :
    checkSignatureCompletion (Env.top policy) c =
      (.ok (),{ c with
        results := c.results ++
          if c.node.threshold.toNat ≤ len c.node.signatureShares then [c.node.aggregate]
          else [] }) := by
  rw [checkSignatureCompletion, withGuard_free (top_blocks _ _ _), bind_ok (node_run _ _)]
  have hfree : ((Env.top policy).hold Lock.signatureShares .read).blocks .signatureShares .read =
      false := by cases policy <;> rfl
  split_ifs
  · rw [aggregateSignatureShares, bind_ok (withGuard_free hfree _ _)]
    rfl
  · rw [List.append_nil]
    rfl

section calls
variable [G1Group G1] [SerdeJson]

def SigningNode.getCommitments (node : SigningNode G1) : List (FrostCommitment G1) :=
  node.nonces.map (fun p => ⟨⟨p.1•generator⟩,⟨p.2•generator⟩⟩)

def startSigning (_message : Bytes) (rng : ℕ → Scalar) : SigningCall G1 Unit := do
  update (SigningNode.generateNonces 1 rng)
  let self ← node
  let commitments := self.getCommitments
  let msg := toVec (SigningMessage.commitmentShare self.id commitments)
  broadcast "signing" msg

def generateSignatureShare : SigningCall G1 Scalar := pure 0

def checkCommitments : SigningCall G1 Unit :=
  withGuard .signingCommitments .read (do
    let self ← node
    if self.threshold.toNat ≤ len self.commitments then
      let signatureShare ← generateSignatureShare
      let msg := toVec (SigningMessage.signatureShare self.id ⟨signatureShare⟩ : SigningMessage G1)
      broadcast "signing" msg)

def handleCommitmentShare (fromId : String) (commitments : List (FrostCommitment G1)) :
    SigningCall G1 Unit := do
  withGuard .signingCommitments .write (update (SigningNode.insertCommitments fromId commitments))
  checkCommitments

def handleSignatureShare (fromId : String) (share : Scalar) : SigningCall G1 Unit := do
  withGuard .signatureShares .write (update (SigningNode.insertShare fromId share))
  checkSignatureCompletion

def handleMessage : SigningMessage G1 → SigningCall G1 Unit
  | .commitmentShare fromId commitments => handleCommitmentShare fromId commitments
  | .signatureShare fromId share => handleSignatureShare fromId share.scalar

def SigningNode.take (node : SigningNode G1) : SigningMessage G1 → SigningNode G1
  | .commitmentShare fromId commitments => node.insertCommitments fromId commitments
  | .signatureShare fromId share => node.insertShare fromId share.scalar

theorem checkCommitments_run (policy : Policy) (c : Ctx (SigningNode G1) Scalar) :
    checkCommitments (Env.top policy) c =
      if c.node.threshold.toNat ≤ len c.node.commitments then
        send (.broadcast "signing" (toVec (SigningMessage.signatureShare c.node.id ⟨0⟩ :
          SigningMessage G1))) ((Env.top policy).hold .signingCommitments .read) c
      else (.ok (),c) := by
  rw [checkCommitments, withGuard_free (top_blocks _ _ _), bind_ok (node_run _ _)]
  split_ifs <;> rfl

/-- What the node puts on the wire. -/
def signingPayload (msg : SigningMessage G1) : ChannelMessage := .broadcast "signing" (toVec msg)

theorem startSigning_run (message : Bytes) (rng : ℕ → Scalar) (env : Env Lock)
    (c : Ctx (SigningNode G1) Scalar) :
    startSigning message rng env c =
      send (signingPayload (.commitmentShare c.node.id
        (c.node.generateNonces 1 rng).getCommitments)) env
        { c with node := c.node.generateNonces 1 rng } := rfl

theorem commitment_run (policy : Policy) (fromId : String)
    (commitments : List (FrostCommitment G1)) (c : Ctx (SigningNode G1) Scalar) :
    handleMessage (.commitmentShare fromId commitments) (Env.top policy) c =
      if c.node.threshold.toNat ≤ len (c.node.insertCommitments fromId commitments).commitments then
        send (signingPayload (.signatureShare c.node.id ⟨0⟩ : SigningMessage G1)) (Env.top policy)
          { c with node := c.node.insertCommitments fromId commitments }
      else (.ok (),{ c with node := c.node.insertCommitments fromId commitments }) := by
  rw [handleMessage, handleCommitmentShare, bind_ok (withGuard_free (top_blocks _ _ _) _ _),
    checkCommitments_run]
  rfl

theorem signature_run (policy : Policy) (fromId : String) (share : SerializableScalar)
    (c : Ctx (SigningNode G1) Scalar) :
    handleMessage (.signatureShare fromId share) (Env.top policy) c =
      (.ok (),{ c with
        node := c.node.insertShare fromId share.scalar
        results := c.results ++
          if c.node.threshold.toNat ≤ len (c.node.insertShare fromId share.scalar).signatureShares
          then [(c.node.insertShare fromId share.scalar).aggregate] else [] }) := by
  rw [handleMessage, handleSignatureShare, bind_ok (withGuard_free (top_blocks _ _ _) _ _),
    checkSignatureCompletion_run]
  rfl

/-- What a message does to the signing node, under any policy. -/
theorem handleMessage_node (policy : Policy) (msg : SigningMessage G1)
    (c : Ctx (SigningNode G1) Scalar) :
    (handleMessage msg (Env.top policy) c).2.node = c.node.take msg := by
  cases msg with
  | commitmentShare fromId commitments =>
    rw [commitment_run]
    split_ifs
    · rw [send_node]
      rfl
    · rfl
  | signatureShare fromId share =>
    rw [signature_run]
    rfl

end calls
end MpcNode.Signing
