import MpcNode.DkgVerification

/-!
# The first key generation layer

A node of this layer is given its index. It checks a proposal against the
commitments at that index, keeps the share and the commitments under the
sender's id and acknowledges. Its own commitments it keeps when it starts.
Every guard is released before the next call, and what is published goes to
the gossip behaviour, which may refuse it.
-/

set_option autoImplicit false

namespace MpcNode.Adkg
open MpcNode.Bls MpcNode.Guarded MpcNode.Messages MpcNode.Tables
open MpcNode.Dkg (Rng evaluate commitmentSum)
open MpcNode.Guarded.Handler (withGuard bind_ok withGuard_free)

inductive ADKGMessage (G1 : Type) where
  | shareProposal (senderId : String) (shares : List Scalar) (commitments : List G1)
  | shareAck (senderId receiverId : String) (valid : Bool)
  deriving DecidableEq

structure ADKGNode (G1 : Type) where
  id : String
  idx : UInt64
  n : Usize
  t : Usize
  secretKeyShare : Option Scalar
  publicKey : Option G1
  commitments : HashMap (List G1)
  shares : HashMap Scalar
  acks : HashMap (List (String × Bool))

variable {G1 : Type}

def ADKGNode.new (id : String) (n t : Usize) (idx : UInt64) : ADKGNode G1 where
  id := id
  idx := idx
  n := n
  t := t
  secretKeyShare := none
  publicKey := none
  commitments := ∅
  shares := ∅
  acks := ∅

def ADKGNode.insertShare (dealer : String) (share : Scalar) (node : ADKGNode G1) : ADKGNode G1 :=
  { node with shares := node.shares.insert dealer share }

def ADKGNode.insertCommitments (dealer : String) (commitments : List G1) (node : ADKGNode G1) :
    ADKGNode G1 :=
  { node with commitments := node.commitments.insert dealer commitments }

def ADKGNode.pushAck (sender : String) (valid : Bool) (node : ADKGNode G1) : ADKGNode G1 :=
  { node with acks := push node.acks sender (sender,valid) }

/-- The loop over the shares in `check_completion`. -/
def ADKGNode.shareSum (node : ADKGNode G1) : Scalar :=
  (values node.shares).foldl (fun sum share => sum+share) 0

def ADKGNode.setSecretKeyShare (node : ADKGNode G1) : ADKGNode G1 :=
  { node with secretKeyShare := some node.shareSum }

def ADKGNode.setPublicKey (key : G1) (node : ADKGNode G1) : ADKGNode G1 :=
  { node with publicKey := some key }

/-- The count in `check_completion`. -/
def ADKGNode.validAcks (node : ADKGNode G1) : ℕ :=
  (values node.acks).flatten.countP (fun ack => ack.2)

def adkgTopic : String := "/adkg/1.0.0"

/-- The gossip behaviour: what it published, and the error it answers a
publication with, if it does. -/
structure Swarm (G1 : Type) where
  published : List (String × ADKGMessage G1)
  refusal : Option String

structure Session (G1 : Type) where
  node : ADKGNode G1
  swarm : Swarm G1

inductive MapLock where
  | commitments
  | shares
  | acks
  deriving DecidableEq, Repr

abbrev ADKGCall (G1 α : Type) := Handler MapLock String (Session G1) α

def node : ADKGCall G1 (ADKGNode G1) := fun _ c => (.ok c.node,c)

def update (f : ADKGNode G1 → ADKGNode G1) : ADKGCall G1 Unit :=
  Handler.modify (fun c => { c with node := f c.node })

/-- An index out of range panics. -/
def inRange {α : Type} (entry : Option α) : ADKGCall G1 α := fun _ c =>
  match entry with
  | some a => (.ok a,c)
  | none => (.panicked,c)

/-- Publish under the topic of this layer, or fail with the behaviour's error. -/
def publish (failure : String) (msg : ADKGMessage G1) : ADKGCall G1 Unit := fun _ c =>
  match c.swarm.refusal with
  | some e => (.err (failure ++ e),c)
  | none => (.ok (),{ c with
      swarm := { c.swarm with published := c.swarm.published ++ [(adkgTopic,msg)] } })

/-- The coefficients, and the first of them. -/
def generatePolynomial (degree : ℕ) (rng : Rng) : List Scalar × Scalar :=
  (rng 0::(List.range' 1 degree).map rng,rng 0)

def evaluatePolynomial (coeffs : List Scalar) (i : UInt64) : Scalar :=
  evaluate coeffs (i.toNat : Scalar)

section group
variable [G1Group G1]

def generateCommitments (coeffs : List Scalar) : List G1 :=
  coeffs.map (fun coeff => coeff•generator)

/-- The loop over the commitments in `check_completion`. None is the panic
on an empty vector. -/
def ADKGNode.commitmentsSum (node : ADKGNode G1) : Option G1 :=
  (values node.commitments).foldlM (fun key comms => comms[0]?.map (fun first => key+first)) 0

def startADKG (rng : Rng) : ADKGCall G1 Unit := do
  let self ← node
  let coeffs := (generatePolynomial self.t.toNat rng).1
  let commitments := generateCommitments coeffs
  let shares := (List.range' 1 self.n.toNat).map
    (fun i => evaluatePolynomial coeffs (UInt64.ofNat i))
  let msg := ADKGMessage.shareProposal self.id shares commitments
  publish "Failed to publish message: " msg
  withGuard .commitments .write (update (ADKGNode.insertCommitments self.id commitments))

def verifyCommitments (_senderId : String) (shares : List Scalar) (commitments : List G1) :
    ADKGCall G1 Bool := do
  let self ← node
  let nodeIndex := self.idx
  if nodeIndex = 0 ∨ shares.length < nodeIndex.toNat then
    pure false
  else
    let share ← inRange shares[nodeIndex.toNat-1]?
    let sum := commitmentSum (nodeIndex.toNat : Scalar) commitments
    let expected := share•generator
    pure (decide (sum = expected))

def checkCompletion : ADKGCall G1 Unit :=
  withGuard .acks .read (do
    let self ← node
    if self.t.toNat ≤ self.validAcks then
      withGuard .shares .read (do
        update ADKGNode.setSecretKeyShare
        withGuard .commitments .read (do
          let key ← inRange self.commitmentsSum
          update (ADKGNode.setPublicKey key))))

def handleShareProposal (senderId : String) (shares : List Scalar) (commitments : List G1) :
    ADKGCall G1 Unit := do
  if ← verifyCommitments senderId shares commitments then
    let self ← node
    if 0 < self.idx ∧ self.idx.toNat ≤ shares.length then
      let share ← inRange shares[self.idx.toNat-1]?
      withGuard .shares .write (update (ADKGNode.insertShare senderId share))
      withGuard .commitments .write (update (ADKGNode.insertCommitments senderId commitments))
    publish "Failed to publish ACK: " (.shareAck self.id senderId true)

def handleShareAck (senderId receiverId : String) (valid : Bool) : ADKGCall G1 Unit := do
  let self ← node
  if receiverId = self.id then
    withGuard .acks .write (update (ADKGNode.pushAck senderId valid))
    checkCompletion

def handleMessage : ADKGMessage G1 → ADKGCall G1 Unit
  | .shareProposal senderId shares commitments => handleShareProposal senderId shares commitments
  | .shareAck senderId receiverId valid => handleShareAck senderId receiverId valid

end group
end MpcNode.Adkg
