import MpcNode.Channel
import MpcNode.Library.PowerSum

/-!
# The key generation node

One node's handlers, guard by guard. A dealing is accepted when some share
carries the node's own index; every vote is counted under the dealer it
names. The completion check reads both maps under the guard its caller holds
and forms the sum of the held shares in the exponent.
-/

set_option autoImplicit false

namespace MpcNode.Dkg
open MpcNode.Bls MpcNode.Guarded MpcNode.Messages MpcNode.Wire MpcNode.Channels MpcNode.Tables
open MpcNode.Guarded.Handler (withGuard)
open MpcNode.PowerSum

def msgTopicDkg : String := "topic-dkg"

structure DKGNode (G1 : Type) where
  id : String
  status : DKGStatus
  threshold : Usize
  totalNodes : Usize
  shares : HashMap KeyShare
  commitments : HashMap (List G1)
  validations : HashMap (List Bool)

variable {G1 : Type}

def DKGNode.new (id : String) (threshold totalNodes : Usize) : DKGNode G1 where
  id := id
  status := .new
  threshold := threshold
  totalNodes := totalNodes
  shares := ∅
  commitments := ∅
  validations := ∅

def DKGNode.getStatus (node : DKGNode G1) : DKGStatus := node.status

def DKGNode.setStatus (status : DKGStatus) (node : DKGNode G1) : DKGNode G1 :=
  { node with status := status }

def DKGNode.insertShare (dealer : String) (share : KeyShare) (node : DKGNode G1) : DKGNode G1 :=
  { node with shares := node.shares.insert dealer share }

def DKGNode.insertCommitments (dealer : String) (commitments : List G1) (node : DKGNode G1) :
    DKGNode G1 :=
  { node with commitments := node.commitments.insert dealer commitments }

def DKGNode.pushValidation (dealer : String) (isValid : Bool) (node : DKGNode G1) : DKGNode G1 :=
  { node with validations := push node.validations dealer isValid }

/-- `id.parse::<usize>().unwrap_or(usize::MAX)`. -/
def idParsed (id : String) : Usize := (parseUsize id).getD usizeMax

/-- What the random source yields, draw by draw. -/
abbrev Rng := ℕ → Scalar

def DKGNode.generatePolynomial (node : DKGNode G1) (rng : Rng) : List Scalar :=
  (List.range (node.threshold.toNat+1)).map rng

/-- The inner loop of `generate_shares` at `x`. -/
def evaluate (polynomial : List Scalar) (x : Scalar) : Scalar :=
  polynomial.zipIdx.foldl (fun y c => y+c.1*x^c.2) 0

theorem evaluate_eq (p : List Scalar) (x : Scalar) : evaluate p x = powerSum x p := by
  have hl := loop_eq x p 0 0
  rw [pow_zero, one_smul, zero_add] at hl
  rw [← hl, evaluate]
  congr 1
  funext y c
  rw [smul_eq_mul, mul_comm]

def DKGNode.generateShares (node : DKGNode G1) (polynomial : List Scalar) : List KeyShare :=
  (List.range' 1 node.totalNodes.toNat).map
    (fun i => ⟨UInt64.ofNat i,⟨evaluate polynomial (i : Scalar)⟩⟩)

def DKGNode.verifyShare (_node : DKGNode G1) (_share : SerializableScalar)
    (_commitments : List (SerializableG1Affine G1)) : Bool := true

def DKGNode.verifyShares (_node : DKGNode G1) (_shares : List KeyShare)
    (_commitments : List G1) : Bool := true

@[simp] theorem verifyShares_eq (node : DKGNode G1) (shares : List KeyShare)
    (commitments : List G1) : node.verifyShares shares commitments = true := rfl

section group
variable [G1Group G1]

def generateCommitments (polynomial : List Scalar) : List (SerializableG1Affine G1) :=
  polynomial.map (fun coeff => ⟨coeff•generator⟩)

/-- The loop of `generate_group_key`. -/
def DKGNode.groupKey (node : DKGNode G1) : G1 :=
  (values node.shares).foldl (fun key share => key+share.value.scalar•generator) 0

/-- The condition of `check_completion`. -/
def DKGNode.complete (node : DKGNode G1) : Bool :=
  (values node.validations).all (fun v => node.threshold.toNat ≤ v.length) &&
    node.threshold.toNat ≤ len node.shares

abbrev DKGCall (G1 : Type) := Call (DKGNode G1) G1

section calls
variable [SerdeJson]

def broadcastShares (shares : List KeyShare) (commitments : List (SerializableG1Affine G1)) :
    DKGCall G1 Unit := do
  let self ← node
  let dkgMsg := DKGMessage.shareDistribution self.id shares commitments
  let gossipWrap := GossipsubMessage.dkg dkgMsg
  let msgBytes := toVec gossipWrap
  broadcast msgTopicDkg msgBytes

def startDkg (rng : Rng) : DKGCall G1 Unit := do
  let self ← node
  let polynomial := self.generatePolynomial rng
  let shares := self.generateShares polynomial
  let commitments := generateCommitments polynomial
  update (DKGNode.setStatus .started)
  broadcastShares shares commitments

def handleShareDistribution (fromId : String) (shares : List KeyShare)
    (commitments : List (SerializableG1Affine G1)) : DKGCall G1 Unit := do
  let self ← node
  let rawCommitments := commitments.map (fun c => c.point)
  if self.verifyShares shares rawCommitments then
    match shares.find? (fun s => s.index = idParsed self.id) with
    | some share =>
      withGuard .shares .write (update (DKGNode.insertShare fromId share))
      withGuard .commitments .write (update (DKGNode.insertCommitments fromId rawCommitments))
      let validationMsg := DKGMessage.shareValidation self.id fromId true
      let gossipWrapped := GossipsubMessage.dkg (validationMsg : DKGMessage G1)
      let msgBytes := toVec gossipWrapped
      broadcast msgTopicDkg msgBytes
    | none => pure ()

def generateGroupKey : DKGCall G1 G1 :=
  withGuard .shares .read (do
    let self ← node
    record self.groupKey
    pure self.groupKey)

def checkCompletion : DKGCall G1 Unit :=
  withGuard .validations .read (withGuard .shares .read (do
    let self ← node
    if self.complete then
      let _ ← generateGroupKey
      pure ()))

def handleShareValidation (_fromId toId : String) (isValid : Bool) : DKGCall G1 Unit :=
  withGuard .validations .write (do
    update (DKGNode.pushValidation toId isValid)
    checkCompletion)

def handleMessage : DKGMessage G1 → DKGCall G1 Unit
  | .shareDistribution fromId shares commitments =>
    handleShareDistribution fromId shares commitments
  | .shareValidation fromId toId isValid => handleShareValidation fromId toId isValid

end calls
end group
end MpcNode.Dkg
