import MpcNode.Network

/-!
# Proofs of randomness

The output made for an input carries a keyed hash as its proof and a hash of
the input. Verification compares the hash, which anyone can compute, and
never looks at the proof.
-/

set_option autoImplicit false

namespace MpcNode.Services
open MpcNode.Messages MpcNode.Channels

section vrf
variable [Blake3] (node : ConsensusNode) (input : Bytes)

theorem verified_iff (output : VrfOutput) :
    node.verifyVrfProof input output = true ↔ output.hash = Blake3.hash input :=
  decide_eq_true_iff

theorem altered_verified (proof : Bytes) :
    node.verifyVrfProof input { node.generateVrfProof input with proof := proof } = true :=
  (verified_iff node input _).mpr rfl

/-- A node accepts the output it makes and no other. -/
structure ProofsChecked : Prop where
  own : node.verifyVrfProof input (node.generateVrfProof input) = true
  unique : ∀ output output' : VrfOutput, node.verifyVrfProof input output = true →
    node.verifyVrfProof input output' = true →
    output.proof = output'.proof ∧ output.hash = output'.hash

/-- Whatever the key and the input, proofs are not checked. -/
theorem proofs_unchecked : ¬ ProofsChecked node input := by
  intro h
  have hp := h.unique _ _ (altered_verified node input []) (altered_verified node input [0])
  cases hp.1

end vrf

section sample
attribute [local instance] Network.constantBlake3

def sampleConsensus : ConsensusNode := ⟨[],∅⟩

theorem empty_proof_accepted : ¬ ProofsChecked sampleConsensus [] := by
  intro h
  have hp := h.unique _ _ h.own (altered_verified sampleConsensus [] [])
  cases hp.1

end sample
end MpcNode.Services
