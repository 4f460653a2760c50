import MpcNode.Channel

/-!
# Commands and consensus

The command processor hands a command to the handler registered under its
name, if there is one. The consensus node checks a proposal and drops it.
The hash function is a parameter.
-/

set_option autoImplicit false

namespace MpcNode.Services
open MpcNode.Messages MpcNode.Channels

structure CommandProcessor where
  handlers : HashMap (Command → Except Error Unit)

def CommandProcessor.new : CommandProcessor := ⟨∅⟩

def CommandProcessor.registerHandler (processor : CommandProcessor) (commandType : String)
    (handler : Command → Except Error Unit) : CommandProcessor :=
  ⟨processor.handlers.insert commandType handler⟩

def commandName : Command → String
  | .shareGeneration _ => "share_generation"
  | .signMessage _ => "sign_message"
  | .updateState _ _ => "update_state"
  | .consensusProposal _ _ => "consensus_proposal"

def CommandProcessor.handleMessage (processor : CommandProcessor) (msg : Command) :
    Except Error Unit :=
  match processor.handlers.lookup (commandName msg) with
  | some handler => handler msg
  | none => .ok ()

class Blake3 where
  hash : Bytes → Hash
  keyedHash : Bytes → Bytes → Hash

structure ConsensusNode where
  vrfSecretKey : Bytes
  state : HashMap Bytes

section consensus
variable [Blake3]

def ConsensusNode.generateVrfProof (node : ConsensusNode) (input : Bytes) : VrfOutput where
  proof := (Blake3.keyedHash node.vrfSecretKey input).bytes
  hash := Blake3.hash input

def ConsensusNode.verifyVrfProof (_node : ConsensusNode) (input : Bytes) (output : VrfOutput) :
    Bool := output.hash = Blake3.hash input

def ConsensusNode.updateState (node : ConsensusNode) (key : String) (value : Bytes) :
    ConsensusNode := { node with state := node.state.insert key value }

def ConsensusNode.getState (node : ConsensusNode) (key : String) : Option Bytes :=
  node.state.lookup key

def ConsensusNode.handleProposal (node : ConsensusNode) (_round : UInt64) (value : Bytes)
    (vrfProof : VrfOutput) : Except Error Unit :=
  if node.verifyVrfProof value vrfProof then .ok () else .ok ()

def ConsensusNode.handleVote (_node : ConsensusNode) (_round : UInt64) (_proposalHash : Hash)
    (_voter : String) : Except Error Unit := .ok ()

def ConsensusNode.handleMessage (node : ConsensusNode) : ConsensusMessage → Except Error Unit
  | .proposal round value vrfProof => node.handleProposal round value vrfProof
  | .vote round proposalHash voter => node.handleVote round proposalHash voter

theorem consensus_ok (node : ConsensusNode) (msg : ConsensusMessage) :
    node.handleMessage msg = .ok () := by
  cases msg with
  | proposal round value vrfProof => exact ite_self _
  | vote round proposalHash voter => rfl

end consensus
end MpcNode.Services
