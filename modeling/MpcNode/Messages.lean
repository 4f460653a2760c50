import MpcNode.Bls
import MpcNode.Library.Table

/-!
# Shares, messages and channel payloads

The data types of the node's modules: key shares, the four message families
carried by gossip, and the messages of the channel between the node's
components and its network loop. A `usize` has 64 bits.
-/

set_option autoImplicit false

namespace MpcNode.Messages
open MpcNode.Bls MpcNode.Numerals

abbrev Usize := UInt64

abbrev Bytes := List UInt8

abbrev HashMap (α : Type) := Tables.Table String α

def usizeMax : Usize := UInt64.ofNat (2^64-1)

/-- `str::parse::<usize>`: an optional plus sign, then decimal digits whose
value fits. -/
def parseUsize (s : String) : Option Usize :=
  (readDecimal s.toList).bind (fun v => if v < 2^64 then some (UInt64.ofNat v) else none)

structure SerializableScalar where
  scalar : Scalar
  deriving DecidableEq

structure SerializableG1Affine (G1 : Type) where
  point : G1
  deriving DecidableEq

structure KeyShare where
  index : Usize
  value : SerializableScalar
  deriving DecidableEq

inductive ChannelMessage where
  | broadcast (topic : String) (data : Bytes)
  | unicast (peerId : String) (data : Bytes)
  deriving DecidableEq

inductive DKGMessage (G1 : Type) where
  | shareDistribution (fromId : String) (shares : List KeyShare)
      (commitments : List (SerializableG1Affine G1))
  | shareValidation (fromId toId : String) (isValid : Bool)
  deriving DecidableEq

inductive DKGStatus where
  | new
  | error (kind : String)
  | started
  | completed
  deriving DecidableEq

structure FrostCommitment (G1 : Type) where
  d : SerializableG1Affine G1
  e : SerializableG1Affine G1
  deriving DecidableEq

inductive SigningMessage (G1 : Type) where
  | commitmentShare (fromId : String) (commitments : List (FrostCommitment G1))
  | signatureShare (fromId : String) (share : SerializableScalar)
  deriving DecidableEq

inductive Command where
  | shareGeneration (threshold : Usize)
  | signMessage (message : Bytes)
  | updateState (key : String) (value : Bytes)
  | consensusProposal (round : UInt64) (value : Bytes)
  deriving DecidableEq

structure Hash where
  bytes : Bytes
  length_bytes : bytes.length = 32
  deriving DecidableEq

structure VrfOutput where
  proof : Bytes
  hash : Hash
  deriving DecidableEq

inductive ConsensusMessage where
  | proposal (round : UInt64) (value : Bytes) (vrfProof : VrfOutput)
  | vote (round : UInt64) (proposalHash : Hash) (voter : String)
  deriving DecidableEq

inductive GossipsubMessage (G1 : Type) where
  | dkg (msg : DKGMessage G1)
  | signing (msg : SigningMessage G1)
  | command (msg : Command)
  | consensus (msg : ConsensusMessage)
  deriving DecidableEq

theorem parseUsize_repr (k : ℕ) (hk : k < 2^64) :
    parseUsize (toString k) = some (UInt64.ofNat k) := by
  rw [parseUsize, Nat.toString_eq_repr, Nat.toList_repr, readDecimal_toDigits, Option.bind_some,
    if_pos hk]

end MpcNode.Messages
