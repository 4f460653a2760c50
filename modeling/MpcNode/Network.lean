import MpcNode.DkgCalls
import MpcNode.Services
import MpcNode.Signing

/-!
# The network layer

The layer owns the node's components and both ends of their channel. A
gossip payload is decoded and handed to the component its variant names; a
payload that does not decode stops the task. The message's source is carried
and never looked at.
-/

set_option autoImplicit false

namespace MpcNode.Network
open MpcNode.Bls MpcNode.Guarded MpcNode.Messages MpcNode.Wire MpcNode.Channels
open MpcNode.Dkg MpcNode.Signing MpcNode.Services

/-- A signed gossip message: who published it, and the payload. -/
structure Message where
  source : Option String
  data : Bytes

structure NetworkLayer (G1 : Type) where
  dkgNode : Option (DKGNode G1)
  signingNode : Option (SigningNode G1)
  consensusNode : Option ConsensusNode
  commandProcessor : Option CommandProcessor
  channel : Channel

abbrev LayerCall (G1 α : Type) := Handler Lock Error (NetworkLayer G1) α

variable {G1 : Type}

def NetworkLayer.new : NetworkLayer G1 where
  dkgNode := none
  signingNode := none
  consensusNode := none
  commandProcessor := none
  channel := .empty

def NetworkLayer.setDkgNode (layer : NetworkLayer G1) (node : DKGNode G1) : NetworkLayer G1 :=
  { layer with dkgNode := some node }

def NetworkLayer.setSigningNode (layer : NetworkLayer G1) (node : SigningNode G1) :
    NetworkLayer G1 := { layer with signingNode := some node }

def NetworkLayer.setConsensusNode (layer : NetworkLayer G1) (node : ConsensusNode) :
    NetworkLayer G1 := { layer with consensusNode := some node }

def NetworkLayer.setCommandProcessor (layer : NetworkLayer G1) (processor : CommandProcessor) :
    NetworkLayer G1 := { layer with commandProcessor := some processor }

def NetworkLayer.send (message : ChannelMessage) : LayerCall G1 Unit := fun _ layer =>
  ((layer.channel.send message).1,{ layer with channel := (layer.channel.send message).2 })

def NetworkLayer.broadcast (topic : String) (data : Bytes) : LayerCall G1 Unit :=
  NetworkLayer.send (.broadcast topic data)

def NetworkLayer.sendDirectMessage (peerId : String) (data : Bytes) : LayerCall G1 Unit :=
  NetworkLayer.send (.unicast peerId data)

/-- Run a call on the key generation node, if there is one. -/
def onDkg (call : DKGCall G1 Unit) : LayerCall G1 Unit := fun env layer =>
  match layer.dkgNode with
  | none => (.ok (),layer)
  | some node =>
    let r := call env (.fresh node layer.channel)
    (r.1,{ layer with dkgNode := some r.2.node, channel := r.2.channel })

/-- Run a call on the signing node, if there is one. -/
def onSigning (call : SigningCall G1 Unit) : LayerCall G1 Unit := fun env layer =>
  match layer.signingNode with
  | none => (.ok (),layer)
  | some node =>
    let r := call env (.fresh node layer.channel)
    (r.1,{ layer with signingNode := some r.2.node, channel := r.2.channel })

def lift (x : Except Error Unit) : LayerCall G1 Unit := fun _ layer =>
  match x with
  | .ok () => (.ok (),layer)
  | .error e => (.err e,layer)

def sampleHash : Hash := ⟨List.replicate 32 0,rfl⟩

/-- A hash function for concrete runs. -/
@[reducible] def constantBlake3 : Blake3 := ⟨fun _ => sampleHash,fun _ _ => sampleHash⟩

section gossip
variable [G1Group G1] [SerdeJson] [Blake3]

def handleGossipsubMessage (message : Message) : LayerCall G1 Unit :=
  match fromSlice (GossipsubMessage G1) message.data with
  -- the decoding error is logged, then unwrapped
  | none => fun _ layer => (.panicked,layer)
  | some (.dkg msg) => onDkg (Dkg.handleMessage msg)
  | some (.signing msg) => onSigning (Signing.handleMessage msg)
  | some (.command cmd) => fun env layer =>
    lift ((layer.commandProcessor.map (fun p => p.handleMessage cmd)).getD (.ok ())) env layer
  | some (.consensus msg) => fun env layer =>
    lift ((layer.consensusNode.map (fun c => c.handleMessage msg)).getD (.ok ())) env layer

/-- One gossip message after another. -/
def gossipRun (policy : Policy) : NetworkLayer G1 → List Message → NetworkLayer G1
  | layer, [] => layer
  | layer, m::ms => gossipRun policy (handleGossipsubMessage m (Env.top policy) layer).2 ms

theorem gossipRun_append (policy : Policy) (layer : NetworkLayer G1) (ms ns : List Message) :
    gossipRun policy layer (ms++ns) = gossipRun policy (gossipRun policy layer ms) ns := by
  induction ms generalizing layer with
  | nil => rfl
  | cons m ms ih => exact ih _

end gossip

@[simp] theorem lift_layer (x : Except Error Unit) (env : Env Lock) (layer : NetworkLayer G1) :
    (lift x env layer).2 = layer := by
  rcases x with _ | ⟨⟩ <;> rfl

/-- A gossip message for the key generation node runs its handler there. -/
theorem onDkg_some {node : DKGNode G1} {layer : NetworkLayer G1} (h : layer.dkgNode = some node)
    (call : DKGCall G1 Unit) (env : Env Lock) :
    (onDkg call env layer).2 = { layer with
      dkgNode := some (call env (.fresh node layer.channel)).2.node
      channel := (call env (.fresh node layer.channel)).2.channel } := by
  simp only [onDkg, h]

theorem onSigning_some {node : SigningNode G1} {layer : NetworkLayer G1}
    (h : layer.signingNode = some node) (call : SigningCall G1 Unit) (env : Env Lock) :
    (onSigning call env layer).2 = { layer with
      signingNode := some (call env (.fresh node layer.channel)).2.node
      channel := (call env (.fresh node layer.channel)).2.channel } := by
  simp only [onSigning, h]

theorem onDkg_none {layer : NetworkLayer G1} (h : layer.dkgNode = none) (call : DKGCall G1 Unit)
    (env : Env Lock) : (onDkg call env layer).2 = layer := by
  simp only [onDkg, h]

theorem onSigning_none {layer : NetworkLayer G1} (h : layer.signingNode = none)
    (call : SigningCall G1 Unit) (env : Env Lock) : (onSigning call env layer).2 = layer := by
  simp only [onSigning, h]

end MpcNode.Network
