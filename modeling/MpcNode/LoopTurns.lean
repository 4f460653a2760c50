import MpcNode.EventLoop

/-!
# What a turn of the loop does to the channel

A turn makes at most one send, at a request to start or at a payload one of
the components answers. Whether it does depends on the components before the
turn, and what it returns otherwise does not depend on the channel.
-/

set_option autoImplicit false

namespace MpcNode.Network
open MpcNode.Bls MpcNode.Guarded MpcNode.Messages MpcNode.Wire MpcNode.Channels MpcNode.Tables
open MpcNode.Dkg MpcNode.Signing MpcNode.Services
open MpcNode.Rpc (Encoded PeerInfo RPCRequest RPCResponse)
open MpcNode.Guarded.Handler (withGuard bind_run bind_ok withGuard_free top_blocks)

variable {G1 P A : Type}

/-- One send, or the outcome `idle` and the channel as it was. -/
def Uses (sends : Bool) (idle : Outcome Lock Error Unit) (channel : Channel)
    (r : Outcome Lock Error Unit × Channel) : Prop :=
  if sends then ∃ message, r = channel.send message else r = (idle,channel)

theorem uses_send {N K : Type} (idle : Outcome Lock Error Unit) (message : ChannelMessage)
    (env : Env Lock) (c : Ctx N K) :
    Uses true idle c.channel ((send message env c).1,(send message env c).2.channel) :=
  ⟨message,rfl⟩

theorem uses_idle (idle : Outcome Lock Error Unit) (channel : Channel) :
    Uses false idle channel (idle,channel) := rfl

section uses
variable {sends : Bool} {idle : Outcome Lock Error Unit} {channel : Channel}
variable {r : Outcome Lock Error Unit × Channel}

theorem uses_ok_iff (h : Uses sends idle channel r) :
    r.1 = .ok () ↔ if sends then channel.Open ∧ channel.Room else idle = .ok () := by
  cases sends with
  | true =>
    obtain ⟨message,rfl⟩ := h
    exact channel_send_ok_iff channel message
  | false =>
    obtain rfl : r = (idle,channel) := h
    exact Iff.rfl

theorem uses_pending_iff (h : Uses sends idle channel r) (hi : idle ≠ .pending) :
    r.1 = .pending ↔ sends = true ∧ channel.Open ∧ ¬ channel.Room := by
  cases sends with
  | true =>
    obtain ⟨message,rfl⟩ := h
    simpa using channel_send_pending_iff channel message
  | false =>
    obtain rfl : r = (idle,channel) := h
    simpa using hi

theorem uses_ok_channel (h : Uses sends idle channel r) (hr : r.1 = .ok ()) :
    r.2.queue.length = channel.queue.length + sends.toNat ∧
      r.2.closed = channel.closed ∧ r.2.capacity = channel.capacity := by
  have hc := (uses_ok_iff h).mp hr
  cases sends with
  | true =>
    obtain ⟨message,rfl⟩ := h
    obtain ⟨ho,hroom⟩ := hc
    rw [channel_send_room ho hroom]
    simp [Channel.push]
  | false =>
    obtain rfl : r = (idle,channel) := h
    simp

end uses

theorem channelMessage_layer [Encoded P] [Hex] (message : ChannelMessage) (env : Env Lock)
    (loop : Loop G1 P A) :
    (handleChannelMessage message env loop).1 ≠ .pending ∧
      (handleChannelMessage message env loop).2.layer = loop.layer := by
  cases message with
  | broadcast topic data => exact ⟨by rintro ⟨⟩,rfl⟩
  | unicast peerId data =>
    simp only [handleChannelMessage]
    cases Hex.decode peerId with
    | error text => simp
    | ok bytes =>
      cases hp : (Encoded.fromBytes bytes : Except String P) with
      | error text => simp [hp]
      | ok peer => simp [hp, act, Handler.modify]

def outcomeOf : Except Error Unit → Outcome Lock Error Unit
  | .ok () => .ok ()
  | .error e => .err e

theorem lift_run (x : Except Error Unit) (env : Env Lock) (layer : NetworkLayer G1) :
    lift x env layer = (outcomeOf x,layer) := by
  rcases x with _ | ⟨⟩ <;> rfl

def commandResult (layer : NetworkLayer G1) (cmd : Command) : Except Error Unit :=
  (layer.commandProcessor.map (fun p => p.handleMessage cmd)).getD (.ok ())

/-- The components that send. -/
structure Nodes (G1 : Type) where
  dkg : Option (DKGNode G1)
  signing : Option (SigningNode G1)

def NetworkLayer.nodes (layer : NetworkLayer G1) : Nodes G1 := ⟨layer.dkgNode,layer.signingNode⟩

/-- The payloads at which a component sends. -/
def sendsAt (nodes : Nodes G1) : GossipsubMessage G1 → Bool
  | .dkg msg => nodes.dkg.any (fun node => (dealing (idParsed node.id) msg).isSome)
  | .signing (.commitmentShare fromId commitments) => nodes.signing.any (fun node =>
      node.threshold.toNat ≤ len (node.insertCommitments fromId commitments).commitments)
  | _ => false

def voteOutcome : Policy → Outcome Lock Error Unit
  | .waiting => .blocked .validations
  | .granted => .ok ()

/-- What a payload's handler returns if it does not send. -/
def idleAt (policy : Policy) (layer : NetworkLayer G1) :
    GossipsubMessage G1 → Outcome Lock Error Unit
  | .dkg (.shareValidation _ _ _) => if layer.dkgNode.isSome then voteOutcome policy else .ok ()
  | .command cmd => outcomeOf (commandResult layer cmd)
  | _ => .ok ()

/-- A payload's own outcome is never a wait for room. -/
theorem idleAt_ne_pending (policy : Policy) (layer : NetworkLayer G1)
    (payload : GossipsubMessage G1) : idleAt policy layer payload ≠ .pending := by
  rcases payload with (_ | _) | msg | cmd | msg
  · simp [idleAt]
  · simp only [idleAt]
    cases policy <;> split_ifs <;> simp [voteOutcome]
  · simp [idleAt]
  · simp only [idleAt]
    rcases commandResult layer cmd with _ | ⟨⟩ <;> simp [outcomeOf]
  · simp [idleAt]

section components
variable [G1Group G1] [SerdeJson]

theorem dkg_uses (policy : Policy) (msg : DKGMessage G1) (layer : NetworkLayer G1) :
    Uses (sendsAt layer.nodes (.dkg msg)) (idleAt policy layer (.dkg msg)) layer.channel
      ((onDkg (Dkg.handleMessage msg) (Env.top policy) layer).1,
        (onDkg (Dkg.handleMessage msg) (Env.top policy) layer).2.channel) := by
  cases hn : layer.dkgNode with
  | none =>
    simp only [onDkg, hn, sendsAt, NetworkLayer.nodes, Option.any_none]
    cases msg <;> simp [Uses, idleAt, hn]
  | some node =>
    simp only [onDkg, hn, sendsAt, NetworkLayer.nodes, Option.any_some]
    cases msg with
    | shareDistribution fromId shares commitments =>
      cases h : dealing (idParsed node.id) (.shareDistribution fromId shares commitments) with
      | none =>
        rw [distribution_ignored (c := .fresh node layer.channel) h]
        exact uses_idle _ _
      | some d =>
        rw [distribution_accepted (c := .fresh node layer.channel) h]
        exact uses_send _ _ _ _
    | shareValidation fromId toId isValid =>
      simp only [idleAt, hn, Option.isSome_some, if_true]
      cases policy with
      | waiting =>
        rw [validation_waiting]
        exact uses_idle _ _
      | granted =>
        rw [validation_granted]
        exact uses_idle _ _

theorem commitment_uses (policy : Policy) (fromId : String)
    (commitments : List (FrostCommitment G1)) (c : Ctx (SigningNode G1) Scalar) :
    Uses (c.node.threshold.toNat ≤ len (c.node.insertCommitments fromId commitments).commitments)
      (.ok ()) c.channel
      ((Signing.handleMessage (.commitmentShare fromId commitments) (Env.top policy) c).1,
        (Signing.handleMessage (.commitmentShare fromId commitments) (Env.top policy)
          c).2.channel) := by
  rw [commitment_run]
  by_cases h : c.node.threshold.toNat ≤
      len (c.node.insertCommitments fromId commitments).commitments
  · rw [if_pos h, decide_eq_true h]
    exact uses_send _ _ (Env.top policy) _
  · rw [if_neg h, decide_eq_false h]
    exact uses_idle _ _

theorem signing_uses (policy : Policy) (msg : SigningMessage G1) (layer : NetworkLayer G1) :
    Uses (sendsAt layer.nodes (.signing msg)) (.ok ()) layer.channel
      ((onSigning (Signing.handleMessage msg) (Env.top policy) layer).1,
        (onSigning (Signing.handleMessage msg) (Env.top policy) layer).2.channel) := by
  cases hn : layer.signingNode with
  | none =>
    simp only [onSigning, hn]
    cases msg <;> simp [Uses, sendsAt, NetworkLayer.nodes, hn]
  | some node =>
    simp only [onSigning, hn]
    cases msg with
    | commitmentShare fromId commitments =>
      simp only [sendsAt, NetworkLayer.nodes, hn, Option.any_some]
      exact commitment_uses policy fromId commitments (.fresh node layer.channel)
    | signatureShare fromId share =>
      rw [signature_run]
      exact uses_idle _ _

/-- What a decoded payload's handler does to the channel. -/
theorem gossip_uses [Blake3] (policy : Policy) (layer : NetworkLayer G1) {message : Message}
    {payload : GossipsubMessage G1}
    (h : fromSlice (GossipsubMessage G1) message.data = some payload) :
    Uses (sendsAt layer.nodes payload) (idleAt policy layer payload) layer.channel
      ((handleGossipsubMessage message (Env.top policy) layer).1,
        (handleGossipsubMessage message (Env.top policy) layer).2.channel) := by
  unfold handleGossipsubMessage
  rw [h]
  cases payload with
  | dkg msg => exact dkg_uses policy msg layer
  | signing msg => exact signing_uses policy msg layer
  | command cmd =>
    dsimp only
    rw [lift_run]
    rfl
  | consensus msg =>
    dsimp only
    rw [lift_run]
    cases layer.consensusNode with
    | none => rfl
    | some node =>
      rw [Option.map_some, Option.getD_some, consensus_ok]
      rfl

end components
end MpcNode.Network
