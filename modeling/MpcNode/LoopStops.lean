import MpcNode.LoopTurns

/-!
# Which messages stop the node

The loop ends at the first handler that does not return `Ok`. A gossip
message ends it if it does not decode, if it is a vote for a key generation
node, if the answer to it finds no room in the channel, or if the handler
registered for a command refuses it. A message of the channel ends it if it
is for a peer and does not name one.
-/

set_option autoImplicit false

namespace MpcNode.Network
open MpcNode.Bls MpcNode.Guarded MpcNode.Messages MpcNode.Wire MpcNode.Channels MpcNode.Tables
open MpcNode.Dkg MpcNode.Signing MpcNode.Services
open MpcNode.Rpc (Encoded)

variable {G1 P A : Type}

theorem outcomeOf_ok_iff (x : Except Error Unit) : outcomeOf x = .ok () ↔ x = .ok () := by
  rcases x with _ | ⟨⟩ <;> simp [outcomeOf]

theorem commandResult_ok_iff (layer : NetworkLayer G1) (cmd : Command) :
    commandResult layer cmd = .ok () ↔ ∀ processor ∈ layer.commandProcessor,
      ∀ handler ∈ processor.handlers.lookup (commandName cmd), handler cmd = .ok () := by
  cases hp : layer.commandProcessor with
  | none => simp [commandResult, hp]
  | some processor =>
    cases hh : processor.handlers.lookup (commandName cmd) <;>
      simp [commandResult, hp, CommandProcessor.handleMessage, hh]

def Addressed (P : Type) [Encoded P] [Hex] : ChannelMessage → Prop
  | .broadcast _ _ => True
  | .unicast peerId _ => ∃ bytes, Hex.decode peerId = .ok bytes ∧
      ∃ peer : P, Encoded.fromBytes bytes = .ok peer

theorem channelMessage_ok_iff [Encoded P] [Hex] (loop : Loop G1 P A) (message : ChannelMessage)
    (env : Env Lock) :
    (handleChannelMessage message env loop).1 = .ok () ↔ Addressed P message := by
  cases message with
  | broadcast topic data => exact iff_of_true rfl trivial
  | unicast peerId data =>
    simp only [handleChannelMessage, Addressed]
    cases hb : Hex.decode peerId with
    | error text => simp
    | ok bytes =>
      cases hp : (Encoded.fromBytes bytes : Except String P) with
      | error text => simp [hp]
      | ok peer => simp [hp, act, Handler.modify]

section stops
variable [G1Group G1] [SerdeJson]

/-- A gossip message the node gets over, in this state. -/
def Tolerates (layer : NetworkLayer G1) (message : Message) : Prop :=
  match fromSlice (GossipsubMessage G1) message.data with
  | none => False
  | some (.dkg (.shareValidation _ _ _)) => layer.dkgNode = none
  | some (.command cmd) => ∀ processor ∈ layer.commandProcessor,
      ∀ handler ∈ processor.handlers.lookup (commandName cmd), handler cmd = .ok ()
  | some payload => sendsAt layer.nodes payload = true → layer.channel.Open ∧ layer.channel.Room

variable [Blake3]

theorem gossip_undecoded {message : Message}
    (h : fromSlice (GossipsubMessage G1) message.data = none) (env : Env Lock)
    (layer : NetworkLayer G1) : handleGossipsubMessage message env layer = (.panicked,layer) := by
  unfold handleGossipsubMessage
  rw [h]

theorem gossip_ok_iff (layer : NetworkLayer G1) (message : Message) :
    (handleGossipsubMessage message (Env.top .waiting) layer).1 = .ok () ↔
      Tolerates layer message := by
  unfold Tolerates
  cases h : fromSlice (GossipsubMessage G1) message.data with
  | none =>
    rw [gossip_undecoded h]
    simp
  | some payload =>
    rw [uses_ok_iff (gossip_uses .waiting layer h)]
    rcases payload with (_ | _) | msg | cmd | msg
    · simp [idleAt]
    · cases hn : layer.dkgNode <;>
        simp [idleAt, sendsAt, NetworkLayer.nodes, hn, dealing, voteOutcome]
    · simp [idleAt]
    · simp only [sendsAt, idleAt, outcomeOf_ok_iff, commandResult_ok_iff]
      simp
    · simp [sendsAt, idleAt]

/-- In every state, the handlers return `Ok` for just the messages above, and
a payload that does not decode changes nothing. -/
theorem handled_iff [Encoded P] [Hex] (loop : Loop G1 P A) :
    (∀ message, ((handleGossipsubMessage message (Env.top .waiting) loop.layer).1 = .ok () ∧
        (fromSlice (GossipsubMessage G1) message.data = none →
          (handleGossipsubMessage message (Env.top .waiting) loop.layer).2 = loop.layer)) ↔
      Tolerates loop.layer message) ∧
    (∀ message, fromSlice (GossipsubMessage G1) message.data = none →
      (handleGossipsubMessage message (Env.top .waiting) loop.layer).2 = loop.layer) ∧
    ∀ message, (handleChannelMessage message (Env.top .waiting) loop).1 = .ok () ↔
      Addressed P message := by
  have hkept : ∀ message, fromSlice (GossipsubMessage G1) message.data = none →
      (handleGossipsubMessage message (Env.top .waiting) loop.layer).2 = loop.layer := by
    intro message hd
    rw [gossip_undecoded hd]
  refine ⟨fun message => ?_,hkept,fun message => channelMessage_ok_iff loop message _⟩
  rw [← gossip_ok_iff, and_iff_left_iff_imp]
  exact fun _ => hkept message

end stops

section undecoded
attribute [local instance] compactJson constantBlake3

/-- An empty payload is a panic. -/
theorem empty_stops : ¬ ∀ (layer : NetworkLayer LogPoint) (message : Message),
    (handleGossipsubMessage message (Env.top .waiting) layer).1 = .ok () := by
  intro h
  have hd : fromSlice (GossipsubMessage LogPoint) [] = none := rfl
  have hp := h .new ⟨some "2",[]⟩
  rw [gossip_undecoded hd] at hp
  cases hp

end undecoded
end MpcNode.Network
