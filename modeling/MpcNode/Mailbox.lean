import MpcNode.DkgNetwork
import MpcNode.Library.Fifo
import MpcNode.LoopBacklog
import MpcNode.LoopStops
import MpcNode.SigningCalls

/-!
# The loop as a mailbox

What the event loop is for, without locks, tables and errors: the components
take what is handed to them, what they answer waits in a queue, and the queue
is handed to the swarm in order. A turn of the loop that returns is a step of
this mailbox, and whether it returns can be read off the mailbox.
-/

set_option autoImplicit false

namespace MpcNode.Network
open MpcNode.Bls MpcNode.Guarded MpcNode.Messages MpcNode.Wire MpcNode.Channels MpcNode.Tables
open MpcNode.Dkg MpcNode.Signing MpcNode.Services
open MpcNode.Rpc (Encoded RPCRequest RPCResponse)
open MpcNode.Guarded.Handler (bind_ok bind_ok_iff)

variable {G1 P A : Type}

/-- The components, what waits for the swarm, and the registered commands. -/
structure Mailbox (G1 : Type) where
  nodes : Nodes G1
  queue : List ChannelMessage
  commands : Option CommandProcessor

def sendOr (out : Option ChannelMessage) (idle : Outcome Lock Error Unit) (channel : Channel) :
    Outcome Lock Error Unit × Channel :=
  match out with
  | some message => channel.send message
  | none => (idle,channel)

theorem sendOr_ok_iff (out : Option ChannelMessage) (idle : Outcome Lock Error Unit)
    (channel : Channel) : (sendOr out idle channel).1 = .ok () ↔
      if out.isSome then channel.Open ∧ channel.Room else idle = .ok () := by
  cases out with
  | none => exact Iff.rfl
  | some message => exact channel_send_ok_iff channel message

theorem sendOr_ok_channel {out : Option ChannelMessage} {idle : Outcome Lock Error Unit}
    {channel : Channel} (h : (sendOr out idle channel).1 = .ok ()) :
    (sendOr out idle channel).2 = { channel with queue := channel.queue ++ out.toList } := by
  cases out with
  | none => simp [sendOr]
  | some message =>
    obtain ⟨ho,hr⟩ := (channel_send_ok_iff channel message).mp h
    rw [sendOr, channel_send_room ho hr]
    rfl

section relay
variable [Encoded P] [Hex]

def relay : ChannelMessage → Option (SwarmAction G1 P A)
  | .broadcast topic data => some (.publish topic data)
  | .unicast peerId data =>
    match Hex.decode peerId with
    | .error _ => none
    | .ok bytes =>
      match Encoded.fromBytes bytes with
      | .error _ => none
      | .ok peer => some (.sendRequest peer (.custom "custom" data))

theorem relay_isSome_iff (message : ChannelMessage) :
    (relay message : Option (SwarmAction G1 P A)).isSome ↔ Addressed P message := by
  cases message with
  | broadcast topic data => simp [relay, Addressed]
  | unicast peerId data =>
    simp only [relay, Addressed]
    cases Hex.decode peerId with
    | error text => simp
    | ok bytes =>
      cases hp : (Encoded.fromBytes bytes : Except String P) <;> simp [hp]

theorem channelMessage_actions (message : ChannelMessage) (env : Env Lock) (loop : Loop G1 P A)
    (h : (handleChannelMessage message env loop).1 = .ok ()) :
    (handleChannelMessage message env loop).2.actions =
      loop.actions ++ (relay message).toList := by
  cases message with
  | broadcast topic data => rfl
  | unicast peerId data =>
    simp only [handleChannelMessage, relay] at h ⊢
    cases hb : Hex.decode peerId with
    | error text => simp [hb] at h
    | ok bytes =>
      dsimp only
      cases hp : (Encoded.fromBytes bytes : Except String P) with
      | error text => simp [hb, hp] at h
      | ok peer => rfl

end relay

section calls
variable [G1Group G1]

def Nodes.answer (nodes : Nodes G1) (peer : P) : RPCRequest G1 P → RPCResponse G1 P A
  | .ping => .pong
  | .getPeerInfo => .peerInfo ⟨[],true⟩
  | .custom id data => .custom id data
  | .startADKG =>
    if nodes.dkg.isSome then .dkgStarted ⟨peer⟩ else .dkgError "dkg is not initialized."
  | .getDKGStatus => .dkgStatus ((nodes.dkg.map DKGNode.getStatus).getD .new)
  | .sendAVSSShare _ _ _ _ =>
    if nodes.dkg.isSome then .shareAccepted else .error "DKG not initialized"
  | _ => .ack

variable [SerdeJson]

/-- The message a component sends at an event. -/
def Nodes.output (nodes : Nodes G1) (rng : Rng) : SwarmEvent G1 P A → Option ChannelMessage
  | .request _ .startADKG => nodes.dkg.map (fun node => dkgPayload (distribution node rng))
  | .gossip message =>
    match fromSlice (GossipsubMessage G1) message.data with
    | some (.dkg msg) => nodes.dkg.bind (fun node => (reply node msg).head?.map dkgPayload)
    | some (.signing msg) =>
      nodes.signing.bind (fun node => (node.outputs (.message msg)).head?.map signingPayload)
    | _ => none
  | _ => none

def idleFor (policy : Policy) (layer : NetworkLayer G1) :
    SwarmEvent G1 P A → Outcome Lock Error Unit
  | .gossip message =>
    match fromSlice (GossipsubMessage G1) message.data with
    | some payload => idleAt policy layer payload
    | none => .panicked
  | _ => .ok ()

theorem dkg_sends (policy : Policy) (msg : DKGMessage G1) (layer : NetworkLayer G1) :
    ((onDkg (Dkg.handleMessage msg) (Env.top policy) layer).1,
        (onDkg (Dkg.handleMessage msg) (Env.top policy) layer).2.channel) =
      sendOr (layer.nodes.dkg.bind (fun node => (reply node msg).head?.map dkgPayload))
        (idleAt policy layer (.dkg msg)) layer.channel := by
  cases hn : layer.dkgNode with
  | none =>
    simp only [onDkg, hn, NetworkLayer.nodes, Option.bind_none]
    cases msg <;> simp [sendOr, idleAt, hn]
  | some node =>
    simp only [onDkg, hn, NetworkLayer.nodes, Option.bind_some]
    cases msg with
    | shareDistribution fromId shares commitments =>
      rw [reply]
      cases hd : dealing (idParsed node.id) (.shareDistribution fromId shares commitments) with
      | none =>
        rw [distribution_ignored (c := .fresh node layer.channel) hd]
        rfl
      | some d =>
        rw [distribution_accepted (c := .fresh node layer.channel) hd]
        rfl
    | shareValidation fromId toId isValid =>
      cases policy with
      | waiting =>
        rw [validation_waiting]
        simp [reply, dealing, sendOr, idleAt, hn, voteOutcome]
      | granted =>
        rw [validation_granted]
        simp [reply, dealing, sendOr, idleAt, hn, voteOutcome]

theorem signing_sends (policy : Policy) (msg : SigningMessage G1) (layer : NetworkLayer G1) :
    ((onSigning (Signing.handleMessage msg) (Env.top policy) layer).1,
        (onSigning (Signing.handleMessage msg) (Env.top policy) layer).2.channel) =
      sendOr (layer.nodes.signing.bind
        (fun node => (node.outputs (.message msg)).head?.map signingPayload))
        (.ok ()) layer.channel := by
  cases hn : layer.signingNode with
  | none => simp [onSigning, hn, NetworkLayer.nodes, sendOr]
  | some node =>
    simp only [onSigning, hn, NetworkLayer.nodes, Option.bind_some]
    cases msg with
    | commitmentShare fromId commitments =>
      rw [commitment_run, SigningNode.outputs, fresh_node]
      by_cases h : node.threshold.toNat ≤
          len (node.insertCommitments fromId commitments).commitments
      · rw [if_pos h, if_pos h]
        rfl
      · rw [if_neg h, if_neg h]
        rfl
    | signatureShare fromId share =>
      rw [signature_run]
      rfl

variable [Blake3]

theorem layerCall_sends (policy : Policy) (rng : Rng) (event : SwarmEvent G1 P A)
    (layer : NetworkLayer G1) :
    ((layerCall rng event (Env.top policy) layer).1,
        (layerCall rng event (Env.top policy) layer).2.channel) =
      sendOr (layer.nodes.output rng event) (idleFor policy layer event) layer.channel := by
  cases event with
  | request peer request =>
    cases request with
    | startADKG =>
      simp only [layerCall, Nodes.output, onDkg, NetworkLayer.nodes]
      cases hn : layer.dkgNode with
      | none => rfl
      | some node =>
        dsimp only
        rw [startDkg_run]
        rfl
    | _ => rfl
  | gossip message =>
    simp only [layerCall, Nodes.output, idleFor]
    unfold handleGossipsubMessage
    cases h : fromSlice (GossipsubMessage G1) message.data with
    | none => rfl
    | some payload =>
      cases payload with
      | dkg msg => exact dkg_sends policy msg layer
      | signing msg => exact signing_sends policy msg layer
      | command cmd =>
        dsimp only
        rw [lift_run]
        rfl
      | consensus msg =>
        dsimp only
        rw [lift_run]
        cases layer.consensusNode with
        | none => rfl
        | some node =>
          rw [Option.map_some, Option.getD_some, consensus_ok]
          rfl
  | _ => rfl

theorem layerCall_commands (rng : Rng) (event : SwarmEvent G1 P A) (env : Env Lock)
    (layer : NetworkLayer G1) :
    (layerCall rng event env layer).2.commandProcessor = layer.commandProcessor := by
  have hdkg : ∀ call : DKGCall G1 Unit,
      (onDkg call env layer).2.commandProcessor = layer.commandProcessor := by
    intro call
    rw [onDkg]
    cases layer.dkgNode <;> rfl
  have hsigning : ∀ call : SigningCall G1 Unit,
      (onSigning call env layer).2.commandProcessor = layer.commandProcessor := by
    intro call
    rw [onSigning]
    cases layer.signingNode <;> rfl
  cases event with
  | request peer request =>
    cases request with
    | startADKG => exact hdkg _
    | _ => rfl
  | gossip message =>
    simp only [layerCall]
    unfold handleGossipsubMessage
    rcases fromSlice (GossipsubMessage G1) message.data with _ | msg | msg | cmd | msg
    · rfl
    · exact hdkg _
    · exact hsigning _
    · simp only [lift_layer]
    · simp only [lift_layer]
  | _ => rfl

end calls

section turns
variable [G1Group G1] [SerdeJson]

/-- A payload that decodes, is no vote for a key generation node, and no
command that its handler refuses. -/
def Mailbox.Understands (box : Mailbox G1) (message : Message) : Prop :=
  match fromSlice (GossipsubMessage G1) message.data with
  | none => False
  | some (.dkg (.shareValidation _ _ _)) => box.nodes.dkg = none
  | some (.command cmd) => ∀ processor ∈ box.commands,
      ∀ handler ∈ processor.handlers.lookup (commandName cmd), handler cmd = .ok ()
  | some _ => True

def Nodes.answers (nodes : Nodes G1) : SwarmEvent G1 P A → List (SwarmAction G1 P A)
  | .request peer request => [.sendResponse peer (nodes.answer peer request)]
  | _ => []

def NetworkLayer.mailbox (layer : NetworkLayer G1) (queue : List ChannelMessage) : Mailbox G1 :=
  ⟨layer.nodes,queue,layer.commandProcessor⟩

def Mailbox.after (box : Mailbox G1) : Branch G1 P A → Mailbox G1
  | .swarm event rng =>
    { box with
      nodes := box.nodes.after rng event
      queue := box.queue ++ (box.nodes.output rng event).toList }
  | .recv => { box with queue := box.queue.tail }

theorem relay_output (nodes : Nodes G1) (rng : Rng) (event : SwarmEvent G1 P A)
    {message : ChannelMessage} (h : nodes.output rng event = some message) :
    ∃ topic data, message = .broadcast topic data := by
  cases event with
  | request peer request =>
    cases request with
    | startADKG =>
      obtain ⟨node,-,rfl⟩ := Option.map_eq_some_iff.mp h
      exact ⟨_,_,rfl⟩
    | _ => cases h
  | gossip gossiped =>
    simp only [Nodes.output] at h
    split at h
    · obtain ⟨node,-,hn⟩ := Option.bind_eq_some_iff.mp h
      obtain ⟨msg,-,rfl⟩ := Option.map_eq_some_iff.mp hn
      exact ⟨_,_,rfl⟩
    · obtain ⟨node,-,hn⟩ := Option.bind_eq_some_iff.mp h
      obtain ⟨msg,-,rfl⟩ := Option.map_eq_some_iff.mp hn
      exact ⟨_,_,rfl⟩
    · cases h
  | _ => cases h

theorem idleFor_ok_iff (layer : NetworkLayer G1) (queue : List ChannelMessage)
    (event : SwarmEvent G1 P A) :
    idleFor .waiting layer event = .ok () ↔
      ∀ message, event = .gossip message → (layer.mailbox queue).Understands message := by
  cases event with
  | gossip message =>
    simp only [idleFor, SwarmEvent.gossip.injEq, forall_eq', Mailbox.Understands,
      NetworkLayer.mailbox]
    rcases fromSlice (GossipsubMessage G1) message.data with _ | (_ | _) | msg | cmd | msg
    · simp
    · simp [idleAt]
    · cases hn : layer.dkgNode <;> simp [idleAt, voteOutcome, NetworkLayer.nodes, hn]
    · simp [idleAt]
    · simp only [idleAt, outcomeOf_ok_iff, commandResult_ok_iff]
    · simp [idleAt]
  | _ => simp [idleFor]

/-- What makes a component send is no vote and no command. -/
theorem output_idle {nodes : Nodes G1} {rng : Rng} {event : SwarmEvent G1 P A}
    (h : (nodes.output rng event).isSome) (policy : Policy) (layer : NetworkLayer G1) :
    idleFor policy layer event = .ok () := by
  cases event with
  | gossip message =>
    simp only [Nodes.output] at h
    simp only [idleFor]
    split at h
    · rename_i msg hm
      rw [hm]
      cases msg with
      | shareDistribution fromId shares commitments => rfl
      | shareValidation fromId toId isValid => simp [reply, dealing] at h
    · rename_i msg hm
      rw [hm]
      rfl
    · cases h
  | _ => rfl

theorem responseTo_ok {rng : Rng} {peer : P} {request : RPCRequest G1 P} {env : Env Lock}
    {loop next : Loop G1 P A} {response : RPCResponse G1 P A}
    (h : responseTo rng peer request env loop = (.ok response,next)) :
    response = loop.layer.nodes.answer peer request ∧ next.actions = loop.actions := by
  have hl : layer env loop = (.ok loop.layer,loop) := rfl
  have hpure : ∀ {r : RPCResponse G1 P A} {mid : Loop G1 P A},
      (Outcome.ok r,mid) = ((.ok response,next) : Outcome Lock Error _ × _) →
        response = r ∧ next = mid := by
    intro r mid hr
    obtain ⟨ho,hm⟩ := Prod.mk.inj hr
    exact ⟨(Outcome.ok.inj ho).symm,hm.symm⟩
  cases request with
  | startADKG =>
    rw [responseTo, bind_ok hl] at h
    cases hn : loop.layer.dkgNode with
    | none =>
      rw [hn] at h
      obtain ⟨rfl,rfl⟩ := hpure h
      simp [Nodes.answer, NetworkLayer.nodes, hn]
    | some node =>
      rw [hn] at h
      obtain ⟨_,mid,hm,hr⟩ := bind_ok_iff.mp h
      obtain ⟨rfl,rfl⟩ := hpure hr
      rw [← (Prod.mk.inj hm).2]
      simp [Nodes.answer, NetworkLayer.nodes, hn]
  | sendAVSSShare dealerId receiverId share commitments =>
    rw [responseTo, bind_ok hl] at h
    cases hn : loop.layer.dkgNode with
    | none =>
      rw [hn] at h
      obtain ⟨rfl,rfl⟩ := hpure h
      simp [Nodes.answer, NetworkLayer.nodes, hn]
    | some node =>
      rw [hn] at h
      obtain ⟨rfl,rfl⟩ := hpure h
      simp [Nodes.answer, NetworkLayer.nodes, hn]
  | _ =>
    obtain ⟨rfl,rfl⟩ := hpure h
    exact ⟨rfl,rfl⟩

section events
variable [Blake3] [DecidableEq P]

theorem swarm_actions {policy : Policy} {rng : Rng} {event : SwarmEvent G1 P A}
    {loop next : Loop G1 P A}
    (h : handleSwarmEvent rng event (Env.top policy) loop = (.ok (),next)) :
    next.actions = loop.actions ++ loop.layer.nodes.answers event := by
  cases event with
  | request peer request =>
    obtain ⟨response,mid,hr,ha⟩ := bind_ok_iff.mp h
    obtain ⟨rfl,hm⟩ := responseTo_ok hr
    rw [← (Prod.mk.inj ha).2, ← hm]
    rfl
  | discovered peers =>
    rw [handleSwarmEvent, bind_ok (forPeers_run _ _ _ _), bind_ok (connectedPeers_run _ _)] at h
    rw [← (Prod.mk.inj h).2]
    exact (List.append_nil _).symm
  | expired peers =>
    rw [handleSwarmEvent, bind_ok (forPeers_run _ _ _ _), bind_ok (connectedPeers_run _ _)] at h
    rw [← (Prod.mk.inj h).2]
    exact (List.append_nil _).symm
  | _ =>
    rw [← (Prod.mk.inj h).2]
    exact (List.append_nil _).symm

end events

variable [Encoded P] [Hex]

def Mailbox.actions (box : Mailbox G1) : Branch G1 P A → List (SwarmAction G1 P A)
  | .swarm event _ => box.nodes.answers event
  | .recv => (box.queue.head?.bind relay).toList

/-- The turns that return. -/
def Mailbox.Allows (box : Mailbox G1) : Branch G1 P A → Prop
  | .swarm event rng => ((box.nodes.output rng event).isSome → box.queue.length < 100) ∧
      ∀ message, event = .gossip message → box.Understands message
  | .recv => ∀ message ∈ box.queue.head?, Addressed P message

/-- A running loop, as a mailbox. -/
structure Mailbox.Shows (loop : Loop G1 P A) (box : Mailbox G1) : Prop where
  nodes : loop.layer.nodes = box.nodes
  queue : loop.layer.channel.queue = box.queue
  commands : loop.layer.commandProcessor = box.commands
  isOpen : loop.layer.channel.Open
  capacity : loop.layer.channel.capacity = 100

variable [Blake3] [DecidableEq P]

theorem recv_ok (env : Env Lock) (loop : Loop G1 P A) :
    ((loopStep .recv env loop).1 = .ok () ↔
        ∀ message ∈ loop.layer.channel.queue.head?, Addressed P message) ∧
      ((loopStep .recv env loop).1 = .ok () → (loopStep .recv env loop).2.actions =
        loop.actions ++ (loop.layer.channel.queue.head?.bind relay).toList) := by
  have hr : recv env loop = (.ok loop.layer.channel.queue.head?,
      { loop with layer := { loop.layer with channel := loop.layer.channel.recv.2 } }) := rfl
  rw [loopStep, bind_ok hr]
  cases loop.layer.channel.queue.head? with
  | none =>
    refine ⟨iff_of_true rfl (by simp),fun _ => ?_⟩
    exact (List.append_nil _).symm
  | some message =>
    constructor
    · dsimp only
      rw [channelMessage_ok_iff]
      simp
    · exact channelMessage_actions message env _

/-- Whether a turn of a loop returns can be read off its mailbox. -/
theorem turn_allowed (loop : Loop G1 P A) (box : Mailbox G1) (b : Branch G1 P A)
    (h : box.Shows loop) : (loopTurn .waiting loop b).isSome ↔ box.Allows b := by
  have hsome : (loopTurn .waiting loop b).isSome ↔
      (loopStep b (Env.top .waiting) loop).1 = .ok () := by
    rw [Option.isSome_iff_exists]
    simp only [loopTurn_some]
    constructor
    · rintro ⟨next,hn⟩
      rw [hn]
    · intro ho
      exact ⟨_,Prod.ext ho rfl⟩
  rw [hsome]
  cases b with
  | recv => rw [(recv_ok _ loop).1, h.queue, Mailbox.Allows]
  | swarm event rng =>
    have hbox : loop.layer.mailbox box.queue = box := by
      rw [NetworkLayer.mailbox, h.nodes, h.commands]
    have hroom : loop.layer.channel.Open ∧ loop.layer.channel.Room ↔ box.queue.length < 100 := by
      rw [and_iff_right h.isOpen, Channel.Room, h.queue, h.capacity]
    have hidle := idleFor_ok_iff loop.layer box.queue event
    have hturn := swarm_turn .waiting rng event loop
    have hsends := layerCall_sends .waiting rng event loop.layer
    have hok : (loopStep (.swarm event rng) (Env.top .waiting) loop).1 =
        (sendOr (loop.layer.nodes.output rng event) (idleFor .waiting loop.layer event)
          loop.layer.channel).1 := by
      rw [← hsends, loopStep, ← hturn]
    rw [hok, sendOr_ok_iff, Mailbox.Allows, ← h.nodes, hroom]
    rw [hbox] at hidle
    rw [← hidle]
    split_ifs with ho
    · simp [ho, output_idle ho .waiting loop.layer]
    · simp [ho]

/-- A turn that returns is a step of the mailbox. -/
theorem turn_shown {policy : Policy} (loop : Loop G1 P A) (box : Mailbox G1)
    (b : Branch G1 P A) (next : Loop G1 P A) (h : box.Shows loop)
    (ht : loopTurn policy loop b = some next) :
    (box.after b).Shows next ∧ next.actions = loop.actions ++ box.actions b := by
  have hstep := loopTurn_some.mp ht
  cases b with
  | recv =>
    have hl := (recv_turn (Env.top policy) loop).2
    have ha := (recv_ok (Env.top policy) loop).2
    rw [hstep] at hl ha
    refine ⟨⟨?_,?_,?_,?_,?_⟩,?_⟩
    · rw [hl]
      exact h.nodes
    · rw [hl]
      exact congrArg List.tail h.queue
    · rw [hl]
      exact h.commands
    · rw [hl]
      exact h.isOpen
    · rw [hl]
      exact h.capacity
    · rw [ha rfl, h.queue]
      rfl
  | swarm event rng =>
    have hturn := swarm_turn policy rng event loop
    have hsends := layerCall_sends policy rng event loop.layer
    have hnodes := layerCall_nodes policy rng event loop.layer
    have hcommands := layerCall_commands rng event (Env.top policy) loop.layer
    rw [← loopStep, hstep] at hturn
    rw [← hturn] at hsends hnodes hcommands
    have hchannel := sendOr_ok_channel (congrArg Prod.fst hsends).symm
    rw [← hsends] at hchannel
    refine ⟨⟨?_,?_,?_,?_,?_⟩,?_⟩
    · rw [hnodes, h.nodes]
      rfl
    · rw [show next.layer.channel = _ from hchannel, h.nodes, h.queue]
      rfl
    · exact hcommands.trans h.commands
    · rw [Channel.Open, show next.layer.channel = _ from hchannel]
      exact h.isOpen
    · rw [show next.layer.channel = _ from hchannel]
      exact h.capacity
    · rw [swarm_actions hstep, h.nodes]
      rfl

end turns
end MpcNode.Network
