import MpcNode.DkgPeerIds
import MpcNode.Library.Gossip
import MpcNode.LoopCompletion

/-!
# The assembled network

`main` puts a key generation node, a consensus node and an empty command
processor into a layer and starts its loop. A network of such nodes gossips
what their loops publish; it may lose, repeat and reorder it, and agents may
send any request at any time. A loop whose turn does not return takes no
further turn.
-/

set_option autoImplicit false

namespace MpcNode.Network
open MpcNode.Bls MpcNode.Guarded MpcNode.Messages MpcNode.Wire MpcNode.Channels MpcNode.Tables
open MpcNode.Dkg MpcNode.Services
open MpcNode.Rpc (Encoded RPCRequest RPCResponse)
open MpcNode.Guarded.Handler (bind_run bind_ok)

variable {G1 P A : Type}

/-- What `main` builds, for any threshold and any number of nodes. -/
def assembled (localPeerId : String) (threshold total : Usize) (vrfSecretKey : Bytes) :
    NetworkLayer G1 :=
  ((NetworkLayer.new.setDkgNode (.new localPeerId threshold total)).setConsensusNode
    ⟨vrfSecretKey,∅⟩).setCommandProcessor .new

/-- A loop, and the outcome of the turn it stopped at. -/
structure Party (G1 P A : Type) where
  loop : Loop G1 P A
  halted : Option (Outcome Lock Error Unit)

def Party.start (layer : NetworkLayer G1) : Party G1 P A := ⟨startLoop layer [],none⟩

/-- What stops the loop. -/
def halt : Outcome Lock Error Unit → Option (Outcome Lock Error Unit)
  | .ok () => none
  | o => some o

/-- The payloads published under topics the others subscribe to. -/
def publications (actions : List (SwarmAction G1 P A)) : List Bytes :=
  actions.filterMap (fun
    | .publish topic data => if topic ∈ defaultTopics then some data else none
    | _ => none)

def Party.published (party : Party G1 P A) : List Bytes := publications party.loop.actions

def heard : Branch G1 P A → Option Bytes
  | .swarm (.gossip message) _ => some message.data
  | _ => none

section system
variable [G1Group G1] [SerdeJson] [Blake3] [DecidableEq P] [Encoded P] [Hex]

def Party.turn (party : Party G1 P A) (b : Branch G1 P A) : Party G1 P A :=
  match party.halted with
  | some _ => party
  | none =>
    let r := loopStep b (Env.top .waiting) party.loop
    ⟨r.2,halt r.1⟩

theorem turn_running {party : Party G1 P A} (h : party.halted = none) (b : Branch G1 P A) :
    party.turn b = ⟨(loopStep b (Env.top .waiting) party.loop).2,
      halt (loopStep b (Env.top .waiting) party.loop).1⟩ := by
  rw [Party.turn, h]

def assembly (n : ℕ) : Gossip.System (Fin n) (Party G1 P A) (Branch G1 P A) Bytes where
  step _ party b := party.turn b
  published := Party.published
  heard := heard

end system

section events
variable [G1Group G1] [SerdeJson]

theorem output_dkg {nodes : Nodes G1} {node : DKGNode G1} (hd : nodes.dkg = some node)
    (hs : nodes.signing = none) (rng : Rng) (event : SwarmEvent G1 P A) :
    nodes.output rng event = (dkgInput (.swarm event rng)).bind
      (fun i => (outputs node i).head?.map dkgPayload) := by
  cases event with
  | request peer request =>
    cases request with
    | startADKG =>
      simp only [Nodes.output, hd]
      rfl
    | _ => rfl
  | gossip message =>
    simp only [Nodes.output, dkgInput, hd, hs]
    rcases fromSlice (GossipsubMessage G1) message.data with _ | msg | msg | cmd | msg <;> rfl
  | _ => rfl

theorem responseTo_actions (rng : Rng) (peer : P) (request : RPCRequest G1 P) (env : Env Lock)
    (loop : Loop G1 P A) :
    (responseTo rng peer request env loop : Outcome Lock Error (RPCResponse G1 P A) × _).2.actions =
      loop.actions := by
  have hl : layer env loop = (.ok loop.layer,loop) := rfl
  cases request with
  | startADKG =>
    rw [responseTo, bind_ok hl]
    cases hn : loop.layer.dkgNode with
    | none => rfl
    | some node =>
      dsimp only
      rw [bind_run, onLayer]
      rcases onDkg (startDkg rng) env loop.layer with ⟨_ | _ | _ | _ | _,next⟩ <;> rfl
  | sendAVSSShare dealerId receiverId share commitments =>
    rw [responseTo, bind_ok hl]
    cases loop.layer.dkgNode <;> rfl
  | _ => rfl

variable [Blake3] [DecidableEq P]

theorem swarm_answers (policy : Policy) (rng : Rng) (event : SwarmEvent G1 P A)
    (loop : Loop G1 P A) : ∃ answers,
      (handleSwarmEvent rng event (Env.top policy) loop).2.actions = loop.actions ++ answers ∧
        ∀ action ∈ answers, action.isRelayed = false := by
  have hnone : ∀ actions : List (SwarmAction G1 P A), actions = loop.actions →
      ∃ answers, actions = loop.actions ++ answers ∧
        ∀ action ∈ answers, action.isRelayed = false :=
    fun actions ha => ⟨[],by rw [ha, List.append_nil],by simp⟩
  cases event with
  | request peer request =>
    have ha := responseTo_actions rng peer request (Env.top policy) loop
    rw [handleSwarmEvent, bind_run]
    rcases hr : responseTo rng peer request (Env.top policy) loop with
      ⟨response | _ | _ | _ | _,next⟩
    · rw [hr] at ha
      refine ⟨[.sendResponse peer response],?_,by simp [SwarmAction.isRelayed]⟩
      simp only [act, Handler.modify]
      rw [show next.actions = loop.actions from ha]
    all_goals
      rw [hr] at ha
      exact hnone _ ha
  | discovered peers =>
    rw [handleSwarmEvent, bind_ok (forPeers_run _ _ _ _), bind_ok (connectedPeers_run _ _)]
    exact hnone _ rfl
  | expired peers =>
    rw [handleSwarmEvent, bind_ok (forPeers_run _ _ _ _), bind_ok (connectedPeers_run _ _)]
    exact hnone _ rfl
  | _ => exact hnone _ rfl

end events
end MpcNode.Network
