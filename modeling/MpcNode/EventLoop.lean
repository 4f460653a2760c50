import MpcNode.Library.Runs
import MpcNode.Network
import MpcNode.Rpc

/-!
# The event loop

`start` takes one ready branch after another, an event of the swarm or a
message of the channel, and handles it to its end before it takes the next.
It ends at the first handler that does not return `Ok`. What the handlers
ask of the swarm is recorded in order, and whether it succeeds is only
logged. Identities, addresses and texts of hexadecimal digits are read by
libraries and are parameters.
-/

set_option autoImplicit false

namespace MpcNode.Network
open MpcNode.Bls MpcNode.Guarded MpcNode.Messages MpcNode.Wire MpcNode.Channels MpcNode.Tables
open MpcNode.Dkg MpcNode.Signing MpcNode.Services
open MpcNode.Rpc (Encoded PeerInfo RPCRequest RPCResponse)
open MpcNode.Numerals (toUtf8)
open MpcNode.Guarded.Handler (withGuard bind_ok withGuard_free top_blocks)

/-- What the code uses of the library for texts of hexadecimal digits. -/
class Hex where
  decode : String → Except String Bytes

def hexDigit (b : UInt8) : Option ℕ :=
  if 0x30 ≤ b ∧ b ≤ 0x39 then some (b.toNat-0x30)
  else if 0x41 ≤ b ∧ b ≤ 0x46 then some (b.toNat-0x41+10)
  else if 0x61 ≤ b ∧ b ≤ 0x66 then some (b.toNat-0x61+10)
  else none

def invalidDigit (b : UInt8) (i : ℕ) : String :=
  "Invalid character " ++ (Char.ofNat b.toNat).quote ++ " at position " ++ toString i

def hexBytes (i : ℕ) : Bytes → Except String Bytes
  | [] => .ok []
  | [_] => .error "Odd number of digits"
  | a::b::bs =>
    match hexDigit a, hexDigit b with
    | none, _ => .error (invalidDigit a i)
    | _, none => .error (invalidDigit b (i+1))
    | some x, some y => (hexBytes (i+2) bs).map (List.cons (UInt8.ofNat (16*x+y)))

/-- Digits in pairs. An odd number of them is refused first. -/
@[reducible] def base16 : Hex where
  decode s :=
    if (toUtf8 s).length%2 = 1 then .error "Odd number of digits" else hexBytes 0 (toUtf8 s)

inductive SwarmEvent (G1 P A : Type) where
  | request (peer : P) (request : RPCRequest G1 P)
  | response (peer : P) (response : RPCResponse G1 P A)
  | discovered (peers : List (P × A))
  | expired (peers : List (P × A))
  | gossip (message : Message)
  /-- What is at most logged. -/
  | other

inductive SwarmAction (G1 P A : Type) where
  | publish (topic : String) (data : Bytes)
  | sendRequest (peer : P) (request : RPCRequest G1 P)
  | sendResponse (peer : P) (response : RPCResponse G1 P A)

/-- The layer with the peers it knows, and what it has asked of the swarm. -/
structure Loop (G1 P A : Type) where
  layer : NetworkLayer G1
  peers : Table P (PeerInfo A)
  actions : List (SwarmAction G1 P A)

abbrev LoopCall (G1 P A α : Type) := Handler Lock Error (Loop G1 P A) α

variable {G1 P A : Type}

def act (action : SwarmAction G1 P A) : LoopCall G1 P A Unit :=
  Handler.modify (fun loop => { loop with actions := loop.actions ++ [action] })

def layer : LoopCall G1 P A (NetworkLayer G1) := fun _ loop => (.ok loop.layer,loop)

def onLayer {α : Type} (call : LayerCall G1 α) : LoopCall G1 P A α := fun env loop =>
  let r := call env loop.layer
  (r.1,{ loop with layer := r.2 })

def recv : LoopCall G1 P A (Option ChannelMessage) := fun _ loop =>
  let r := loop.layer.channel.recv
  (.ok r.1,{ loop with layer := { loop.layer with channel := r.2 } })

section peers

/-- The peers of an event one by one, each under the guard of the map. -/
def forPeers (f : P × A → Table P (PeerInfo A) → Table P (PeerInfo A)) :
    List (P × A) → LoopCall G1 P A Unit
  | [] => pure ()
  | p::peers => do
    withGuard .peers .write (Handler.modify (fun loop => { loop with peers := f p loop.peers }))
    forPeers f peers

def connectedPeers : LoopCall G1 P A ℕ :=
  withGuard .peers .read (fun _ loop =>
    (.ok ((values loop.peers).countP (fun peer => peer.connected)),loop))

theorem forPeers_run (policy : Policy)
    (f : P × A → Table P (PeerInfo A) → Table P (PeerInfo A)) (peers : List (P × A))
    (loop : Loop G1 P A) :
    forPeers f peers (Env.top policy) loop =
      (.ok (),{ loop with peers := peers.foldl (fun m p => f p m) loop.peers }) := by
  induction peers generalizing loop with
  | nil => rfl
  | cons p peers ih =>
    rw [forPeers, bind_ok (withGuard_free (top_blocks _ _ _) _ _), ih]
    rfl

theorem connectedPeers_run (policy : Policy) (loop : Loop G1 P A) :
    connectedPeers (Env.top policy) loop =
      (.ok ((values loop.peers).countP (fun peer => peer.connected)),loop) :=
  withGuard_free (top_blocks _ _ _) _ _

variable [DecidableEq P]

def discover (p : P × A) (peers : Table P (PeerInfo A)) : Table P (PeerInfo A) :=
  peers.insert p.1 ⟨[p.2],true⟩

def expire (p : P × A) (peers : Table P (PeerInfo A)) : Table P (PeerInfo A) :=
  match peers.lookup p.1 with
  | some peer => peers.insert p.1 { peer with connected := false }
  | none => peers

end peers

section handlers
variable [G1Group G1] [SerdeJson] [Blake3]

/-- The answer to a request, with what the random source yields in it. -/
def responseTo (rng : Rng) (peer : P) : RPCRequest G1 P → LoopCall G1 P A (RPCResponse G1 P A)
  | .ping => pure .pong
  | .getPeerInfo => pure (.peerInfo ⟨[],true⟩)
  | .custom id data => pure (.custom id data)
  | .startADKG => do
    match (← layer).dkgNode with
    | some _ =>
      onLayer (onDkg (startDkg rng))
      pure (.dkgStarted ⟨peer⟩)
    | none => pure (.dkgError "dkg is not initialized.")
  | .getDKGStatus => do
    pure (.dkgStatus (((← layer).dkgNode.map DKGNode.getStatus).getD .new))
  | .sendAVSSShare _ _ share commitments => do
    match (← layer).dkgNode with
    | none => pure (.error "DKG not initialized")
    | some dkg =>
      if dkg.verifyShare share commitments then pure .shareAccepted
      else pure (.error "Invalid share")
  | _ => pure .ack

def handleSwarmEvent [DecidableEq P] (rng : Rng) : SwarmEvent G1 P A → LoopCall G1 P A Unit
  | .request peer request => do
    let response ← responseTo rng peer request
    act (.sendResponse peer response)
  | .response _ _ => pure ()
  | .discovered peers => do
    forPeers discover peers
    let _ ← connectedPeers
  | .expired peers => do
    forPeers expire peers
    let _ ← connectedPeers
  | .gossip message => onLayer (handleGossipsubMessage message)
  | .other => pure ()

def handleChannelMessage [Encoded P] [Hex] : ChannelMessage → LoopCall G1 P A Unit
  | .broadcast topic data => act (.publish topic data)
  | .unicast peerId data =>
    match Hex.decode peerId with
    | .error text => fun _ loop => (.err (.other text),loop)
    | .ok bytes =>
      match Encoded.fromBytes bytes with
      | .error text => fun _ loop => (.err (.other ("Invalid peer ID: " ++ text)),loop)
      | .ok peer => act (.sendRequest peer (.custom "custom" data))

end handlers

/-- A ready branch of the loop. -/
inductive Branch (G1 P A : Type) where
  | swarm (event : SwarmEvent G1 P A) (rng : Rng)
  | recv

section loop
variable [G1Group G1] [SerdeJson] [Blake3] [DecidableEq P] [Encoded P] [Hex]

/-- One turn. An empty queue is a ready branch only if the channel is
closed, and then there is no message. -/
def loopStep : Branch G1 P A → LoopCall G1 P A Unit
  | .swarm event rng => handleSwarmEvent rng event
  | .recv => do
    match ← recv with
    | some msg => handleChannelMessage msg
    | none => pure ()

/-- The loop goes on with what a turn leaves if it returns `Ok`. -/
def loopTurn (policy : Policy) (loop : Loop G1 P A) (b : Branch G1 P A) : Option (Loop G1 P A) :=
  match loopStep b (Env.top policy) loop with
  | (.ok (),next) => some next
  | _ => none

def loopRun (policy : Policy) : Loop G1 P A → List (Branch G1 P A) → Option (Loop G1 P A) :=
  Runs.run (loopTurn policy)

theorem loopTurn_some {policy : Policy} {loop next : Loop G1 P A} {b : Branch G1 P A} :
    loopTurn policy loop b = some next ↔ loopStep b (Env.top policy) loop = (.ok (),next) := by
  rw [loopTurn]
  split
  · rename_i mid h
    simp [h]
  · rename_i hno
    exact iff_of_false (by simp) (hno next)

end loop
end MpcNode.Network
