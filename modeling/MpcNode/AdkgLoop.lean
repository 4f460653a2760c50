import MpcNode.AdkgPanics
import MpcNode.Library.Runs
import MpcNode.Wire

/-!
# The loop of the first layer

`run` starts a node under its peer id and then takes a typed line or an event
of the swarm at a time. A line goes out under a topic of its own and its
refusal is only printed. A message is read whatever its topic, and one that
is none of this layer is only printed. The run ends at the first call of the
node that fails, and keeps a list of the peers that are announced.
-/

set_option autoImplicit false

namespace MpcNode.Adkg
open MpcNode.Bls MpcNode.Guarded MpcNode.Messages MpcNode.Tables
open MpcNode.Dkg (Rng)
open MpcNode.Wire (Serde SerdeJson toJson fromJson variant untag struct3 struct3_written toVec
  fromSlice fromSlice_toVec)

variable {G1 P : Type}

section format
variable [Serde Scalar] [Serde G1]

instance : Serde (ADKGMessage G1) where
  toJson
    | .shareProposal senderId shares commitments => variant "ShareProposal" (.obj
        [("sender_id",toJson senderId),("shares",toJson shares),
          ("commitments",toJson commitments)])
    | .shareAck senderId receiverId valid => variant "ShareAck" (.obj
        [("sender_id",toJson senderId),("receiver_id",toJson receiverId),("valid",toJson valid)])
  fromJson j := match untag j with
    | some ("ShareProposal",content) =>
      (struct3 String (List Scalar) (List G1) "sender_id" "shares" "commitments" content).map
        (fun p => .shareProposal p.1 p.2.1 p.2.2)
    | some ("ShareAck",content) =>
      (struct3 String String Bool "sender_id" "receiver_id" "valid" content).map
        (fun p => .shareAck p.1 p.2.1 p.2.2)
    | _ => none
  fromJson_toJson msg := by cases msg <;> simp [struct3_written]

end format

inductive LoopEvent (P : Type) where
  | line (text : Bytes)
  | discovered (peers : List P)
  | expired (peers : List P)
  | message (data : Bytes)
  /-- What is at most printed. -/
  | other

inductive BehaviourCall (P : Type) where
  | publish (topic : String) (data : Bytes)
  | addExplicitPeer (peer : P)
  | removeExplicitPeer (peer : P)
  deriving DecidableEq

/-- A node with the peers it lists, and what the behaviour has taken from it. -/
structure RunState (G1 P : Type) where
  node : ADKGNode G1
  peerList : List P
  calls : List (BehaviourCall P)

abbrev RunCall (G1 P α : Type) := Handler MapLock String (RunState G1 P) α

def testNet : String := "test-net"

def RunState.call (c : BehaviourCall P) (s : RunState G1 P) : RunState G1 P :=
  { s with calls := s.calls ++ [c] }

/-- The run goes on with what a call leaves if it returns `Ok`. -/
def goOn (call : RunCall G1 P Unit) (policy : Policy) (s : RunState G1 P) :
    Option (RunState G1 P) :=
  match call (Env.top policy) s with
  | (.ok (),next) => some next
  | _ => none

theorem goOn_some {call : RunCall G1 P Unit} {policy : Policy} {s next : RunState G1 P} :
    goOn call policy s = some next ↔ call (Env.top policy) s = (.ok (),next) := by
  rw [goOn]
  split
  · rename_i mid h
    simp [h]
  · rename_i hno
    exact iff_of_false (by simp) (hno next)

theorem goOn_isSome {call : RunCall G1 P Unit} {policy : Policy} {s : RunState G1 P} :
    (goOn call policy s).isSome ↔ (call (Env.top policy) s).1 = .ok () := by
  rw [Option.isSome_iff_exists]
  simp only [goOn_some]
  exact ⟨fun ⟨_,h⟩ => congrArg Prod.fst h,fun h => ⟨_,Prod.ext h rfl⟩⟩

/-- How the behaviour is told that a peer was found, or is gone. -/
def explicitly (found : Bool) (peer : P) : BehaviourCall P :=
  if found then .addExplicitPeer peer else .removeExplicitPeer peer

section peers
variable [DecidableEq P]

/-- One round of the loops over the peers of an event. -/
def sightPeer (found : Bool) (s : RunState G1 P) (peer : P) : RunState G1 P :=
  ({ s with peerList :=
      s.peerList.filter (fun p => p ≠ peer) ++ if found then [peer] else [] }).call
    (explicitly found peer)

def discoverPeer : RunState G1 P → P → RunState G1 P := sightPeer true

def expirePeer : RunState G1 P → P → RunState G1 P := sightPeer false

end peers

section handlers
variable [Serde Scalar] [Serde G1] [SerdeJson]

/-- A call of the node, with the error that its publication is answered with,
if it is. -/
def onNode (refusal : Option String) (call : ADKGCall G1 Unit) : RunCall G1 P Unit := fun env s =>
  let r := call env ⟨s.node,⟨[],refusal⟩⟩
  (r.1,{ s with
    node := r.2.node
    calls := s.calls ++ r.2.swarm.published.map (fun p => .publish p.1 (toVec p.2)) })

theorem onNode_run {refusal : Option String} {call : ADKGCall G1 Unit} {env : Env MapLock}
    {s : RunState G1 P} {r : Outcome MapLock String Unit × Session G1}
    (h : call env ⟨s.node,⟨[],refusal⟩⟩ = r) : onNode refusal call env s =
      (r.1,⟨r.2.node,s.peerList,
        s.calls ++ r.2.swarm.published.map (fun p => .publish p.1 (toVec p.2))⟩) := by
  rw [onNode, h]

variable [G1Group G1] [DecidableEq P]

def handleEvent (refusal : Option String) : LoopEvent P → RunCall G1 P Unit
  | .line text =>
    match refusal with
    | some _ => pure ()
    | none => Handler.modify (RunState.call (.publish testNet text))
  | .discovered peers => Handler.modify (fun s => peers.foldl discoverPeer s)
  | .expired peers => Handler.modify (fun s => peers.foldl expirePeer s)
  | .message data =>
    match fromSlice (ADKGMessage G1) data with
    | some msg => onNode refusal (handleMessage msg)
    | none => pure ()
  | .other => pure ()

/-- An event, and the error that a publication in its turn is answered with. -/
abbrev LoopTurn (P : Type) := LoopEvent P × Option String

def runTurn (policy : Policy) (s : RunState G1 P) (turn : LoopTurn P) : Option (RunState G1 P) :=
  goOn (handleEvent turn.2 turn.1) policy s

def run (policy : Policy) (id : String) (n t : Usize) (idx : UInt64) (rng : Rng)
    (refusal : Option String) (turns : List (LoopTurn P)) : Option (RunState G1 P) :=
  (goOn (onNode refusal (startADKG rng)) policy ⟨.new id n t idx,[],[]⟩).bind
    (fun s => Runs.run (runTurn policy) s turns)

end handlers
end MpcNode.Adkg
