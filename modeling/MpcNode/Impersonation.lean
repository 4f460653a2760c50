import MpcNode.Network

/-!
# Whose entries a gossip message can change

The four maps are keyed by the name the payload gives. A message touches
entries of that name only, and whoever published it may give any name.
-/

set_option autoImplicit false

namespace MpcNode.Network
open MpcNode.Bls MpcNode.Guarded MpcNode.Messages MpcNode.Wire MpcNode.Channels
open MpcNode.Dkg MpcNode.Signing MpcNode.Services

/-- What the layer's components hold under one name. -/
structure Entries (G1 : Type) where
  share : Option KeyShare
  commitments : Option (List G1)
  signingCommitments : Option (List (FrostCommitment G1))
  signatureShare : Option Scalar
  deriving DecidableEq

section entries
variable {G1 : Type}

def entries (layer : NetworkLayer G1) (name : String) : Entries G1 where
  share := layer.dkgNode.bind (fun node => node.shares.lookup name)
  commitments := layer.dkgNode.bind (fun node => node.commitments.lookup name)
  signingCommitments := layer.signingNode.bind (fun node => node.commitments.lookup name)
  signatureShare := layer.signingNode.bind (fun node => node.signatureShares.lookup name)

/-- The name that a payload for one of the maps gives. -/
def claimedName : GossipsubMessage G1 → Option String
  | .dkg (.shareDistribution fromId _ _) => some fromId
  | .signing (.commitmentShare fromId _) => some fromId
  | .signing (.signatureShare fromId _) => some fromId
  | _ => none

theorem dkg_take_lookup (node : DKGNode G1) (msg : DKGMessage G1) {name : String}
    (h : claimedName (.dkg msg) ≠ some name) :
    (node.take msg).shares.lookup name = node.shares.lookup name ∧
      (node.take msg).commitments.lookup name = node.commitments.lookup name := by
  cases msg with
  | shareValidation fromId toId isValid => exact ⟨rfl,rfl⟩
  | shareDistribution fromId shares commitments =>
    have hne : name ≠ fromId := fun he => h (by rw [he]; rfl)
    simp only [DKGNode.take]
    split
    · rename_i d hd
      obtain ⟨share,-,rfl⟩ := Option.map_eq_some_iff.mp hd
      exact ⟨AList.lookup_insert_ne hne,AList.lookup_insert_ne hne⟩
    · exact ⟨rfl,rfl⟩

theorem signing_take_lookup (node : SigningNode G1) (msg : SigningMessage G1) {name : String}
    (h : claimedName (.signing msg) ≠ some name) :
    (node.take msg).commitments.lookup name = node.commitments.lookup name ∧
      (node.take msg).signatureShares.lookup name = node.signatureShares.lookup name := by
  cases msg with
  | commitmentShare fromId commitments =>
    have hne : name ≠ fromId := fun he => h (by rw [he]; rfl)
    exact ⟨AList.lookup_insert_ne hne,rfl⟩
  | signatureShare fromId share =>
    have hne : name ≠ fromId := fun he => h (by rw [he]; rfl)
    exact ⟨rfl,AList.lookup_insert_ne hne⟩

variable [G1Group G1] [SerdeJson] [Blake3]

/-- What a gossip message claims, if it decodes. -/
def claims (G1 : Type) [G1Group G1] (message : Message) : Option String :=
  (fromSlice (GossipsubMessage G1) message.data).bind claimedName

theorem entries_handle (policy : Policy) (layer : NetworkLayer G1) {message : Message}
    {name : String} (h : claims G1 message ≠ some name) :
    entries (handleGossipsubMessage message (Env.top policy) layer).2 name =
      entries layer name := by
  unfold handleGossipsubMessage
  unfold claims at h
  cases hm : fromSlice (GossipsubMessage G1) message.data with
  | none => rfl
  | some payload =>
    rw [hm] at h
    cases payload with
    | dkg msg =>
      cases hn : layer.dkgNode with
      | none => simp only [onDkg_none hn]
      | some node =>
        have hnode : (Dkg.handleMessage msg (Env.top policy)
            (.fresh node layer.channel)).2.node = node.take msg :=
          perform_node policy (.message msg) _
        obtain ⟨hs,hc⟩ := dkg_take_lookup node msg h
        simp only [onDkg_some hn, entries, hnode, hn, Option.bind_some, hs, hc]
    | signing msg =>
      cases hn : layer.signingNode with
      | none => simp only [onSigning_none hn]
      | some node =>
        have hnode := Signing.handleMessage_node policy msg (.fresh node layer.channel)
        obtain ⟨hc,hs⟩ := signing_take_lookup node msg h
        simp only [onSigning_some hn, entries, hnode, hn, Option.bind_some]
        simp only [Ctx.fresh, hs, hc]
    | command cmd => simp only [lift_layer]
    | consensus msg => simp only [lift_layer]

/-- In every run of gossip messages, an entry changes only at a message
whose payload gives its name. -/
theorem entry_changed_by_claim (policy : Policy) (layer : NetworkLayer G1) (pre : List Message)
    (message : Message) (name : String)
    (h : entries (gossipRun policy layer (pre++[message])) name ≠
      entries (gossipRun policy layer pre) name) : claims G1 message = some name := by
  by_contra hc
  apply h
  rw [gossipRun_append]
  exact entries_handle policy _ hc

end entries

section forged
attribute [local instance] compactJson

attribute [local instance] constantBlake3

def sampleLayer : NetworkLayer LogPoint := NetworkLayer.new.setDkgNode (.new "1" 1 2)

def forgedPayload : DKGMessage LogPoint := .shareDistribution "2" [⟨1,⟨1⟩⟩] []

def forgedDealing : Message := ⟨some "3",toVec (GossipsubMessage.dkg forgedPayload)⟩

theorem forged_handled (layer : NetworkLayer LogPoint) :
    gossipRun .waiting layer [forgedDealing] =
      (onDkg (Dkg.handleMessage forgedPayload) (Env.top .waiting) layer).2 := by
  have hd : fromSlice (GossipsubMessage LogPoint) forgedDealing.data =
      some (.dkg forgedPayload) := fromSlice_toVec _
  rw [gossipRun, gossipRun, handleGossipsubMessage, hd]

theorem forged_entry : (entries (gossipRun .waiting sampleLayer [forgedDealing]) "2").share =
    some ⟨1,⟨1⟩⟩ := by
  have hn : sampleLayer.dkgNode = some (.new "1" 1 2) := rfl
  have hnode : (Dkg.handleMessage forgedPayload (Env.top .waiting)
      (.fresh (.new "1" 1 2) sampleLayer.channel : Ctx (DKGNode LogPoint) LogPoint)).2.node =
      (DKGNode.new "1" 1 2).take forgedPayload := perform_node .waiting (.message forgedPayload) _
  rw [forged_handled, onDkg_some hn, hnode]
  rfl

theorem forged_changes_entry : ¬ ∀ name,
    entries (gossipRun .waiting sampleLayer [forgedDealing]) name ≠ entries sampleLayer name →
      forgedDealing.source = some name := by
  intro h
  have hs := h "2" (fun he => by
    have hf := forged_entry
    rw [he] at hf
    cases hf)
  revert hs
  decide

theorem forged_changed_by_claim : claims LogPoint forgedDealing = some "2" :=
  entry_changed_by_claim .waiting sampleLayer [] forgedDealing "2" (fun he => by
    have hf := forged_entry
    rw [List.nil_append] at he
    rw [he] at hf
    cases hf)

end forged
end MpcNode.Network
