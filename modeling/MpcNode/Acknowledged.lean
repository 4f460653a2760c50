import MpcNode.DkgVerification
import MpcNode.EventLoop

/-!
# Shares acknowledged and shares kept

A dealer can send its share in a request of its own. The answer comes from
the placeholder check and nothing is written: the share is kept only if the
gossip path had already stored the same one.
-/

set_option autoImplicit false

namespace MpcNode.Network
open MpcNode.Bls MpcNode.Guarded MpcNode.Messages MpcNode.Wire MpcNode.Channels MpcNode.Tables
open MpcNode.Dkg MpcNode.Services
open MpcNode.Rpc (SerializablePeerId RPCRequest)
open MpcNode.Guarded.Handler (bind_ok)

section requests
variable {G1 : Type}

structure Stored (node : DKGNode G1) (dealer : String) (share : SerializableScalar)
    (commitments : List (SerializableG1Affine G1)) : Prop where
  share : node.shares.lookup dealer = some ⟨idParsed node.id,share⟩
  commitments : node.commitments.lookup dealer = some (commitments.map (fun c => c.point))

variable [G1Group G1]

structure Kept (node : DKGNode G1) (dealer : String) (share : SerializableScalar)
    (commitments : List (SerializableG1Affine G1)) : Prop where
  feldman : Feldman ⟨idParsed node.id,share⟩ (commitments.map (fun c => c.point))
  stored : Stored node dealer share commitments

variable [SerdeJson]

variable [Blake3] {P A : Type} [DecidableEq P]

theorem avssShare_run {loop : Loop G1 P A} {node : DKGNode G1} (h : loop.layer.dkgNode = some node)
    (rng : Rng) (peer : P) (dealerId receiverId : SerializablePeerId P)
    (share : SerializableScalar) (commitments : List (SerializableG1Affine G1)) (env : Env Lock) :
    handleSwarmEvent rng (.request peer (.sendAVSSShare dealerId receiverId share commitments))
        env loop =
      (.ok (),{ loop with actions := loop.actions ++ [.sendResponse peer .shareAccepted] }) := by
  have hr : responseTo rng peer (.sendAVSSShare dealerId receiverId share commitments) env loop =
      (.ok .shareAccepted,loop) := by
    rw [responseTo, bind_ok (show layer env loop = (.ok loop.layer,loop) from rfl), h]
    rfl
  rw [handleSwarmEvent, bind_ok hr]
  rfl

/-- If the answer is `ShareAccepted`, the node has kept the share. The maps
are keyed by the text of a peer id. -/
def AcknowledgedKept (policy : Policy) (text : P → String) (loop : Loop G1 P A) (rng : Rng)
    (peer : P) (dealerId receiverId : SerializablePeerId P) (share : SerializableScalar)
    (commitments : List (SerializableG1Affine G1)) : Prop :=
  ∀ next, handleSwarmEvent rng
      (.request peer (.sendAVSSShare dealerId receiverId share commitments))
      (Env.top policy) loop = (.ok (),next) →
    next.actions = loop.actions ++ [.sendResponse peer .shareAccepted] →
    ∃ node, next.layer.dkgNode = some node ∧ Kept node (text dealerId.peerId) share commitments

/-- An acknowledged share is kept if and only if it was before. -/
theorem acknowledged_kept_iff (policy : Policy) (text : P → String) {loop : Loop G1 P A}
    {node : DKGNode G1} (h : loop.layer.dkgNode = some node) (rng : Rng) (peer : P)
    (dealerId receiverId : SerializablePeerId P) (share : SerializableScalar)
    (commitments : List (SerializableG1Affine G1)) :
    AcknowledgedKept policy text loop rng peer dealerId receiverId share commitments ↔
      Kept node (text dealerId.peerId) share commitments := by
  have hr := avssShare_run h rng peer dealerId receiverId share commitments (Env.top policy)
  constructor
  · intro ha
    obtain ⟨after,hn,hk⟩ := ha _ hr rfl
    obtain rfl : node = after := Option.some.inj (h.symm.trans hn)
    exact hk
  · intro hk next hnext _
    rw [hr] at hnext
    obtain rfl := (Prod.ext_iff.mp hnext).2
    exact ⟨node,h,hk⟩

end requests

section samples
attribute [local instance] compactJson constantBlake3

def sampleLoop (node : DKGNode LogPoint) : Loop LogPoint String String :=
  ⟨NetworkLayer.new.setDkgNode node,∅,[]⟩

theorem resent_kept : AcknowledgedKept .waiting id
    (sampleLoop ((DKGNode.new "1" 0 2).accept ⟨"2",⟨1,⟨5⟩⟩,[(5 : Scalar)•generator]⟩))
    (fun _ => 0) "2" ⟨"2"⟩ ⟨"1"⟩ ⟨5⟩ [⟨(5 : Scalar)•generator⟩] :=
  (acknowledged_kept_iff .waiting id rfl (fun _ => 0) "2" ⟨"2"⟩ ⟨"1"⟩ ⟨5⟩ _).mpr
    ⟨by simp [Feldman, commitmentSum_eq, PowerSum.powerSum],rfl,rfl⟩

theorem acknowledged_lost : ¬ AcknowledgedKept .waiting id (sampleLoop (.new "1" 1 2))
    (fun _ => 0) "2" ⟨"2"⟩ ⟨"1"⟩ ⟨5⟩ [] := by
  intro h
  obtain ⟨node,hn,hk⟩ := h _ (avssShare_run rfl _ _ _ _ _ _ _) rfl
  obtain rfl : DKGNode.new "1" 1 2 = node := Option.some.inj hn
  exact Option.some_ne_none _ hk.stored.share.symm

end samples
end MpcNode.Network
