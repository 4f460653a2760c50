import MpcNode.SigningCalls

/-!
# What receivers decode

Gossip carries one message type, and its decoder gives back every value of
it. The signing node writes its own messages without that type's tag, so no
receiver decodes them.
-/

set_option autoImplicit false

namespace MpcNode.Wire
open MpcNode.Bls MpcNode.Messages

variable {G1 : Type} [G1Group G1] [SerdeJson]

/-- A value written as bytes arrives as an array, from which the visitor
reads it. -/
def ReadThroughSeq {α : Type} [Serde α] (visitor : ByteVisitor α) (a : α) : Prop :=
  ∃ seq, toJson a = .arr seq ∧ visitor.visitSeq fromJson seq = .ok (a,[])

/-- Every gossip message is decoded as it was written, its scalars and
points from arrays. -/
theorem gossip_round_trip :
    (∀ msg : GossipsubMessage G1, fromSlice (GossipsubMessage G1) (toVec msg) = some msg) ∧
    (∀ s : SerializableScalar, ReadThroughSeq scalarVisitor s) ∧
    (∀ p : SerializableG1Affine G1, ReadThroughSeq g1AffineVisitor p) := by
  refine ⟨fromSlice_toVec,fun s => ⟨_,rfl,?_⟩,fun p => ⟨_,rfl,?_⟩⟩
  · apply visitSeq_written fromJson_toJson scalarVisitor (length_toBytes s.scalar)
    exact (scalar_fromBytes _ s).mpr rfl
  · apply visitSeq_written fromJson_toJson g1AffineVisitor (G1Group.length_toCompressed p.point)
    exact (point_fromBytes _ p).mpr rfl

end MpcNode.Wire

namespace MpcNode.Signing
open MpcNode.Bls MpcNode.Guarded MpcNode.Messages MpcNode.Wire

section payloads
variable {G1 : Type} [G1Group G1] [SerdeJson]

theorem fromSlice_signing (s : SigningMessage G1) :
    fromSlice (GossipsubMessage G1) (toVec s) = none := by
  rw [fromSlice, toVec, SerdeJson.fromSlice_toVec, Option.bind_some]
  cases s <;> rfl

/-- A receiver decodes the payload as the signing message that was sent. -/
def Agrees (G1 : Type) [G1Group G1] (payload : ChannelMessage) : Prop :=
  ∃ s : SigningMessage G1, payload = .broadcast "signing" (toVec s) ∧
    fromSlice (GossipsubMessage G1) (toVec s) = some (.signing s)

theorem sent_payloads (policy : Policy) (id : String) (threshold : Usize)
    (is : List (SigningInput G1)) :
    ∀ payload ∈ (runSigning policy (.new id threshold) is).sent,
      ∃ s : SigningMessage G1, payload = signingPayload s := by
  induction is using List.reverseRecOn with
  | nil =>
    intro payload h
    cases h
  | append_singleton is i ih =>
    intro payload h
    rw [runSigning_snoc, attend_eq, List.mem_append] at h
    rcases h with h | h
    · exact ih payload h
    · obtain ⟨s,-,rfl⟩ := List.mem_map.mp h
      exact ⟨s,rfl⟩

/-- In every run, whatever the node sends is a signing message and no
receiver decodes it as one. -/
theorem sent_never_agrees (policy : Policy) (id : String) (threshold : Usize)
    (is : List (SigningInput G1)) {payload : ChannelMessage}
    (h : payload ∈ (runSigning policy (.new id threshold) is).sent) :
    (∃ s : SigningMessage G1, payload = .broadcast "signing" (toVec s)) ∧
      ¬ Agrees G1 payload := by
  refine ⟨sent_payloads policy id threshold is payload h,?_⟩
  rintro ⟨s,-,hs⟩
  rw [fromSlice_signing] at hs
  cases hs

end payloads

section first
attribute [local instance] compactJson

def firstSession : List (SigningInput LogPoint) := [.start [] (fun _ => 1)]

def firstNode : SigningNode LogPoint := (SigningNode.new "1" 2).generateNonces 1 (fun _ => 1)

def firstPayload : ChannelMessage :=
  signingPayload (.commitmentShare "1" firstNode.getCommitments)

theorem firstPayload_sent :
    firstPayload ∈ (runSigning .waiting (.new "1" 2) firstSession).sent := by
  rw [firstSession, runSigning, List.foldl_cons, attend_eq]
  exact List.mem_singleton.mpr rfl

theorem first_not_decoded : ¬ ∀ payload ∈ (runSigning .waiting (.new "1" 2) firstSession).sent,
    Agrees LogPoint payload := by
  intro h
  obtain ⟨s,-,hs⟩ := h firstPayload firstPayload_sent
  rw [fromSlice_signing] at hs
  cases hs

theorem first_never_agrees :
    (∃ s : SigningMessage LogPoint, firstPayload = .broadcast "signing" (toVec s)) ∧
      ¬ Agrees LogPoint firstPayload :=
  sent_never_agrees .waiting "1" 2 firstSession firstPayload_sent

end first
end MpcNode.Signing
