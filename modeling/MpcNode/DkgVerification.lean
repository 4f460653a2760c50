import MpcNode.DkgLedger

/-!
# Stored shares against stored commitments

The share check is a placeholder, so what a node stores satisfies the
Feldman equation exactly as far as its senders see to it.
-/

set_option autoImplicit false

namespace MpcNode.Dkg
open MpcNode.Bls MpcNode.Guarded MpcNode.Messages MpcNode.Wire MpcNode.Channels MpcNode.PowerSum

section equation
variable {G1 : Type} [G1Group G1]

/-- The commitments combined at `x`, as a receiver's check would sum them. -/
def commitmentSum (x : Scalar) (commitments : List G1) : G1 :=
  commitments.zipIdx.foldl (fun sum c => sum+x^c.2•c.1) 0

theorem commitmentSum_eq (x : Scalar) (commitments : List G1) :
    commitmentSum x commitments = powerSum x commitments := by
  rw [commitmentSum, loop_eq, zero_add, pow_zero, one_smul]

theorem commitmentSum_commit (x : Scalar) (coeffs : List Scalar) :
    commitmentSum x (coeffs.map (fun coeff => coeff•(generator : G1))) =
      evaluate coeffs x•generator := by
  rw [commitmentSum_eq, powerSum_map_smul, evaluate_eq]

theorem generateCommitments_points (polynomial : List Scalar) :
    (generateCommitments polynomial).map (fun c => c.point) =
      polynomial.map (fun coeff => coeff•(generator : G1)) := by
  rw [generateCommitments, List.map_map]
  rfl

def Feldman (share : KeyShare) (commitments : List G1) : Prop :=
  share.value.scalar•generator = commitmentSum (share.index.toNat : Scalar) commitments

def Verified (node : DKGNode G1) : Prop :=
  ∀ dealer share commitments, node.shares.lookup dealer = some share →
    node.commitments.lookup dealer = some commitments → Feldman share commitments

theorem verified_iff {node : DKGNode G1} {l : Ledger G1} (h : Refines node l) :
    Verified node ↔ ∀ dealer d, l.lastOf dealer = some d → Feldman d.share d.commitments := by
  constructor
  · intro hv dealer d hd
    apply hv dealer
    · rw [h.share, hd, Option.map_some]
    · rw [h.commitments, hd, Option.map_some]
  · intro hf dealer share commitments hs hc
    rw [h.share] at hs
    rw [h.commitments] at hc
    obtain ⟨d,hd,rfl⟩ := Option.map_eq_some_iff.mp hs
    rw [hd] at hc
    obtain rfl := Option.some.inj hc
    exact hf dealer d hd

/-- An honest dealing satisfies the equation at every index it is taken at. -/
theorem honest_feldman {own : Usize} {node : DKGNode G1} {rng : Rng} {d : Dealing G1}
    (h : dealing own (distribution node rng) = some d) : Feldman d.share d.commitments := by
  obtain ⟨share,hs,rfl⟩ := Option.map_eq_some_iff.mp h
  obtain ⟨i,hi,rfl⟩ := List.mem_map.mp (List.mem_of_find?_eq_some hs)
  have hr := List.mem_range'_1.mp hi
  have hlt := node.totalNodes.toNat_lt
  have hn : (UInt64.ofNat i).toNat = i := by
    rw [UInt64.toNat_ofNat', Nat.mod_eq_of_lt (by omega)]
  rw [Feldman, hn, generateCommitments_points, commitmentSum_commit]

variable [SerdeJson]

/-- All that a node stores in a run is verified if and only if each share
distribution handled satisfies the equation at the node's own index. -/
theorem run_verified_iff (policy : Policy) (id : String) (threshold totalNodes : Usize)
    (channel : Channel) (msgs : List (DKGMessage G1)) :
    (∀ pre, pre <+: msgs → Verified
      (run policy (.fresh (.new id threshold totalNodes) channel) (pre.map .message)).node) ↔
    ∀ msg ∈ msgs, ∀ d, dealing (idParsed id) msg = some d → Feldman d.share d.commitments := by
  have hr := @run_messages_refines G1 _ _ policy id threshold totalNodes channel
  constructor
  · intro hv msg hm d hd
    obtain ⟨pre,post,rfl⟩ := List.append_of_mem hm
    have hp := hv (pre++[msg]) ⟨post,by simp⟩
    apply (verified_iff (hr _)).mp hp d.dealer
    rw [ledger_append, ledger_dealing hd, Ledger.lastOf_dealing, if_pos rfl]
  · intro hf pre hp
    rw [verified_iff (hr pre)]
    intro dealer d hd
    obtain ⟨msg,hm,hmd⟩ := List.mem_filterMap.mp (Ledger.lastOf_mem hd)
    exact hf msg (hp.subset hm) d hmd

end equation

section placeholder
attribute [local instance] compactJson

theorem unverified_stored : ¬ Verified (run .waiting
    (.fresh (.new "1" 1 2) .empty : Ctx (DKGNode LogPoint) LogPoint)
    [.message (.shareDistribution "2" [⟨1,⟨1⟩⟩] [])]).node := by
  intro h
  rw [run_node] at h
  have he : (1 : Scalar)•(generator : LogPoint) = 0 := h "2" ⟨1,⟨1⟩⟩ [] rfl rfl
  exact one_ne_zero (G1Group.faithful _ he)

end placeholder
end MpcNode.Dkg
