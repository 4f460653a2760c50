import MpcNode.DkgLedger

/-!
# The reported status

The status is set when a start request is handled and never again. What the
completion check finds is not recorded in it.
-/

set_option autoImplicit false

namespace MpcNode.Dkg
open MpcNode.Bls MpcNode.Guarded MpcNode.Messages MpcNode.Wire MpcNode.Channels

variable {G1 : Type}

def isStart : Input G1 → Bool
  | .start _ => true
  | .message _ => false

theorem after_status (node : DKGNode G1) (i : Input G1) :
    (node.after i).status = if isStart i then .started else node.status := by
  rcases i with rng | ⟨fromId,shares,commitments⟩ | ⟨fromId,toId,isValid⟩
  · rfl
  · simp only [DKGNode.after, DKGNode.take]
    split <;> rfl
  · rfl

theorem foldl_status (node : DKGNode G1) (is : List (Input G1)) :
    (is.foldl DKGNode.after node).status = if is.any isStart then .started else node.status := by
  induction is generalizing node with
  | nil => rfl
  | cons i is ih =>
    rw [List.foldl_cons, ih, after_status, List.any_cons]
    cases isStart i <;> simp

section runs
variable [G1Group G1] [SerdeJson] (id : String) (threshold totalNodes : Usize) (channel : Channel)

/-- The status in the state a run reaches, against what happened in the run. -/
structure StatusFollows (is : List (Input G1)) : Prop where
  completed : (run .granted (.fresh (.new id threshold totalNodes) channel) is).node.getStatus =
      .completed ↔
    (run .granted (.fresh (.new id threshold totalNodes) channel) is).results ≠ []
  started : (run .granted (.fresh (.new id threshold totalNodes) channel) is).node.getStatus =
      .started →
    is.any isStart = true ∧
      (run .granted (.fresh (.new id threshold totalNodes) channel) is).results = []

theorem run_status (is : List (Input G1)) :
    (run .granted (.fresh (.new id threshold totalNodes) channel) is).node.getStatus =
      if is.any isStart then .started else .new := by
  rw [run_node]
  exact foldl_status _ is

/-- The status follows the run exactly when no vote of the run finds both
length tests passed. -/
theorem statusFollows_iff (is : List (Input G1)) :
    StatusFollows id threshold totalNodes channel is ↔
      ∀ pre i post, is = pre ++ i::post → isVote i = true →
        ¬ (ledger (idParsed id) (messages (pre++[i]))).Quorate threshold.toNat := by
  rw [← run_results_nil_iff id threshold totalNodes channel is]
  have hs := run_status id threshold totalNodes channel is
  have hc : (run .granted (.fresh (.new id threshold totalNodes) channel) is).node.getStatus ≠
      .completed := by
    rw [hs]
    split_ifs <;> simp
  constructor
  · intro h
    by_contra hr
    exact hc (h.completed.mpr hr)
  · intro hr
    refine ⟨iff_of_false hc (not_not.mpr hr),fun h => ⟨?_,hr⟩⟩
    by_contra ha
    rw [hs, if_neg ha] at h
    cases h

end runs

section votes
attribute [local instance] compactJson

def completedCalls : List (Input LogPoint) :=
  [.message (.shareDistribution "2" [⟨1,⟨1⟩⟩] []),.message (.shareValidation "3" "2" true)]

theorem completed_not_reported : ¬ StatusFollows "1" 1 2 .empty completedCalls := by
  intro h
  have hc := h.completed.mpr (by decide +kernel)
  revert hc
  decide +kernel

end votes
end MpcNode.Dkg
