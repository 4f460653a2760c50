import MpcNode.DkgCalls
import MpcNode.Library.Runs

/-!
# When the completion condition is lost

The condition asks the threshold of every dealer that has a vote, whoever
named it. The first vote on a dealer without votes undoes it, unless one
vote is enough; nothing else does.
-/

set_option autoImplicit false

namespace MpcNode.Dkg
open MpcNode.Bls MpcNode.Guarded MpcNode.Messages MpcNode.Wire MpcNode.Channels MpcNode.Tables

section step
variable {G1 : Type}

/-- A vote on a dealer without votes, where one vote is not enough. -/
def Undoes (node : DKGNode G1) (msg : DKGMessage G1) : Prop :=
  2 ≤ node.threshold.toNat ∧ ∃ fromId toId isValid,
    msg = .shareValidation fromId toId isValid ∧ node.validations.lookup toId = none

theorem accept_complete {node : DKGNode G1} (h : node.complete = true) (d : Dealing G1) :
    (node.accept d).complete = true := by
  rw [complete_cards] at h ⊢
  refine ⟨h.1,h.2.trans ?_⟩
  change _ ≤ (keySet (node.shares.insert d.dealer d.share)).card
  rw [keySet_insert]
  exact Finset.card_le_card (Finset.subset_insert _ _)

theorem pushValidation_complete {node : DKGNode G1} (h : node.complete = true) (dealer : String)
    (isValid : Bool) : (node.pushValidation dealer isValid).complete = true ↔
      ¬ (2 ≤ node.threshold.toNat ∧ node.validations.lookup dealer = none) := by
  rw [complete_cards] at h ⊢
  change (∀ other votes, (push node.validations dealer isValid).lookup other = some votes →
    node.threshold.toNat ≤ votes.length) ∧ _ ↔ _
  constructor
  · rintro ⟨hv,-⟩ ⟨ht,hnone⟩
    have hone := hv dealer _ (lookup_push_self _ _ _)
    rw [hnone] at hone
    simp at hone
    omega
  · intro hn
    refine ⟨fun other votes hl => ?_,h.2⟩
    by_cases ho : other = dealer
    · subst ho
      rw [lookup_push_self] at hl
      obtain rfl := Option.some.inj hl
      rw [List.length_append, List.length_singleton]
      cases hd : node.validations.lookup other with
      | none =>
        rw [hd, and_iff_left rfl] at hn
        omega
      | some old =>
        have hold := h.1 other old hd
        rw [Option.getD_some]
        omega
    · rw [lookup_push_ne ho] at hl
      exact h.1 other votes hl

/-- One message keeps the condition exactly if it does not undo it. -/
theorem take_complete_iff {node : DKGNode G1} (h : node.complete = true) (msg : DKGMessage G1) :
    (node.take msg).complete = true ↔ ¬ Undoes node msg := by
  cases msg with
  | shareDistribution fromId shares commitments =>
    refine iff_of_true ?_ (by simp [Undoes])
    rw [DKGNode.take]
    split
    · exact accept_complete h _
    · exact h
  | shareValidation fromId toId isValid =>
    rw [DKGNode.take, pushValidation_complete h]
    simp [Undoes]

end step

section runs
variable {G1 : Type} [G1Group G1] [SerdeJson]

/-- From a reachable state in which the condition holds, it holds in every
state that further messages lead to if and only if none of them undoes it. -/
theorem stays_complete_iff (id : String) (threshold totalNodes : Usize) (channel : Channel)
    (is : List (Input G1)) (msgs : List (DKGMessage G1))
    (h : (run .granted (.fresh (.new id threshold totalNodes) channel) is).node.complete = true) :
    (∀ pre, pre <+: msgs → (run .granted (.fresh (.new id threshold totalNodes) channel)
      (is ++ pre.map .message)).node.complete = true) ↔
    ∀ pre msg post, msgs = pre ++ msg::post →
      ¬ Undoes (run .granted (.fresh (.new id threshold totalNodes) channel)
        (is ++ pre.map .message)).node msg := by
  have hnode : ∀ pre : List (DKGMessage G1),
      (run .granted (.fresh (.new id threshold totalNodes) channel) (is ++ pre.map .message)).node =
        pre.foldl DKGNode.take
          (run .granted (.fresh (.new id threshold totalNodes) channel) is).node := by
    intro pre
    rw [run_append, run_node, List.foldl_map]
    rfl
  simp only [hnode]
  exact Runs.foldl_prefix_iff (P := fun node => node.complete = true)
    (Q := fun node msg => ¬ Undoes node msg) (fun node msg hn => take_complete_iff hn msg) h msgs

end runs

section sample
attribute [local instance] compactJson

def twoDealings : List (Input LogPoint) :=
  [.message (.shareDistribution "2" [⟨1,⟨1⟩⟩] []),.message (.shareDistribution "3" [⟨1,⟨1⟩⟩] [])]

theorem two_complete : (run .granted (.fresh (.new "1" 2 3) .empty) twoDealings).node.complete =
    true := by
  rw [run_node]
  decide +kernel

theorem stranger_undoes : ¬ ((run .granted (.fresh (.new "1" 2 3) .empty)
      twoDealings).node.complete = true →
    (run .granted (.fresh (.new "1" 2 3) .empty)
      (twoDealings ++ [.message (.shareValidation "9" "nobody" true)])).node.complete = true) := by
  intro h
  have hc := h two_complete
  rw [run_node] at hc
  revert hc
  decide +kernel

theorem two_stays_complete_iff :
    (∀ pre, pre <+: [DKGMessage.shareValidation "9" "nobody" true] →
      (run .granted (.fresh (.new "1" 2 3) .empty)
        (twoDealings ++ pre.map .message)).node.complete = true) ↔
    ∀ pre msg post, [DKGMessage.shareValidation "9" "nobody" true] = pre ++ msg::post →
      ¬ Undoes (run .granted (.fresh (.new "1" 2 3) .empty)
        (twoDealings ++ pre.map .message)).node msg :=
  stays_complete_iff "1" 2 3 .empty twoDealings _ two_complete

end sample
end MpcNode.Dkg
