import MpcNode.AdkgKeys
import MpcNode.Library.Writes

/-!
# Indices out of range

The index of the node's own share is compared with the length of the vector
before it is used, in the check and again in the handler. The first
commitment of a dealer is taken without a look at the length, and a proposal
with a zero share and no commitments passes the check.
-/

set_option autoImplicit false

namespace MpcNode.Adkg
open MpcNode.Bls MpcNode.Guarded MpcNode.Messages MpcNode.Tables

variable {G1 : Type}

/-- A message, and the error that the gossip behaviour answers an
acknowledgement with, if it does. -/
abbrev Turn (G1 : Type) := ADKGMessage G1 × Option String

def addressedTo (own : String) : ADKGMessage G1 → Bool
  | .shareProposal _ _ _ => false
  | .shareAck _ receiverId _ => receiverId = own

theorem acks_snoc (own : String) (msgs : List (ADKGMessage G1)) (msg : ADKGMessage G1) :
    (msgs++[msg]).countP (ackTo own) = msgs.countP (ackTo own)+if ackTo own msg then 1 else 0 := by
  rw [List.countP_append, List.countP_singleton]

theorem publish_returns (failure : String) (msg : ADKGMessage G1) (env : Env MapLock)
    (c : Session G1) : (publish failure msg env c).1 ≠ .panicked := by
  rw [publish]
  split <;> simp

theorem foldlM_first_none [AddCommGroup G1] (vs : List (List G1)) (key : G1) :
    vs.foldlM (fun key comms => comms[0]?.map (fun first => key+first)) key = none ↔ [] ∈ vs := by
  induction vs generalizing key with
  | nil => simp
  | cons comms vs ih =>
    rw [List.foldlM_cons, List.mem_cons]
    cases comms with
    | nil => simp
    | cons first rest =>
      rw [List.getElem?_cons_zero, Option.map_some]
      simpa using ih (key+first)

section calls
variable [G1Group G1]

theorem commitmentsSum_none (node : ADKGNode G1) :
    node.commitmentsSum = none ↔ ∃ dealer, node.commitments.lookup dealer = some [] := by
  rw [ADKGNode.commitmentsSum, foldlM_first_none, mem_values]

/-- The commitments that the proposals a node accepts bring, under their
senders. -/
def ADKGNode.kept (node : ADKGNode G1) (msgs : List (ADKGMessage G1)) : List (String × List G1) :=
  msgs.filterMap (fun
    | .shareProposal senderId shares commitments =>
      (node.accepted shares commitments).map (fun _ => (senderId,commitments))
    | .shareAck _ _ _ => none)

/-- An acknowledgement for the node by which enough valid ones have come. -/
def ADKGNode.Completes (node : ADKGNode G1) (pre : List (ADKGMessage G1)) (msg : ADKGMessage G1) :
    Prop :=
  addressedTo node.id msg = true ∧ node.t.toNat ≤ (pre++[msg]).countP (ackTo node.id)

instance (node : ADKGNode G1) (pre : List (ADKGMessage G1)) (msg : ADKGMessage G1) :
    Decidable (node.Completes pre msg) := inferInstanceAs (Decidable (_ ∧ _))

/-- What a node that was `first` holds after some messages. -/
structure Tallied (first : ADKGNode G1) (msgs : List (ADKGMessage G1)) (node : ADKGNode G1) :
    Prop where
  id : node.id = first.id
  idx : node.idx = first.idx
  t : node.t = first.t
  commitments : node.commitments = written ∅ (first.kept msgs)
  acks : node.validAcks = msgs.countP (ackTo first.id)

theorem tallied_new (id : String) (n t : Usize) (idx : UInt64) :
    Tallied (.new id n t idx) [] (.new id n t idx : ADKGNode G1) := ⟨rfl,rfl,rfl,rfl,rfl⟩

theorem kept_snoc (node : ADKGNode G1) (msgs : List (ADKGMessage G1)) (msg : ADKGMessage G1) :
    node.kept (msgs++[msg]) = node.kept msgs ++ node.kept [msg] := List.filterMap_append

theorem kept_proposal (node : ADKGNode G1) (senderId : String) (shares : List Scalar)
    (commitments : List G1) : node.kept [.shareProposal senderId shares commitments] =
      if (node.accepted shares commitments).isSome then [(senderId,commitments)] else [] := by
  cases ha : node.accepted shares commitments <;> simp [ADKGNode.kept, ha]

section step
variable {first node : ADKGNode G1} {msgs : List (ADKGMessage G1)}

theorem tallied_proposal (h : Tallied first msgs node) (senderId : String) (shares : List Scalar)
    (commitments : List G1) :
    Tallied first (msgs++[.shareProposal senderId shares commitments])
      (node.take (.shareProposal senderId shares commitments)) := by
  have hacks : node.validAcks =
      (msgs++[ADKGMessage.shareProposal senderId shares commitments]).countP (ackTo first.id) := by
    rw [h.acks, acks_snoc, ackTo]
    simp
  rw [ADKGNode.take, accepted_of_idx h.idx]
  cases ha : first.accepted shares commitments with
  | none =>
    refine ⟨h.id,h.idx,h.t,?_,hacks⟩
    rw [kept_snoc, kept_proposal, ha, h.commitments]
    simp
  | some share =>
    refine ⟨h.id,h.idx,h.t,?_,hacks⟩
    rw [kept_snoc, kept_proposal, ha, if_pos Option.isSome_some, written_snoc, ← h.commitments]
    rfl

theorem tallied_ack (h : Tallied first msgs node) (senderId receiverId : String) (valid : Bool) :
    Tallied first (msgs++[.shareAck senderId receiverId valid])
      (node.take (.shareAck senderId receiverId valid)) := by
  have hkept : first.kept (msgs++[.shareAck senderId receiverId valid]) = first.kept msgs := by
    rw [kept_snoc]
    exact List.append_nil _
  rw [ADKGNode.take, h.id]
  by_cases hr : receiverId = first.id
  · obtain ⟨hid,hidx,-,ht⟩ := checked_settings (node.pushAck senderId valid)
    obtain ⟨-,hc,ha⟩ := checked_maps (node.pushAck senderId valid)
    rw [if_pos hr]
    refine ⟨hid.trans h.id,hidx.trans h.idx,ht.trans h.t,?_,?_⟩
    · rw [hkept, hc]
      exact h.commitments
    · have hv := validAcks_pushAck node senderId valid
      rw [ADKGNode.validAcks, ha]
      refine hv.trans ?_
      rw [h.acks, acks_snoc, ackTo, hr]
      simp
  · rw [if_neg hr]
    refine ⟨h.id,h.idx,h.t,by rw [hkept, h.commitments],?_⟩
    rw [h.acks, acks_snoc, ackTo]
    simp [hr]

theorem tallied_take (h : Tallied first msgs node) (msg : ADKGMessage G1) :
    Tallied first (msgs++[msg]) (node.take msg) := by
  cases msg with
  | shareProposal senderId shares commitments =>
    exact tallied_proposal h senderId shares commitments
  | shareAck senderId receiverId valid => exact tallied_ack h senderId receiverId valid

end step

def ADKGNode.turned (policy : Policy) (node : ADKGNode G1) (turn : Turn G1) :
    Outcome MapLock String Unit × Session G1 :=
  handleMessage turn.1 (Env.top policy) ⟨node,⟨[],turn.2⟩⟩

def runTurns (policy : Policy) (node : ADKGNode G1) (turns : List (Turn G1)) : ADKGNode G1 :=
  turns.foldl (fun node turn => (node.turned policy turn).2.node) node

theorem ack_panicked_iff (policy : Policy) (node : ADKGNode G1) (swarm : Swarm G1)
    (senderId : String) (valid : Bool) :
    (handleMessage (.shareAck senderId node.id valid) (Env.top policy) ⟨node,swarm⟩).1 =
        .panicked ↔
      node.t.toNat ≤ node.validAcks+(if valid then 1 else 0) ∧
        ∃ dealer, node.commitments.lookup dealer = some [] := by
  have hrun := ack_counted policy ⟨node,swarm⟩ senderId valid
  rw [checkCompletion_run] at hrun
  dsimp only at hrun
  rw [hrun, validAcks_pushAck, ← commitmentsSum_none]
  change (if node.t.toNat ≤ node.validAcks+(if valid then 1 else 0) ∧
    node.commitmentsSum = none then _ else _) = _ ↔ _
  by_cases h : node.t.toNat ≤ node.validAcks+(if valid then 1 else 0) ∧
      node.commitmentsSum = none
  · rw [if_pos h]
    exact iff_of_true rfl h
  · rw [if_neg h]
    exact iff_of_false (by simp) h

/-- A step panics exactly when it completes the count while a dealer's kept
vector is empty. -/
theorem turned_panicked_iff (policy : Policy) {first node : ADKGNode G1}
    {msgs : List (ADKGMessage G1)} (h : Tallied first msgs node) (turn : Turn G1) :
    (node.turned policy turn).1 = .panicked ↔ first.Completes msgs turn.1 ∧
      ∃ dealer, (under dealer (first.kept msgs)).getLast? = some [] := by
  obtain ⟨msg,refusal⟩ := turn
  rw [ADKGNode.turned]
  cases msg with
  | shareProposal senderId shares commitments =>
    refine iff_of_false ?_ (fun hc => absurd hc.1.1 Bool.false_ne_true)
    cases ha : node.accepted shares commitments with
    | none =>
      rw [proposal_rejected (c := ⟨node,⟨[],refusal⟩⟩) ha]
      simp
    | some share =>
      rw [proposal_accepted (c := ⟨node,⟨[],refusal⟩⟩) ha]
      exact publish_returns _ _ _ _
  | shareAck senderId receiverId valid =>
    rw [ADKGNode.Completes, addressedTo, decide_eq_true_eq]
    by_cases hr : receiverId = first.id
    · have hvalid : ackTo first.id (.shareAck senderId first.id valid : ADKGMessage G1) =
          valid := by
        simp [ackTo]
      rw [acks_snoc, hr, hvalid, ← h.id, ack_panicked_iff, h.t, h.acks, h.commitments, h.id]
      simp only [lookup_written, AList.lookup_empty, Option.or_none, true_and]
    · rw [ack_ignored policy (by rw [h.id]; exact hr)]
      simp [hr]

section runs
variable (policy : Policy) (id : String) (n t : Usize) (idx : UInt64)

theorem runTurns_tallied (turns : List (Turn G1)) :
    Tallied (.new id n t idx) (turns.map Prod.fst)
      (runTurns policy (.new id n t idx : ADKGNode G1) turns) := by
  induction turns using List.reverseRecOn with
  | nil => exact tallied_new id n t idx
  | append_singleton turns turn ih =>
    rw [runTurns, List.foldl_append, ← runTurns, List.map_append]
    have hn := tallied_take ih turn.1
    rw [← handleMessage_node policy turn.1 ⟨_,⟨[],turn.2⟩⟩] at hn
    exact hn

/-- No message of the run makes the node panic. -/
def NeverPanics (turns : List (Turn G1)) : Prop :=
  ∀ pre turn post, turns = pre ++ turn::post →
    ((runTurns policy (.new id n t idx) pre).turned policy turn).1 ≠ .panicked

/-- No index is out of range exactly when, whenever the acknowledgements are
enough, no dealer's last accepted proposal came without commitments. -/
theorem neverPanics_iff (turns : List (Turn G1)) :
    NeverPanics policy id n t idx turns ↔
      ∀ pre turn post, turns = pre ++ turn::post →
        (ADKGNode.new id n t idx).Completes (pre.map Prod.fst) turn.1 → ∀ dealer,
          (under dealer ((ADKGNode.new id n t idx).kept (pre.map Prod.fst))).getLast? ≠
            some [] := by
  rw [NeverPanics]
  apply forall₄_congr
  intro pre turn post _
  rw [Ne, turned_panicked_iff policy (runTurns_tallied policy id n t idx pre) turn, not_and,
    not_exists]

end runs
end calls

section sample

/-- A proposal of a zero share and no commitments, then an acknowledgement. -/
def emptyProposal : List (Turn LogPoint) :=
  [(.shareProposal "2" [0] [],none),(.shareAck "2" "1" true,none)]

theorem empty_proposal_panics : ¬ NeverPanics .waiting "1" 1 1 1 emptyProposal := by
  intro h
  apply h [(.shareProposal "2" [0] [],none)] (.shareAck "2" "1" true,none) [] rfl
  rw [turned_panicked_iff .waiting (runTurns_tallied .waiting "1" 1 1 1 _)]
  refine ⟨by decide,"2",?_⟩
  decide +kernel

end sample
end MpcNode.Adkg
