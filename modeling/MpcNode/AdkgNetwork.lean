import MpcNode.AdkgVerification

/-!
# Nodes of the first layer over gossip

Each node starts on request and handles the messages of the others one at a
time, and the gossip behaviour takes whatever a call publishes. A proposal
is published at every start, an acknowledgement for every accepted proposal.
-/

set_option autoImplicit false

namespace MpcNode.Adkg
open MpcNode.Bls MpcNode.Guarded MpcNode.Messages MpcNode.Broadcast
open MpcNode.Dkg (Rng)

variable {G1 : Type} {n : ℕ}

def isProposal : ADKGMessage G1 → Bool
  | .shareProposal _ _ _ => true
  | .shareAck _ _ _ => false

/-- What the subscribers of the topic decode. -/
def gossiped (published : List (String × ADKGMessage G1)) : List (ADKGMessage G1) :=
  published.filterMap (fun p => if p.1 = adkgTopic then some p.2 else none)

variable [G1Group G1]

def toCall : Event n Rng (ADKGMessage G1) → ADKGCall G1 Unit
  | .command rng => startADKG rng
  | .message _ msg => handleMessage msg

def settle (call : ADKGCall G1 Unit) (node : ADKGNode G1) : ADKGNode G1 × List (ADKGMessage G1) :=
  let c := (call (Env.top .waiting) ⟨node,⟨[],none⟩⟩).2
  (c.node,gossiped c.swarm.published)

def protocol (n : ℕ) : Protocol n (ADKGNode G1) Rng (ADKGMessage G1) where
  react _ node e := settle (toCall e) node

def ADKGNode.after (node : ADKGNode G1) : Event n Rng (ADKGMessage G1) → ADKGNode G1
  | .command rng => node.keepOwn rng
  | .message _ msg => node.take msg

def reply (node : ADKGNode G1) : ADKGMessage G1 → List (ADKGMessage G1)
  | .shareProposal senderId shares commitments =>
    if (node.accepted shares commitments).isSome then [ackOf node senderId] else []
  | .shareAck _ _ _ => []

def outputs (node : ADKGNode G1) : Event n Rng (ADKGMessage G1) → List (ADKGMessage G1)
  | .command rng => [proposal node rng]
  | .message _ msg => reply node msg

def outline (n : ℕ) : Protocol n (ADKGNode G1) Rng (ADKGMessage G1) where
  react _ node e := (node.after e,outputs node e)

theorem settle_message (node : ADKGNode G1) (msg : ADKGMessage G1) :
    settle (handleMessage msg) node = (node.take msg,reply node msg) := by
  have hnode := handleMessage_node .waiting msg (⟨node,⟨[],none⟩⟩ : Session G1)
  refine Prod.ext hnode ?_
  rw [settle]
  cases msg with
  | shareProposal senderId shares commitments =>
    rw [reply]
    cases h : node.accepted shares commitments with
    | none =>
      rw [proposal_rejected (c := ⟨node,⟨[],none⟩⟩) h]
      rfl
    | some share =>
      rw [proposal_accepted (c := ⟨node,⟨[],none⟩⟩) h]
      rfl
  | shareAck senderId receiverId valid =>
    by_cases h : receiverId = node.id
    · subst h
      rw [ack_counted .waiting ⟨node,⟨[],none⟩⟩, checkCompletion_run]
      rfl
    · rw [ack_ignored .waiting (c := ⟨node,⟨[],none⟩⟩) h]
      rfl

/-- The nodes' handlers do what the outline says. -/
theorem protocol_eq_outline :
    (protocol n : Protocol n (ADKGNode G1) Rng (ADKGMessage G1)) = outline n := by
  rw [protocol, outline]
  congr
  funext _ node e
  cases e with
  | command rng =>
    rw [toCall, settle, startADKG_published rfl]
    rfl
  | message s msg => exact settle_message node msg

theorem after_settings (node : ADKGNode G1) (e : Event n Rng (ADKGMessage G1)) :
    (node.after e).id = node.id ∧ (node.after e).idx = node.idx ∧ (node.after e).n = node.n ∧
      (node.after e).t = node.t := by
  rcases e with rng | ⟨s,⟨senderId,shares,commitments⟩ | ⟨senderId,receiverId,valid⟩⟩
  · exact ⟨rfl,rfl,rfl,rfl⟩
  · simp only [ADKGNode.after, ADKGNode.take]
    split <;> exact ⟨rfl,rfl,rfl,rfl⟩
  · simp only [ADKGNode.after, ADKGNode.take]
    split_ifs
    · exact checked_settings _
    · exact ⟨rfl,rfl,rfl,rfl⟩

theorem outputs_after (node : ADKGNode G1) (e : Event n Rng (ADKGMessage G1)) :
    outputs (n := n) (node.after e) = outputs node := by
  obtain ⟨hid,hidx,hn,ht⟩ := after_settings node e
  funext f
  rcases f with rng | ⟨s,⟨senderId,shares,commitments⟩ | ⟨senderId,receiverId,valid⟩⟩
  · simp only [outputs, proposal, hid, hn, ht]
  · simp only [outputs, reply, ackOf, hid, accepted_of_idx hidx]
  · rfl

section history
variable (node : ADKGNode G1) (i : Fin n) (es : List (Event n Rng (ADKGMessage G1)))

theorem sent_outline : sent (outline n) i node es = es.flatMap (outputs node) := by
  induction es generalizing node with
  | nil => rfl
  | cons e es ih =>
    rw [sent, List.flatMap_cons]
    congr 1
    rw [← outputs_after node e]
    exact ih _

/-- The proposals a node sends: one per start. -/
theorem sent_proposals :
    (sent (outline n) i node es).filter isProposal = (commands es).map (proposal node) := by
  rw [sent_outline]
  induction es with
  | nil => rfl
  | cons e es ih =>
    rw [List.flatMap_cons, List.filter_append, ih]
    rcases e with rng | ⟨s,⟨senderId,shares,commitments⟩ | ⟨senderId,receiverId,valid⟩⟩
    · rfl
    · simp only [outputs, reply]
      split_ifs <;> rfl
    · rfl

/-- The acknowledgements a node sends: one per proposal it accepts. -/
theorem sent_acks :
    (sent (outline n) i node es).filter (fun m => !isProposal m) =
      (handled es).flatMap (reply node) := by
  rw [sent_outline]
  induction es with
  | nil => rfl
  | cons e es ih =>
    rw [List.flatMap_cons, List.filter_append, ih]
    rcases e with rng | ⟨s,⟨senderId,shares,commitments⟩ | ⟨senderId,receiverId,valid⟩⟩
    · rfl
    · change _ = reply node _ ++ _
      simp only [outputs, reply]
      split_ifs <;> rfl
    · rfl

/-- At most one acknowledgement answers a message. -/
theorem countP_replies (p : ADKGMessage G1 → Bool) (msgs : List (ADKGMessage G1)) :
    (msgs.flatMap (reply node)).countP p = msgs.countP (fun m => (reply node m).any p) := by
  induction msgs with
  | nil => rfl
  | cons m msgs ih =>
    have hone : (reply node m).countP p = if (reply node m).any p then 1 else 0 := by
      cases m with
      | shareProposal senderId shares commitments =>
        rw [reply]
        split_ifs <;> simp_all
      | shareAck senderId receiverId valid => rfl
    rw [List.flatMap_cons, List.countP_append, ih, List.countP_cons, hone, add_comm]

end history
end MpcNode.Adkg
