import MpcNode.Adkg

/-!
# What one call of the first layer does

A node's data after a call, whatever guards are granted and whether or not
the gossip behaviour refuses the acknowledgement. Starting stores the node's
own commitments only if the proposal was published.
-/

set_option autoImplicit false

namespace MpcNode.Adkg
open MpcNode.Bls MpcNode.Guarded MpcNode.Messages MpcNode.Tables
open MpcNode.Dkg (Rng evaluate commitmentSum)
open MpcNode.Guarded.Handler (withGuard bind_run bind_ok withGuard_free top_blocks)

variable {G1 : Type}

@[simp] theorem node_run (env : Env MapLock) (c : Session G1) : node env c = (.ok c.node,c) := rfl

theorem inRange_some {α : Type} (a : α) (env : Env MapLock) (c : Session G1) :
    inRange (some a) env c = (.ok a,c) := rfl

@[simp] theorem publish_node (failure : String) (msg : ADKGMessage G1) (env : Env MapLock)
    (c : Session G1) : (publish failure msg env c).2.node = c.node := by
  rw [publish]
  split <;> rfl

/-- An acknowledgement adds to the count if it is positive. -/
theorem validAcks_pushAck (node : ADKGNode G1) (sender : String) (valid : Bool) :
    (node.pushAck sender valid).validAcks = node.validAcks+if valid then 1 else 0 := by
  rw [ADKGNode.validAcks, ADKGNode.validAcks, List.countP_flatten, List.countP_flatten]
  apply sum_values_insert
  rw [List.countP_append, List.countP_singleton]
  cases node.acks.lookup sender <;> rfl

/-- The share of a vector at the node's own index. -/
def ADKGNode.ownShare (node : ADKGNode G1) (shares : List Scalar) : Option Scalar :=
  if node.idx = 0 ∨ shares.length < node.idx.toNat then none else shares[node.idx.toNat-1]?

theorem outOfRange_iff (idx : UInt64) (length : ℕ) :
    idx = 0 ∨ length < idx.toNat ↔ ¬ (1 ≤ idx.toNat ∧ idx.toNat ≤ length) := by
  have hz : idx = 0 ↔ idx.toNat = 0 := by
    rw [← UInt64.toNat_inj]
    rfl
  rw [hz]
  omega

theorem ownShare_some {node : ADKGNode G1} {shares : List Scalar} {share : Scalar} :
    node.ownShare shares = some share ↔ 1 ≤ node.idx.toNat ∧ node.idx.toNat ≤ shares.length ∧
      shares[node.idx.toNat-1]? = some share := by
  rw [ADKGNode.ownShare]
  split_ifs with hr
  · rw [outOfRange_iff] at hr
    exact iff_of_false (by simp) (fun h => hr ⟨h.1,h.2.1⟩)
  · rw [outOfRange_iff, not_not] at hr
    exact ⟨fun h => ⟨hr.1,hr.2,h⟩,fun h => h.2.2⟩

/-- What the node keeps of a proposal. -/
def ADKGNode.keep (dealer : String) (share : Scalar) (commitments : List G1)
    (node : ADKGNode G1) : ADKGNode G1 :=
  (node.insertShare dealer share).insertCommitments dealer commitments

variable [G1Group G1]

/-- The share that passes the check. -/
def ADKGNode.accepted (node : ADKGNode G1) (shares : List Scalar) (commitments : List G1) :
    Option Scalar :=
  (node.ownShare shares).filter
    (fun share => commitmentSum (node.idx.toNat : Scalar) commitments = share•generator)

theorem accepted_some {node : ADKGNode G1} {shares : List Scalar} {commitments : List G1}
    {share : Scalar} : node.accepted shares commitments = some share ↔
      node.ownShare shares = some share ∧
        commitmentSum (node.idx.toNat : Scalar) commitments = share•generator := by
  rw [ADKGNode.accepted, Option.filter_eq_some_iff, decide_eq_true_eq]

theorem accepted_of_idx {node node' : ADKGNode G1} (h : node'.idx = node.idx)
    (shares : List Scalar) (commitments : List G1) :
    node'.accepted shares commitments = node.accepted shares commitments := by
  unfold ADKGNode.accepted ADKGNode.ownShare
  rw [h]

theorem verifyCommitments_run (senderId : String) (shares : List Scalar) (commitments : List G1)
    (env : Env MapLock) (c : Session G1) :
    verifyCommitments senderId shares commitments env c =
      (.ok (c.node.accepted shares commitments).isSome,c) := by
  rw [verifyCommitments, bind_ok (node_run _ _)]
  dsimp only
  split_ifs with hr
  · rw [ADKGNode.accepted, ADKGNode.ownShare, if_pos hr]
    rfl
  · rw [ADKGNode.accepted, ADKGNode.ownShare, if_neg hr]
    rw [outOfRange_iff, not_not] at hr
    have hlt : c.node.idx.toNat-1 < shares.length := by omega
    rw [List.getElem?_eq_getElem hlt, bind_ok (inRange_some _ _ _), Option.isSome_filter,
      Option.any_some]
    rfl

def ackOf (node : ADKGNode G1) (senderId : String) : ADKGMessage G1 :=
  .shareAck node.id senderId true

theorem proposal_accepted {policy : Policy} {c : Session G1} {senderId : String}
    {shares : List Scalar} {commitments : List G1} {share : Scalar}
    (h : c.node.accepted shares commitments = some share) :
    handleMessage (.shareProposal senderId shares commitments) (Env.top policy) c =
      publish "Failed to publish ACK: " (ackOf c.node senderId) (Env.top policy)
        { c with node := c.node.keep senderId share commitments } := by
  obtain ⟨h1,hn,hs⟩ := ownShare_some.mp (accepted_some.mp h).1
  have hpos : 0 < c.node.idx := UInt64.lt_iff_toNat_lt.mpr h1
  rw [handleMessage, handleShareProposal, bind_ok (verifyCommitments_run _ _ _ _ _), h]
  rw [if_pos Option.isSome_some, bind_ok (node_run _ _)]
  dsimp only
  rw [if_pos ⟨hpos,hn⟩, hs, bind_ok (inRange_some _ _ _),
    bind_ok (withGuard_free (top_blocks _ _ _) _ _),
    bind_ok (withGuard_free (top_blocks _ _ _) _ _)]
  rfl

theorem proposal_rejected {policy : Policy} {c : Session G1} {senderId : String}
    {shares : List Scalar} {commitments : List G1}
    (h : c.node.accepted shares commitments = none) :
    handleMessage (.shareProposal senderId shares commitments) (Env.top policy) c =
      (.ok (),c) := by
  rw [handleMessage, handleShareProposal, bind_ok (verifyCommitments_run _ _ _ _ _), h]
  rfl

/-- What the completion check makes of a node. After a panic the sum of the
shares is set and the public key is not. -/
def ADKGNode.checked (node : ADKGNode G1) : ADKGNode G1 :=
  if node.t.toNat ≤ node.validAcks then
    match node.commitmentsSum with
    | some key => node.setSecretKeyShare.setPublicKey key
    | none => node.setSecretKeyShare
  else node

theorem checked_settings (node : ADKGNode G1) : node.checked.id = node.id ∧
    node.checked.idx = node.idx ∧ node.checked.n = node.n ∧ node.checked.t = node.t := by
  rw [ADKGNode.checked]
  split_ifs
  · cases node.commitmentsSum <;> exact ⟨rfl,rfl,rfl,rfl⟩
  · exact ⟨rfl,rfl,rfl,rfl⟩

theorem checked_maps (node : ADKGNode G1) : node.checked.shares = node.shares ∧
    node.checked.commitments = node.commitments ∧ node.checked.acks = node.acks := by
  rw [ADKGNode.checked]
  split_ifs
  · cases node.commitmentsSum <;> exact ⟨rfl,rfl,rfl⟩
  · exact ⟨rfl,rfl,rfl⟩

/-- The check panics only on an empty vector of commitments. -/
theorem checkCompletion_run (policy : Policy) (c : Session G1) :
    checkCompletion (Env.top policy) c =
      (if c.node.t.toNat ≤ c.node.validAcks ∧ c.node.commitmentsSum = none then .panicked
        else .ok (),{ c with node := c.node.checked }) := by
  have hshares : ((Env.top policy).hold MapLock.acks .read).blocks .shares .read = false := by
    cases policy <;> rfl
  have hcommitments : (((Env.top policy).hold MapLock.acks .read).hold .shares .read).blocks
      .commitments .read = false := by
    cases policy <;> rfl
  rw [checkCompletion, withGuard_free (top_blocks _ _ _), bind_ok (node_run _ _),
    ADKGNode.checked]
  by_cases h : c.node.t.toNat ≤ c.node.validAcks
  · rw [if_pos h, if_pos h, withGuard_free hshares, bind_ok rfl, withGuard_free hcommitments,
      bind_run]
    cases hk : c.node.commitmentsSum with
    | none =>
      rw [if_pos ⟨h,rfl⟩]
      rfl
    | some key =>
      rw [if_neg (by simp)]
      rfl
  · rw [if_neg h, if_neg h, if_neg (fun hc => h hc.1)]
    rfl

theorem ack_counted (policy : Policy) (c : Session G1) (senderId : String) (valid : Bool) :
    handleMessage (.shareAck senderId c.node.id valid) (Env.top policy) c =
      checkCompletion (Env.top policy) { c with node := c.node.pushAck senderId valid } := by
  rw [handleMessage, handleShareAck, bind_ok (node_run _ _), if_pos rfl,
    bind_ok (withGuard_free (top_blocks _ _ _) _ _)]

theorem ack_ignored (policy : Policy) {c : Session G1} {receiverId : String}
    (h : receiverId ≠ c.node.id) (senderId : String) (valid : Bool) :
    handleMessage (.shareAck senderId receiverId valid) (Env.top policy) c = (.ok (),c) := by
  rw [handleMessage, handleShareAck, bind_ok (node_run _ _), if_neg h]
  rfl

def ADKGNode.take (node : ADKGNode G1) : ADKGMessage G1 → ADKGNode G1
  | .shareProposal senderId shares commitments =>
    match node.accepted shares commitments with
    | some share => node.keep senderId share commitments
    | none => node
  | .shareAck senderId receiverId valid =>
    if receiverId = node.id then (node.pushAck senderId valid).checked else node

/-- The node's data after a message. -/
theorem handleMessage_node (policy : Policy) (msg : ADKGMessage G1) (c : Session G1) :
    (handleMessage msg (Env.top policy) c).2.node = c.node.take msg := by
  cases msg with
  | shareProposal senderId shares commitments =>
    rw [ADKGNode.take]
    cases h : c.node.accepted shares commitments with
    | none => rw [proposal_rejected h]
    | some share => rw [proposal_accepted h, publish_node]
  | shareAck senderId receiverId valid =>
    rw [ADKGNode.take]
    split_ifs with h
    · rw [h, ack_counted, checkCompletion_run]
    · rw [ack_ignored policy h]

section start

/-- The shares a dealer of `n` nodes makes of its coefficients. -/
def dealt (n : Usize) (coeffs : List Scalar) : List Scalar :=
  (List.range' 1 n.toNat).map (fun i => evaluatePolynomial coeffs (UInt64.ofNat i))

def proposal (node : ADKGNode G1) (rng : Rng) : ADKGMessage G1 :=
  .shareProposal node.id (dealt node.n (generatePolynomial node.t.toNat rng).1)
    (generateCommitments (generatePolynomial node.t.toNat rng).1)

def ADKGNode.keepOwn (node : ADKGNode G1) (rng : Rng) : ADKGNode G1 :=
  node.insertCommitments node.id (generateCommitments (generatePolynomial node.t.toNat rng).1)

theorem startADKG_published {c : Session G1} (h : c.swarm.refusal = none) (policy : Policy)
    (rng : Rng) : startADKG rng (Env.top policy) c =
      (.ok (),⟨c.node.keepOwn rng,
        { c.swarm with published := c.swarm.published ++ [(adkgTopic,proposal c.node rng)] }⟩) := by
  have hp : publish "Failed to publish message: " (proposal c.node rng) (Env.top policy) c =
      (.ok (),{ c with swarm :=
        { c.swarm with
          published := c.swarm.published ++ [(adkgTopic,proposal c.node rng)] } }) := by
    rw [publish, h]
  rw [startADKG, bind_ok (node_run _ _)]
  refine (bind_ok hp).trans ?_
  exact withGuard_free (top_blocks _ _ _) _ _

theorem startADKG_refused {c : Session G1} {e : String} (h : c.swarm.refusal = some e)
    (policy : Policy) (rng : Rng) : startADKG rng (Env.top policy) c =
      (.err ("Failed to publish message: " ++ e),c) := by
  have hp : publish "Failed to publish message: " (proposal c.node rng) (Env.top policy) c =
      (.err ("Failed to publish message: " ++ e),c) := by
    rw [publish, h]
  rw [startADKG, bind_ok (node_run _ _)]
  change (publish "Failed to publish message: " (proposal c.node rng) >>= _) _ _ = _
  rw [bind_run, hp]

end start
end MpcNode.Adkg
