import MpcNode.DkgLedger

/-!
# Which index a node takes its shares at

A node has no index of its own: it parses its id, and an id that is no
number counts as the largest one. Two ids that parse alike take the same
share of any dealing, and a share is stored out of range when the parsed id
is.
-/

set_option autoImplicit false

namespace MpcNode.Dkg
open MpcNode.Bls MpcNode.Guarded MpcNode.Messages MpcNode.Wire MpcNode.Channels MpcNode.Tables

section indices
variable {G1 : Type} [G1Group G1] [SerdeJson]

def afterMessages (policy : Policy) (new : DKGNode G1) (channel : Channel)
    (msgs : List (DKGMessage G1)) : DKGNode G1 :=
  (run policy (.fresh new channel) (msgs.map .message)).node

theorem afterMessages_refines (policy : Policy) (id : String) (threshold totalNodes : Usize)
    (channel : Channel) (msgs : List (DKGMessage G1)) :
    Refines (afterMessages policy (.new id threshold totalNodes) channel msgs)
      (ledger (idParsed id) msgs) :=
  run_messages_refines policy id threshold totalNodes channel msgs

theorem afterMessages_totalNodes (policy : Policy) (id : String) (threshold totalNodes : Usize)
    (channel : Channel) (msgs : List (DKGMessage G1)) :
    (afterMessages policy (.new id threshold totalNodes) channel msgs).totalNodes = totalNodes := by
  rw [afterMessages, run_node]
  exact Runs.foldl_kept DKGNode.totalNodes after_totalNodes _ _

theorem stored_first {policy : Policy} {id : String} {threshold totalNodes : Usize}
    {channel : Channel} {msgs : List (DKGMessage G1)} {dealer : String} {share : KeyShare}
    (h : (afterMessages policy (.new id threshold totalNodes) channel msgs).shares.lookup dealer =
      some share) : ∃ fromId shares commitments,
        .shareDistribution fromId shares commitments ∈ msgs ∧
        shares.find? (fun s => s.index = idParsed id) = some share := by
  rw [(afterMessages_refines policy id threshold totalNodes channel msgs).share,
    Option.map_eq_some_iff] at h
  obtain ⟨d,hd,rfl⟩ := h
  obtain ⟨msg,hmsg,hm⟩ := List.mem_filterMap.mp (Ledger.lastOf_mem hd)
  cases msg with
  | shareValidation fromId toId isValid => cases hm
  | shareDistribution fromId shares commitments =>
    obtain ⟨share,hs,rfl⟩ := Option.map_eq_some_iff.mp hm
    exact ⟨fromId,shares,commitments,hmsg,hs⟩

theorem stored_last (policy : Policy) {id : String} (threshold totalNodes : Usize)
    (channel : Channel) (msgs : List (DKGMessage G1)) (fromId : String) {shares : List KeyShare}
    (commitments : List (SerializableG1Affine G1)) {share : KeyShare}
    (h : shares.find? (fun s => s.index = idParsed id) = some share) :
    (afterMessages policy (.new id threshold totalNodes) channel
      (msgs++[.shareDistribution fromId shares commitments])).shares.lookup fromId =
      some share := by
  have hd : dealing (idParsed id) (.shareDistribution fromId shares commitments) =
      some ⟨fromId,share,commitments.map (fun c => c.point)⟩ := by
    rw [dealing, h, Option.map_some]
  rw [(afterMessages_refines policy id threshold totalNodes channel _).share, ledger_append,
    ledger_dealing hd, Ledger.lastOf_dealing, if_pos rfl]
  rfl

/-- The shares that two nodes store of one dealing have different indices. -/
def StoredApart (shares : List KeyShare) (fromId : String) (node other : DKGNode G1) : Prop :=
  ∀ share ∈ shares, ∀ share' ∈ shares, node.shares.lookup fromId = some share →
    other.shares.lookup fromId = some share' → share.index ≠ share'.index

/-- Every share a node stores is of one of the nodes' numbers. -/
def StoredInRange (node : DKGNode G1) : Prop :=
  ∀ dealer share, node.shares.lookup dealer = some share →
    1 ≤ share.index.toNat ∧ share.index.toNat ≤ node.totalNodes.toNat

theorem storedApart_iff (policy : Policy) (channel : Channel) (id id' : String)
    (threshold threshold' totalNodes totalNodes' : Usize) (msgs msgs' : List (DKGMessage G1))
    (fromId : String) (shares : List KeyShare)
    (commitments : List (SerializableG1Affine G1)) :
    StoredApart shares fromId
      (afterMessages policy (.new id threshold totalNodes) channel
        (msgs++[.shareDistribution fromId shares commitments]))
      (afterMessages policy (.new id' threshold' totalNodes') channel
        (msgs'++[.shareDistribution fromId shares commitments])) ↔
    idParsed id ≠ idParsed id' ∨ ∀ share ∈ shares, share.index ≠ idParsed id := by
  constructor
  · intro h
    by_contra hno
    obtain ⟨hid,hshare⟩ := not_or.mp hno
    rw [not_not] at hid
    obtain ⟨share,hs,hi⟩ : ∃ share ∈ shares, share.index = idParsed id := by
      simpa using hshare
    obtain ⟨first,hf⟩ := exists_find_index ⟨share,hs,hi⟩
    have hm := List.mem_of_find?_eq_some hf
    exact h first hm first hm
      (stored_last policy threshold totalNodes channel msgs fromId commitments hf)
      (stored_last policy threshold' totalNodes' channel msgs' fromId commitments (hid ▸ hf)) rfl
  · rintro hc share hs share' hs' hl hl'
    rw [run_share_index hl, run_share_index hl']
    rcases hc with hid | hnone
    · exact hid
    · exact absurd (run_share_index hl) (hnone share hs)

theorem storedInRange_iff (policy : Policy) (channel : Channel) (id : String)
    (threshold totalNodes : Usize) (msgs : List (DKGMessage G1)) :
    (∀ pre, pre <+: msgs → StoredInRange
      (afterMessages policy (.new id threshold totalNodes) channel pre)) ↔
    (1 ≤ (idParsed id).toNat ∧ (idParsed id).toNat ≤ totalNodes.toNat) ∨
      ∀ fromId shares commitments, .shareDistribution fromId shares commitments ∈ msgs →
        ∀ share ∈ shares, share.index ≠ idParsed id := by
  constructor
  · intro h
    rw [or_iff_not_imp_right]
    intro hshare
    push Not at hshare
    obtain ⟨fromId,shares,commitments,hm,share,hs,hi⟩ := hshare
    obtain ⟨first,hf⟩ := exists_find_index ⟨share,hs,hi⟩
    obtain ⟨pre,post,rfl⟩ := List.append_of_mem hm
    have hl := stored_last policy threshold totalNodes channel pre fromId commitments hf
    have hr := h _ ⟨post,by simp⟩ fromId first hl
    rwa [run_share_index hl, afterMessages_totalNodes] at hr
  · rintro hc pre hp dealer share hl
    rw [run_share_index hl, afterMessages_totalNodes]
    rcases hc with hr | hnone
    · exact hr
    · obtain ⟨fromId,shares,commitments,hm,hs⟩ := stored_first hl
      exact absurd (run_share_index hl) (hnone fromId shares commitments (hp.subset hm) share
        (List.mem_of_find?_eq_some hs))

/-- Both together, for any two nodes and any runs. -/
theorem stored_shares_iff (policy : Policy) (channel : Channel) :
    (∀ (id id' : String) (threshold threshold' totalNodes totalNodes' : Usize)
      (msgs msgs' : List (DKGMessage G1)) (fromId : String) (shares : List KeyShare)
      (commitments : List (SerializableG1Affine G1)),
      StoredApart shares fromId
        (afterMessages policy (.new id threshold totalNodes) channel
          (msgs++[.shareDistribution fromId shares commitments]))
        (afterMessages policy (.new id' threshold' totalNodes') channel
          (msgs'++[.shareDistribution fromId shares commitments])) ↔
      idParsed id ≠ idParsed id' ∨ ∀ share ∈ shares, share.index ≠ idParsed id) ∧
    (∀ (id : String) (threshold totalNodes : Usize) (msgs : List (DKGMessage G1)),
      (∀ pre, pre <+: msgs → StoredInRange
        (afterMessages policy (.new id threshold totalNodes) channel pre)) ↔
      (1 ≤ (idParsed id).toNat ∧ (idParsed id).toNat ≤ totalNodes.toNat) ∨
        ∀ fromId shares commitments, .shareDistribution fromId shares commitments ∈ msgs →
          ∀ share ∈ shares, share.index ≠ idParsed id) :=
  ⟨storedApart_iff policy channel,storedInRange_iff policy channel⟩

end indices

section spellings
attribute [local instance] compactJson

def edgeShares : List KeyShare := [⟨1,⟨1⟩⟩,⟨usizeMax,⟨0⟩⟩]

def edgeDealing : DKGMessage LogPoint := .shareDistribution "2" edgeShares []

/-- Two spellings of one number take the same share, and an id that is no
number takes one out of range. -/
theorem spellings_collide :
    ¬ ("1" ≠ "01" → StoredApart edgeShares "2"
      (afterMessages .granted (.new "1" 1 3) .empty [edgeDealing])
      (afterMessages .granted (.new "01" 1 3) .empty [edgeDealing])) ∧
    ¬ StoredInRange (afterMessages .granted (.new "peer" 1 3) .empty [edgeDealing]) := by
  constructor
  · intro h
    have hfirst : ∀ id, edgeShares.find? (fun s => s.index = idParsed id) = some ⟨1,⟨1⟩⟩ →
        (afterMessages .granted (.new id 1 3) .empty [edgeDealing]).shares.lookup "2" =
          some ⟨1,⟨1⟩⟩ := fun _ hf => stored_last .granted 1 3 .empty [] "2" [] hf
    exact h (by decide) ⟨1,⟨1⟩⟩ (by decide) ⟨1,⟨1⟩⟩ (by decide) (hfirst "1" (by decide +kernel))
      (hfirst "01" (by decide +kernel)) rfl
  · intro h
    have hl : (afterMessages .granted (.new "peer" 1 3) .empty [edgeDealing]).shares.lookup "2" =
        some ⟨usizeMax,⟨0⟩⟩ := stored_last .granted 1 3 .empty [] "2" [] (by decide +kernel)
    have hr := (h "2" ⟨usizeMax,⟨0⟩⟩ hl).2
    rw [afterMessages_totalNodes] at hr
    revert hr
    decide

end spellings
end MpcNode.Dkg
