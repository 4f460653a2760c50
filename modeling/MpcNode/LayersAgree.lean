import MpcNode.AdkgRecord
import MpcNode.AdkgVerification
import MpcNode.DkgIndices

/-!
# The two key generation layers side by side

A message of the first layer is one of the other when its shares are given
their numbers. The first layer checks the share at its index before it keeps
a dealing, the other keeps whatever share has its index. They hold the same
dealings as long as what the other one holds would have passed the check.
Runs of either go on only when a call has returned.
-/

set_option autoImplicit false

namespace MpcNode.Adkg
open MpcNode.Bls MpcNode.Guarded MpcNode.Messages MpcNode.Wire MpcNode.Channels MpcNode.Tables
open MpcNode.Dkg

variable {G1 : Type}

def numberedFrom (m : ℕ) : List Scalar → List KeyShare
  | [] => []
  | share::shares => ⟨UInt64.ofNat m,⟨share⟩⟩::numberedFrom (m+1) shares

/-- The message as the other layer has it. -/
def ADKGMessage.numbered : ADKGMessage G1 → DKGMessage G1
  | .shareProposal senderId shares commitments =>
    .shareDistribution senderId (numberedFrom 1 shares) (commitments.map (fun c => ⟨c⟩))
  | .shareAck senderId receiverId valid => .shareValidation senderId receiverId valid

def ADKGMessage.Fits : ADKGMessage G1 → Prop
  | .shareProposal _ shares _ => shares.length < 2^64
  | .shareAck _ _ _ => True

theorem find_numberedFrom (k : Usize) {m : ℕ} {shares : List Scalar}
    (h : m+shares.length ≤ 2^64) : (numberedFrom m shares).find? (fun s => s.index = k) =
      if m ≤ k.toNat then shares[k.toNat-m]?.map (fun share => ⟨k,⟨share⟩⟩) else none := by
  induction shares generalizing m with
  | nil => simp [numberedFrom]
  | cons share shares ih =>
    rw [List.length_cons] at h
    have hm : (UInt64.ofNat m).toNat = m := by
      rw [UInt64.toNat_ofNat', Nat.mod_eq_of_lt (by omega)]
    have hi := ih (m := m+1) (by omega)
    rw [numberedFrom, List.find?_cons]
    by_cases hk : k.toNat = m
    · have he : UInt64.ofNat m = k := by rw [← UInt64.toNat_inj, hm, hk]
      rw [decide_eq_true he, he, if_pos (by omega), hk, Nat.sub_self]
      rfl
    · have he : ¬ UInt64.ofNat m = k := fun he => hk (by rw [← he, hm])
      rw [decide_eq_false he, hi]
      by_cases hle : m ≤ k.toNat
      · have hs : k.toNat-m = (k.toNat-(m+1))+1 := by omega
        rw [if_pos (by omega), if_pos hle, hs, List.getElem?_cons_succ]
      · rw [if_neg (by omega), if_neg hle]

theorem find_ownShare (node : ADKGNode G1) {shares : List Scalar} (h : shares.length < 2^64) :
    (numberedFrom 1 shares).find? (fun s => s.index = node.idx) =
      (node.ownShare shares).map (fun share => ⟨node.idx,⟨share⟩⟩) := by
  rw [find_numberedFrom node.idx (by omega), ADKGNode.ownShare]
  by_cases hr : node.idx = 0 ∨ shares.length < node.idx.toNat
  · rw [if_pos hr]
    rw [outOfRange_iff] at hr
    by_cases h1 : 1 ≤ node.idx.toNat
    · rw [if_pos h1, List.getElem?_eq_none (by omega), Option.map_none]
    · rw [if_neg h1, Option.map_none]
  · rw [if_neg hr]
    rw [outOfRange_iff, not_not] at hr
    rw [if_pos hr.1]

/-- The share at the node's index and the commitments of each proposal that
has one, under the sender. -/
def ADKGNode.offered (node : ADKGNode G1) (msgs : List (ADKGMessage G1)) :
    List (String × (Scalar × List G1)) :=
  msgs.filterMap (fun
    | .shareProposal senderId shares commitments =>
      (node.ownShare shares).map (fun share => (senderId,(share,commitments)))
    | .shareAck _ _ _ => none)

/-- What the other layer takes of the numbered messages is what they offer. -/
theorem dealings_numbered (node : ADKGNode G1) {msgs : List (ADKGMessage G1)}
    (h : ∀ msg ∈ msgs, msg.Fits) :
    (ledger node.idx (msgs.map ADKGMessage.numbered)).dealings =
      (node.offered msgs).map (fun p => ⟨p.1,⟨node.idx,⟨p.2.1⟩⟩,p.2.2⟩) := by
  rw [ledger, ADKGNode.offered, List.filterMap_map, List.map_filterMap]
  apply List.filterMap_congr
  intro msg hm
  cases msg with
  | shareAck senderId receiverId valid => rfl
  | shareProposal senderId shares commitments =>
    have hpoints : (commitments.map (fun c => (⟨c⟩ : SerializableG1Affine G1))).map
        (fun c => c.point) = commitments := by
      rw [List.map_map]
      exact List.map_id _
    rw [Function.comp_apply, ADKGMessage.numbered, dealing, find_ownShare node (h _ hm), hpoints,
      Option.map_map, Option.map_map]
    rfl

theorem lastOf_numbered (node : ADKGNode G1) {msgs : List (ADKGMessage G1)}
    (h : ∀ msg ∈ msgs, msg.Fits) (dealer : String) :
    (ledger node.idx (msgs.map ADKGMessage.numbered)).lastOf dealer =
      (under dealer (node.offered msgs)).getLast?.map
        (fun p => ⟨dealer,⟨node.idx,⟨p.1⟩⟩,p.2⟩) := by
  rw [Ledger.lastOf, dealings_numbered node h, ← List.getLast?_map]
  congr 1
  induction node.offered msgs with
  | nil => rfl
  | cons p ps ih =>
    rw [List.map_cons, under]
    by_cases hp : p.1 = dealer <;> simpa [hp, under] using ih

section group
variable [G1Group G1]

theorem taken_eq (node : ADKGNode G1) (msgs : List (ADKGMessage G1)) :
    node.taken msgs = (node.offered msgs).filter (fun p =>
      commitmentSum (node.idx.toNat : Scalar) p.2.2 = p.2.1•generator) := by
  rw [ADKGNode.taken, ADKGNode.offered, List.filter_filterMap]
  apply List.filterMap_congr
  intro msg _
  cases msg with
  | shareAck senderId receiverId valid => rfl
  | shareProposal senderId shares commitments =>
    dsimp only
    rw [ADKGNode.accepted]
    cases node.ownShare shares <;> simp [Option.filter, apply_ite]

/-- The dealings that a node of the first layer holds are those that one of
the other layer holds. -/
structure Agree (node : ADKGNode G1) (other : DKGNode G1) : Prop where
  shares : ∀ dealer,
    (other.shares.lookup dealer).map (fun s => s.value.scalar) = node.shares.lookup dealer
  commitments : ∀ dealer, other.commitments.lookup dealer = node.commitments.lookup dealer

structure Holds (first : ADKGNode G1) (msgs : List (ADKGMessage G1)) (node : ADKGNode G1) :
    Prop where
  idx : node.idx = first.idx
  shares : node.shares = written ∅ ((first.taken msgs).map (fun p => (p.1,p.2.1)))
  commitments : node.commitments = written ∅ ((first.taken msgs).map (fun p => (p.1,p.2.2)))

theorem holds_take {first node : ADKGNode G1} {msgs : List (ADKGMessage G1)}
    (h : Holds first msgs node) (msg : ADKGMessage G1) :
    Holds first (msgs++[msg]) (node.take msg) := by
  obtain ⟨-,hidx,-,hs,hc⟩ := take_maps node msg
  refine ⟨hidx.trans h.idx,?_,?_⟩
  · rw [hs, taken_of_idx h.idx, h.shares, ← written_append, ← List.map_append, taken_snoc]
  · rw [hc, taken_of_idx h.idx, h.commitments, ← written_append, ← List.map_append, taken_snoc]

theorem agree_iff {first node : ADKGNode G1} {other : DKGNode G1}
    {msgs : List (ADKGMessage G1)} (hfits : ∀ msg ∈ msgs, msg.Fits) (h : Holds first msgs node)
    (hr : Refines other (ledger first.idx (msgs.map ADKGMessage.numbered))) :
    Agree node other ↔ ∀ dealer,
      (under dealer (first.taken msgs)).getLast? =
        (under dealer (first.offered msgs)).getLast? := by
  have hlast := lastOf_numbered first hfits
  have hs : ∀ dealer, (node.shares.lookup dealer) =
      (under dealer (first.taken msgs)).getLast?.map Prod.fst := by
    intro dealer
    rw [h.shares, lookup_written, under_map, List.getLast?_map, AList.lookup_empty, Option.or_none]
  have hc : ∀ dealer, (node.commitments.lookup dealer) =
      (under dealer (first.taken msgs)).getLast?.map Prod.snd := by
    intro dealer
    rw [h.commitments, lookup_written, under_map, List.getLast?_map, AList.lookup_empty,
      Option.or_none]
  have hs' : ∀ dealer, (other.shares.lookup dealer).map (fun s => s.value.scalar) =
      (under dealer (first.offered msgs)).getLast?.map Prod.fst := by
    intro dealer
    rw [hr.share, hlast, Option.map_map, Option.map_map]
    rfl
  have hc' : ∀ dealer, other.commitments.lookup dealer =
      (under dealer (first.offered msgs)).getLast?.map Prod.snd := by
    intro dealer
    rw [hr.commitments, hlast, Option.map_map]
    rfl
  constructor
  · intro ha dealer
    have h1 := ha.shares dealer
    have h2 := ha.commitments dealer
    rw [hs, hs'] at h1
    rw [hc, hc'] at h2
    cases ht : (under dealer (first.taken msgs)).getLast? with
    | none =>
      rw [ht] at h1
      exact (Option.map_eq_none_iff.mp h1).symm
    | some p =>
      rw [ht] at h1 h2
      obtain ⟨q,hq,h1⟩ := Option.map_eq_some_iff.mp h1
      rw [hq] at h2
      rw [hq, Prod.ext h1 (Option.some.inj h2)]
  · intro ha
    exact ⟨fun dealer => by rw [hs, hs', ha],fun dealer => by rw [hc, hc', ha]⟩

section runs
variable (policy : Policy) (name id : String) (n t threshold totalNodes : Usize)

abbrev firstLayer : ADKGNode G1 := .new name n t (idParsed id)

/-- The node after calls that have all returned, with `Ok` or an error. -/
def turnsReturned : ADKGNode G1 → List (Turn G1) → Option (ADKGNode G1) :=
  Runs.run (fun node turn => match node.turned policy turn with
    | (.ok (),c) => some c.node
    | (.err _,c) => some c.node
    | _ => none)

theorem turnsReturned_eq {policy : Policy} {node next : ADKGNode G1} {turns : List (Turn G1)}
    (h : turnsReturned policy node turns = some next) : next = runTurns policy node turns := by
  refine Runs.run_simulates (R := Eq) ?_ rfl h
  rintro node _ turn u rfl hu
  split at hu
  · rename_i hr
    rw [hr]
    exact (Option.some.inj hu).symm
  · rename_i hr
    rw [hr]
    exact (Option.some.inj hu).symm
  · cases hu

theorem runTurns_holds (turns : List (Turn G1)) : Holds (firstLayer name id n t)
    (turns.map Prod.fst) (runTurns policy (firstLayer name id n t) turns) := by
  induction turns using List.reverseRecOn with
  | nil => exact ⟨rfl,rfl,rfl⟩
  | append_singleton turns turn ih =>
    have hn := holds_take ih turn.1
    rw [← handleMessage_node policy turn.1 ⟨_,⟨[],turn.2⟩⟩] at hn
    rw [runTurns, List.foldl_append, ← runTurns, List.map_append]
    exact hn

/-- Nodes of the two layers that have handled the same messages hold the same
dealings if and only if the unchecked one holds nothing that fails the check. -/
theorem layers_agree_iff [SerdeJson] (channel : Channel) (turns : List (Turn G1))
    (h : ∀ turn ∈ turns, turn.1.Fits) {node : ADKGNode G1} {c : Ctx (DKGNode G1) G1}
    (hnode : turnsReturned policy (firstLayer name id n t) turns = some node)
    (hother : okRun policy (.fresh (.new id threshold totalNodes) channel)
      (turns.map (fun turn => .message turn.1.numbered)) = some c) :
    Agree node c.node ↔ Verified c.node := by
  have hfits : ∀ msg ∈ turns.map Prod.fst, msg.Fits := by
    intro msg hm
    obtain ⟨turn,ht,rfl⟩ := List.mem_map.mp hm
    exact h turn ht
  have hmap : turns.map (fun turn => Input.message turn.1.numbered) =
      ((turns.map Prod.fst).map ADKGMessage.numbered).map Input.message := by
    rw [List.map_map, List.map_map]
    rfl
  rw [hmap] at hother
  have hr := okRun_refines hother
  have hholds := runTurns_holds policy name id n t turns
  rw [← turnsReturned_eq hnode] at hholds
  have hlast := lastOf_numbered (firstLayer name id n t) hfits
  rw [agree_iff hfits hholds hr, Dkg.verified_iff hr]
  apply forall_congr'
  intro dealer
  rw [taken_eq, under_filter (fun p : Scalar × List G1 => commitmentSum
      ((firstLayer name id n t : ADKGNode G1).idx.toNat : Scalar) p.2 = p.1•generator),
    Prefixes.getLast?_filter_iff]
  have hl : (ledger (idParsed id) ((turns.map Prod.fst).map ADKGMessage.numbered)).lastOf dealer =
      _ := hlast dealer
  rw [hl]
  cases (under dealer ((firstLayer name id n t).offered (turns.map Prod.fst))).getLast? with
  | none => simp
  | some p =>
    rw [Option.map_some]
    simp only [Option.some.injEq, forall_eq', decide_eq_true_eq, Feldman]
    exact eq_comm

end runs
end group

section forged
attribute [local instance] compactJson

def forgedProposal : List (Turn LogPoint) := [(.shareProposal "2" [1] [],none)]

theorem forged_layers_disagree : ∃ node c,
    turnsReturned .waiting (firstLayer "node" "1" 2 1) forgedProposal = some node ∧
    okRun .waiting (.fresh (.new "1" 1 2) .empty)
      (forgedProposal.map (fun turn => .message turn.1.numbered)) = some c ∧
    ¬ Agree node c.node := by
  have hfits : ∀ turn ∈ forgedProposal, turn.1.Fits := by
    intro turn ht
    rw [List.mem_singleton.mp ht]
    exact Nat.one_lt_two_pow (by omega)
  obtain ⟨node,hnode⟩ : ∃ node,
      turnsReturned .waiting (firstLayer "node" "1" 2 1) forgedProposal = some node := ⟨_,rfl⟩
  obtain ⟨c,hother⟩ : ∃ c, okRun .waiting (.fresh (.new "1" 1 2) .empty)
      (forgedProposal.map (fun turn => .message turn.1.numbered)) = some c := ⟨_,rfl⟩
  refine ⟨node,c,hnode,hother,fun ha => ?_⟩
  have hv := (layers_agree_iff .waiting "node" "1" 2 1 1 2 .empty forgedProposal hfits hnode
    hother).mp ha
  rw [okRun_node hother] at hv
  have he : (1 : Scalar)•(generator : LogPoint) = 0 := hv "2" ⟨1,⟨1⟩⟩ [] rfl rfl
  exact one_ne_zero (G1Group.faithful _ he)

end forged
end MpcNode.Adkg
