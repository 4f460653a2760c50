import MpcNode.AdkgNetwork
import MpcNode.Reconstruction

/-!
# The keys of an honest run of the first layer

Every node starts once, every proposal is delivered, then every
acknowledgement. A node then holds the commitments of all dealers and the
shares of all but itself: it sends its own share to the others only. So all
nodes form one public key, and their key shares miss one share each.
-/

set_option autoImplicit false

namespace MpcNode.Adkg
open MpcNode.Bls MpcNode.Guarded MpcNode.Messages MpcNode.Broadcast MpcNode.Tables
open MpcNode.Reconstruction MpcNode.PowerSum MpcNode.Interpolation
open MpcNode.Dkg (Rng)
open scoped List

section numbers
variable {total : Usize}

/-- The index of a node: its number, from one on. -/
def number (i : Fin total.toNat) : UInt64 := UInt64.ofNat (i.val+1)

theorem number_toNat (i : Fin total.toNat) : (number i).toNat = i.val+1 := by
  have hi := i.isLt
  have ht := total.toNat_lt
  rw [number, UInt64.toNat_ofNat', Nat.mod_eq_of_lt (by omega)]

theorem number_injective : Function.Injective (@number total) := by
  intro i j h
  have hi := number_toNat i
  rw [h, number_toNat j] at hi
  exact Fin.ext (by omega)

end numbers

section knows
variable {G1 : Type} [G1Group G1] {total : Usize}

def members (ids : Fin total.toNat → String) (t : Usize) : Fin total.toNat → ADKGNode G1 :=
  fun i => .new (ids i) total t (number i)

/-- The coefficients a node of this threshold draws. -/
def drawnBy (t : Usize) (rng : Rng) : List Scalar := (generatePolynomial t.toNat rng).1

theorem length_drawnBy (t : Usize) (rng : Rng) : (drawnBy t rng).length = t.toNat+1 := by
  simp [drawnBy, generatePolynomial]

/-- A node that holds the shares of the dealers in `S` and the commitments
of those in `T`. -/
structure Knows (ids : Fin total.toNat → String) (t : Usize) (rng : Fin total.toNat → Rng)
    (k : Fin total.toNat) (S T : Finset (Fin total.toNat)) (node : ADKGNode G1) : Prop where
  id : node.id = ids k
  idx : node.idx = number k
  n : node.n = total
  threshold : node.t = t
  shares : Holds ids (fun d => evaluatePolynomial (drawnBy t (rng d)) (number k)) S node.shares
  commitments : Holds ids (fun d => generateCommitments (drawnBy t (rng d))) T node.commitments

variable {ids : Fin total.toNat → String} {t : Usize} {rng : Fin total.toNat → Rng}
  {k : Fin total.toNat} {S T : Finset (Fin total.toNat)} {node : ADKGNode G1}

theorem knows_new : Knows ids t rng k ∅ ∅ (members ids t k : ADKGNode G1) :=
  ⟨rfl,rfl,rfl,rfl,Holds.empty _ _,Holds.empty _ _⟩

theorem knows_start (hids : Function.Injective ids) (h : Knows ids t rng k S T node) :
    Knows ids t rng k S (insert k T) (node.keepOwn (rng k)) := by
  refine ⟨h.id,h.idx,h.n,h.threshold,h.shares,?_⟩
  rw [ADKGNode.keepOwn, h.id, h.threshold]
  exact h.commitments.insert hids k

theorem member_proposal (d : Fin total.toNat) (rng : Rng) :
    (proposal (members ids t d) rng : ADKGMessage G1) =
      .shareProposal (ids d) (dealt total (drawnBy t rng)) (generateCommitments (drawnBy t rng)) :=
  rfl

theorem member_accepted (hidx : node.idx = number k) (rng : Rng) :
    node.accepted (dealt total (drawnBy t rng)) (generateCommitments (drawnBy t rng)) =
      some (evaluatePolynomial (drawnBy t rng) (number k)) := by
  have hk := number_toNat k
  have hlt := k.isLt
  rw [accepted_dealt _ (by rw [hidx]; omega) (by rw [hidx]; omega), hidx]

theorem knows_proposal (hids : Function.Injective ids) (h : Knows ids t rng k S T node)
    (d : Fin total.toNat) : Knows ids t rng k (insert d S) (insert d T)
      (node.take (proposal (members ids t d) (rng d))) := by
  rw [member_proposal, ADKGNode.take, member_accepted h.idx]
  exact ⟨h.id,h.idx,h.n,h.threshold,h.shares.insert hids d,h.commitments.insert hids d⟩

/-- What a history of starts and honest proposals leaves a node with. -/
theorem knows_history (hids : Function.Injective ids) (h : Knows ids t rng k S T node)
    (es : List (Event total.toNat Rng (ADKGMessage G1))) (hc : ∀ r ∈ commands es, r = rng k)
    (hr : ∀ d, ∀ m ∈ received d es, m = proposal (members ids t d) (rng d)) :
    ∃ S' T', Knows ids t rng k S' T' (localState (outline total.toNat) k node es) ∧
      (∀ d, d ∈ S' ↔ d ∈ S ∨ received d es ≠ []) ∧
      (∀ d, d ∈ T' ↔ d ∈ T ∨ received d es ≠ [] ∨ d = k ∧ commands es ≠ []) := by
  induction es generalizing node S T with
  | nil => exact ⟨S,T,h,by simp [received],by simp [received, commands]⟩
  | cons e es ih =>
    cases e with
    | command r =>
      obtain rfl := hc r (by simp [commands])
      obtain ⟨S',T',hk,hS,hT⟩ := ih (knows_start hids h)
        (fun r hm => hc r (List.mem_cons_of_mem _ hm)) hr
      refine ⟨S',T',hk,hS,fun d => ?_⟩
      rw [hT, Finset.mem_insert]
      simp only [received, commands, List.filterMap_cons]
      tauto
    | message s m =>
      have hs : ∀ d, received d (.message s m::es) =
          if s = d then m::received d es else received d es := by
        intro d
        by_cases hsd : s = d <;> simp [received, hsd]
      obtain rfl := hr s m (by rw [hs, if_pos rfl]; exact List.mem_cons_self)
      obtain ⟨S',T',hk,hS,hT⟩ := ih (knows_proposal hids h s) hc (fun d m hm => hr d m (by
        rw [hs]
        split_ifs
        · exact List.mem_cons_of_mem _ hm
        · exact hm))
      refine ⟨S',T',hk,fun d => ?_,fun d => ?_⟩
      · rw [hS, Finset.mem_insert, hs, eq_comm (a := d)]
        by_cases hsd : s = d <;> simp [hsd]
      · rw [hT, Finset.mem_insert, hs, eq_comm (a := d) (b := s)]
        by_cases hsd : s = d <;> simp [hsd, commands]

theorem shareSum_knows (hids : Function.Injective ids) (h : Knows ids t rng k S T node) :
    node.shareSum = ∑ d ∈ S, evaluatePolynomial (drawnBy t (rng d)) (number k) := by
  rw [ADKGNode.shareSum, foldl_add (fun share => share), zero_add, h.shares.sum hids]

theorem commitmentsSum_knows (hids : Function.Injective ids) (h : Knows ids t rng k S T node) :
    node.commitmentsSum = some (∑ d ∈ T, (drawnBy t (rng d)).headD 0•generator) := by
  have hstep : ∀ key : G1, ∀ comms ∈ values node.commitments,
      comms[0]?.map (fun first => key+first) = some (key+comms.headD 0) := by
    intro key comms hc
    obtain ⟨d,-,rfl⟩ := h.commitments.mem_values hc
    rfl
  rw [ADKGNode.commitmentsSum, foldlM_some _ hstep,
    foldl_add (fun comms : List G1 => comms.headD 0), zero_add, h.commitments.sum hids]
  rfl

end knows

section acks
variable {G1 : Type} [G1Group G1] {total : Usize}

def ackTo (own : String) : ADKGMessage G1 → Bool
  | .shareProposal _ _ _ => false
  | .shareAck _ receiverId valid => receiverId = own && valid

/-- A node that has counted `j` acknowledgements, and keeps these keys once
they are as many as its threshold. -/
structure Counted (share : Scalar) (key : G1) (j : ℕ) (node : ADKGNode G1) : Prop where
  count : node.validAcks = j
  closed : 0 < j → node.t.toNat ≤ j →
    node.secretKeyShare = some share ∧ node.publicKey = some key

variable {ids : Fin total.toNat → String} {t : Usize} {rng : Fin total.toNat → Rng}
  {k : Fin total.toNat} {S T : Finset (Fin total.toNat)} {node : ADKGNode G1} {share : Scalar}
  {key : G1} {j : ℕ}

theorem knows_ack (h : Knows ids t rng k S T node) {m : ADKGMessage G1}
    (hm : isProposal m = false) : Knows ids t rng k S T (node.take m) := by
  cases m with
  | shareProposal senderId shares commitments => cases hm
  | shareAck senderId receiverId valid =>
    rw [ADKGNode.take]
    split_ifs
    · obtain ⟨hid,hidx,hn,ht⟩ := checked_settings (node.pushAck senderId valid)
      obtain ⟨hs,hc,-⟩ := checked_maps (node.pushAck senderId valid)
      exact ⟨hid.trans h.id,hidx.trans h.idx,hn.trans h.n,ht.trans h.threshold,
        hs ▸ h.shares,hc ▸ h.commitments⟩
    · exact h

theorem counted_ack (h : Counted share key j node) (hid : node.id = ids k)
    (hs : node.shareSum = share) (hk : node.commitmentsSum = some key) {m : ADKGMessage G1}
    (hm : isProposal m = false) :
    Counted share key (j+if ackTo (ids k) m then 1 else 0) (node.take m) := by
  cases m with
  | shareProposal senderId shares commitments => cases hm
  | shareAck senderId receiverId valid =>
    rw [ADKGNode.take, hid]
    by_cases hr : receiverId = ids k
    · have hv := validAcks_pushAck node senderId valid
      rw [h.count] at hv
      rw [if_pos hr]
      simp only [ackTo, hr, decide_true, Bool.true_and]
      have hc : (node.pushAck senderId valid).commitmentsSum = some key := hk
      refine ⟨?_,fun hpos ht => ?_⟩
      · rw [← hv, ADKGNode.validAcks, (checked_maps _).2.2]
        rfl
      · rw [(checked_settings _).2.2.2, ← hv] at ht
        rw [ADKGNode.checked, if_pos ht, hc]
        exact ⟨congrArg some hs,rfl⟩
    · rw [if_neg hr]
      simpa [ackTo, hr] using h

theorem validAcks_history (node : ADKGNode G1) {es : List (Event total.toNat Rng (ADKGMessage G1))}
    (hm : ∀ m ∈ handled es, isProposal m = true) :
    (localState (outline total.toNat) k node es).validAcks = node.validAcks := by
  induction es generalizing node with
  | nil => rfl
  | cons e es ih =>
    cases e with
    | command r => exact ih (node.keepOwn r) hm
    | message s m =>
      have hi := ih (node.take m) (fun m hm' => hm m (List.mem_cons_of_mem _ hm'))
      refine hi.trans ?_
      have hp := hm m List.mem_cons_self
      cases m with
      | shareProposal senderId shares commitments =>
        rw [ADKGNode.take]
        split <;> rfl
      | shareAck senderId receiverId valid => cases hp

/-- What a history of acknowledgements leaves a node with. -/
theorem counted_history (hids : Function.Injective ids) (hk : Knows ids t rng k S T node)
    (h : Counted (∑ d ∈ S, evaluatePolynomial (drawnBy t (rng d)) (number k))
      (∑ d ∈ T, (drawnBy t (rng d)).headD 0•(generator : G1)) j node)
    {es : List (Event total.toNat Rng (ADKGMessage G1))} (hc : commands es = [])
    (hm : ∀ m ∈ handled es, isProposal m = false) :
    Knows ids t rng k S T (localState (outline total.toNat) k node es) ∧
    Counted (∑ d ∈ S, evaluatePolynomial (drawnBy t (rng d)) (number k))
      (∑ d ∈ T, (drawnBy t (rng d)).headD 0•generator)
      (j+(handled es).countP (ackTo (ids k))) (localState (outline total.toNat) k node es) := by
  induction es generalizing node j with
  | nil => exact ⟨hk,h⟩
  | cons e es ih =>
    cases e with
    | command r => cases hc
    | message s m =>
      have hp := hm m List.mem_cons_self
      have hn := counted_ack h hk.id (shareSum_knows hids hk) (commitmentsSum_knows hids hk) hp
      have hi := ih (knows_ack hk hp) hn hc (fun m hm' => hm m (List.mem_cons_of_mem _ hm'))
      have hcount : (handled (.message s m::es)).countP (ackTo (ids k)) =
          (if ackTo (ids k) m then 1 else 0)+(handled es).countP (ackTo (ids k)) := by
        rw [add_comm]
        exact List.countP_cons
      rw [hcount, ← add_assoc]
      exact hi

end acks
end MpcNode.Adkg
