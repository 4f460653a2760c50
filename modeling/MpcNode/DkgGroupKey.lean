import MpcNode.DkgHonest
import MpcNode.DkgVerification
import MpcNode.Library.Writes

/-!
# What the group key sum adds up

A node adds the shares it holds, each an evaluation at its own number, and
it holds none from itself. The sum over the constant terms is something
else, whatever the order of delivery. What is summed is what the stored
commitments give at the node's index.
-/

set_option autoImplicit false

namespace MpcNode.Dkg
open MpcNode.Bls MpcNode.Guarded MpcNode.Messages MpcNode.Wire MpcNode.Channels MpcNode.Broadcast
open MpcNode.PowerSum MpcNode.Tables

theorem generateGroupKey_run {G1 : Type} [G1Group G1] (policy : Policy) (c : Ctx (DKGNode G1) G1) :
    (generateGroupKey (Env.top policy) c).1 = .ok c.node.groupKey := by
  rw [generateGroupKey, Handler.withGuard_free (Handler.top_blocks _ _ _)]
  rfl

section commitments
variable {G1 : Type} [G1Group G1]

/-- What commitments give at index `i`, position by position. -/
def committedAt (i : Usize) (commitments : List G1) : G1 :=
  ∑ j : Fin commitments.length, (i.toNat : Scalar)^j.val•commitments.get j

def DKGNode.committedKey (node : DKGNode G1) (i : Usize) : G1 :=
  ∑ dealer ∈ keySet node.commitments,
    ((node.commitments.lookup dealer).map (committedAt i)).getD 0

/-- Both maps have the same dealers, and each share is the one that its
dealer's commitments vouch for at index `i`. -/
structure Vouched (node : DKGNode G1) (i : Usize) : Prop where
  dealers : keySet node.shares = keySet node.commitments
  index : ∀ dealer share, node.shares.lookup dealer = some share → share.index = i
  verified : Verified node

/-- The sum is formed from the commitments alone, in whatever order the
shares are visited. -/
structure Recomputed (node : DKGNode G1) (i : Usize) : Prop where
  returned : ∀ (policy : Policy) (c : Ctx (DKGNode G1) G1), c.node = node →
    (generateGroupKey (Env.top policy) c).1 = .ok (node.committedKey i)
  iterated : ∀ shares : List KeyShare, shares.Perm (values node.shares) →
    shares.foldl (fun key share => key+share.value.scalar•(generator : G1)) 0 =
      node.committedKey i

theorem sum_vouched {node : DKGNode G1} {i : Usize} (h : Vouched node i) :
    ((values node.shares).map (fun share => share.value.scalar•(generator : G1))).sum =
      node.committedKey i := by
  rw [sum_values, h.dealers, DKGNode.committedKey]
  apply Finset.sum_congr rfl
  intro dealer hd
  obtain ⟨commitments,hc⟩ := mem_keySet.mp hd
  rw [← h.dealers] at hd
  obtain ⟨share,hs⟩ := mem_keySet.mp hd
  have hf : Feldman share commitments := h.verified dealer share commitments hs hc
  rw [Feldman, h.index dealer share hs, commitmentSum_eq, powerSum_eq_sum] at hf
  rw [hs, hc, Option.map_some, Option.map_some, Option.getD_some, Option.getD_some, hf,
    committedAt]

/-- The key sum of shares that their dealers' commitments vouch for. -/
theorem groupKey_recomputed {node : DKGNode G1} {i : Usize} (h : Vouched node i) :
    Recomputed node i where
  returned policy c hc := by
    rw [generateGroupKey_run, hc, DKGNode.groupKey, foldl_perm _ (List.Perm.refl _), sum_vouched h]
  iterated shares hp := by
    rw [foldl_perm _ hp, sum_vouched h]

theorem run_vouched_iff [SerdeJson] (policy : Policy) (id : String) (threshold totalNodes : Usize)
    (channel : Channel) (is : List (Input G1)) :
    Vouched (run policy (.fresh (.new id threshold totalNodes) channel) is).node (idParsed id) ↔
      Verified (run policy (.fresh (.new id threshold totalNodes) channel) is).node := by
  constructor
  · intro h
    exact h.verified
  · intro h
    have href := run_refines policy id threshold totalNodes channel is
    exact ⟨(keySet_shares href).trans (keySet_commitments href).symm,
      fun dealer share hs => run_share_index hs,h⟩

end commitments

section held
attribute [local instance] Wire.compactJson

def heldMessages : List (DKGMessage LogPoint) :=
  [.shareDistribution "1" [⟨2,⟨3⟩⟩] [⟨(1 : Scalar)⟩,⟨(1 : Scalar)⟩],
    .shareDistribution "3" [⟨2,⟨17⟩⟩] [⟨(1 : Scalar)⟩,⟨(8 : Scalar)⟩]]

def sampleHeld : DKGNode LogPoint :=
  (run .waiting (.fresh (.new "2" 1 3) .empty) (heldMessages.map .message)).node

theorem sampleHeld_verified : Verified sampleHeld := by
  have href := run_messages_refines .waiting "2" 1 3 .empty heldMessages
  refine (verified_iff href).mpr (fun dealer d hd => ?_)
  have hm : d ∈ [⟨"1",⟨2,⟨3⟩⟩,[(1 : Scalar),(1 : Scalar)]⟩,
      (⟨"3",⟨2,⟨17⟩⟩,[(1 : Scalar),(8 : Scalar)]⟩ : Dealing LogPoint)] := by
    have hdealings : (ledger (idParsed "2") heldMessages).dealings =
        [⟨"1",⟨2,⟨3⟩⟩,[(1 : Scalar),(1 : Scalar)]⟩,
          ⟨"3",⟨2,⟨17⟩⟩,[(1 : Scalar),(8 : Scalar)]⟩] := by decide +kernel
    rw [← hdealings]
    exact Ledger.lastOf_mem hd
  rw [Feldman, commitmentSum_eq]
  simp only [List.mem_cons, List.not_mem_nil, or_false] at hm
  rcases hm with rfl | rfl <;> decide +kernel

theorem sampleHeld_vouched : Vouched sampleHeld 2 := by
  have hown : idParsed "2" = 2 := by decide
  rw [← hown]
  exact (run_vouched_iff .waiting "2" 1 3 .empty (heldMessages.map .message)).mpr
    sampleHeld_verified

theorem sample_recomputed : Recomputed sampleHeld 2 := groupKey_recomputed sampleHeld_vouched

end held

section key
variable {G1 : Type} [G1Group G1] {threshold total : Usize}

/-- The sum at node `r` is over the other nodes' polynomials at `r`'s number. -/
theorem groupKey_of_run {as : DkgRun G1 total} {net : DkgNet G1 total}
    (h : (honest threshold total).run (outline total.toNat) as = some net) (hq : Delivered net)
    {rng : Fin total.toNat → Rng} (hone : ∀ i, commands (history i as) = [rng i])
    (r : Fin total.toNat) :
    (net.node r).groupKey =
      (∑ s ∈ Finset.univ.erase r, evaluate (drawn threshold (rng s)) ((r.val+1 : ℕ) : Scalar))•
        generator := by
  rw [groupKey_eq (honest_refines h r), Ledger.keySum, nodeLedger_dealers_once h hq hone,
    Finset.sum_image (fun i _ j _ hij => numbered_injective hij), Finset.sum_smul]
  apply Finset.sum_congr rfl
  intro s hs
  rw [nodeLedger_lastOf h, taken_one_start h hq (Finset.ne_of_mem_erase hs) (hone s)]
  simp only [List.getLast?_singleton, Option.map_some, Option.getD_some, dealt, numbered_index]

/-- Every node forms the sum of the constant terms. -/
def SameKey (threshold : Usize) (net : DkgNet G1 total) (rng : Fin total.toNat → Rng) : Prop :=
  ∀ k, (generateGroupKey (Env.top .granted) (.fresh (net.node k) .empty)).1 =
    .ok ((∑ d, evaluate (drawn threshold (rng d)) 0)•generator)

variable [SerdeJson]

/-- After one start each and all dealings delivered, the nodes form the sum
of the constant terms if and only if at every node's number the other
nodes' polynomials add up to it. -/
theorem sameKey_iff {as : DkgRun G1 total} {net : DkgNet G1 total}
    (h : (honest threshold total).run (protocol total.toNat) as = some net) (hq : Delivered net)
    {rng : Fin total.toNat → Rng} (hone : ∀ i, commands (history i as) = [rng i]) :
    SameKey threshold net rng ↔
      ∀ k : Fin total.toNat, ∑ d ∈ Finset.univ.erase k,
        evaluate (drawn threshold (rng d)) ((k.val+1 : ℕ) : Scalar) =
          ∑ d, evaluate (drawn threshold (rng d)) 0 := by
  rw [protocol_eq_outline] at h
  apply forall_congr'
  intro k
  rw [generateGroupKey_run, Outcome.ok.injEq, Ctx.fresh, groupKey_of_run h hq hone]
  exact smul_generator_injective.eq_iff

end key

section pair
attribute [local instance] compactJson

def pairRng (i : Fin (2 : Usize).toNat) : Rng := constantRng (if i.val = 0 then 1 else 0)

def pairRun : DkgRun LogPoint 2 := honestSchedule 1 2 pairRng

theorem pair_quiet : ∃ net, (honest 1 2).run (outline _) pairRun = some net ∧ net.Quiet :=
  run_found _ (by decide +kernel)

theorem pair_starts (i : Fin (2 : Usize).toNat) : commands (history i pairRun) = [pairRng i] := by
  match i with
  | ⟨0,_⟩ => rfl
  | ⟨1,_⟩ => rfl

theorem pair_not_sameKey : ¬ ∀ net, (honest 1 2).run (protocol _) pairRun = some net →
    Delivered net → SameKey 1 net pairRng := by
  intro hall
  obtain ⟨net,hn,hq⟩ := pair_quiet
  have hk := hall net (by rw [protocol_eq_outline]; exact hn) (quiet_delivered hq) ⟨0,by decide⟩
  rw [generateGroupKey_run, Outcome.ok.injEq, Ctx.fresh,
    groupKey_of_run hn (quiet_delivered hq) pair_starts] at hk
  have he := smul_generator_injective hk
  revert he
  decide +kernel

theorem pair_sameKey_iff : ∃ net, (honest 1 2).run (protocol _) pairRun = some net ∧
    (SameKey 1 net pairRng ↔ ∀ k : Fin (2 : Usize).toNat, ∑ d ∈ Finset.univ.erase k,
      evaluate (drawn 1 (pairRng d)) ((k.val+1 : ℕ) : Scalar) =
        ∑ d, evaluate (drawn 1 (pairRng d)) 0) := by
  obtain ⟨net,hn,hq⟩ := pair_quiet
  rw [← protocol_eq_outline] at hn
  exact ⟨net,hn,sameKey_iff hn (quiet_delivered hq) pair_starts⟩

end pair
end MpcNode.Dkg
