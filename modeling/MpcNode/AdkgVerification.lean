import MpcNode.AdkgCalls
import MpcNode.DkgNetwork

/-!
# The check against commitments to a polynomial

Given commitments to coefficients, the check passes at exactly the nodes
whose own share is the evaluation there. So it passes at every node of an
honest dealing of either layer, and at none whose share was altered.
-/

set_option autoImplicit false

namespace MpcNode.Adkg
open MpcNode.Bls MpcNode.Guarded MpcNode.Messages MpcNode.Wire MpcNode.Dkg

theorem generateShares_dealt {G1 : Type} (dealer : DKGNode G1) (polynomial : List Scalar) :
    (dealer.generateShares polynomial).map (fun s => s.value.scalar) =
      dealt dealer.totalNodes polynomial := by
  rw [DKGNode.generateShares, List.map_map, dealt]
  apply List.map_congr_left
  intro i hi
  have hr := List.mem_range'_1.mp hi
  have ht := dealer.totalNodes.toNat_lt
  simp only [Function.comp_apply, evaluatePolynomial]
  rw [UInt64.toNat_ofNat', Nat.mod_eq_of_lt (by omega)]

section check
variable {G1 : Type} [G1Group G1]

/-- The check answers true on the shares of a vector, and false on any vector
with another share at the node's index. -/
def Passes (env : Env MapLock) (c : Session G1) (senderId : String) (shares : List Scalar)
    (commitments : List G1) : Prop :=
  (verifyCommitments senderId shares commitments env c).1 = .ok true ∧
    ∀ altered : List Scalar, altered[c.node.idx.toNat-1]? ≠ shares[c.node.idx.toNat-1]? →
      (verifyCommitments senderId altered commitments env c).1 = .ok false

theorem verified_iff (env : Env MapLock) (c : Session G1) (senderId : String)
    (shares coeffs : List Scalar) :
    (verifyCommitments senderId shares (generateCommitments coeffs) env c).1 = .ok true ↔
      1 ≤ c.node.idx.toNat ∧ c.node.idx.toNat ≤ shares.length ∧
        shares[c.node.idx.toNat-1]? = some (evaluatePolynomial coeffs c.node.idx) := by
  have hsum : ∀ share : Scalar, commitmentSum (c.node.idx.toNat : Scalar)
      (generateCommitments coeffs : List G1) = share•generator ↔
        evaluatePolynomial coeffs c.node.idx = share := by
    intro share
    rw [generateCommitments, commitmentSum_commit]
    exact smul_generator_injective.eq_iff
  rw [verifyCommitments_run, Outcome.ok.injEq, Option.isSome_iff_exists]
  constructor
  · rintro ⟨share,h⟩
    obtain ⟨ho,hs⟩ := accepted_some.mp h
    rw [hsum] at hs
    rw [hs]
    exact ownShare_some.mp ho
  · intro h
    exact ⟨_,accepted_some.mpr ⟨ownShare_some.mpr h,(hsum _).mpr rfl⟩⟩

theorem dealt_at {n : Usize} (coeffs : List Scalar) {idx : UInt64} (h1 : 1 ≤ idx.toNat)
    (hn : idx.toNat ≤ n.toNat) : (dealt n coeffs)[idx.toNat-1]? =
      some (evaluatePolynomial coeffs idx) := by
  have hi : 1+(idx.toNat-1) = idx.toNat := by omega
  rw [dealt, List.getElem?_map, List.getElem?_range' (by omega), one_mul, hi, Option.map_some,
    UInt64.ofNat_toNat]

/-- An honest dealing is accepted at every index up to its number of nodes. -/
theorem accepted_dealt {node : ADKGNode G1} {n : Usize} (coeffs : List Scalar)
    (h1 : 1 ≤ node.idx.toNat) (hn : node.idx.toNat ≤ n.toNat) :
    node.accepted (dealt n coeffs) (generateCommitments coeffs) =
      some (evaluatePolynomial coeffs node.idx) := by
  refine accepted_some.mpr ⟨ownShare_some.mpr ⟨h1,by simpa [dealt] using hn,?_⟩,?_⟩
  · exact dealt_at coeffs h1 hn
  · exact commitmentSum_commit _ coeffs

theorem dealt_passes (env : Env MapLock) {c : Session G1} (senderId : String) {n : Usize}
    (coeffs : List Scalar) (h1 : 1 ≤ c.node.idx.toNat) (hn : c.node.idx.toNat ≤ n.toNat) :
    Passes env c senderId (dealt n coeffs) (generateCommitments coeffs) := by
  constructor
  · rw [verifyCommitments_run, accepted_dealt coeffs h1 hn]
    rfl
  · intro altered ha
    rw [dealt_at coeffs h1 hn] at ha
    have hno := mt (verified_iff env c senderId altered coeffs).mp (fun h => ha h.2.2)
    rw [verifyCommitments_run] at hno ⊢
    simpa using hno

variable [SerdeJson]

/-- The check is exact on commitments to coefficients, and every dealing of
either layer passes it at every index from one to its number of nodes. -/
theorem check_exact :
    (∀ (env : Env MapLock) (c : Session G1) (senderId : String) (shares coeffs : List Scalar),
      (verifyCommitments senderId shares (generateCommitments coeffs) env c).1 = .ok true ↔
        1 ≤ c.node.idx.toNat ∧ c.node.idx.toNat ≤ shares.length ∧
          shares[c.node.idx.toNat-1]? = some (evaluatePolynomial coeffs c.node.idx)) ∧
    (∀ (env : Env MapLock) (c : Session G1) (senderId : String) (policy : Policy)
      (dealer : ADKGNode G1) (rng : Rng) (shares : List Scalar) (commitments : List G1),
      (startADKG rng (Env.top policy) ⟨dealer,⟨[],none⟩⟩).2.swarm.published =
        [(adkgTopic,.shareProposal dealer.id shares commitments)] →
      1 ≤ c.node.idx.toNat → c.node.idx.toNat ≤ dealer.n.toNat →
      Passes env c senderId shares commitments) ∧
    (∀ (env : Env MapLock) (c : Session G1) (senderId : String) (dealer : DKGNode G1) (rng : Rng)
      (shares : List KeyShare) (commitments : List (SerializableG1Affine G1)),
      (settle (startDkg rng) dealer).2 = [.shareDistribution dealer.id shares commitments] →
      1 ≤ c.node.idx.toNat → c.node.idx.toNat ≤ dealer.totalNodes.toNat →
      Passes env c senderId (shares.map (fun s => s.value.scalar))
        (commitments.map (fun c => c.point))) := by
  refine ⟨verified_iff,?_,?_⟩
  · intro env c senderId policy dealer rng shares commitments h h1 hn
    rw [startADKG_published rfl] at h
    simp only [proposal, List.nil_append, List.cons.injEq, Prod.mk.injEq,
      ADKGMessage.shareProposal.injEq, true_and, and_true] at h
    obtain ⟨rfl,rfl⟩ := h
    exact dealt_passes env senderId _ h1 hn
  · intro env c senderId dealer rng shares commitments h h1 hn
    rw [show startDkg rng = perform (.start rng) from rfl, settle_perform] at h
    simp only [outputs, distribution, List.cons.injEq, DKGMessage.shareDistribution.injEq,
      true_and, and_true] at h
    obtain ⟨rfl,rfl⟩ := h
    rw [generateShares_dealt, generateCommitments_points]
    exact dealt_passes env senderId _ h1 hn

end check

section sample
attribute [local instance] compactJson

def second : Session LogPoint := ⟨.new "2" 3 1 2,⟨[],none⟩⟩

theorem second_passes :
    Passes (Env.top .waiting) second "1" [5,5,5] (generateCommitments [5,0]) :=
  check_exact.2.1 _ _ _ .waiting (.new "1" 3 1 1) (constantRng 5) _ _ (by decide +kernel)
    (by decide) (by decide)

end sample
end MpcNode.Adkg
