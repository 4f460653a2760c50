import MpcNode.AdkgVerification
import MpcNode.Reconstruction

/-!
# What an accepted proposal binds its dealer to

The check at one index says nothing about the number of commitments. Nodes
that accept a proposal hold evaluations of one polynomial with as many
coefficients as there are commitments, and a quorum that expects `t+1`
reconstructs the secret of the first commitment up to what the commitments
after those interpolate to.
-/

set_option autoImplicit false

namespace MpcNode.Adkg
open MpcNode.Bls MpcNode.Guarded MpcNode.Messages MpcNode.Reconstruction
open MpcNode.PowerSum MpcNode.Interpolation
open MpcNode.Dkg (commitmentSum commitmentSum_eq evaluate)

section binding
variable {G1 : Type}

def Quorum (t : ℕ) (nodes chosen : List (ADKGNode G1)) : Prop :=
  chosen ⊆ nodes ∧ (chosen.map (fun node => node.idx)).Nodup ∧ chosen.length = t+1

theorem Quorum.card_indices {t : ℕ} {nodes chosen : List (ADKGNode G1)}
    (h : Quorum t nodes chosen) : (chosen.map (fun node => node.idx)).toFinset.card = t+1 := by
  rw [List.toFinset_card_of_nodup h.2.1, List.length_map, h.2.2]

variable [G1Group G1]

def heldShares (senderId : String) (shares : List Scalar) (commitments : List G1)
    (nodes : List (ADKGNode G1)) : Option (List (UInt64 × Scalar)) :=
  nodes.mapM (fun node =>
    ((handleMessage (.shareProposal senderId shares commitments) (Env.top .waiting)
      ⟨node,⟨[],none⟩⟩).2.node.shares.lookup senderId).map (fun share => (node.idx,share)))

/-- Any two quorums reconstruct one secret, that of the first commitment. -/
def Binds (t : ℕ) (senderId : String) (shares : List Scalar) (commitments : List G1)
    (nodes : List (ADKGNode G1)) : Prop :=
  ∀ chosen other, Quorum t nodes chosen → Quorum t nodes other → ∃ secret : Scalar,
    (heldShares senderId shares commitments chosen).bind reconstructSecret = some secret ∧
    (heldShares senderId shares commitments other).bind reconstructSecret = some secret ∧
    commitments.head? = some (secret•generator)

/-- What the commitments after the first `t+1` interpolate to at zero. -/
def surplus (t : ℕ) (commitments : List G1) (chosen : List (ADKGNode G1)) : G1 :=
  combineAtZero (chosen.map (fun node => node.idx)).toFinset point
    (fun i => point i^(t+1)•powerSum (point i) (commitments.drop (t+1)))

theorem exists_logarithms (commitments : List G1) :
    ∃ cs : List Scalar, commitments = cs.map (fun c => c•generator) := by
  induction commitments with
  | nil => exact ⟨[],rfl⟩
  | cons C commitments ih =>
    obtain ⟨c,rfl⟩ := G1Group.generates C
    obtain ⟨cs,rfl⟩ := ih
    exact ⟨c::cs,rfl⟩

theorem accepted_held {senderId : String} {shares cs : List Scalar} {node : ADKGNode G1}
    (h : (node.accepted shares (cs.map (fun c => c•generator))).isSome) :
    (handleMessage (.shareProposal senderId shares (cs.map (fun c => c•generator)))
      (Env.top .waiting) ⟨node,⟨[],none⟩⟩).2.node.shares.lookup senderId =
        some (powerSum (point node.idx) cs) := by
  obtain ⟨share,hs⟩ := Option.isSome_iff_exists.mp h
  have hv := (accepted_some.mp hs).2
  rw [commitmentSum_eq, powerSum_map_smul] at hv
  have hv := smul_generator_injective hv
  rw [handleMessage_node, ADKGNode.take, hs]
  exact (AList.lookup_insert _).trans (congrArg some hv.symm)

theorem heldShares_accepted {senderId : String} {shares cs : List Scalar}
    {nodes : List (ADKGNode G1)}
    (h : ∀ node ∈ nodes, (node.accepted shares (cs.map (fun c => c•generator))).isSome) :
    heldShares senderId shares (cs.map (fun c => c•generator)) nodes =
      some ((nodes.map (fun node => node.idx)).map (fun i => (i,powerSum (point i) cs))) := by
  rw [heldShares, List.map_map]
  apply mapM_some
  intro node hn
  rw [accepted_held (h node hn)]
  rfl

theorem surplus_smul (t : ℕ) (cs : List Scalar) (chosen : List (ADKGNode G1)) :
    surplus t (cs.map (fun c => c•(generator : G1))) chosen =
      atZero (chosen.map (fun node => node.idx)).toFinset point
        (fun i => point i^(t+1)*powerSum (point i) (cs.drop (t+1)))•generator := by
  rw [surplus, ← List.map_drop, ← combineAtZero_smul]
  simp only [powerSum_map_smul, smul_smul]

/-- One quorum reconstructs the secret of the first commitment if and only
if there is one and the surplus vanishes. -/
theorem quorum_binds_iff {t : ℕ} (senderId : String) {shares : List Scalar}
    {commitments : List G1} {nodes chosen : List (ADKGNode G1)}
    (h : ∀ node ∈ nodes, (node.accepted shares commitments).isSome)
    (hq : Quorum t nodes chosen) :
    (∃ secret : Scalar,
      (heldShares senderId shares commitments chosen).bind reconstructSecret = some secret ∧
      commitments.head? = some (secret•generator)) ↔
    commitments ≠ [] ∧ surplus t commitments chosen = 0 := by
  obtain ⟨cs,rfl⟩ := exists_logarithms commitments
  have hcard := hq.card_indices
  have hne : (chosen.map (fun node => node.idx)).toFinset.Nonempty := by
    rw [← Finset.card_pos, hcard]
    exact Nat.succ_pos t
  rw [heldShares_accepted (fun node hm => h node (hq.1 hm)), Option.bind_some,
    reconstructSecret_distinct hq.2.1 (fun i => powerSum (point i) cs),
    atZero_powerSum_drop point_injective.injOn hne, hcard, surplus_smul]
  cases cs with
  | nil => simp
  | cons c cs =>
    constructor
    · rintro ⟨secret,hs,hc⟩
      obtain rfl := Option.some.inj hs
      have hc := smul_generator_injective (Option.some.inj hc)
      exact ⟨by simp,by rw [left_eq_add.mp hc, zero_smul]⟩
    · rintro ⟨-,hz⟩
      refine ⟨c,?_,rfl⟩
      rw [G1Group.faithful _ hz, add_zero]
      rfl

/-- Accepting nodes bind the dealer if and only if, for each quorum of them,
there is a first commitment and the surplus vanishes. -/
theorem binds_iff (t : ℕ) (senderId : String) (shares : List Scalar) (commitments : List G1)
    (nodes : List (ADKGNode G1))
    (h : ∀ node ∈ nodes, (verifyCommitments senderId shares commitments (Env.top .waiting)
      ⟨node,⟨[],none⟩⟩).1 = .ok true) :
    Binds t senderId shares commitments nodes ↔
      ∀ chosen, Quorum t nodes chosen → commitments ≠ [] ∧ surplus t commitments chosen = 0 := by
  have ha : ∀ node ∈ nodes, (node.accepted shares commitments).isSome := by
    intro node hm
    have hv := h node hm
    rw [verifyCommitments_run] at hv
    exact Outcome.ok.inj hv
  constructor
  · intro hb chosen hq
    obtain ⟨secret,hs,-,hc⟩ := hb chosen chosen hq hq
    exact (quorum_binds_iff senderId ha hq).mp ⟨secret,hs,hc⟩
  · intro hz chosen other hq hq'
    obtain ⟨secret,hs,hc⟩ := (quorum_binds_iff senderId ha hq).mpr (hz chosen hq)
    obtain ⟨secret',hs',hc'⟩ := (quorum_binds_iff senderId ha hq').mpr (hz other hq')
    rw [hc] at hc'
    obtain rfl := smul_generator_injective (Option.some.inj hc')
    exact ⟨secret,hs,hs',hc⟩

end binding

section square

def triple : List (ADKGNode LogPoint) := [.new "1" 3 1 1,.new "2" 3 1 2,.new "3" 3 1 3]

def squareShares : List Scalar := [1,4,9]

theorem square_accepted : ∀ node ∈ triple,
    (verifyCommitments "dealer" squareShares (generateCommitments [0,0,1]) (Env.top .waiting)
      ⟨node,⟨[],none⟩⟩).1 = .ok true := by
  decide +kernel

/-- Three nodes of threshold one accept the square, and two pairs of them
reconstruct different secrets. -/
theorem square_not_bound : ¬ ((∀ node ∈ triple,
    (verifyCommitments "dealer" squareShares (generateCommitments [0,0,1]) (Env.top .waiting)
      ⟨node,⟨[],none⟩⟩).1 = .ok true) →
    Binds 1 "dealer" squareShares (generateCommitments [0,0,1]) triple) := by
  intro h
  obtain ⟨secret,h1,h2,-⟩ := h square_accepted [.new "1" 3 1 1,.new "2" 3 1 2]
    [.new "1" 3 1 1,.new "3" 3 1 3] ⟨by simp [triple],by decide,rfl⟩
    ⟨by simp [triple],by decide,rfl⟩
  have he := h1.trans h2.symm
  revert he
  decide +kernel

theorem square_binds_iff : Binds 1 "dealer" squareShares (generateCommitments [0,0,1]) triple ↔
    ∀ chosen, Quorum 1 triple chosen → (generateCommitments [0,0,1] : List LogPoint) ≠ [] ∧
      surplus 1 (generateCommitments [0,0,1]) chosen = 0 :=
  binds_iff 1 "dealer" squareShares (generateCommitments [0,0,1]) triple square_accepted

end square
end MpcNode.Adkg
