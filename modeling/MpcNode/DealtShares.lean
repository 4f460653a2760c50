import MpcNode.Reconstruction

/-!
# What dealt shares determine

One share more than the polynomial has free coefficients gives the secret
back, in any order and with any further shares. As many shares as there are
free coefficients fit every secret, each with one polynomial. Shares of
several dealings add up to shares of the sum of their secrets.
-/

set_option autoImplicit false

namespace MpcNode.Reconstruction
open MpcNode.Bls MpcNode.Dkg MpcNode.Messages MpcNode.PowerSum MpcNode.Interpolation

variable {G1 : Type}

theorem point_ne_zero {i : UInt64} (hi : 1 ≤ i.toNat) : point i ≠ 0 := by
  intro hz
  have h0 := scalar_cast_inj i.toNat_lt (by decide : 0 < 2^64) (by rw [← point, hz, Nat.cast_zero])
  omega

theorem evaluations_reconstruct {is : List UInt64} (hn : is.Nodup) {coefficients : List Scalar}
    (hl : coefficients.length ≤ is.length) :
    reconstructSecret (is.map (fun i => (i,powerSum (point i) coefficients))) =
      some (coefficients.headD 0) := by
  rw [reconstructSecret_distinct hn (fun i => powerSum (point i) coefficients),
    atZero_powerSum point_injective.injOn (by rwa [List.toFinset_card_of_nodup hn])]

/-- Any list of more different shares than the degree gives the constant
coefficient, and no list of pairs makes the loop panic. -/
theorem shares_reconstruct : (∀ pairs : List (UInt64 × Scalar), (reconstructSecret pairs).isSome) ∧
    ∀ (node : DKGNode G1) (t : ℕ) (coefficients : List Scalar) (shares : List KeyShare),
      coefficients.length = t+1 → shares.Nodup → t+1 ≤ shares.length →
      (∀ share ∈ shares, share ∈ node.generateShares coefficients) →
      reconstructSecret (shares.map (fun s => (s.index,s.value.scalar))) = coefficients.head? := by
  constructor
  · intro pairs
    rw [reconstructSecret_eq]
    rfl
  · intro node t coefficients shares hc hn hl h
    rw [shares_as_points h, evaluations_reconstruct (indices_nodup h hn)
      (by rw [List.length_map, hc]; exact hl)]
    cases coefficients with
    | nil => cases hc
    | cons c cs => rfl

theorem linear_shares_reconstruct : reconstructSecret [(2,3),(1,2)] = some 1 :=
  shares_reconstruct.2 linearNode 1 [1,1] [⟨2,⟨3⟩⟩,⟨1,⟨2⟩⟩] rfl (by decide) (by decide)
    (by decide +kernel)

section secrecy

def sharesAt (S : Finset UInt64) (shares : List KeyShare) : List KeyShare :=
  shares.filter (fun s => s.index ∈ S)

theorem sharesAt_eq_iff (node : DKGNode G1) {S : Finset UInt64}
    (hS : ∀ i ∈ S, 1 ≤ i.toNat ∧ i.toNat ≤ node.totalNodes.toNat) (p q : List Scalar) :
    sharesAt S (node.generateShares p) = sharesAt S (node.generateShares q) ↔
      ∀ i ∈ S, powerSum (point i) p = powerSum (point i) q := by
  have hf : ∀ r, sharesAt S (node.generateShares r) =
      ((List.range' 1 node.totalNodes.toNat).filter (fun i => UInt64.ofNat i ∈ S)).map
        (fun i => ⟨UInt64.ofNat i,⟨powerSum (i : Scalar) r⟩⟩) := by
    intro r
    rw [sharesAt, DKGNode.generateShares, List.filter_map]
    simp only [Function.comp_def, evaluate_eq]
  rw [hf, hf, List.map_inj_left]
  constructor
  · intro h i hi
    have hr := hS i hi
    have he := h i.toNat (List.mem_filter.mpr
      ⟨List.mem_range'_1.mpr ⟨hr.1,by omega⟩,by simpa using hi⟩)
    exact congrArg (fun s : KeyShare => s.value.scalar) he
  · intro h i hi
    obtain ⟨hr,hm⟩ := List.mem_filter.mp hi
    have hr := List.mem_range'_1.mp hr
    have ht := node.totalNodes.toNat_lt
    rw [← point_ofNat (by omega : i < 2^64), h _ (of_decide_eq_true hm)]

/-- No more shares than free coefficients fit every secret, and as many of
them fit each secret with one polynomial only. -/
theorem few_shares_hide (node : DKGNode G1) (p : List Scalar) {t : ℕ} {S : Finset UInt64}
    (hS : ∀ i ∈ S, 1 ≤ i.toNat ∧ i.toNat ≤ node.totalNodes.toNat)
    (ht : S.card ≤ t) (secret : Scalar) :
    (∃ p' : List Scalar, p'.length = t+1 ∧ p'.head? = some secret ∧
      sharesAt S (node.generateShares p') = sharesAt S (node.generateShares p)) ∧
    (S.card = t → ∃! p' : List Scalar, p'.length = t+1 ∧ p'.head? = some secret ∧
      sharesAt S (node.generateShares p') = sharesAt S (node.generateShares p)) := by
  have h0 : ∀ i ∈ S, point i ≠ 0 := fun i hi => point_ne_zero (hS i hi).1
  simp only [sharesAt_eq_iff node hS]
  have hexists := exists_coefficients point_injective.injOn h0 (fun i => powerSum (point i) p)
    secret ht
  refine ⟨hexists,fun hcard => ?_⟩
  obtain ⟨p',hl,hs,he⟩ := hexists
  refine ⟨p',⟨hl,hs,he⟩,?_⟩
  rintro q ⟨hql,hqs,hqe⟩
  rw [← hcard] at hl hql
  exact coefficients_unique point_injective.injOn h0 hql hl (hqs.trans hs.symm)
    (fun i hi => (hqe i hi).trans (he i hi).symm)

theorem linear_shares_hide : ∃! p' : List Scalar, p'.length = 2 ∧ p'.head? = some 5 ∧
    sharesAt {2} (linearNode.generateShares p') = sharesAt {2} (linearNode.generateShares [1,1]) :=
  (few_shares_hide linearNode [1,1] (by simp [linearNode, DKGNode.new]) (Nat.le_refl 1) 5).2 rfl

end secrecy

section sums

abbrev Dealer (G1 : Type) := DKGNode G1 × List Scalar

/-- The sum that the node of index `i` forms of its shares. -/
def sumAt (dealers : List (Dealer G1)) (i : UInt64) : Scalar :=
  (((dealers.flatMap (fun d => d.1.generateShares d.2)).filter (fun s => s.index = i)).map
    (fun s => s.value.scalar)).sum

def firstCommitment (G1 : Type) [G1Group G1] (polynomial : List Scalar) : G1 :=
  ((generateCommitments polynomial).map (fun c => c.point)).headD 0

theorem firstCommitment_eq [G1Group G1] (polynomial : List Scalar) :
    firstCommitment G1 polynomial = polynomial.headD 0•generator := by
  cases polynomial with
  | nil => exact (zero_smul _ _).symm
  | cons c cs => rfl

theorem generateShares_at (node : DKGNode G1) (p : List Scalar) {i : UInt64} (h1 : 1 ≤ i.toNat)
    (hn : i.toNat ≤ node.totalNodes.toNat) :
    (node.generateShares p).filter (fun s => s.index = i) = [⟨i,⟨powerSum (point i) p⟩⟩] := by
  have ht := node.totalNodes.toNat_lt
  have hf : (List.range' 1 node.totalNodes.toNat).filter (fun k => UInt64.ofNat k = i) =
      [i.toNat] := by
    have hk : ∀ k ∈ List.range' 1 node.totalNodes.toNat,
        decide (UInt64.ofNat k = i) = (k == i.toNat) := by
      intro k hk
      have hr := List.mem_range'_1.mp hk
      rw [Bool.eq_iff_iff, decide_eq_true_eq, beq_iff_eq, ← UInt64.toNat_inj, UInt64.toNat_ofNat',
        Nat.mod_eq_of_lt (by omega)]
    rw [List.filter_congr hk, List.filter_beq, List.count_eq_one_of_mem List.nodup_range'
      (List.mem_range'_1.mpr ⟨h1,by omega⟩), List.replicate_one]
  rw [DKGNode.generateShares, List.filter_map]
  simp only [Function.comp_def, hf, List.map_cons, List.map_nil, UInt64.ofNat_toNat, evaluate_eq]
  rfl

theorem sumAt_eq {n : Usize} {dealers : List (Dealer G1)} (hn : ∀ d ∈ dealers, d.1.totalNodes = n)
    {i : UInt64} (hi : 1 ≤ i.toNat ∧ i.toNat ≤ n.toNat) :
    sumAt dealers i = (dealers.map (fun d => powerSum (point i) d.2)).sum := by
  induction dealers with
  | nil => rfl
  | cons d dealers ih =>
    have hd : i.toNat ≤ d.1.totalNodes.toNat := (hn d List.mem_cons_self).symm ▸ hi.2
    rw [sumAt, List.flatMap_cons, List.filter_append, generateShares_at d.1 d.2 hi.1 hd,
      List.map_append, List.sum_append, List.map_cons, List.sum_cons]
    congr 1
    · exact List.sum_singleton
    · exact ih (fun e he => hn e (List.mem_cons_of_mem d he))

/-- What enough nodes reconstruct of their sums is the sum of all secrets,
and the sum of the first commitments commits to it. -/
theorem dealings_add_up [G1Group G1] {n : Usize} {t : ℕ} {dealers : List (Dealer G1)}
    (hn : ∀ d ∈ dealers, d.1.totalNodes = n) (hc : ∀ d ∈ dealers, d.2.length = t+1)
    {nodes : List UInt64} (hd : nodes.Nodup)
    (hr : ∀ i ∈ nodes, 1 ≤ i.toNat ∧ i.toNat ≤ n.toNat) (hl : t+1 ≤ nodes.length) :
    ∃ secret, reconstructSecret (nodes.map (fun i => (i,sumAt dealers i))) = some secret ∧
      secret = (dealers.map (fun d => d.2.headD 0)).sum ∧
      secret•generator = (dealers.map (fun d => firstCommitment G1 d.2)).sum := by
  have hs : nodes.map (fun i => (i,sumAt dealers i)) =
      nodes.map (fun i => (i,(dealers.map (fun d => powerSum (point i) d.2)).sum)) := by
    apply List.map_congr_left
    intro i hi
    rw [sumAt_eq hn (hr i hi)]
  have hz : ∀ d ∈ dealers,
      atZero nodes.toFinset point (fun i => powerSum (point i) d.2) = d.2.headD 0 := by
    intro d hm
    exact atZero_powerSum point_injective.injOn
      (by rwa [List.toFinset_card_of_nodup hd, hc d hm])
  refine ⟨_,?_,rfl,?_⟩
  · rw [hs, reconstructSecret_distinct hd
      (fun i => (dealers.map (fun d => powerSum (point i) d.2)).sum),
      atZero_sum nodes.toFinset point dealers (fun d i => powerSum (point i) d.2),
      List.map_congr_left hz]
  · rw [List.sum_smul, List.map_map]
    congr 1
    apply List.map_congr_left
    intro d _
    exact (firstCommitment_eq d.2).symm

theorem linear_dealings_add_up : ∃ secret,
    reconstructSecret [(1,3),(2,4)] = some secret ∧ secret = 2 ∧
      secret•(generator : LogPoint) =
        firstCommitment LogPoint [1,1]+(firstCommitment LogPoint [1,0]+0) :=
  @dealings_add_up LogPoint _ 2 1 [(linearNode,[1,1]),(linearNode,[1,0])] (by decide) (by decide)
    [1,2] (by decide) (by simp) (by decide)

end sums
end MpcNode.Reconstruction
