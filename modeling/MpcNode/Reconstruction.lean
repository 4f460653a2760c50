import MpcNode.Dkg
import MpcNode.Library.Interpolation

/-!
# Reconstructing a dealt secret

The interpolation loop of the first key generation layer, which panics where
a denominator has no inverse. Denominators are differences of unequal 64-bit
indices, so it never does. A dealt polynomial has one coefficient more than
the threshold: as many shares as the threshold give the secret back only if
its leading coefficient is zero.
-/

set_option autoImplicit false

namespace MpcNode.Reconstruction
open MpcNode.Bls MpcNode.Dkg MpcNode.Messages MpcNode.PowerSum MpcNode.Interpolation

/-- `Scalar::invert`. -/
def invert (x : Scalar) : Option Scalar := if x = 0 then none else some x⁻¹

/-- The inner loop of `reconstruct_secret`, for the share at `i`. -/
def reconstructTerm (shares : List (UInt64 × Scalar)) (i : UInt64) (share : Scalar) :
    Option Scalar :=
  (shares.filter (fun q => q.1 ≠ i)).foldlM (fun term q => do
    let num := (q.1.toNat : Scalar)
    let den := (q.1.toNat : Scalar)-(i.toNat : Scalar)
    -- none is the panic of `unwrap`
    let inverse ← invert den
    pure (term*(num*inverse))) share

def reconstructSecret (shares : List (UInt64 × Scalar)) : Option Scalar :=
  shares.foldlM (fun secret p => do
    let term ← reconstructTerm shares p.1 p.2
    pure (secret+term)) 0

section loops
variable {α β : Type}

theorem foldlM_some (next : β → α → β) {step : β → α → Option β} {as : List α}
    (h : ∀ b, ∀ a ∈ as, step b a = some (next b a)) (b : β) :
    as.foldlM step b = some (as.foldl next b) := by
  induction as generalizing b with
  | nil => rfl
  | cons a as ih =>
    rw [List.foldlM_cons, h b a (by simp), List.foldl_cons]
    exact ih (fun b' a' ha => h b' a' (List.mem_cons_of_mem _ ha)) _

theorem mapM_some (next : α → β) {f : α → Option β} {as : List α}
    (h : ∀ a ∈ as, f a = some (next a)) : as.mapM f = some (as.map next) := by
  induction as with
  | nil => rfl
  | cons a as ih =>
    rw [List.mapM_cons, h a List.mem_cons_self, ih (fun b hb => h b (List.mem_cons_of_mem a hb))]
    rfl

theorem foldl_mul (f : α → Scalar) (as : List α) (b : Scalar) :
    as.foldl (fun x a => x*f a) b = b*(as.map f).prod := by
  induction as generalizing b with
  | nil => simp
  | cons a as ih => rw [List.foldl_cons, ih, List.map_cons, List.prod_cons, mul_assoc]

end loops

/-- The evaluation point of an index. -/
def point (i : UInt64) : Scalar := (i.toNat : Scalar)

theorem point_injective : Function.Injective point := by
  intro i j h
  exact UInt64.toNat_inj.mp (scalar_cast_inj i.toNat_lt j.toNat_lt h)

theorem point_ofNat {i : ℕ} (hi : i < 2^64) : point (UInt64.ofNat i) = (i : Scalar) := by
  rw [point, UInt64.toNat_ofNat', Nat.mod_eq_of_lt hi]

def weight (shares : List (UInt64 × Scalar)) (i : UInt64) : Scalar :=
  ((shares.filter (fun q => q.1 ≠ i)).map (fun q => point q.1*(point q.1-point i)⁻¹)).prod

theorem reconstructTerm_eq (shares : List (UInt64 × Scalar)) (i : UInt64) (share : Scalar) :
    reconstructTerm shares i share = some (share*weight shares i) := by
  have hstep : ∀ term : Scalar, ∀ q ∈ shares.filter (fun q => q.1 ≠ i),
      (invert (point q.1-point i)).bind (fun inverse => some (term*(point q.1*inverse))) =
        some (term*(point q.1*(point q.1-point i)⁻¹)) := by
    intro term q hq
    have hne : q.1 ≠ i := by simpa using (List.mem_filter.mp hq).2
    rw [invert, if_neg (sub_ne_zero.mpr (fun h => hne (point_injective h))), Option.bind_some]
  have hloop := foldlM_some _ hstep share
  rw [foldl_mul] at hloop
  exact hloop

/-- The loop never panics. -/
theorem reconstructSecret_eq (shares : List (UInt64 × Scalar)) :
    reconstructSecret shares = some (shares.map (fun p => p.2*weight shares p.1)).sum := by
  have hstep : ∀ secret : Scalar, ∀ p ∈ shares,
      (reconstructTerm shares p.1 p.2).bind (fun term => some (secret+term)) =
        some (secret+p.2*weight shares p.1) := by
    intro secret p _
    rw [reconstructTerm_eq, Option.bind_some]
  have hloop := foldlM_some _ hstep 0
  rw [Tables.foldl_add, zero_add] at hloop
  exact hloop

/-- On different indices it interpolates at zero. -/
theorem reconstructSecret_distinct {is : List UInt64} (hn : is.Nodup) (f : UInt64 → Scalar) :
    reconstructSecret (is.map (fun i => (i,f i))) = some (atZero is.toFinset point f) := by
  rw [reconstructSecret_eq, List.map_map, atZero, List.sum_toFinset _ hn]
  congr 2
  apply List.map_congr_left
  intro i _
  have he : is.toFinset.erase i = (is.filter (fun j => j ≠ i)).toFinset := by
    ext j
    simp [and_comm]
  rw [he, List.prod_toFinset _ (hn.filter _)]
  simp only [Function.comp_apply, weight, List.filter_map, List.map_map]
  rfl

/-- The same for pairs that belong to parties of different indices. -/
theorem reconstructSecret_parties {ι : Type} [DecidableEq ι] {idx : ι → UInt64}
    (hidx : Function.Injective idx) {parties : List ι} (hn : parties.Nodup) (f : ι → Scalar) :
    reconstructSecret (parties.map (fun i => (idx i,f i))) =
      some (atZero parties.toFinset (fun i => point (idx i)) f) := by
  have hf : ∀ i, Function.extend idx f 0 (idx i) = f i := hidx.extend_apply f 0
  have h := reconstructSecret_distinct (hn.map hidx) (Function.extend idx f 0)
  have himage : (parties.map idx).toFinset = parties.toFinset.image idx := by
    ext i
    simp
  rw [List.map_map, himage, atZero_image hidx] at h
  simp only [Function.comp_def, hf] at h
  exact h

section quorum
variable {G1 : Type}

theorem mem_generateShares {node : DKGNode G1} {polynomial : List Scalar} {share : KeyShare}
    (h : share ∈ node.generateShares polynomial) :
    point share.index ≠ 0 ∧ share.value.scalar = powerSum (point share.index) polynomial := by
  obtain ⟨i,hi,rfl⟩ := List.mem_map.mp h
  rw [List.mem_range'_1] at hi
  have hlt : i < 2^64 := by
    have := node.totalNodes.toNat_lt
    omega
  rw [point_ofNat hlt, evaluate_eq]
  refine ⟨fun hz => ?_,rfl⟩
  have h0 := scalar_cast_inj hlt (by decide : 0 < 2^64) (by rw [hz, Nat.cast_zero])
  omega

theorem shares_as_points {node : DKGNode G1} {polynomial : List Scalar} {shares : List KeyShare}
    (h : ∀ share ∈ shares, share ∈ node.generateShares polynomial) :
    shares.map (fun s => (s.index,s.value.scalar)) =
      (shares.map (fun s => s.index)).map (fun i => (i,powerSum (point i) polynomial)) := by
  rw [List.map_map]
  apply List.map_congr_left
  intro s hs
  rw [(mem_generateShares (h s hs)).2]
  rfl

theorem indices_nodup {node : DKGNode G1} {polynomial : List Scalar} {shares : List KeyShare}
    (h : ∀ share ∈ shares, share ∈ node.generateShares polynomial) (hn : shares.Nodup) :
    (shares.map (fun s => s.index)).Nodup := by
  apply hn.map_on
  intro s hs t ht hst
  obtain ⟨i,⟨v⟩⟩ := s
  obtain ⟨j,⟨w⟩⟩ := t
  obtain rfl : i = j := hst
  have hv : v = powerSum (point i) polynomial := (mem_generateShares (h _ hs)).2
  have hw : w = powerSum (point i) polynomial := (mem_generateShares (h _ ht)).2
  rw [hv, hw]

/-- As many different shares as the threshold give the secret back if and
only if the polynomial drawn has a zero leading coefficient. -/
theorem quorum_reconstructs_iff (node : DKGNode G1) (rng : Rng) (shares : List KeyShare)
    (hn : shares.Nodup) (hl : shares.length = node.threshold.toNat)
    (h : ∀ share ∈ shares, share ∈ node.generateShares (node.generatePolynomial rng)) :
    reconstructSecret (shares.map (fun s => (s.index,s.value.scalar))) =
        (node.generatePolynomial rng).head? ↔
      (node.generatePolynomial rng).getLast? = some 0 := by
  generalize hp : node.generatePolynomial rng = p at h ⊢
  have hlen : p.length = node.threshold.toNat+1 := by
    rw [← hp, DKGNode.generatePolynomial, List.length_map, List.length_range]
  have hcard : (shares.map (fun s => s.index)).toFinset.card = node.threshold.toNat := by
    rw [List.toFinset_card_of_nodup (indices_nodup h hn), List.length_map, hl]
  have hpoints : ∏ i ∈ (shares.map (fun s => s.index)).toFinset, -point i ≠ 0 := by
    rw [Finset.prod_ne_zero_iff]
    intro i hi
    obtain ⟨s,hs,rfl⟩ := List.mem_map.mp (List.mem_toFinset.mp hi)
    exact neg_ne_zero.mpr (mem_generateShares (h s hs)).1
  have hzero := powerSum_zero_eq point_injective.injOn (hlen.trans (congrArg (·+1) hcard.symm))
  have hhead : p.head? = some (powerSum (0 : Scalar) p) := by
    cases p with
    | nil => simp at hlen
    | cons c cs => simp
  have hlast : p.getLast? = some (p[node.threshold.toNat]?.getD 0) := by
    rw [List.getLast?_eq_getElem?, hlen, Nat.add_sub_cancel,
      List.getElem?_eq_getElem (by omega), Option.getD_some]
  rw [shares_as_points h, reconstructSecret_distinct (indices_nodup h hn), hhead, hlast, hzero,
    hcard, Option.some_inj, Option.some_inj, left_eq_add, mul_eq_zero, or_iff_left hpoints]

end quorum

section linear

def linearNode : DKGNode LogPoint := .new "1" 1 2

def linearRng : Rng := fun k => (k : Scalar)

def linearShares : List KeyShare := [⟨1,⟨1⟩⟩]

theorem linear_dealt : ∀ share ∈ linearShares,
    share ∈ linearNode.generateShares (linearNode.generatePolynomial linearRng) := by
  decide +kernel

/-- One share of threshold one gives another secret than the dealt one. -/
theorem linear_not_reconstructed : ¬ ∀ shares : List KeyShare, shares.Nodup →
    shares.length = linearNode.threshold.toNat →
    (∀ share ∈ shares,
      share ∈ linearNode.generateShares (linearNode.generatePolynomial linearRng)) →
    reconstructSecret (shares.map (fun s => (s.index,s.value.scalar))) =
      (linearNode.generatePolynomial linearRng).head? := by
  intro h
  have hs := h linearShares (by decide) rfl linear_dealt
  revert hs
  decide +kernel

def quadraticNode : DKGNode LogPoint := .new "1" 2 3

def quadraticShares : List KeyShare := [⟨3,⟨21⟩⟩,⟨2,⟨10⟩⟩]

theorem quadratic_quorum_reconstructs_iff :
    reconstructSecret [(3,21),(2,10)] = some 0 ↔ some (2 : Scalar) = some 0 :=
  quorum_reconstructs_iff quadraticNode linearRng quadraticShares (by decide) rfl
    (by decide +kernel)

end linear
end MpcNode.Reconstruction
