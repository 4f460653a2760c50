import MpcNode.DkgNetwork

/-!
# What one subscriber reads of a dealing

A dealing is one gossip message with every share in it, so each subscriber
reads the polynomial at all node numbers. These are more evaluations than
the polynomial has free coefficients, and they fix the secret.
-/

set_option autoImplicit false

namespace MpcNode.Dkg
open MpcNode.Bls MpcNode.Messages MpcNode.Wire MpcNode.Broadcast MpcNode.PowerSum

def shareValues {G1 : Type} (msgs : List (DKGMessage G1)) : List Scalar :=
  msgs.flatMap (fun
    | .shareDistribution _ shares _ => shares.map (fun s => s.value.scalar)
    | .shareValidation _ _ _ => [])

section view
variable {G1 : Type} [G1Group G1] [SerdeJson] {total : Usize}

/-- The share values `r` receives when `d` starts with these random draws. -/
def view (G1 : Type) [G1Group G1] (total : Usize) (ids : Fin total.toNat → String)
    (threshold : Usize) (d r : Fin total.toNat) (rng : Rng) : List Scalar :=
  shareValues (((Broadcast.start (nodes ids threshold total)).apply
    (protocol total.toNat : Protocol _ (DKGNode G1) _ _) d (.command rng)
      (fun _ _ => [])).flight d r)

theorem view_eq {ids : Fin total.toNat → String} {threshold : Usize} {d r : Fin total.toNat}
    (hr : r ≠ d) (rng : Rng) :
    view G1 total ids threshold d r rng = (List.range' 1 total.toNat).map
      (fun i : ℕ => evaluate (drawn threshold rng) (i : Scalar)) := by
  rw [view, protocol_eq_outline]
  have hf : ((Broadcast.start (nodes ids threshold total)).apply
      (outline total.toNat : Protocol _ (DKGNode G1) _ _) d (.command rng)
      (fun _ _ => [])).flight d r = [distribution (.new (ids d) threshold total) rng] := by
    simp only [Net.apply, emit, hr, ne_eq, not_false_eq_true, and_self, if_true, List.nil_append]
    rfl
  rw [hf]
  simp only [shareValues, List.flatMap_singleton, distribution, DKGNode.generateShares,
    List.map_map, Function.comp_def]
  rfl

theorem view_determines {ids : Fin total.toNat → String} {threshold : Usize}
    {d r : Fin total.toNat} (htn : threshold.toNat < total.toNat) (hr : r ≠ d) {rng rng' : Rng}
    (h : view G1 total ids threshold d r rng' = view G1 total ids threshold d r rng) :
    drawn threshold rng' = drawn threshold rng := by
  rw [view_eq hr, view_eq hr, List.map_inj_left] at h
  have hlen : ∀ r : Rng, (drawn threshold r).length = (Finset.Icc 1 (threshold.toNat+1)).card := by
    intro r
    simp [drawn]
  have ht := total.toNat_lt
  apply powerSum_determines (Finset.Icc 1 (threshold.toNat+1)) (fun i : ℕ => (i : Scalar))
  · intro i hi j hj hij
    have hi := (Finset.mem_Icc.mp hi).2
    have hj := (Finset.mem_Icc.mp hj).2
    exact scalar_cast_inj (by omega) (by omega) hij
  · exact hlen rng'
  · exact hlen rng
  · intro i hi
    obtain ⟨h1,h2⟩ := Finset.mem_Icc.mp hi
    rw [← evaluate_eq, ← evaluate_eq]
    exact h i (List.mem_range'_1.mpr ⟨h1,by omega⟩)

/-- With more nodes than the threshold, the share values that one other node
receives fit one secret only, the dealer's. -/
theorem view_fits_iff (ids : Fin total.toNat → String) {threshold : Usize} {d r : Fin total.toNat}
    (htn : threshold.toNat < total.toNat) (hr : r ≠ d) (rng : Rng) (secret : Scalar) :
    (∃ rng', (drawn threshold rng').head? = some secret ∧
      view G1 total ids threshold d r rng' = view G1 total ids threshold d r rng) ↔
    (drawn threshold rng).head? = some secret := by
  constructor
  · rintro ⟨rng',hs,h⟩
    rwa [view_determines htn hr h] at hs
  · intro hs
    exact ⟨rng,hs,rfl⟩

end view

section pair
attribute [local instance] compactJson

theorem pair_view_not_secret : ¬ ∀ secret, ∃ rng', (drawn 1 rng').head? = some secret ∧
    view LogPoint 2 (fun _ => "1") 1 ⟨0,by decide⟩ ⟨1,by decide⟩ rng' =
      view LogPoint 2 (fun _ => "1") 1 ⟨0,by decide⟩ ⟨1,by decide⟩ (constantRng 0) := by
  intro h
  obtain ⟨rng',hs,hv⟩ := h 1
  rw [view_determines (by decide) (by decide) hv] at hs
  revert hs
  decide +kernel

theorem pair_view_fits_iff : (∃ rng', (drawn 1 rng').head? = some 5 ∧
    view LogPoint 2 (fun _ => "1") 1 ⟨0,by decide⟩ ⟨1,by decide⟩ rng' =
      view LogPoint 2 (fun _ => "1") 1 ⟨0,by decide⟩ ⟨1,by decide⟩ (constantRng 5)) ↔
    (drawn 1 (constantRng 5)).head? = some 5 :=
  view_fits_iff _ (by decide) (by decide) _ _

end pair
end MpcNode.Dkg
