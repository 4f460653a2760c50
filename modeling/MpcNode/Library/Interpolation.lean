import MpcNode.Library.PowerSum

/-!
# Interpolation at zero

The interpolation of finitely many values, taken at zero, as a sum of
products. One evaluation too few misses the constant coefficient by the
leading one times the product of the points.
-/

set_option autoImplicit false

namespace MpcNode.Interpolation
open Polynomial MpcNode.PowerSum

variable {F ι : Type} [Field F]

theorem degree_sub_nodal_lt (s : Finset ι) (v : ι → F) {cs : List F}
    (hl : cs.length = s.card+1) :
    (toPoly cs - C ((toPoly cs).coeff s.card)*Lagrange.nodal s v).degree < s.card := by
  rw [Polynomial.degree_lt_iff_coeff_zero]
  intro m hm
  rw [coeff_sub, coeff_C_mul]
  rcases Nat.eq_or_lt_of_le hm with rfl | hlt
  · have hn : (Lagrange.nodal s v).coeff s.card = 1 := by
      have h := (Lagrange.nodal_monic (s := s) (v := v)).coeff_natDegree
      rwa [Lagrange.natDegree_nodal] at h
    rw [hn, mul_one, sub_self]
  · have hn : (Lagrange.nodal s v).coeff m = 0 :=
      coeff_eq_zero_of_natDegree_lt (by rwa [Lagrange.natDegree_nodal])
    rw [hn, mul_zero, sub_zero, coeff_toPoly, List.getElem?_eq_none (by omega), Option.getD_none]

theorem exists_powerSum {s : Finset ι} {v : ι → F} (hv : Set.InjOn v s) (y : ι → F) {t : ℕ}
    (ht : s.card ≤ t) : ∃ cs : List F, cs.length = t ∧ ∀ i ∈ s, powerSum (v i) cs = y i := by
  classical
  have hd : (Lagrange.interpolate s v y).degree < t :=
    (Lagrange.degree_interpolate_lt y hv).trans_le (WithBot.coe_le_coe.mpr ht)
  refine ⟨(List.range t).map (Lagrange.interpolate s v y).coeff,by simp,fun i hi => ?_⟩
  rw [← eval_toPoly, toPoly_map_coeff hd, Lagrange.eval_interpolate_at_node y hv hi]

/-- With a free coefficient for each of the points, none of them zero, any
constant coefficient fits any values. -/
theorem exists_coefficients {s : Finset ι} {v : ι → F} (hv : Set.InjOn v s)
    (h0 : ∀ i ∈ s, v i ≠ 0) (y : ι → F) (c : F) {t : ℕ} (ht : s.card ≤ t) :
    ∃ cs : List F, cs.length = t+1 ∧ cs.head? = some c ∧ ∀ i ∈ s, powerSum (v i) cs = y i := by
  obtain ⟨ds,hl,hd⟩ := exists_powerSum hv (fun i => (v i)⁻¹*(y i-c)) ht
  refine ⟨c::ds,by rw [List.length_cons, hl],rfl,fun i hi => ?_⟩
  rw [powerSum_cons, hd i hi, smul_eq_mul, mul_inv_cancel_left₀ (h0 i hi), add_sub_cancel]

/-- With no coefficient to spare, only one list does. -/
theorem coefficients_unique {s : Finset ι} {v : ι → F} (hv : Set.InjOn v s)
    (h0 : ∀ i ∈ s, v i ≠ 0) {cs ds : List F} (hc : cs.length = s.card+1)
    (hd : ds.length = s.card+1) (hz : cs.head? = ds.head?)
    (h : ∀ i ∈ s, powerSum (v i) cs = powerSum (v i) ds) : cs = ds := by
  cases cs with
  | nil => simp at hc
  | cons c cs =>
    cases ds with
    | nil => simp at hd
    | cons d ds =>
      obtain rfl : c = d := Option.some.inj hz
      congr 1
      apply powerSum_determines s v hv (Nat.succ.inj hc) (Nat.succ.inj hd)
      intro i hi
      have he := add_left_cancel (h i hi)
      exact smul_right_injective F (h0 i hi) he

variable [DecidableEq ι]

def atZero (s : Finset ι) (v y : ι → F) : F :=
  ∑ i ∈ s, y i*∏ j ∈ s.erase i, v j*(v j-v i)⁻¹

theorem atZero_eq (s : Finset ι) (v y : ι → F) :
    (Lagrange.interpolate s v y).eval 0 = atZero s v y := by
  rw [Lagrange.interpolate_apply, eval_finsetSum, atZero]
  apply Finset.sum_congr rfl
  intro i _
  rw [eval_mul, eval_C, Lagrange.basis, eval_prod]
  congr 1
  apply Finset.prod_congr rfl
  intro j _
  rw [Lagrange.basisDivisor, eval_mul, eval_C, eval_sub, eval_X, eval_C, ← neg_sub (v j),
    inv_neg]
  ring

theorem atZero_image {κ : Type} [DecidableEq κ] {e : κ → ι} (he : Function.Injective e)
    (s : Finset κ) (v y : ι → F) :
    atZero (s.image e) v y = atZero s (fun k => v (e k)) (fun k => y (e k)) := by
  rw [atZero, Finset.sum_image (fun i _ j _ hij => he hij), atZero]
  apply Finset.sum_congr rfl
  intro i _
  rw [← Finset.image_erase he, Finset.prod_image (fun i _ j _ hij => he hij)]

theorem atZero_zero (s : Finset ι) (v : ι → F) : atZero s v (fun _ => 0) = 0 := by
  simp [atZero]

theorem atZero_add (s : Finset ι) (v y z : ι → F) :
    atZero s v (fun i => y i+z i) = atZero s v y+atZero s v z := by
  simp only [atZero, add_mul, Finset.sum_add_distrib]

theorem atZero_finsetSum {κ : Type} (s : Finset ι) (v : ι → F) (T : Finset κ) (y : κ → ι → F) :
    atZero s v (fun i => ∑ k ∈ T, y k i) = ∑ k ∈ T, atZero s v (y k) := by
  simp only [atZero, Finset.sum_mul]
  exact Finset.sum_comm

theorem atZero_sum {α : Type} (s : Finset ι) (v : ι → F) (as : List α) (y : α → ι → F) :
    atZero s v (fun i => (as.map (fun a => y a i)).sum) =
      (as.map (fun a => atZero s v (y a))).sum := by
  induction as with
  | nil => exact atZero_zero s v
  | cons a as ih => simp only [List.map_cons, List.sum_cons, atZero_add, ih]

/-- Evaluations at as many points as coefficients, or at more, give the
constant coefficient back. -/
theorem atZero_powerSum {s : Finset ι} {v : ι → F} (hv : Set.InjOn v s) {cs : List F}
    (hl : cs.length ≤ s.card) : atZero s v (fun i => powerSum (v i) cs) = cs.headD 0 := by
  have hd : (toPoly cs).degree < s.card :=
    (degree_toPoly_lt cs).trans_le (WithBot.coe_le_coe.mpr hl)
  have hq := Lagrange.eq_interpolate_of_eval_eq (fun i => powerSum (v i) cs) hv hd
    (fun i _ => eval_toPoly (v i) cs)
  rw [← atZero_eq, ← hq, eval_toPoly, powerSum_zero]

/-- Coefficients beyond as many as there are points shift the constant one. -/
theorem atZero_powerSum_drop {s : Finset ι} {v : ι → F} (hv : Set.InjOn v s) (hs : s.Nonempty)
    (cs : List F) : atZero s v (fun i => powerSum (v i) cs) =
      cs.headD 0+atZero s v (fun i => v i^s.card*powerSum (v i) (cs.drop s.card)) := by
  have hsplit : ∀ i, powerSum (v i) cs =
      powerSum (v i) (cs.take s.card)+v i^s.card*powerSum (v i) (cs.drop s.card) := by
    intro i
    conv_lhs => rw [← List.take_append_drop s.card cs, powerSum_append, smul_eq_mul]
    rcases Nat.le_total s.card cs.length with hl | hl
    · rw [List.length_take, Nat.min_eq_left hl]
    · rw [List.drop_eq_nil_of_le hl, powerSum_nil, mul_zero, mul_zero]
  have hhead : (cs.take s.card).headD 0 = cs.headD 0 := by
    obtain ⟨k,hk⟩ := Nat.exists_eq_succ_of_ne_zero (Finset.card_ne_zero.mpr hs)
    rw [hk]
    cases cs <;> rfl
  simp only [hsplit]
  rw [atZero_add, atZero_powerSum hv (by rw [List.length_take]; exact Nat.min_le_left _ _), hhead]

/-- Interpolation at zero of values in a module. -/
def combineAtZero {M : Type} [AddCommGroup M] [Module F M] (s : Finset ι) (v : ι → F)
    (y : ι → M) : M :=
  ∑ i ∈ s, (∏ j ∈ s.erase i, v j*(v j-v i)⁻¹)•y i

theorem combineAtZero_smul {M : Type} [AddCommGroup M] [Module F M] (s : Finset ι)
    (v y : ι → F) (g : M) : combineAtZero s v (fun i => y i•g) = atZero s v y•g := by
  rw [combineAtZero, atZero, Finset.sum_smul]
  apply Finset.sum_congr rfl
  intro i _
  rw [smul_smul, mul_comm]

theorem powerSum_zero_eq {s : Finset ι} {v : ι → F} (hv : Set.InjOn v s) {cs : List F}
    (hl : cs.length = s.card+1) :
    powerSum (0 : F) cs = atZero s v (fun i => powerSum (v i) cs) +
      cs[s.card]?.getD 0*∏ i ∈ s, -v i := by
  have hq := Lagrange.eq_interpolate_of_eval_eq (fun i => powerSum (v i) cs) hv
    (degree_sub_nodal_lt s v hl) (fun i hi => by
      rw [eval_sub, eval_mul, Lagrange.eval_nodal_at_node hi, mul_zero, sub_zero, eval_toPoly])
  have h0 := congrArg (eval 0) hq
  rw [atZero_eq, eval_sub, eval_mul, eval_C, Lagrange.eval_nodal, eval_toPoly, coeff_toPoly] at h0
  simp only [zero_sub] at h0
  exact sub_eq_iff_eq_add.mp h0

end MpcNode.Interpolation
