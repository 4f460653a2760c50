import Mathlib.LinearAlgebra.Lagrange

/-!
# Power sums of coefficient lists

A list of coefficients in a module is summed against the powers of a scalar.
Over the field itself this is polynomial evaluation; over a group it is the
combination of commitments that the Feldman equation compares.
-/

set_option autoImplicit false

namespace MpcNode.PowerSum
open Polynomial

variable {F M : Type} [Field F] [AddCommGroup M] [Module F M]

def powerSum (x : F) : List M → M
  | [] => 0
  | c::cs => c+x•powerSum x cs

@[simp] theorem powerSum_nil (x : F) : powerSum x ([] : List M) = 0 := rfl

@[simp] theorem powerSum_cons (x : F) (c : M) (cs : List M) :
    powerSum x (c::cs) = c+x•powerSum x cs := rfl

/-- The accumulating loop over (coefficient, position) pairs, from any
starting position and any starting value. -/
theorem loop_eq (x : F) (cs : List M) (k : ℕ) (acc : M) :
    (cs.zipIdx k).foldl (fun y c => y+x^c.2•c.1) acc = acc+x^k•powerSum x cs := by
  induction cs generalizing k acc with
  | nil => simp
  | cons c cs ih =>
    rw [List.zipIdx_cons, List.foldl_cons, ih, powerSum_cons, smul_add, smul_smul, pow_succ]
    abel

/-- Committing to every coefficient commits to the evaluation. -/
theorem powerSum_map_smul (x : F) (cs : List F) (g : M) :
    powerSum x (cs.map (fun c => c•g)) = powerSum x cs•g := by
  induction cs with
  | nil => simp
  | cons c cs ih => simp [ih, add_smul, mul_smul]

theorem powerSum_append (x : F) (cs ds : List M) :
    powerSum x (cs++ds) = powerSum x cs+x^cs.length•powerSum x ds := by
  induction cs with
  | nil => simp
  | cons c cs ih =>
    rw [List.cons_append, powerSum_cons, ih, powerSum_cons, List.length_cons, smul_add, smul_smul,
      ← pow_succ', add_assoc]

/-- The combination term by term. -/
theorem powerSum_eq_sum (x : F) (cs : List M) :
    powerSum x cs = ∑ j : Fin cs.length, x^j.val•cs.get j := by
  induction cs with
  | nil => rfl
  | cons c cs ih =>
    rw [powerSum_cons, ih, Finset.smul_sum]
    simp only [smul_smul, ← pow_succ']
    have hs := Fin.sum_univ_succ (fun j : Fin (cs.length+1) => x^j.val•(c::cs).get j)
    simp only [Fin.val_zero, pow_zero, one_smul, List.get_cons_zero, Fin.val_succ,
      List.get_cons_succ'] at hs
    exact hs.symm

theorem powerSum_zero (cs : List M) : powerSum (0 : F) cs = cs.headD 0 := by
  cases cs with
  | nil => rfl
  | cons c cs => rw [powerSum_cons, zero_smul, add_zero, List.headD_cons]

noncomputable def toPoly : List F → F[X]
  | [] => 0
  | c::cs => C c+X*toPoly cs

theorem eval_toPoly (x : F) (cs : List F) : (toPoly cs).eval x = powerSum x cs := by
  induction cs with
  | nil => simp [toPoly]
  | cons c cs ih => simp [toPoly, ih]

theorem coeff_toPoly (cs : List F) (i : ℕ) : (toPoly cs).coeff i = cs[i]?.getD 0 := by
  induction cs generalizing i with
  | nil => simp [toPoly]
  | cons c cs ih =>
    cases i with
    | zero => simp [toPoly]
    | succ i => simp [toPoly, coeff_X_mul, ih]

theorem degree_toPoly_lt (cs : List F) : (toPoly cs).degree < cs.length := by
  rw [Polynomial.degree_lt_iff_coeff_zero]
  intro i hi
  rw [coeff_toPoly, List.getElem?_eq_none hi, Option.getD_none]

theorem toPoly_injective {cs ds : List F} (hl : cs.length = ds.length)
    (h : toPoly cs = toPoly ds) : cs = ds := by
  apply List.ext_getElem hl
  intro i hc hd
  have hi := congrArg (fun p => p.coeff i) h
  simpa [coeff_toPoly, hc, hd] using hi

/-- A polynomial of small degree as a coefficient list of any longer length. -/
theorem toPoly_map_coeff {q : F[X]} {k : ℕ} (hq : q.degree < k) :
    toPoly ((List.range k).map q.coeff) = q := by
  ext i
  rw [coeff_toPoly, List.getElem?_map]
  by_cases hi : i < k
  · rw [List.getElem?_range hi, Option.map_some, Option.getD_some]
  · have hz : q.coeff i = 0 :=
      (Polynomial.degree_lt_iff_coeff_zero q k).mp hq i (Nat.le_of_not_lt hi)
    rw [List.getElem?_eq_none (by simpa using hi), Option.map_none, Option.getD_none, hz]

/-- As many evaluations at different points as there are coefficients fix
the coefficients. -/
theorem powerSum_determines {ι : Type} {cs ds : List F} (s : Finset ι) (v : ι → F)
    (hv : Set.InjOn v s) (hc : cs.length = s.card) (hd : ds.length = s.card)
    (h : ∀ i ∈ s, powerSum (v i) cs = powerSum (v i) ds) : cs = ds := by
  apply toPoly_injective (hc.trans hd.symm)
  apply Polynomial.eq_of_degrees_lt_of_eval_index_eq s hv
  · exact hc ▸ degree_toPoly_lt cs
  · exact hd ▸ degree_toPoly_lt ds
  · intro i hi
    rw [eval_toPoly, eval_toPoly, h i hi]

end MpcNode.PowerSum
