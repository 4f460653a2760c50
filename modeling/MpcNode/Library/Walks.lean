import Mathlib.Algebra.Order.Group.MinMax
import Mathlib.Data.List.Induction
import Mathlib.Tactic.Common

/-!
# Walks that stay above zero

Each event moves a level up or down by what the state says, and a level that
would go below zero stays there. The level reached is a maximum: of the sums
of the moves over the stretches of the run that end last, and of the level
at the start with the sum of all moves.
-/

set_option autoImplicit false

namespace MpcNode.Walks

variable {S E α : Type}

def total [AddCommGroup α] (after : S → E → S) (move : S → E → α) : S → List E → α
  | _, [] => 0
  | s, e::es => move s e + total after move (after s e) es

section sums
variable [AddCommGroup α] (after : S → E → S) (move : S → E → α)

theorem total_snoc (s : S) (es : List E) (e : E) :
    total after move s (es++[e]) = total after move s es + move (es.foldl after s) e := by
  induction es generalizing s with
  | nil => simp [total]
  | cons d es ih => rw [List.cons_append, total, ih, total, List.foldl_cons, add_assoc]

end sums

section levels
variable [AddCommGroup α] [LinearOrder α] [IsOrderedAddMonoid α]
variable {T : Type} {after : S → E → S} {move : S → E → α} {step : T → E → T}
variable {f : T → S}

/-- A level is reached exactly when the moves of some last stretch reach it
from zero, or all moves from where the run began. -/
theorem le_level_iff (level : T → α) (hf : ∀ t e, f (step t e) = after (f t) e)
    (h : ∀ t e, level (step t e) = max 0 (level t + move (f t) e)) {t : T} (ht : 0 ≤ level t)
    (es : List E) (c : α) :
    c ≤ level (es.foldl step t) ↔ c ≤ level t + total after move (f t) es ∨
      ∃ pre post, es = pre++post ∧ c ≤ total after move (pre.foldl after (f t)) post := by
  induction es using List.reverseRecOn generalizing c with
  | nil =>
    rw [List.foldl_nil, total, add_zero, or_iff_left_of_imp]
    rintro ⟨pre,post,hs,hc⟩
    obtain ⟨rfl,rfl⟩ := List.append_eq_nil_iff.mp hs.symm
    exact hc.trans ht
  | append_singleton es e ih =>
    have hstate : f (es.foldl step t) = es.foldl after (f t) :=
      (List.foldl_hom f (fun t e => (hf t e).symm)).symm
    rw [List.foldl_append, List.foldl_cons, List.foldl_nil, h, hstate, le_max_iff,
      ← sub_le_iff_le_add, ih, total_snoc, ← add_assoc, sub_le_iff_le_add]
    constructor
    · rintro (hc | hc | ⟨pre,post,rfl,hc⟩)
      · exact Or.inr ⟨es++[e],[],(List.append_nil _).symm,hc⟩
      · exact Or.inl hc
      · refine Or.inr ⟨pre,post++[e],List.append_assoc _ _ _,?_⟩
        rwa [total_snoc, ← List.foldl_append, ← sub_le_iff_le_add]
    · rintro (hc | ⟨pre,post,hs,hc⟩)
      · exact Or.inr (Or.inl hc)
      · rcases List.eq_nil_or_concat post with rfl | ⟨post,d,rfl⟩
        · exact Or.inl hc
        · rw [List.concat_eq_append, ← List.append_assoc] at hs
          obtain ⟨rfl,hd⟩ := List.append_inj' hs rfl
          obtain rfl := (List.cons.inj hd).1
          rw [List.concat_eq_append, total_snoc, ← List.foldl_append, ← sub_le_iff_le_add] at hc
          exact Or.inr (Or.inr ⟨pre,post,rfl,hc⟩)

end levels
end MpcNode.Walks
