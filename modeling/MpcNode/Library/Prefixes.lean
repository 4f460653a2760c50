import Mathlib.Data.List.Basic
import Mathlib.Data.List.Induction
import Mathlib.Tactic.Common

/-!
# Steps and what came before them

A property of each element of a list together with the elements before it,
as runs have it: it holds of a longer list when it holds of the shorter one
and of the last element.
-/

set_option autoImplicit false

namespace MpcNode.Prefixes

variable {α : Type}

theorem snoc_split {l pre post : List α} {x y : α} (h : l++[x] = pre ++ y::post) :
    (pre = l ∧ y = x) ∨ ∃ post', l = pre ++ y::post' := by
  rcases List.eq_nil_or_concat post with rfl | ⟨post',z,rfl⟩
  · have hi := List.append_inj' h rfl
    exact Or.inl ⟨hi.1.symm,(List.cons.inj hi.2).1.symm⟩
  · have h' : l++[x] = (pre ++ y::post')++[z] := by simpa using h
    exact Or.inr ⟨post',(List.append_inj' h' rfl).1⟩

theorem snoc_subset (pre post : List α) (x : α) : pre++[x] ⊆ pre ++ x::post := by
  rw [List.append_cons pre x post]
  exact List.subset_append_left _ _

theorem forall_split_nil (P : List α → α → Prop) :
    ∀ pre x post, [] = pre ++ x::post → P pre x := by
  intro pre x post h
  simp at h

theorem forall_split_snoc {P : List α → α → Prop} {l : List α} {x : α} :
    (∀ pre y post, l++[x] = pre ++ y::post → P pre y) ↔
      (∀ pre y post, l = pre ++ y::post → P pre y) ∧ P l x := by
  constructor
  · intro h
    exact ⟨fun pre y post hl => h pre y (post++[x]) (by simp [hl]),h l x [] rfl⟩
  · rintro ⟨h,hx⟩ pre y post hl
    rcases snoc_split hl with ⟨rfl,rfl⟩ | ⟨post',hp⟩
    · exact hx
    · exact h pre y post' hp

/-- The last element kept by a partial map, and nothing kept after it. -/
theorem getLast?_filterMap {β : Type} {f : α → Option β} {l : List α} {b : β}
    (h : (l.filterMap f).getLast? = some b) :
    ∃ pre a post, l = pre ++ a::post ∧ f a = some b ∧ ∀ x ∈ post, f x = none := by
  induction l using List.reverseRecOn with
  | nil => cases h
  | append_singleton l x ih =>
    rw [List.filterMap_append, List.filterMap_cons, List.filterMap_nil] at h
    cases hx : f x with
    | none =>
      rw [hx, List.append_nil] at h
      obtain ⟨pre,a,post,rfl,ha,hpost⟩ := ih h
      refine ⟨pre,a,post++[x],by simp,ha,fun y hy => ?_⟩
      rcases List.mem_append.mp hy with hy | hy
      · exact hpost y hy
      · rwa [List.mem_singleton.mp hy]
    | some y =>
      rw [hx, List.getLast?_append] at h
      exact ⟨l,x,[],rfl,hx.trans h,by simp⟩

/-- Each element with the elements before it. -/
def splitsFrom : List α → List α → List (List α × α)
  | _, [] => []
  | pre, x::xs => (pre,x)::splitsFrom (pre++[x]) xs

def splits (l : List α) : List (List α × α) := splitsFrom [] l

theorem splitsFrom_snoc (pre l : List α) (x : α) :
    splitsFrom pre (l++[x]) = splitsFrom pre l ++ [(pre++l,x)] := by
  induction l generalizing pre with
  | nil =>
    rw [List.append_nil]
    rfl
  | cons y l ih =>
    rw [List.cons_append, splitsFrom, ih, List.append_cons pre y l]
    rfl

theorem splits_snoc (l : List α) (x : α) : splits (l++[x]) = splits l ++ [(l,x)] :=
  splitsFrom_snoc [] l x

theorem mem_splits {l pre : List α} {x : α} :
    (pre,x) ∈ splits l ↔ ∃ post, l = pre ++ x::post := by
  induction l using List.reverseRecOn with
  | nil => exact iff_of_false List.not_mem_nil (by simp)
  | append_singleton l y ih =>
    rw [splits_snoc, List.mem_append, List.mem_singleton, ih]
    constructor
    · rintro (⟨post,rfl⟩ | h)
      · exact ⟨post++[y],by simp⟩
      · obtain ⟨rfl,rfl⟩ := Prod.mk.inj h
        exact ⟨[],rfl⟩
    · rintro ⟨post,h⟩
      rcases snoc_split h with ⟨rfl,rfl⟩ | ⟨post',h⟩
      · exact Or.inr rfl
      · exact Or.inl ⟨post',h⟩

/-- The split at the last element that a partial map keeps has all it keeps. -/
theorem exists_last_kept {β : Type} (f : α → Option β) {l : List α} (h : l.filterMap f ≠ []) :
    ∃ pre x, (pre,x) ∈ splits l ∧ (f x).isSome ∧ (pre++[x]).filterMap f = l.filterMap f := by
  obtain ⟨b,hb⟩ := Option.ne_none_iff_exists'.mp (mt List.getLast?_eq_none_iff.mp h)
  obtain ⟨pre,x,post,rfl,hx,hpost⟩ := getLast?_filterMap hb
  refine ⟨pre,x,mem_splits.mpr ⟨post,rfl⟩,by rw [hx]; rfl,?_⟩
  have hnone : post.filterMap f = [] := List.filterMap_eq_nil_iff.mpr hpost
  rw [List.append_cons pre x post]
  exact (List.filterMap_append.trans (by rw [hnone, List.append_nil])).symm

/-- Leaving elements out keeps the last one exactly when it is not left out. -/
theorem getLast?_filter_iff (q : α → Bool) (l : List α) :
    (l.filter q).getLast? = l.getLast? ↔ ∀ a, l.getLast? = some a → q a = true := by
  induction l using List.reverseRecOn with
  | nil => simp
  | append_singleton l a _ =>
    rw [List.filter_append, List.getLast?_concat]
    constructor
    · rintro h b hb
      have hm := List.mem_of_getLast? (h.trans hb)
      rw [← List.filter_append] at hm
      exact List.of_mem_filter hm
    · intro h
      rw [List.filter_singleton, h a rfl]
      exact List.getLast?_concat

end MpcNode.Prefixes
