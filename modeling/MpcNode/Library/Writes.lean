import Mathlib.Data.List.Induction
import MpcNode.Library.Table

/-!
# Histories of writes

A map after a sequence of insertions holds under each key the last value
written there. What depends on the lookups only, such as a sum over the
values in any order of iteration, depends on the values written under each
key and not on how writes under different keys are interleaved.
-/

set_option autoImplicit false

namespace MpcNode.Tables

variable {κ α M : Type}

/-- A loop that adds up the values of a map may take them in any order. -/
theorem foldl_perm [AddCommMonoid M] (f : α → M) {m : Table κ α} {vs : List α}
    (h : vs.Perm (values m)) :
    vs.foldl (fun acc v => acc+f v) 0 = ((values m).map f).sum := by
  rw [foldl_add, zero_add, (h.map f).sum_eq]

variable [DecidableEq κ]

/-- The values written under a key, in order. -/
def under (k : κ) (writes : List (κ × α)) : List α :=
  writes.filterMap (fun p => if p.1 = k then some p.2 else none)

theorem under_snoc (k : κ) (writes : List (κ × α)) (p : κ × α) :
    under k (writes++[p]) = under k writes ++ if p.1 = k then [p.2] else [] := by
  rw [under, List.filterMap_append]
  split_ifs with h <;> simp [under, h]

theorem mem_under {k : κ} {a : α} {writes : List (κ × α)} :
    a ∈ under k writes ↔ (k,a) ∈ writes := by
  rw [under, List.mem_filterMap]
  constructor
  · rintro ⟨⟨j,b⟩,hp,hb⟩
    dsimp only at hb
    split_ifs at hb with hj
    obtain rfl := Option.some.inj hb
    rwa [← hj]
  · intro hp
    exact ⟨(k,a),hp,if_pos rfl⟩

theorem under_map {β : Type} (f : α → β) (k : κ) (writes : List (κ × α)) :
    under k (writes.map (fun p => (p.1,f p.2))) = (under k writes).map f := by
  rw [under, List.filterMap_map, under, List.map_filterMap]
  congr 1
  funext p
  by_cases h : p.1 = k <;> simp [h]

theorem under_filter (q : α → Bool) (k : κ) (writes : List (κ × α)) :
    under k (writes.filter (fun p => q p.2)) = (under k writes).filter q := by
  induction writes with
  | nil => rfl
  | cons p writes ih =>
    have hc : ∀ ps : List (κ × α), under k (p::ps) =
        (if p.1 = k then [p.2] else []) ++ under k ps := by
      intro ps
      by_cases hk : p.1 = k <;> simp [under, hk]
    rw [List.filter_cons, hc, List.filter_append, ← ih]
    by_cases hq : q p.2 = true
    · rw [if_pos hq, hc]
      congr 1
      split_ifs <;> simp [hq]
    · rw [if_neg hq]
      split_ifs <;> simp [hq]

def written (m : Table κ α) (writes : List (κ × α)) : Table κ α :=
  writes.foldl (fun m p => m.insert p.1 p.2) m

theorem written_append (m : Table κ α) (writes rest : List (κ × α)) :
    written m (writes++rest) = written (written m writes) rest := List.foldl_append

theorem written_snoc (m : Table κ α) (writes : List (κ × α)) (p : κ × α) :
    written m (writes++[p]) = (written m writes).insert p.1 p.2 := written_append m writes [p]

/-- The last write under a key is what a lookup finds. -/
theorem lookup_written (m : Table κ α) (writes : List (κ × α)) (k : κ) :
    (written m writes).lookup k = (under k writes).getLast?.or (m.lookup k) := by
  induction writes using List.reverseRecOn with
  | nil => rfl
  | append_singleton writes p ih =>
    rw [written_snoc, under_snoc, lookup_insert_eq, ih]
    by_cases h : p.1 = k
    · rw [if_pos h, if_pos h.symm]
      simp
    · rw [if_neg h, if_neg (fun hk => h hk.symm), List.append_nil]

theorem keySet_written (m : Table κ α) (writes : List (κ × α)) :
    keySet (written m writes) = keySet m ∪ (writes.map Prod.fst).toFinset := by
  induction writes using List.reverseRecOn with
  | nil => simp [written]
  | append_singleton writes p ih =>
    rw [written_snoc, keySet_insert, ih]
    simp

/-- The keys under which true was written last, in the order of these writes. -/
def standing (writes : List (κ × Bool)) : List κ :=
  (writes.map Prod.fst).dedup.filter (fun k => (under k writes).getLast? = some true)

theorem dedup_snoc (ks : List κ) (k : κ) :
    (ks++[k]).dedup = ks.dedup.filter (fun j => j ≠ k) ++ [k] := by
  induction ks with
  | nil => simp
  | cons j ks ih =>
    rw [List.cons_append]
    by_cases hj : j ∈ ks
    · rw [List.dedup_cons_of_mem hj, List.dedup_cons_of_mem (List.mem_append_left _ hj), ih]
    · by_cases hjk : j = k
      · subst hjk
        rw [List.dedup_cons_of_mem (List.mem_append_right _ (List.mem_singleton_self j)), ih,
          List.dedup_cons_of_notMem hj, List.filter_cons_of_neg (by simp)]
      · have hnot : j ∉ ks++[k] := by simp [hj, hjk]
        rw [List.dedup_cons_of_notMem hnot, ih, List.dedup_cons_of_notMem hj,
          List.filter_cons_of_pos (by simpa using hjk), List.cons_append]

theorem standing_snoc (writes : List (κ × Bool)) (k : κ) (b : Bool) :
    standing (writes++[(k,b)]) =
      (standing writes).filter (fun j => j ≠ k) ++ if b then [k] else [] := by
  have hlast : (under k (writes++[(k,b)])).getLast? = some b := by
    rw [under_snoc, if_pos rfl, List.getLast?_concat]
  have hother : ∀ j, j ≠ k → (under j (writes++[(k,b)])).getLast? = (under j writes).getLast? := by
    intro j hj
    rw [under_snoc, if_neg (fun hk => hj hk.symm), List.append_nil]
  rw [standing, List.map_append, List.map_singleton, dedup_snoc, List.filter_append, standing,
    List.filter_filter, List.filter_filter]
  congr 1
  · apply List.filter_congr
    intro j _
    by_cases hj : j = k
    · simp [hj]
    · rw [hother j hj, Bool.and_comm]
  · rw [List.filter_singleton, hlast]
    cases b <;> rfl

theorem standing_nodup (writes : List (κ × Bool)) : (standing writes).Nodup :=
  (List.nodup_dedup _).filter _

theorem mem_standing {writes : List (κ × Bool)} {k : κ} :
    k ∈ standing writes ↔ (under k writes).getLast? = some true := by
  rw [standing, List.mem_filter, List.mem_dedup, decide_eq_true_eq]
  refine and_iff_right_of_imp (fun h => ?_)
  exact List.mem_map.mpr ⟨_,mem_under.mp (List.mem_of_getLast? h),rfl⟩

/-- Maps with the same lookups have the same sums. -/
theorem sum_values_congr [AddCommMonoid M] (f : α → M) {m m' : Table κ α}
    (h : ∀ k, m.lookup k = m'.lookup k) : ((values m).map f).sum = ((values m').map f).sum := by
  have hk : keySet m = keySet m' := by
    ext k
    rw [mem_keySet, mem_keySet, h]
  rw [sum_values, sum_values, hk]
  simp only [h]

/-- The sum over a map that began empty is one of last writes. -/
theorem sum_written [AddCommMonoid M] (f : α → M) (writes : List (κ × α)) :
    ((values (written ∅ writes)).map f).sum =
      ∑ k ∈ (writes.map Prod.fst).toFinset, ((under k writes).getLast?.map f).getD 0 := by
  rw [sum_values, keySet_written]
  simp only [lookup_written, AList.lookup_empty, Option.or_none]
  congr 1

end MpcNode.Tables
