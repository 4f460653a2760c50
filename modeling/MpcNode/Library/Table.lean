import Mathlib.Algebra.BigOperators.Group.Finset.Basic
import Mathlib.Data.List.AList

/-!
# Hash maps as association lists with distinct keys

Insertion overwrites. The iteration order is the order of the entries, and
nothing below depends on it: lengths, tests of all values and sums over the
values are determined by the lookups.
-/

set_option autoImplicit false

namespace MpcNode.Tables

abbrev Table (κ α : Type) := AList fun _ : κ => α

variable {κ α β M : Type}

def values (m : Table κ α) : List α := m.entries.map (fun e => e.2)

def len (m : Table κ α) : ℕ := m.entries.length

theorem foldl_add [AddCommMonoid M] (f : α → M) (vs : List α) (a : M) :
    vs.foldl (fun acc v => acc+f v) a = a+(vs.map f).sum := by
  induction vs generalizing a with
  | nil => simp
  | cons v vs ih => rw [List.foldl_cons, ih, List.map_cons, List.sum_cons, add_assoc]

variable [DecidableEq κ]

def keySet (m : Table κ α) : Finset κ := m.keys.toFinset

/-- The entry at `k`, made empty if absent, gets one more item. -/
def push (m : Table κ (List β)) (k : κ) (b : β) : Table κ (List β) :=
  m.insert k ((m.lookup k).getD [] ++ [b])

theorem mem_keySet {m : Table κ α} {k : κ} : k ∈ keySet m ↔ ∃ v, m.lookup k = some v := by
  rw [keySet, List.mem_toFinset, ← AList.mem_keys, ← AList.lookup_isSome, Option.isSome_iff_exists]

theorem lookup_insert_eq (m : Table κ α) (k : κ) (v : α) (j : κ) :
    (m.insert k v).lookup j = if j = k then some v else m.lookup j := by
  split_ifs with h
  · rw [h, AList.lookup_insert]
  · exact AList.lookup_insert_ne h

theorem keySet_insert (m : Table κ α) (k : κ) (v : α) :
    keySet (m.insert k v) = insert k (keySet m) := by
  ext j
  rw [mem_keySet, Finset.mem_insert, mem_keySet, lookup_insert_eq]
  split_ifs with h <;> simp [h]

/-- Writing what is there changes no lookup. -/
theorem lookup_insert_same {m : Table κ α} {k : κ} {v : α} (h : m.lookup k = some v) (j : κ) :
    (m.insert k v).lookup j = m.lookup j := by
  rw [lookup_insert_eq]
  split_ifs with hj
  · rw [hj, h]
  · rfl

theorem len_eq_card (m : Table κ α) : len m = (keySet m).card := by
  rw [keySet, List.toFinset_card_of_nodup m.keys_nodup, AList.keys, List.keys, List.length_map, len]

theorem mem_values {m : Table κ α} {v : α} : v ∈ values m ↔ ∃ k, m.lookup k = some v := by
  constructor
  · intro h
    obtain ⟨e,he,rfl⟩ := List.mem_map.mp h
    exact ⟨e.1,AList.mem_lookup_iff.mpr he⟩
  · rintro ⟨k,hk⟩
    exact List.mem_map.mpr ⟨⟨k,v⟩,AList.mem_lookup_iff.mp hk,rfl⟩

theorem sum_values [AddCommMonoid M] (f : α → M) (m : Table κ α) :
    ((values m).map f).sum = ∑ k ∈ keySet m, ((m.lookup k).map f).getD 0 := by
  rw [keySet, List.sum_toFinset _ m.keys_nodup]
  simp only [values, AList.keys, List.keys, List.map_map]
  congr 1
  apply List.map_congr_left
  intro e he
  have hl : m.lookup e.1 = some e.2 := AList.mem_lookup_iff.mpr he
  simp [hl]

@[simp] theorem lookup_push_self (m : Table κ (List β)) (k : κ) (b : β) :
    (push m k b).lookup k = some ((m.lookup k).getD [] ++ [b]) := AList.lookup_insert _

theorem lookup_push_ne {m : Table κ (List β)} {j k : κ} (h : j ≠ k) (b : β) :
    (push m k b).lookup j = m.lookup j := AList.lookup_insert_ne h

/-- A change of one entry changes a sum over the entries by as much. -/
theorem sum_values_insert [AddCommMonoid M] (f : α → M) (m : Table κ α) (k : κ) (v : α) {d : M}
    (h : f v = ((m.lookup k).map f).getD 0+d) :
    ((values (m.insert k v)).map f).sum = ((values m).map f).sum+d := by
  have hrest : ∀ j ∈ (keySet m).erase k,
      (((m.insert k v).lookup j).map f).getD 0 = ((m.lookup j).map f).getD 0 := by
    intro j hj
    rw [AList.lookup_insert_ne (Finset.ne_of_mem_erase hj)]
  have hold : ∑ j ∈ keySet m, ((m.lookup j).map f).getD 0 =
      ((m.lookup k).map f).getD 0+∑ j ∈ (keySet m).erase k, ((m.lookup j).map f).getD 0 := by
    by_cases hk : k ∈ keySet m
    · exact (Finset.add_sum_erase _ _ hk).symm
    · have hl : m.lookup k = none := by
        rw [Option.eq_none_iff_forall_ne_some]
        exact fun v hv => hk (mem_keySet.mpr ⟨v,hv⟩)
      rw [hl, Finset.erase_eq_of_notMem hk, Option.map_none, Option.getD_none, zero_add]
  rw [sum_values, sum_values, keySet_insert,
    ← Finset.add_sum_erase _ _ (Finset.mem_insert_self k (keySet m)),
    Finset.erase_insert_eq_erase, Finset.sum_congr rfl hrest, AList.lookup_insert,
    Option.map_some, Option.getD_some, h, hold, add_right_comm]

/-- A map that holds the entries of `S`, each under its own key, and no others. -/
structure Holds {ι : Type} [DecidableEq ι] (key : ι → κ) (f : ι → α) (S : Finset ι)
    (m : Table κ α) : Prop where
  keys : keySet m = S.image key
  entry : ∀ i ∈ S, m.lookup (key i) = some (f i)

namespace Holds
variable {ι : Type} [DecidableEq ι] {key : ι → κ} {f : ι → α} {S : Finset ι} {m : Table κ α}

theorem empty (key : ι → κ) (f : ι → α) : Holds key f ∅ (∅ : Table κ α) :=
  ⟨rfl,fun _ hi => nomatch hi⟩

theorem insert (hk : Function.Injective key) (h : Holds key f S m) (i : ι) :
    Holds key f (insert i S) (m.insert (key i) (f i)) where
  keys := by rw [keySet_insert, h.keys, Finset.image_insert]
  entry j hj := by
    by_cases hji : j = i
    · subst hji
      exact AList.lookup_insert _
    · rw [AList.lookup_insert_ne (fun he => hji (hk he))]
      exact h.entry j ((Finset.mem_insert.mp hj).resolve_left hji)

theorem absent (hk : Function.Injective key) (h : Holds key f S m) {i : ι} (hi : i ∉ S) :
    m.lookup (key i) = none := by
  by_contra hl
  have hmem := mem_keySet.mpr (Option.ne_none_iff_exists'.mp hl)
  rw [h.keys, Finset.mem_image] at hmem
  obtain ⟨j,hj,he⟩ := hmem
  exact hi (hk he ▸ hj)

theorem sum [AddCommMonoid M] (hk : Function.Injective key) (h : Holds key f S m) (g : α → M) :
    ((values m).map g).sum = ∑ i ∈ S, g (f i) := by
  rw [sum_values, h.keys, Finset.sum_image (fun i _ j _ hij => hk hij)]
  apply Finset.sum_congr rfl
  intro i hi
  rw [h.entry i hi, Option.map_some, Option.getD_some]

theorem mem_values (h : Holds key f S m) {v : α} (hv : v ∈ values m) : ∃ i ∈ S, v = f i := by
  obtain ⟨k,hl⟩ := Tables.mem_values.mp hv
  have hk := mem_keySet.mpr ⟨v,hl⟩
  rw [h.keys] at hk
  obtain ⟨i,hi,rfl⟩ := Finset.mem_image.mp hk
  rw [h.entry i hi] at hl
  exact ⟨i,hi,(Option.some.inj hl).symm⟩

end Holds
end MpcNode.Tables
