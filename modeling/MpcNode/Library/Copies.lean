import Mathlib.Data.Finset.Card
import Mathlib.Data.List.Dedup
import Mathlib.Tactic.Common

/-!
# Lists that deliver the same elements

Two lists are copies of one another when they have the same members, in
whatever order and however often. The last element and the counts of a list
are no functions of its members; the lemmas say when they are and what their
range over the copies of a list is.
-/

set_option autoImplicit false

namespace MpcNode.Copies

variable {α β : Type}

def Copy (l m : List α) : Prop := ∀ a, a ∈ m ↔ a ∈ l

theorem copy_symm {l m : List α} (h : Copy l m) : Copy m l := fun a => (h a).symm

theorem copy_filterMap {l m : List α} (h : Copy l m) (f : α → Option β) :
    Copy (l.filterMap f) (m.filterMap f) := by
  intro b
  simp only [List.mem_filterMap, h _]

theorem copy_filter {l m : List α} (h : Copy l m) (p : α → Bool) :
    Copy (l.filter p) (m.filter p) := by
  intro a
  simp only [List.mem_filter, h _]

theorem copy_snoc {l : List α} {a : α} (h : a ∈ l) : Copy l (l++[a]) := by
  intro b
  rw [List.mem_append, List.mem_singleton]
  exact ⟨fun hb => hb.elim id (fun hb => hb ▸ h),Or.inl⟩

theorem copy_dedup [DecidableEq α] (l : List α) : Copy l l.dedup := fun _ => List.mem_dedup

/-- The list delivered `n` times over. -/
def again (n : ℕ) (l : List α) : List α := (List.replicate n l).flatten

theorem copy_again {n : ℕ} (h : 0 < n) (l : List α) : Copy l (again n l) := by
  intro a
  rw [again, List.mem_flatten]
  constructor
  · rintro ⟨m,hm,ha⟩
    rwa [List.eq_of_mem_replicate hm] at ha
  · exact fun ha => ⟨l,List.mem_replicate.mpr ⟨by omega,rfl⟩,ha⟩

theorem countP_again (n : ℕ) (p : α → Bool) (l : List α) :
    (again n l).countP p = n * l.countP p := by
  induction n with
  | zero => simp [again]
  | succ n ih =>
    have hs : again (n+1) l = l ++ again n l := by
      rw [again, List.replicate_succ, List.flatten_cons, again]
    rw [hs, List.countP_append, ih, Nat.succ_mul, Nat.add_comm]

/-- Copies of a list of one element have it last, whatever else they do. -/
theorem getLast?_copy {l m : List α} (h : Copy l m) (hl : ∀ a ∈ l, ∀ b ∈ l, a = b) :
    m.getLast? = l.getLast? := by
  cases hm : m.getLast? with
  | none =>
    rw [List.getLast?_eq_none_iff] at hm
    subst hm
    have hn : l = [] :=
      List.eq_nil_iff_forall_not_mem.mpr (fun a ha => List.not_mem_nil ((h a).mpr ha))
    rw [hn, List.getLast?_nil]
  | some a =>
    have ha : a ∈ l := (h a).mp (List.mem_of_getLast? hm)
    cases hb : l.getLast? with
    | none =>
      rw [List.getLast?_eq_none_iff] at hb
      exact absurd (hb ▸ ha) List.not_mem_nil
    | some b => rw [hl a ha b (List.mem_of_getLast? hb)]

section counts
variable [DecidableEq α]

theorem toFinset_copy {l m : List α} (h : Copy l m) : m.toFinset = l.toFinset := by
  ext a
  rw [List.mem_toFinset, List.mem_toFinset, h a]

/-- No copy counts fewer than the different elements there are. -/
theorem distinct_le {l m : List α} (h : Copy l m) (p : α → Bool) :
    (l.filter p).toFinset.card ≤ m.countP p := by
  rw [List.countP_eq_length_filter, ← toFinset_copy (copy_filter h p)]
  exact List.toFinset_card_le _

theorem distinct_dedup (l : List α) (p : α → Bool) :
    l.dedup.countP p = (l.filter p).toFinset.card := by
  rw [List.countP_eq_length_filter, ← toFinset_copy (copy_filter (copy_dedup l) p),
    List.toFinset_card_of_nodup (l.nodup_dedup.filter p)]

end counts
end MpcNode.Copies
