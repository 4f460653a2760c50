import MpcNode.DkgLedger
import MpcNode.Library.Copies

/-!
# What redelivery does to a node

Gossip delivers a message more than once and in any order. A dealing
overwrites the one before it and a vote is pushed each time it comes, so the
stored dealings depend on the order as soon as a dealer has two of them, and
the completion of a node depends on how often its votes come. Lock
acquisitions are taken to succeed, and a run goes on only when a call has
returned.
-/

set_option autoImplicit false

namespace MpcNode.Dkg
open MpcNode.Bls MpcNode.Guarded MpcNode.Messages MpcNode.Wire MpcNode.Channels MpcNode.Tables
open MpcNode.Copies

section copies
variable {G1 : Type} {own : Usize} {msgs msgs' : List (DKGMessage G1)}

def OneDealingEach (own : Usize) (msgs : List (DKGMessage G1)) : Prop :=
  ∀ m ∈ msgs, ∀ m' ∈ msgs, ∀ d d', dealing own m = some d → dealing own m' = some d' →
    d.dealer = d'.dealer → d = d'

theorem lastOf_copy (h : Copy msgs msgs') (hone : OneDealingEach own msgs) (dealer : String) :
    (ledger own msgs').lastOf dealer = (ledger own msgs).lastOf dealer := by
  apply getLast?_copy (copy_filter (copy_filterMap h (dealing own)) _)
  intro d hd d' hd'
  simp only [List.mem_filter, List.mem_filterMap, decide_eq_true_eq] at hd hd'
  obtain ⟨⟨m,hm,hmd⟩,hdd⟩ := hd
  obtain ⟨⟨m',hm',hmd'⟩,hdd'⟩ := hd'
  exact hone m hm m' hm' d d' hmd hmd' (hdd.trans hdd'.symm)

theorem dealers_copy (h : Copy msgs msgs') :
    (ledger own msgs').dealers = (ledger own msgs).dealers := by
  ext dealer
  simp only [Ledger.dealers, List.mem_toFinset, List.mem_map, ledger,
    copy_filterMap h (dealing own) _]

theorem flags_eq_nil_iff (dealer : String) :
    (ledger own msgs).flags dealer = [] ↔ msgs.filter (naming dealer) = [] := by
  rw [← List.length_eq_zero_iff, length_flags, List.countP_eq_length_filter,
    List.length_eq_zero_iff]

theorem filter_copy_ne_nil (h : Copy msgs msgs') {p : DKGMessage G1 → Bool}
    (hp : msgs'.filter p ≠ []) : msgs.filter p ≠ [] := by
  obtain ⟨m,hm⟩ := List.exists_mem_of_ne_nil _ hp
  exact List.ne_nil_of_mem ((copy_filter h p m).mp hm)

end copies

section convergence
variable {G1 : Type} [G1Group G1] [SerdeJson] (id : String) (threshold totalNodes : Usize)

/-- What a new node is after it has handled the messages, every call having
returned. -/
def Leaves (channel : Channel) (msgs : List (DKGMessage G1)) (node : DKGNode G1) : Prop :=
  ∃ c, okRun .granted (.fresh (.new id threshold totalNodes) channel) (msgs.map .message) =
    some c ∧ c.node = node

structure SameDealings (node other : DKGNode G1) : Prop where
  shares : ∀ dealer, other.shares.lookup dealer = node.shares.lookup dealer
  commitments : ∀ dealer, other.commitments.lookup dealer = node.commitments.lookup dealer
  groupKey : other.groupKey = node.groupKey

/-- Whatever copies of the messages come over whatever channel, they leave a
node with the same dealings. -/
def Convergent (msgs : List (DKGMessage G1)) : Prop :=
  ∀ msgs' channel channel' node node', Copy msgs msgs' →
    Leaves id threshold totalNodes channel msgs node →
    Leaves id threshold totalNodes channel' msgs' node' → SameDealings node node'

variable {id threshold totalNodes}

theorem leaves_refines {channel : Channel} {msgs : List (DKGMessage G1)} {node : DKGNode G1}
    (h : Leaves id threshold totalNodes channel msgs node) :
    Refines node (ledger (idParsed id) msgs) := by
  obtain ⟨c,hc,rfl⟩ := h
  exact okRun_refines hc

theorem leaves_complete_iff {channel : Channel} {msgs : List (DKGMessage G1)} {node : DKGNode G1}
    (h : Leaves id threshold totalNodes channel msgs node) :
    node.complete = true ↔ (ledger (idParsed id) msgs).Quorate threshold.toNat := by
  rw [complete_iff (leaves_refines h)]
  obtain ⟨c,hc,rfl⟩ := h
  rw [okRun_node hc, foldl_threshold]
  rfl

theorem stored_snoc {channel : Channel} {msgs : List (DKGMessage G1)} {msg : DKGMessage G1}
    {d : Dealing G1} {node : DKGNode G1} (hd : dealing (idParsed id) msg = some d)
    (h : Leaves id threshold totalNodes channel (msgs++[msg]) node) :
    node.shares.lookup d.dealer = some d.share ∧
      node.commitments.lookup d.dealer = some d.commitments := by
  have hr := leaves_refines h
  rw [hr.share, hr.commitments, ledger_append, ledger_dealing hd, Ledger.lastOf_dealing,
    if_pos rfl]
  exact ⟨rfl,rfl⟩

variable (id threshold totalNodes)

theorem exists_leaves (msgs : List (DKGMessage G1)) :
    ∃ channel node, Leaves id threshold totalNodes channel msgs node := by
  obtain ⟨c,hc⟩ := okRun_room (c := .fresh (.new id threshold totalNodes) ⟨[],msgs.length,false⟩)
    (msgs.map Input.message) rfl (by simp)
  exact ⟨_,c.node,c,hc,rfl⟩

/-- Redelivery in any order and number leaves the same shares, commitments
and key if and only if no dealer has two different dealings for the node. -/
theorem redelivered_iff (msgs : List (DKGMessage G1)) :
    Convergent id threshold totalNodes msgs ↔ OneDealingEach (idParsed id) msgs := by
  constructor
  · -- each of two dealings can be the one that comes last
    intro h m hm m' hm' d d' hd hd' he
    obtain ⟨channel,node,hn⟩ := exists_leaves id threshold totalNodes msgs
    obtain ⟨channel₁,node₁,hn₁⟩ := exists_leaves id threshold totalNodes (msgs++[m])
    obtain ⟨channel₂,node₂,hn₂⟩ := exists_leaves id threshold totalNodes (msgs++[m'])
    have h1 := h _ _ _ _ _ (copy_snoc hm) hn hn₁
    have h2 := h _ _ _ _ _ (copy_snoc hm') hn hn₂
    have hs := stored_snoc hd hn₁
    have hs' := stored_snoc hd' hn₂
    rw [h1.shares, h1.commitments] at hs
    rw [h2.shares, h2.commitments, ← he] at hs'
    have hshare : d.share = d'.share := Option.some.inj (hs.1.symm.trans hs'.1)
    have hcommitments : d.commitments = d'.commitments := Option.some.inj (hs.2.symm.trans hs'.2)
    calc d = ⟨d.dealer,d.share,d.commitments⟩ := rfl
      _ = ⟨d'.dealer,d'.share,d'.commitments⟩ := by rw [he, hshare, hcommitments]
  · intro hone msgs' channel channel' node node' hc hn hn'
    have hr := leaves_refines hn
    have hr' := leaves_refines hn'
    have hl := lastOf_copy hc hone
    refine ⟨fun dealer => ?_,fun dealer => ?_,?_⟩
    · rw [hr.share, hr'.share, hl]
    · rw [hr.commitments, hr'.commitments, hl]
    · rw [groupKey_eq hr, groupKey_eq hr', Ledger.keySum, Ledger.keySum, dealers_copy hc]
      exact Finset.sum_congr rfl (fun dealer _ => by rw [hl])

/-- Copies of the votes stand in for votes: some redelivery completes a node
as soon as it has enough dealers. -/
theorem completable_iff (msgs : List (DKGMessage G1)) :
    (∃ msgs' channel node, Copy msgs msgs' ∧ Leaves id threshold totalNodes channel msgs' node ∧
      node.complete = true) ↔
      threshold.toNat ≤ (ledger (idParsed id) msgs).dealers.card := by
  constructor
  · rintro ⟨msgs',channel,node,hc,hn,hq⟩
    rw [← dealers_copy hc]
    exact ((leaves_complete_iff hn).mp hq).2
  · intro hd
    have hc := copy_again (n := threshold.toNat+1) (by omega) msgs
    obtain ⟨channel,node,hn⟩ :=
      exists_leaves id threshold totalNodes (again (threshold.toNat+1) msgs)
    refine ⟨_,channel,node,hc,hn,(leaves_complete_iff hn).mpr
      ⟨fun dealer hf => ?_,by rwa [dealers_copy hc]⟩⟩
    rw [Ne, flags_eq_nil_iff] at hf
    have hne := filter_copy_ne_nil hc hf
    rw [length_flags, countP_again, List.countP_eq_length_filter]
    have hpos := List.length_pos_iff.mpr hne
    calc threshold.toNat ≤ (threshold.toNat+1)*1 := by omega
      _ ≤ (threshold.toNat+1)*(msgs.filter (naming dealer)).length :=
        Nat.mul_le_mul_left _ hpos

open Classical in
/-- Every redelivery completes a node exactly when no copy is needed: each
dealer voted on has enough different votes. -/
theorem completes_iff (msgs : List (DKGMessage G1)) :
    (∀ msgs' channel node, Copy msgs msgs' → Leaves id threshold totalNodes channel msgs' node →
      node.complete = true) ↔
      threshold.toNat ≤ (ledger (idParsed id) msgs).dealers.card ∧
        ∀ dealer, msgs.filter (naming dealer) ≠ [] →
          threshold.toNat ≤ (msgs.filter (naming dealer)).toFinset.card := by
  constructor
  · intro h
    have hquorate : ∀ msgs', Copy msgs msgs' →
        (ledger (idParsed id) msgs').Quorate threshold.toNat := by
      intro msgs' hc
      obtain ⟨channel,node,hn⟩ := exists_leaves id threshold totalNodes msgs'
      exact (leaves_complete_iff hn).mp (h msgs' channel node hc hn)
    refine ⟨(hquorate msgs (fun _ => Iff.rfl)).2,fun dealer hne => ?_⟩
    -- the copy with each vote once is the one that completes last
    have hf : (ledger (idParsed id) msgs.dedup).flags dealer ≠ [] := by
      rw [Ne, flags_eq_nil_iff]
      exact filter_copy_ne_nil (copy_symm (copy_dedup msgs)) hne
    have hq := (hquorate msgs.dedup (copy_dedup msgs)).1 dealer hf
    rwa [length_flags, distinct_dedup] at hq
  · rintro ⟨hd,hv⟩ msgs' channel node hc hn
    refine (leaves_complete_iff hn).mpr ⟨fun dealer hf => ?_,by rwa [dealers_copy hc]⟩
    rw [Ne, flags_eq_nil_iff] at hf
    rw [length_flags]
    exact (hv dealer (filter_copy_ne_nil hc hf)).trans (distinct_le hc _)

end convergence
end MpcNode.Dkg
