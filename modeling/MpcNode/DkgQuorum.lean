import MpcNode.DkgHonest

/-!
# How many votes an honest run collects

A dealer never votes on itself and no node counts its own vote, so a node
counts one vote less on every other dealer than on itself. The quorum asks
the threshold of both.
-/

set_option autoImplicit false

namespace MpcNode.Dkg
open MpcNode.Bls MpcNode.Messages MpcNode.Wire MpcNode.Broadcast
open scoped List

section votes
variable {G1 : Type} [G1Group G1] {threshold total : Usize} {as : DkgRun G1 total}
  {net : DkgNet G1 total}

/-- The votes `r` counts from another node are on the dealings it took. -/
theorem received_votes
    (h : (honest threshold total).run (outline total.toNat) as = some net) (hq : net.Quiet)
    {r s : Fin total.toNat} (hsr : s ≠ r) :
    (received s (history r as)).filter (fun m => !isDistribution m) ~
      (nodeLedger as s).dealings.map
        (fun d => .shareValidation (numbered total.toNat s) d.dealer true) := by
  have hp := run_received_perm _ h hsr (fun m => !isDistribution m) (by rw [hq s r]; rfl)
  rw [sent_votes] at hp
  exact hp

theorem countP_received
    (h : (honest threshold total).run (outline total.toNat) as = some net) (hq : net.Quiet)
    {rng : Fin total.toNat → Rng} (hone : ∀ i, commands (history i as) = [rng i])
    (r s d : Fin total.toNat) :
    (received s (history r as)).countP (naming (numbered total.toNat d)) =
      if s ≠ r ∧ s ≠ d then 1 else 0 := by
  by_cases hsr : s = r
  · subst hsr
    rw [run_received_self _ h (fun _ => rfl)]
    simp
  · have hv : (received s (history r as)).countP (naming (numbered total.toNat d)) =
        ((received s (history r as)).filter (fun m => !isDistribution m)).countP
          (naming (numbered total.toNat d)) := by
      rw [List.countP_filter]
      apply List.countP_congr
      intro m _
      cases m <;> simp [naming, vote, isDistribution]
    have ht : (taken as s d).length = if s ≠ d then 1 else 0 := by
      split_ifs with hsd
      · rw [taken_length h (quiet_delivered hq) (Ne.symm hsd), hone]
        rfl
      · obtain rfl := not_not.mp hsd
        rw [taken_self h]
        rfl
    rw [hv, (received_votes h hq hsr).countP_eq, List.countP_map]
    simp only [hsr, ne_eq, not_false_eq_true, true_and]
    rw [← ht, ← nodeLedger_dealings_from h, ← List.countP_eq_length_filter]
    apply List.countP_congr
    intro x _
    simp [naming, vote]

theorem length_nodeLedger_flags
    (h : (honest threshold total).run (outline total.toNat) as = some net) (hq : net.Quiet)
    {rng : Fin total.toNat → Rng} (hone : ∀ i, commands (history i as) = [rng i])
    (r d : Fin total.toNat) :
    ((nodeLedger as r).flags (numbered total.toNat d)).length =
      total.toNat - if d = r then 1 else 2 := by
  rw [nodeLedger, length_flags, countP_handled]
  simp only [countP_received h hq hone]
  rw [← Finset.sum_filter, Finset.sum_const, smul_eq_mul, mul_one]
  have hf : Finset.univ.filter (fun s => s ≠ r ∧ s ≠ d) = Finset.univ \ {r,d} := by
    ext s
    simp
  rw [hf, Finset.card_sdiff_of_subset (Finset.subset_univ _), Finset.card_univ, Fintype.card_fin]
  split_ifs with hdr
  · subst hdr
    simp
  · rw [Finset.card_pair (Ne.symm hdr)]

theorem flags_numbered
    (h : (honest threshold total).run (outline total.toNat) as = some net) (hq : net.Quiet)
    {r : Fin total.toNat} {dealer : String} (hf : (nodeLedger as r).flags dealer ≠ []) :
    ∃ d, dealer = numbered total.toNat d := by
  have hpos := List.length_pos_iff.mpr hf
  rw [nodeLedger, length_flags, List.countP_pos_iff] at hpos
  obtain ⟨m,hm,hn⟩ := hpos
  obtain ⟨s,hs⟩ := mem_handled.mp hm
  have hsr : s ≠ r := by
    rintro rfl
    rw [run_received_self _ h (fun _ => rfl)] at hs
    cases hs
  cases m with
  | shareDistribution fromId shares commitments => cases hn
  | shareValidation fromId toId isValid =>
    have hmem := (received_votes h hq hsr).subset (List.mem_filter.mpr ⟨hs,rfl⟩)
    obtain ⟨x,hx,he⟩ := List.mem_map.mp hmem
    obtain ⟨d,hd⟩ := mem_nodeLedger_dealings h hx
    obtain rfl : toId = dealer := by simpa [naming, vote] using hn
    simp only [DKGMessage.shareValidation.injEq] at he
    exact ⟨d,by rw [← he.2.1, hd]⟩

/-- When the completion condition holds at the end of an honest run. -/
theorem complete_of_run
    (h : (honest threshold total).run (outline total.toNat) as = some net) (hq : net.Quiet)
    {rng : Fin total.toNat → Rng} (hone : ∀ i, commands (history i as) = [rng i])
    (r : Fin total.toNat) :
    (net.node r).complete = true ↔
      (∀ d : Fin total.toNat, total.toNat - (if d = r then 1 else 2) ≠ 0 →
        threshold.toNat ≤ total.toNat - if d = r then 1 else 2) ∧
      threshold.toNat ≤ total.toNat - 1 := by
  rw [complete_iff (honest_refines h r), honest_threshold h, Ledger.Quorate,
    nodeLedger_dealers_once h (quiet_delivered hq) hone,
    Finset.card_image_of_injective _ numbered_injective,
    Finset.card_erase_of_mem (Finset.mem_univ r), Finset.card_univ, Fintype.card_fin]
  refine and_congr_left (fun _ => ?_)
  constructor
  · intro hf d hne
    rw [← length_nodeLedger_flags h hq hone r d] at hne ⊢
    exact hf _ (List.ne_nil_of_length_pos (Nat.pos_of_ne_zero hne))
  · intro hc dealer hf
    obtain ⟨d,rfl⟩ := flags_numbered h hq hf
    rw [length_nodeLedger_flags h hq hone]
    apply hc
    rw [← length_nodeLedger_flags h hq hone]
    exact (List.length_pos_iff.mpr hf).ne'

variable [SerdeJson]

/-- After one start each and every message delivered, all nodes meet the
completion condition if and only if there are two nodes, or two more than
the threshold. -/
theorem quorum_iff (ht : 1 ≤ threshold.toNat) (htn : threshold.toNat < total.toNat)
    (h : (honest threshold total).run (protocol total.toNat) as = some net) (hq : net.Quiet)
    {rng : Fin total.toNat → Rng} (hone : ∀ i, commands (history i as) = [rng i]) :
    (∀ k, (net.node k).complete = true) ↔ total.toNat = 2 ∨ threshold.toNat+2 ≤ total.toNat := by
  rw [protocol_eq_outline] at h
  simp only [complete_of_run h hq hone]
  constructor
  · intro hk
    have hd := (hk ⟨0,by omega⟩).1 ⟨1,by omega⟩
    rw [if_neg (by simp)] at hd
    omega
  · intro hn k
    refine ⟨fun d hne => ?_,by omega⟩
    split_ifs at hne ⊢ <;> omega

end votes

section triple
attribute [local instance] compactJson

def zeroRng (_ : Fin (3 : Usize).toNat) : Rng := constantRng 0

def tripleRun : DkgRun LogPoint 3 := honestSchedule 2 3 zeroRng

theorem triple_quiet : ∃ net, (honest 2 3).run (outline _) tripleRun = some net ∧ net.Quiet :=
  run_found _ (by decide +kernel)

theorem triple_starts (i : Fin (3 : Usize).toNat) :
    commands (history i tripleRun) = [zeroRng i] := by
  match i with
  | ⟨0,_⟩ => rfl
  | ⟨1,_⟩ => rfl
  | ⟨2,_⟩ => rfl

/-- Three nodes with threshold two never complete. -/
theorem triple_incomplete : ¬ ∀ net, (honest 2 3).run (protocol _) tripleRun = some net →
    net.Quiet → ∀ k, (net.node k).complete = true := by
  intro hall
  obtain ⟨net,hn,hq⟩ := triple_quiet
  have hk := hall net (by rw [protocol_eq_outline]; exact hn) hq ⟨0,by decide⟩
  rw [complete_of_run hn hq triple_starts] at hk
  have hd := hk.1 ⟨1,by decide⟩
  revert hd
  decide

theorem triple_quorum_iff : ∃ net, (honest 2 3).run (protocol _) tripleRun = some net ∧
    ((∀ k, (net.node k).complete = true) ↔
      (3 : Usize).toNat = 2 ∨ (2 : Usize).toNat+2 ≤ (3 : Usize).toNat) := by
  obtain ⟨net,hn,hq⟩ := triple_quiet
  rw [← protocol_eq_outline] at hn
  exact ⟨net,hn,quorum_iff (by decide) (by decide) hn hq triple_starts⟩

end triple
end MpcNode.Dkg
