import MpcNode.DkgCompletion

/-!
# Completion under reordering

A dealing is accepted without a check, so a message list forms its sum in
every order only when it forms none in any, or when nothing depends on which
dealings came before the last vote.
-/

set_option autoImplicit false

namespace MpcNode.Dkg
open MpcNode.Bls MpcNode.Guarded MpcNode.Messages MpcNode.Wire MpcNode.Channels
open scoped List

variable {G1 : Type}

section split

def distributions (msgs : List (DKGMessage G1)) : List (DKGMessage G1) := msgs.filter isDistribution

def votings (msgs : List (DKGMessage G1)) : List (DKGMessage G1) :=
  msgs.filter (fun m => !isDistribution m)

theorem split_perm (msgs : List (DKGMessage G1)) : distributions msgs ++ votings msgs ~ msgs :=
  List.filter_append_perm _ _

theorem mem_distributions {msg : DKGMessage G1} {msgs : List (DKGMessage G1)} :
    msg ∈ distributions msgs ↔ msg ∈ msgs ∧ isDistribution msg = true := List.mem_filter

theorem mem_votings {msg : DKGMessage G1} {msgs : List (DKGMessage G1)} :
    msg ∈ votings msgs ↔ msg ∈ msgs ∧ isDistribution msg = false := by
  simp [votings]

theorem exists_last_vote {ms : List (DKGMessage G1)} (hne : ms ≠ [])
    (hv : ∀ m ∈ ms, isDistribution m = false) :
    ∃ init x, ms = init++[x] ∧ isDistribution x = false := by
  obtain ⟨init,x,rfl⟩ := (List.eq_nil_or_concat' ms).resolve_left hne
  exact ⟨init,x,rfl,hv x (by simp)⟩

theorem ledger_of_distributions {own : Usize} {msgs : List (DKGMessage G1)}
    (h : ∀ m ∈ msgs, isDistribution m = true) : (ledger own msgs).votes = [] := by
  rw [ledger, List.filterMap_eq_nil_iff]
  intro m hm
  cases m with
  | shareDistribution fromId shares commitments => rfl
  | shareValidation fromId toId isValid => cases h _ hm

theorem ledger_of_votings {own : Usize} {msgs : List (DKGMessage G1)}
    (h : ∀ m ∈ msgs, isDistribution m = false) : (ledger own msgs).dealings = [] := by
  rw [ledger, List.filterMap_eq_nil_iff]
  intro m hm
  cases m with
  | shareDistribution fromId shares commitments => cases h _ hm
  | shareValidation fromId toId isValid => rfl

theorem flags_naming (own : Usize) (dealer other : String) (msgs : List (DKGMessage G1)) :
    (ledger own (msgs.filter (naming dealer))).flags other =
      if other = dealer then (ledger own msgs).flags dealer else [] := by
  have hv : (ledger own (msgs.filter (naming dealer))).votes =
      (ledger own msgs).votes.filter (fun v => v.1 = dealer) := by
    simp only [ledger, List.filterMap_filter, List.filter_filterMap]
    apply List.filterMap_congr
    intro m _
    cases h : vote m <;> simp [naming, h, Option.filter]
  rw [Ledger.flags, hv, List.filter_filter]
  split_ifs with h
  · subst h
    simp [Ledger.flags]
  · have hn : ∀ v : String × Bool, (decide (v.1 = other) && decide (v.1 = dealer)) = false := by
      intro v
      by_cases hv : v.1 = other <;> simp [hv, h]
    simp [hn]

theorem dealers_prefix_subset (own : Usize) {pre post msgs : List (DKGMessage G1)}
    {msg : DKGMessage G1} (h : pre ++ msg::post ~ msgs) :
    (ledger own (pre++[msg])).dealers ⊆ (ledger own msgs).dealers := by
  intro dealer hd
  rw [Ledger.dealers, List.mem_toFinset, List.mem_map] at hd ⊢
  obtain ⟨d,hm,hde⟩ := hd
  obtain ⟨m,hp,hmd⟩ := List.mem_filterMap.mp hm
  have hmem := h.subset (Prefixes.snoc_subset pre post msg hp)
  exact ⟨d,List.mem_filterMap.mpr ⟨m,hmem,hmd⟩,hde⟩

theorem flags_prefix_le (own : Usize) {pre post msgs : List (DKGMessage G1)}
    {msg : DKGMessage G1} (h : pre ++ msg::post ~ msgs) (dealer : String) :
    ((ledger own (pre++[msg])).flags dealer).length ≤ ((ledger own msgs).flags dealer).length := by
  have hp : ledger own (pre ++ msg::post) = (ledger own (pre++[msg])).append (ledger own post) := by
    rw [← ledger_append]
    simp
  have hv : (ledger own (pre ++ msg::post)).votes ~ (ledger own msgs).votes := h.filterMap _
  have hl : ((ledger own (pre ++ msg::post)).flags dealer).length =
      ((ledger own msgs).flags dealer).length := ((hv.filter _).map _).length_eq
  rw [← hl, hp]
  simp [Ledger.flags, Ledger.append]

theorem dealings_distributions (own : Usize) (msgs : List (DKGMessage G1)) :
    (ledger own (distributions msgs)).dealings = (ledger own msgs).dealings := by
  simp only [ledger, distributions, List.filterMap_filter]
  apply List.filterMap_congr
  intro m _
  cases m <;> rfl

theorem votes_votings (own : Usize) (msgs : List (DKGMessage G1)) :
    (ledger own (votings msgs)).votes = (ledger own msgs).votes := by
  simp only [ledger, votings, List.filterMap_filter]
  apply List.filterMap_congr
  intro m _
  cases m <;> rfl

theorem flags_votings_naming (own : Usize) (dealer : String) (msgs : List (DKGMessage G1))
    (other : String) : (ledger own ((votings msgs).filter (naming dealer))).flags other =
      if other = dealer then (ledger own msgs).flags dealer else [] := by
  rw [flags_naming, Ledger.flags, votes_votings, Ledger.flags]

theorem votings_ne_nil (own : Usize) {msgs : List (DKGMessage G1)} {dealer : String}
    (h : 1 ≤ ((ledger own msgs).flags dealer).length) : votings msgs ≠ [] := by
  intro hn
  rw [Ledger.flags, ← votes_votings, hn] at h
  simp [ledger] at h

theorem quorate_zero {threshold : Usize} (ht : threshold.toNat = 0) (l : Ledger G1) :
    l.Quorate threshold.toNat := by
  rw [ht]
  exact ⟨fun _ _ => Nat.zero_le _,Nat.zero_le _⟩

end split

section runs
variable [G1Group G1] [SerdeJson] (id : String) (threshold totalNodes : Usize) (channel : Channel)

theorem keysFormed_distributions (pre : List (DKGMessage G1)) {msgs : List (DKGMessage G1)}
    (h : ∀ m ∈ msgs, isDistribution m = true) :
    keysFormed id threshold totalNodes channel (pre++msgs) =
      keysFormed id threshold totalNodes channel pre := by
  induction msgs using List.reverseRecOn with
  | nil => rw [List.append_nil]
  | append_singleton msgs m ih =>
    rw [← List.append_assoc,
      keysFormed_distribution id threshold totalNodes channel _ (h m (by simp))]
    exact ih (fun x hx => h x (by simp [hx]))

/-- No sum is formed exactly when no vote finds both tests passed. -/
theorem keysFormed_nil_iff (msgs : List (DKGMessage G1)) :
    keysFormed id threshold totalNodes channel msgs = [] ↔
    ∀ pre msg post, msgs = pre ++ msg::post → isDistribution msg = false →
      ¬ (ledger (idParsed id) (pre++[msg])).Quorate threshold.toNat := by
  have hm : ∀ (pre : List (DKGMessage G1)) msg,
      messages (pre.map Input.message ++ [.message msg]) = pre++[msg] := by
    intro pre msg
    rw [← messages_map (pre++[msg]), List.map_append]
    rfl
  rw [keysFormed, runFromNew, run_results_nil_iff]
  constructor
  · rintro h pre msg post rfl hd
    have hq := h (pre.map .message) (.message msg) (post.map .message) (by simp)
      (by simp [isVote, hd])
    rwa [hm] at hq
  · intro h pre i post hi hv
    obtain ⟨ms,ns,rfl,rfl,hn⟩ := List.map_eq_append_iff.mp hi
    obtain ⟨msg,ns,rfl,rfl,rfl⟩ := List.map_eq_cons_iff.mp hn
    rw [hm]
    exact h ms msg ns rfl (by simpa [isVote] using hv)

theorem keysFormed_last (pre post : List (DKGMessage G1)) {msg : DKGMessage G1}
    (hv : isDistribution msg = false)
    (hq : (ledger (idParsed id) (pre++[msg])).Quorate threshold.toNat)
    (hp : ∀ m ∈ post, isDistribution m = true) :
    (keysFormed id threshold totalNodes channel (pre++[msg]++post)).getLast? =
      some (ledger (idParsed id) (pre++[msg])).keySum := by
  classical
  rw [keysFormed_distributions id threshold totalNodes channel _ hp,
    keysFormed_vote id threshold totalNodes channel pre hv, if_pos hq, List.getLast?_concat]

/-- Any two orders of the messages agree on whether a sum is formed and on
the last one formed. -/
def OrderFree (msgs : List (DKGMessage G1)) : Prop :=
  ∀ ms ns, ms ~ msgs → ns ~ msgs →
    (keysFormed id threshold totalNodes channel ms ≠ [] ↔
      keysFormed id threshold totalNodes channel ns ≠ []) ∧
    (keysFormed id threshold totalNodes channel ms).getLast? =
      (keysFormed id threshold totalNodes channel ns).getLast?

/-- Too few dealers, or no dealer with enough votes: no order forms a sum. -/
theorem keysFormed_short {msgs ms : List (DKGMessage G1)} (hp : ms ~ msgs)
    (h : (ledger (idParsed id) msgs).dealers.card < threshold.toNat ∨
      ∀ dealer, ((ledger (idParsed id) msgs).flags dealer).length < max threshold.toNat 1) :
    keysFormed id threshold totalNodes channel ms = [] := by
  rw [keysFormed_nil_iff]
  rintro pre msg post rfl hv ⟨hf,hc⟩
  rcases h with hd | hd
  · have hs := Finset.card_le_card (dealers_prefix_subset (idParsed id) hp)
    omega
  · cases msg with
    | shareDistribution fromId shares commitments => cases hv
    | shareValidation fromId toId isValid =>
      have hne : (ledger (idParsed id) (pre++[.shareValidation fromId toId isValid])).flags toId ≠
          [] := by simp [ledger, Ledger.flags, vote]
      have hle := flags_prefix_le (idParsed id) hp toId
      have hpos := List.length_pos_iff.mpr hne
      have ht := hf toId hne
      have hlt := hd toId
      omega

/-- With threshold zero each vote forms a sum; of zero shares, always zero. -/
theorem keysFormed_zero (msgs : List (DKGMessage G1)) (ht : threshold.toNat = 0)
    (hz : ∀ d ∈ (ledger (idParsed id) msgs).dealings, d.share.value.scalar = 0) :
    keysFormed id threshold totalNodes channel msgs =
      List.replicate (msgs.countP (fun m => !isDistribution m)) 0 := by
  classical
  induction msgs using List.reverseRecOn with
  | nil => rfl
  | append_singleton msgs m ih =>
    have hi := ih (fun d hd => hz d (by rw [ledger_append]; exact List.mem_append_left _ hd))
    rw [List.countP_append, List.countP_singleton]
    cases hd : isDistribution m with
    | true =>
      rw [keysFormed_distribution id threshold totalNodes channel msgs hd, hi]
      simp
    | false =>
      have hq := quorate_zero ht (ledger (idParsed id) (msgs++[m]))
      rw [keysFormed_vote id threshold totalNodes channel msgs hd, if_pos hq, keySum_zero hz, hi]
      simp [List.replicate_succ']

/-- All votes first: no sum of a positive threshold. -/
theorem keysFormed_votings_first (msgs : List (DKGMessage G1)) (ht : 0 < threshold.toNat) :
    keysFormed id threshold totalNodes channel (votings msgs ++ distributions msgs) = [] := by
  rw [keysFormed_distributions id threshold totalNodes channel _
    (fun m hm => (mem_distributions.mp hm).2), keysFormed_nil_iff]
  rintro pre msg post hm - ⟨-,hc⟩
  have hd : (ledger (idParsed id) (pre++[msg])).dealings = [] := by
    apply ledger_of_votings
    intro m hmem
    have hv : m ∈ votings msgs := hm.symm ▸ Prefixes.snoc_subset pre post msg hmem
    exact (mem_votings.mp hv).2
  rw [Ledger.dealers, hd] at hc
  simp at hc
  omega

theorem keysFormed_dealer_first (msgs : List (DKGMessage G1)) (dealer : String)
    (hc : threshold.toNat ≤ (ledger (idParsed id) msgs).dealers.card)
    (hf : max threshold.toNat 1 ≤ ((ledger (idParsed id) msgs).flags dealer).length)
    (rest : List (DKGMessage G1)) :
    keysFormed id threshold totalNodes channel
      (distributions msgs ++ ((votings msgs).filter (naming dealer) ++ rest)) ≠ [] := by
  have hfl := flags_votings_naming (idParsed id) dealer msgs
  have hne : (votings msgs).filter (naming dealer) ≠ [] := by
    intro h
    have hd := hfl dealer
    rw [h, if_pos rfl] at hd
    rw [← hd] at hf
    simp [ledger, Ledger.flags] at hf
  obtain ⟨init,x,hx,hxv⟩ := exists_last_vote hne
    (fun m hm => (mem_votings.mp (List.mem_filter.mp hm).1).2)
  rw [Ne, keysFormed_nil_iff]
  intro h
  apply h (distributions msgs ++ init) x rest (by rw [hx]; simp) hxv
  have hl : ledger (idParsed id) (distributions msgs ++ init ++ [x]) =
      ⟨(ledger (idParsed id) msgs).dealings,
        (ledger (idParsed id) ((votings msgs).filter (naming dealer))).votes⟩ := by
    rw [List.append_assoc, ← hx, ledger_append, Ledger.append, dealings_distributions,
      ledger_of_distributions (fun m hm => (mem_distributions.mp hm).2),
      ledger_of_votings (fun m hm => (mem_votings.mp (List.mem_filter.mp hm).1).2),
      List.append_nil, List.nil_append]
  rw [hl]
  refine ⟨fun other ho => ?_,hc⟩
  change (ledger (idParsed id) ((votings msgs).filter (naming dealer))).flags other ≠ [] at ho
  change _ ≤ ((ledger (idParsed id) ((votings msgs).filter (naming dealer))).flags other).length
  rw [hfl] at ho ⊢
  split_ifs at ho ⊢ with he
  · exact (le_max_left _ _).trans hf
  · exact absurd rfl ho

theorem keysFormed_two_orders {msgs : List (DKGMessage G1)} {m : DKGMessage G1} {d : Dealing G1}
    (ht : threshold.toNat = 0) (hd : dealing (idParsed id) m = some d)
    (hv : votings msgs ≠ []) :
    (keysFormed id threshold totalNodes channel
      (m::votings msgs ++ (distributions msgs).erase m)).getLast? =
        some (d.share.value.scalar•generator) ∧
    (keysFormed id threshold totalNodes channel (votings msgs ++ distributions msgs)).getLast? =
        some 0 := by
  obtain ⟨init,x,hx,hxv⟩ := exists_last_vote hv (fun m hm => (mem_votings.mp hm).2)
  have hno : (ledger (idParsed id) (init++[x])).dealings = [] := by
    rw [← hx]
    exact ledger_of_votings (fun m hm => (mem_votings.mp hm).2)
  constructor
  · have hlast := keysFormed_last id threshold totalNodes channel (m::init)
      ((distributions msgs).erase m) hxv (quorate_zero ht _)
      (fun y hy => (mem_distributions.mp (List.mem_of_mem_erase hy)).2)
    have hcons : m::votings msgs = m::init++[x] := by rw [hx]; rfl
    rw [hcons, hlast]
    have hl : ledger (idParsed id) (m::init++[x]) =
        ⟨[d],(ledger (idParsed id) (m::init++[x])).votes⟩ := by
      have hm1 : (ledger (idParsed id) (m::init++[x])).dealings = [d] := by
        change (m::(init++[x])).filterMap _ = [d]
        rw [List.filterMap_cons, hd]
        exact congrArg (List.cons d) hno
      rw [← hm1]
    rw [hl]
    simp [Ledger.keySum, Ledger.dealers, Ledger.lastOf]
  · have hlast := keysFormed_last id threshold totalNodes channel init
      (distributions msgs) hxv (quorate_zero ht _) (fun y hy => (mem_distributions.mp hy).2)
    rw [hx, hlast, keySum_zero (by simp [hno])]

/-- With threshold zero, a vote before a dealing and a vote after it form
sums that differ, unless the share is zero. -/
theorem orderFree_zero {msgs : List (DKGMessage G1)} (ht : threshold.toNat = 0)
    (hv : votings msgs ≠ []) (h : OrderFree id threshold totalNodes channel msgs) :
    ∀ d ∈ (ledger (idParsed id) msgs).dealings, d.share.value.scalar = 0 := by
  intro d hd
  obtain ⟨m,hm,hmd⟩ := List.mem_filterMap.mp hd
  have hmdist : m ∈ distributions msgs := by
    apply mem_distributions.mpr ⟨hm,?_⟩
    cases m with
    | shareDistribution fromId shares commitments => rfl
    | shareValidation fromId toId isValid => cases hmd
  have hvd : votings msgs ++ distributions msgs ~ msgs :=
    List.perm_append_comm.trans (split_perm msgs)
  have hmv : m::votings msgs ++ (distributions msgs).erase m ~ msgs := by
    have hp : m::votings msgs ++ (distributions msgs).erase m ~
        votings msgs ++ m::(distributions msgs).erase m := List.perm_middle.symm
    exact hp.trans (((List.perm_cons_erase hmdist).symm.append_left _).trans hvd)
  obtain ⟨h1,h2⟩ := keysFormed_two_orders id threshold totalNodes channel ht hmd hv
  have he := (h _ _ hmv hvd).2
  rw [h1, h2] at he
  exact G1Group.faithful _ (Option.some.inj he)

/-- With a positive threshold, one dealer with enough votes and enough
dealers form a sum in one order and none in another. -/
theorem orderFree_positive {msgs : List (DKGMessage G1)} (ht : 0 < threshold.toNat)
    {dealer : String} (hc : threshold.toNat ≤ (ledger (idParsed id) msgs).dealers.card)
    (hf : max threshold.toNat 1 ≤ ((ledger (idParsed id) msgs).flags dealer).length) :
    ¬ OrderFree id threshold totalNodes channel msgs := by
  intro h
  have hvd : votings msgs ++ distributions msgs ~ msgs :=
    List.perm_append_comm.trans (split_perm msgs)
  have hdv : distributions msgs ++ ((votings msgs).filter (naming dealer) ++
      (votings msgs).filter (fun m => !naming dealer m)) ~ msgs :=
    ((List.filter_append_perm _ _).append_left _).trans (split_perm msgs)
  have hne := (h _ _ hdv hvd).1.mp
    (keysFormed_dealer_first id threshold totalNodes channel msgs dealer hc hf _)
  exact hne (keysFormed_votings_first id threshold totalNodes channel msgs ht)

/-- The order of a message list does not matter exactly when no order forms
a sum, for want of dealers or of votes on any one dealer, or when every
order forms sums of nothing but zero shares. -/
theorem orderFree_iff (msgs : List (DKGMessage G1)) :
    OrderFree id threshold totalNodes channel msgs ↔
      (ledger (idParsed id) msgs).dealers.card < threshold.toNat ∨
      (∀ dealer, ((ledger (idParsed id) msgs).flags dealer).length < max threshold.toNat 1) ∨
      (threshold.toNat = 0 ∧
        ∀ d ∈ (ledger (idParsed id) msgs).dealings, d.share.value.scalar = 0) := by
  constructor
  · intro h
    by_contra hcon
    push Not at hcon
    obtain ⟨hc,⟨dealer,hf⟩,hz⟩ := hcon
    rcases Nat.eq_zero_or_pos threshold.toNat with ht | ht
    · obtain ⟨d,hd,hdz⟩ := hz ht
      have hv := votings_ne_nil (idParsed id) ((le_max_right _ _).trans hf)
      exact hdz (orderFree_zero id threshold totalNodes channel ht hv h d hd)
    · exact orderFree_positive id threshold totalNodes channel ht hc hf h
  · intro h ms ns hms hns
    rw [← or_assoc] at h
    rcases h with h | ⟨ht,hz⟩
    · rw [keysFormed_short id threshold totalNodes channel hms h,
        keysFormed_short id threshold totalNodes channel hns h]
      exact ⟨Iff.rfl,rfl⟩
    · have hzero : ∀ ls, ls ~ msgs → ∀ d ∈ (ledger (idParsed id) ls).dealings,
          d.share.value.scalar = 0 :=
        fun ls hl d hd => hz d ((hl.filterMap _).subset hd)
      rw [keysFormed_zero id threshold totalNodes channel ms ht (hzero ms hms),
        keysFormed_zero id threshold totalNodes channel ns ht (hzero ns hns),
        (hms.trans hns.symm).countP_eq]
      exact ⟨Iff.rfl,rfl⟩

end runs

section late
attribute [local instance] compactJson

/-- A dealing that arrives after the votes is never checked. -/
theorem late_dealing_unchecked : ¬ OrderFree "1" 1 2 .empty
    ([.shareDistribution "2" [⟨1,⟨1⟩⟩] [],.shareValidation "3" "2" true] :
      List (DKGMessage LogPoint)) := by
  intro h
  have hs := (h [.shareDistribution "2" [⟨1,⟨1⟩⟩] [],.shareValidation "3" "2" true]
    [.shareValidation "3" "2" true,.shareDistribution "2" [⟨1,⟨1⟩⟩] []]
    (List.Perm.refl _) (List.Perm.swap _ _ _)).1
  revert hs
  decide +kernel

end late
end MpcNode.Dkg
