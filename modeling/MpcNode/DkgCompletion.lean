import MpcNode.DkgLedger

/-!
# When the completion check passes

The check tests lengths only. Votes are counted whatever they say and
whoever sends them, and a dealer without votes is not checked. Under
granted guards the sums that a run forms are read off the ledgers of its
prefixes. They are sound while the votes that fill a dealer's list up to the
threshold are positive and no sender casts two of them.
-/

set_option autoImplicit false

namespace MpcNode.Dkg
open MpcNode.Bls MpcNode.Guarded MpcNode.Messages MpcNode.Wire MpcNode.Channels
open scoped List

variable {G1 : Type}

section soundness

def validators (dealer : String) (msgs : List (DKGMessage G1)) : Finset String :=
  (msgs.filterMap (fun
    | .shareDistribution _ _ _ => none
    | .shareValidation fromId toId isValid =>
      if toId = dealer ∧ isValid = true then some fromId else none)).toFinset

/-- Votes on the dealer that are negative or repeat a positive one. -/
def wasted (dealer : String) : Finset String → List (DKGMessage G1) → ℕ
  | _, [] => 0
  | seen, .shareDistribution _ _ _::msgs => wasted dealer seen msgs
  | seen, .shareValidation fromId toId isValid::msgs =>
    if toId ≠ dealer then wasted dealer seen msgs
    else if isValid = true ∧ fromId ∉ seen then wasted dealer (insert fromId seen) msgs
    else wasted dealer seen msgs+1

def votesOn (dealer : String) (msgs : List (DKGMessage G1)) : List (String × Bool) :=
  msgs.filterMap (fun
    | .shareDistribution _ _ _ => none
    | .shareValidation fromId toId isValid =>
      if toId = dealer then some (fromId,isValid) else none)

/-- There are votes, unless none are asked for, and the first ones up to the
number asked for are positive and by different senders. -/
structure Genuine (asked : ℕ) (votes : List (String × Bool)) : Prop where
  present : 0 < asked → votes ≠ []
  positive : ∀ v ∈ votes.take asked, v.2 = true
  distinct : ((votes.take asked).map Prod.fst).Nodup

theorem validators_eq (dealer : String) (msgs : List (DKGMessage G1)) :
    validators dealer msgs =
      (((votesOn dealer msgs).filter Prod.snd).map Prod.fst).toFinset := by
  rw [validators, votesOn, List.filter_filterMap, List.map_filterMap]
  congr 2
  funext msg
  rcases msg with ⟨fromId,shares,commitments⟩ | ⟨fromId,toId,isValid⟩
  · rfl
  · by_cases h : toId = dealer <;> cases isValid <;> simp [h, Option.filter]

theorem length_votesOn (dealer : String) (msgs : List (DKGMessage G1)) :
    (votesOn dealer msgs).length = msgs.countP (naming dealer) := by
  rw [votesOn, List.length_filterMap_eq_countP]
  apply List.countP_congr
  intro msg _
  rcases msg with ⟨fromId,shares,commitments⟩ | ⟨fromId,toId,isValid⟩
  · simp [naming, vote]
  · by_cases h : toId = dealer <;> simp [naming, vote, h]

theorem genuine_card {asked : ℕ} {votes : List (String × Bool)} (h : Genuine asked votes)
    (hl : asked ≤ votes.length) :
    asked ≤ ((votes.filter Prod.snd).map Prod.fst).toFinset.card := by
  have hkept : (votes.take asked).filter Prod.snd = votes.take asked :=
    List.filter_eq_self.mpr h.positive
  have hsub : ((votes.take asked).map Prod.fst).toFinset ⊆
      ((votes.filter Prod.snd).map Prod.fst).toFinset := by
    intro fromId hf
    rw [List.mem_toFinset] at hf ⊢
    rw [← hkept] at hf
    exact (((List.take_sublist asked votes).filter Prod.snd).map Prod.fst).subset hf
  calc asked = ((votes.take asked).map Prod.fst).length := by
        rw [List.length_map, List.length_take, min_eq_left hl]
    _ = ((votes.take asked).map Prod.fst).toFinset.card :=
        (List.toFinset_card_of_nodup h.distinct).symm
    _ ≤ _ := Finset.card_le_card hsub

theorem card_genuine {asked : ℕ} {votes : List (String × Bool)} (hl : votes.length ≤ asked)
    (h : asked ≤ ((votes.filter Prod.snd).map Prod.fst).toFinset.card) : Genuine asked votes := by
  have hcard := List.toFinset_card_le ((votes.filter Prod.snd).map Prod.fst)
  rw [List.length_map] at hcard
  have hfilter := List.length_filter_le Prod.snd votes
  have hall : votes.filter Prod.snd = votes :=
    List.filter_sublist.eq_of_length (by omega)
  rw [hall] at h
  refine ⟨?_,?_,?_⟩
  · rintro hpos rfl
    simp [hpos.ne'] at h
  · rw [List.take_of_length_le hl]
    exact List.filter_eq_self.mp hall
  · rw [List.take_of_length_le hl]
    have hle := List.toFinset_card_le (votes.map Prod.fst)
    have hge : (votes.map Prod.fst).length ≤ (votes.map Prod.fst).toFinset.card := by
      rw [List.length_map]
      exact hl.trans h
    exact Multiset.coe_nodup.mp
      (Multiset.toFinset_card_eq_card_iff_nodup.mp (le_antisymm hle hge))

theorem card_insert_sdiff {a : String} {s t : Finset String} (h : a ∉ s) :
    (insert a t \ s).card = (t \ insert a s).card+1 := by
  have hi : insert a t \ s = insert a (t \ insert a s) := by
    ext x
    by_cases hx : x = a
    · simp [hx, h]
    · simp [hx]
  rw [hi, Finset.card_insert_of_notMem (by simp)]

theorem validators_vote (dealer fromId toId : String) (isValid : Bool)
    (msgs : List (DKGMessage G1)) :
    validators dealer (.shareValidation fromId toId isValid::msgs) =
      if toId = dealer ∧ isValid = true then insert fromId (validators dealer msgs)
      else validators dealer msgs := by
  split_ifs with h <;> simp [validators, h]

theorem wasted_add_validators (dealer : String) (seen : Finset String)
    (msgs : List (DKGMessage G1)) :
    wasted dealer seen msgs+(validators dealer msgs \ seen).card =
      msgs.countP (naming dealer) := by
  induction msgs generalizing seen with
  | nil => simp [wasted, validators]
  | cons msg msgs ih =>
    rcases msg with ⟨fromId,shares,commitments⟩ | ⟨fromId,toId,isValid⟩
    · exact ih seen
    · have hn : naming dealer (.shareValidation fromId toId isValid : DKGMessage G1) =
          decide (toId = dealer) := rfl
      rw [validators_vote, List.countP_cons, hn]
      by_cases hd : toId = dealer
      · by_cases hs : isValid = true ∧ fromId ∉ seen
        · have hi := ih (insert fromId seen)
          simp only [wasted, hd, hs, ne_eq, not_true_eq_false, if_false, and_self, if_true,
            not_false_eq_true, card_insert_sdiff hs.2, decide_true]
          omega
        · have hcard : ((if toId = dealer ∧ isValid = true then
              insert fromId (validators dealer msgs) else validators dealer msgs) \ seen).card =
              (validators dealer msgs \ seen).card := by
            split_ifs with hv
            · rw [Finset.insert_sdiff_of_mem _ (not_not.mp (fun h => hs ⟨hv.2,h⟩))]
            · rfl
          rw [hcard, ← ih seen, wasted, if_neg (not_not.mpr hd), if_neg hs, decide_eq_true hd,
            if_pos rfl]
          omega
      · simp only [wasted, hd, ne_eq, not_false_eq_true, if_true, false_and, if_false, decide_false,
          Bool.false_eq_true, add_zero]
        exact ih seen

theorem wasted_add_card (own : Usize) (dealer : String) (msgs : List (DKGMessage G1)) :
    wasted dealer ∅ msgs+(validators dealer msgs).card =
      ((ledger own msgs).flags dealer).length := by
  have h := wasted_add_validators dealer ∅ msgs
  rwa [Finset.sdiff_empty, ← length_flags own] at h

end soundness

section runs
variable [G1Group G1] [SerdeJson] (id : String) (threshold totalNodes : Usize) (channel : Channel)

def runFromNew (msgs : List (DKGMessage G1)) : Ctx (DKGNode G1) G1 :=
  run .granted (.fresh (.new id threshold totalNodes) channel) (msgs.map .message)

/-- What the completion checks of a run form, in order. -/
def keysFormed (msgs : List (DKGMessage G1)) : List G1 :=
  (runFromNew id threshold totalNodes channel msgs).results

theorem runFromNew_refines (msgs : List (DKGMessage G1)) :
    Refines (runFromNew id threshold totalNodes channel msgs).node (ledger (idParsed id) msgs) :=
  run_messages_refines .granted id threshold totalNodes channel msgs

open Classical in
theorem keysFormed_snoc (msgs : List (DKGMessage G1)) (msg : DKGMessage G1) :
    keysFormed id threshold totalNodes channel (msgs++[msg]) =
      keysFormed id threshold totalNodes channel msgs ++
        if isVote (.message msg) = true ∧
            (ledger (idParsed id) (msgs++[msg])).Quorate threshold.toNat then
          [(ledger (idParsed id) (msgs++[msg])).keySum] else [] := by
  have hm : messages (msgs.map Input.message ++ [.message msg]) = msgs++[msg] := by
    rw [← messages_map (msgs++[msg]), List.map_append]
    rfl
  have hr := run_results_snoc id threshold totalNodes channel (msgs.map Input.message)
    (.message msg)
  rw [hm] at hr
  rw [keysFormed, runFromNew, List.map_append]
  exact hr

theorem keysFormed_distribution (msgs : List (DKGMessage G1)) {msg : DKGMessage G1}
    (h : isDistribution msg = true) :
    keysFormed id threshold totalNodes channel (msgs++[msg]) =
      keysFormed id threshold totalNodes channel msgs := by
  rw [keysFormed_snoc, if_neg (by simp [isVote, h]), List.append_nil]

open Classical in
theorem keysFormed_vote (msgs : List (DKGMessage G1)) {msg : DKGMessage G1}
    (h : isDistribution msg = false) :
    keysFormed id threshold totalNodes channel (msgs++[msg]) =
      keysFormed id threshold totalNodes channel msgs ++
        if (ledger (idParsed id) (msgs++[msg])).Quorate threshold.toNat then
          [(ledger (idParsed id) (msgs++[msg])).keySum] else [] := by
  rw [keysFormed_snoc]
  simp only [isVote, h, Bool.not_false, true_and]

theorem keysFormed_ne_iff (msgs : List (DKGMessage G1)) (msg : DKGMessage G1) :
    keysFormed id threshold totalNodes channel (msgs++[msg]) ≠
      keysFormed id threshold totalNodes channel msgs ↔
    isDistribution msg = false ∧ (ledger (idParsed id) (msgs++[msg])).Quorate threshold.toNat := by
  classical
  cases hd : isDistribution msg with
  | true => simp [keysFormed_distribution id threshold totalNodes channel msgs hd]
  | false =>
    rw [keysFormed_vote id threshold totalNodes channel msgs hd]
    split_ifs with hq <;> simp [hq]

/-- Whenever the sum is formed, each held share has enough validators. -/
def SoundRun (msgs : List (DKGMessage G1)) : Prop :=
  ∀ pre msg post, msgs = pre ++ msg::post →
    keysFormed id threshold totalNodes channel (pre++[msg]) ≠
      keysFormed id threshold totalNodes channel pre →
    ∀ dealer share, (runFromNew id threshold totalNodes channel
        (pre++[msg])).node.shares.lookup dealer = some share →
      threshold.toNat ≤ (validators dealer (pre++[msg])).card

/-- Completion is sound exactly when, at every vote that passes both length
tests, each dealer held has the threshold in votes besides the wasted ones. -/
theorem soundRun_iff (msgs : List (DKGMessage G1)) :
    SoundRun id threshold totalNodes channel msgs ↔
    ∀ pre msg post, msgs = pre ++ msg::post → isDistribution msg = false →
      (ledger (idParsed id) (pre++[msg])).Quorate threshold.toNat →
      ∀ dealer ∈ (ledger (idParsed id) (pre++[msg])).dealers,
        wasted dealer ∅ (pre++[msg])+threshold.toNat ≤
          ((ledger (idParsed id) (pre++[msg])).flags dealer).length := by
  constructor
  · intro h pre msg post hm hd hq dealer hdealer
    obtain ⟨d,hl⟩ := Ledger.mem_dealers.mp hdealer
    have hs : (runFromNew id threshold totalNodes channel
        (pre++[msg])).node.shares.lookup dealer = some d.share := by
      rw [(runFromNew_refines id threshold totalNodes channel _).share, hl, Option.map_some]
    have hv := h pre msg post hm
      ((keysFormed_ne_iff id threshold totalNodes channel pre msg).mpr ⟨hd,hq⟩) dealer d.share hs
    have hc := wasted_add_card (idParsed id) dealer (pre++[msg])
    omega
  · intro h pre msg post hm hne dealer share hs
    obtain ⟨hd,hq⟩ := (keysFormed_ne_iff id threshold totalNodes channel pre msg).mp hne
    rw [(runFromNew_refines id threshold totalNodes channel _).share] at hs
    obtain ⟨d,hl,-⟩ := Option.map_eq_some_iff.mp hs
    have hw := h pre msg post hm hd hq dealer (Ledger.mem_dealers.mpr ⟨d,hl⟩)
    have hc := wasted_add_card (idParsed id) dealer (pre++[msg])
    omega

/-- At every vote that passes both length tests, the first votes on each
dealer held are genuine. -/
def GenuineRun (msgs : List (DKGMessage G1)) : Prop :=
  ∀ pre msg post, msgs = pre ++ msg::post → isDistribution msg = false →
    (ledger (idParsed id) (pre++[msg])).Quorate threshold.toNat →
    ∀ dealer ∈ (ledger (idParsed id) (pre++[msg])).dealers,
      Genuine threshold.toNat (votesOn dealer (pre++[msg]))

/-- Completion is sound in every run whose votes are genuine, and in no other
in which no dealer gets more votes than the threshold. -/
theorem genuine_sound (msgs : List (DKGMessage G1)) :
    (GenuineRun id threshold msgs → SoundRun id threshold totalNodes channel msgs) ∧
    ((∀ dealer, (votesOn dealer msgs).length ≤ threshold.toNat) →
      SoundRun id threshold totalNodes channel msgs → GenuineRun id threshold msgs) := by
  have hcount : ∀ (dealer : String) (ms : List (DKGMessage G1)),
      (votesOn dealer ms).length = ((ledger (idParsed id) ms).flags dealer).length := by
    intro dealer ms
    rw [length_votesOn, length_flags]
  rw [soundRun_iff]
  constructor
  · intro h pre msg post hm hd hq dealer hdealer
    have hg := h pre msg post hm hd hq dealer hdealer
    have hl : threshold.toNat ≤ (votesOn dealer (pre++[msg])).length := by
      rcases Nat.eq_zero_or_pos threshold.toNat with hz | hpos
      · omega
      · rw [hcount]
        apply hq.1 dealer
        rw [← List.length_pos_iff, ← hcount]
        exact List.length_pos_iff.mpr (hg.present hpos)
    have hv := genuine_card hg hl
    rw [← validators_eq] at hv
    have hc := wasted_add_card (idParsed id) dealer (pre++[msg])
    omega
  · intro hfew h pre msg post hm hd hq dealer hdealer
    have hw := h pre msg post hm hd hq dealer hdealer
    have hc := wasted_add_card (idParsed id) dealer (pre++[msg])
    have hv : threshold.toNat ≤ (validators dealer (pre++[msg])).card := by omega
    rw [validators_eq] at hv
    have hsplit : msgs = (pre++[msg])++post := by rw [hm, List.append_assoc, List.singleton_append]
    have hle := hfew dealer
    rw [length_votesOn, hsplit, List.countP_append, ← length_votesOn] at hle
    exact card_genuine ((Nat.le_add_right _ _).trans hle) hv

end runs

section samples
attribute [local instance] compactJson

theorem positive_vote_sound :
    keysFormed "1" 1 2 .empty ([.shareDistribution "2" [⟨1,⟨1⟩⟩] [],
      .shareValidation "3" "2" true] : List (DKGMessage LogPoint)) ≠ [] ∧
    SoundRun "1" 1 2 .empty ([.shareDistribution "2" [⟨1,⟨1⟩⟩] [],
      .shareValidation "3" "2" true] : List (DKGMessage LogPoint)) := by
  refine ⟨by decide +kernel,(genuine_sound "1" 1 2 .empty _).1 ?_⟩
  refine Prefixes.forall_split_snoc (l := [_]).mpr ⟨?_,?_⟩
  · intro pre msg post h hd
    have hm : msg ∈ [(.shareDistribution "2" [⟨1,⟨1⟩⟩] [] : DKGMessage LogPoint)] := by
      rw [h]
      simp
    rw [List.mem_singleton.mp hm] at hd
    cases hd
  · intro _ _ dealer hdealer
    have hdealers : (ledger (idParsed "1") ([.shareDistribution "2" [⟨1,⟨1⟩⟩] [],
        .shareValidation "3" "2" true] : List (DKGMessage LogPoint))).dealers = {"2"} := by
      decide +kernel
    obtain rfl : dealer = "2" := Finset.mem_singleton.mp (hdealers ▸ hdealer)
    exact ⟨by decide +kernel,by decide +kernel,by decide +kernel⟩

/-- One negative vote completes a node that holds one share. -/
theorem negative_vote_completes : ¬ SoundRun "1" 1 2 .empty
    ([.shareDistribution "2" [⟨1,⟨1⟩⟩] [],.shareValidation "3" "2" false] :
      List (DKGMessage LogPoint)) := by
  intro h
  have hv := h [.shareDistribution "2" [⟨1,⟨1⟩⟩] []] (.shareValidation "3" "2" false) [] rfl
    (by decide +kernel) "2" ⟨1,⟨1⟩⟩ rfl
  revert hv
  decide +kernel

end samples
end MpcNode.Dkg
