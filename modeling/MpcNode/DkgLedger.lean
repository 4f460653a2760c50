import MpcNode.DkgCalls
import MpcNode.Library.Prefixes
import MpcNode.Library.Runs

/-!
# The ledger of a node's history

What a node is for, as a record of what it was told: the dealings it
accepted and the votes it counted, in order. The node's maps hold the last
dealing of each dealer and the votes on each dealer, so the completion
condition and the sum are functions of the ledger alone.
-/

set_option autoImplicit false

namespace MpcNode.Dkg
open MpcNode.Bls MpcNode.Guarded MpcNode.Messages MpcNode.Wire MpcNode.Channels MpcNode.Tables

variable {G1 : Type}

structure Ledger (G1 : Type) where
  dealings : List (Dealing G1)
  votes : List (String × Bool)

namespace Ledger

def append (l m : Ledger G1) : Ledger G1 := ⟨l.dealings++m.dealings,l.votes++m.votes⟩

def lastOf (l : Ledger G1) (dealer : String) : Option (Dealing G1) :=
  (l.dealings.filter (fun d => d.dealer = dealer)).getLast?

def dealers (l : Ledger G1) : Finset String := (l.dealings.map (fun d => d.dealer)).toFinset

def flags (l : Ledger G1) (dealer : String) : List Bool :=
  (l.votes.filter (fun v => v.1 = dealer)).map (fun v => v.2)

/-- Both length tests of the completion check. -/
def Quorate (l : Ledger G1) (threshold : ℕ) : Prop :=
  (∀ dealer, l.flags dealer ≠ [] → threshold ≤ (l.flags dealer).length) ∧
    threshold ≤ l.dealers.card

def keySum [G1Group G1] (l : Ledger G1) : G1 :=
  ∑ dealer ∈ l.dealers, ((l.lastOf dealer).map (fun d => d.share.value.scalar•generator)).getD 0

theorem append_assoc (l m n : Ledger G1) : (l.append m).append n = l.append (m.append n) := by
  simp [append]

@[simp] theorem append_empty (l : Ledger G1) : l.append ⟨[],[]⟩ = l := by simp [append]

theorem lastOf_dealing (l : Ledger G1) (d : Dealing G1) (dealer : String) :
    (l.append ⟨[d],[]⟩).lastOf dealer = if d.dealer = dealer then some d else l.lastOf dealer := by
  by_cases h : d.dealer = dealer <;> simp [lastOf, append, h]

theorem lastOf_vote (l : Ledger G1) (v : String × Bool) (dealer : String) :
    (l.append ⟨[],[v]⟩).lastOf dealer = l.lastOf dealer := by
  simp [lastOf, append]

theorem flags_dealing (l : Ledger G1) (d : Dealing G1) (dealer : String) :
    (l.append ⟨[d],[]⟩).flags dealer = l.flags dealer := by
  simp [flags, append]

theorem flags_vote (l : Ledger G1) (v : String × Bool) (dealer : String) :
    (l.append ⟨[],[v]⟩).flags dealer =
      if v.1 = dealer then l.flags dealer ++ [v.2] else l.flags dealer := by
  by_cases h : v.1 = dealer <;> simp [flags, append, h]

theorem lastOf_mem {l : Ledger G1} {dealer : String} {d : Dealing G1}
    (h : l.lastOf dealer = some d) : d ∈ l.dealings :=
  (List.mem_filter.mp (List.mem_of_getLast? h)).1

theorem mem_dealers {l : Ledger G1} {dealer : String} :
    dealer ∈ l.dealers ↔ ∃ d, l.lastOf dealer = some d := by
  rw [dealers, List.mem_toFinset, List.mem_map, ← Option.isSome_iff_exists, lastOf,
    List.getLast?_isSome, Ne, List.filter_eq_nil_iff]
  simp

end Ledger

/-- What a list of messages writes in the ledger of a node of index `own`. -/
def ledger (own : Usize) (msgs : List (DKGMessage G1)) : Ledger G1 :=
  ⟨msgs.filterMap (dealing own),msgs.filterMap vote⟩

theorem ledger_append (own : Usize) (ms ns : List (DKGMessage G1)) :
    ledger own (ms++ns) = (ledger own ms).append (ledger own ns) := by
  simp [ledger, Ledger.append]

theorem ledger_dealing {own : Usize} {msg : DKGMessage G1} {d : Dealing G1}
    (h : dealing own msg = some d) : ledger own [msg] = ⟨[d],[]⟩ := by
  cases msg with
  | shareDistribution fromId shares commitments => simp [ledger, h, vote]
  | shareValidation fromId toId isValid => cases h

/-- A vote on the dealer. -/
def naming (dealer : String) (msg : DKGMessage G1) : Bool := (vote msg).any (fun v => v.1 = dealer)

theorem length_flags (own : Usize) (dealer : String) (msgs : List (DKGMessage G1)) :
    ((ledger own msgs).flags dealer).length = msgs.countP (naming dealer) := by
  rw [Ledger.flags, List.length_map, ledger, List.filter_filterMap, List.length_filterMap_eq_countP]
  apply List.countP_congr
  intro m _
  cases h : vote m <;> simp [naming, h, Option.filter]

def messages (is : List (Input G1)) : List (DKGMessage G1) :=
  is.filterMap (fun
    | .start _ => none
    | .message msg => some msg)

theorem messages_map (ms : List (DKGMessage G1)) : messages (ms.map Input.message) = ms := by
  induction ms with
  | nil => rfl
  | cons m ms ih =>
    rw [List.map_cons, messages, List.filterMap_cons]
    exact congrArg (List.cons m) ih

structure Refines (node : DKGNode G1) (l : Ledger G1) : Prop where
  share : ∀ dealer, node.shares.lookup dealer = (l.lastOf dealer).map (fun d => d.share)
  commitments : ∀ dealer,
    node.commitments.lookup dealer = (l.lastOf dealer).map (fun d => d.commitments)
  validations : ∀ dealer,
    node.validations.lookup dealer = if l.flags dealer = [] then none else some (l.flags dealer)

theorem new_refines (id : String) (threshold totalNodes : Usize) :
    Refines (DKGNode.new id threshold totalNodes : DKGNode G1) ⟨[],[]⟩ :=
  ⟨fun _ => rfl,fun _ => rfl,fun _ => rfl⟩

theorem accept_refines {node : DKGNode G1} {l : Ledger G1} (h : Refines node l) (d : Dealing G1) :
    Refines (node.accept d) (l.append ⟨[d],[]⟩) where
  share dealer := by
    show (node.shares.insert d.dealer d.share).lookup dealer = _
    rw [lookup_insert_eq, h.share, Ledger.lastOf_dealing, apply_ite (Option.map _)]
    exact if_congr eq_comm rfl rfl
  commitments dealer := by
    show (node.commitments.insert d.dealer d.commitments).lookup dealer = _
    rw [lookup_insert_eq, h.commitments, Ledger.lastOf_dealing, apply_ite (Option.map _)]
    exact if_congr eq_comm rfl rfl
  validations dealer := by
    rw [Ledger.flags_dealing]
    exact h.validations dealer

theorem pushValidation_refines {node : DKGNode G1} {l : Ledger G1} (h : Refines node l)
    (dealer : String) (isValid : Bool) :
    Refines (node.pushValidation dealer isValid) (l.append ⟨[],[(dealer,isValid)]⟩) where
  share other := by
    rw [Ledger.lastOf_vote]
    exact h.share other
  commitments other := by
    rw [Ledger.lastOf_vote]
    exact h.commitments other
  validations other := by
    rw [Ledger.flags_vote]
    change (push node.validations dealer isValid).lookup other = _
    by_cases ho : dealer = other
    · subst ho
      rw [lookup_push_self, h.validations dealer]
      by_cases hf : l.flags dealer = [] <;> simp [hf]
    · rw [lookup_push_ne (Ne.symm ho), h.validations other, if_neg ho]

/-- A call writes its message in the ledger. -/
theorem after_refines {node : DKGNode G1} {l : Ledger G1} (h : Refines node l) (i : Input G1) :
    Refines (node.after i) (l.append (ledger (idParsed node.id) (messages [i]))) := by
  rcases i with rng | ⟨fromId,shares,commitments⟩ | ⟨fromId,toId,isValid⟩
  · simp only [messages, List.filterMap_cons, List.filterMap_nil, ledger, Ledger.append_empty]
    exact ⟨h.share,h.commitments,h.validations⟩
  · simp only [messages, List.filterMap_cons, List.filterMap_nil, ledger, DKGNode.after,
      DKGNode.take, vote]
    split
    · rw [‹dealing _ _ = some _›]
      exact accept_refines h _
    · rw [‹dealing _ _ = none›, Ledger.append_empty]
      exact h
  · exact pushValidation_refines h toId isValid

theorem foldl_refines {node : DKGNode G1} {l : Ledger G1} (h : Refines node l)
    (is : List (Input G1)) :
    Refines (is.foldl DKGNode.after node) (l.append (ledger (idParsed node.id) (messages is))) := by
  induction is generalizing node l with
  | nil => simpa [messages, ledger] using h
  | cons i is ih =>
    have hi := ih (after_refines h i)
    rw [after_id, Ledger.append_assoc, ← ledger_append] at hi
    have hm : messages [i] ++ messages is = messages (i::is) := by
      rw [messages, messages, ← List.filterMap_append]
      rfl
    rwa [hm] at hi

theorem foldl_threshold (node : DKGNode G1) (is : List (Input G1)) :
    (is.foldl DKGNode.after node).threshold = node.threshold :=
  Runs.foldl_kept DKGNode.threshold after_threshold node is

theorem foldl_id (node : DKGNode G1) (is : List (Input G1)) :
    (is.foldl DKGNode.after node).id = node.id :=
  Runs.foldl_kept DKGNode.id after_id node is

theorem keySet_shares {node : DKGNode G1} {l : Ledger G1} (h : Refines node l) :
    keySet node.shares = l.dealers := by
  ext dealer
  rw [mem_keySet, Ledger.mem_dealers, h.share]
  simp

theorem keySet_commitments {node : DKGNode G1} {l : Ledger G1} (h : Refines node l) :
    keySet node.commitments = l.dealers := by
  ext dealer
  rw [mem_keySet, Ledger.mem_dealers, h.commitments]
  simp

theorem complete_iff {node : DKGNode G1} {l : Ledger G1} (h : Refines node l) :
    node.complete = true ↔ l.Quorate node.threshold.toNat := by
  rw [complete_cards, keySet_shares h, Ledger.Quorate]
  refine and_congr_left (fun _ => forall_congr' (fun dealer => ?_))
  rw [h.validations dealer]
  split_ifs with hf <;> simp [hf]

section sums
variable [G1Group G1]

theorem groupKey_eq {node : DKGNode G1} {l : Ledger G1} (h : Refines node l) :
    node.groupKey = l.keySum := by
  rw [DKGNode.groupKey, foldl_add, zero_add, sum_values, keySet_shares h, Ledger.keySum]
  apply Finset.sum_congr rfl
  intro dealer _
  rw [h.share dealer, Option.map_map]
  rfl

theorem keySum_zero {l : Ledger G1} (h : ∀ d ∈ l.dealings, d.share.value.scalar = 0) :
    l.keySum = 0 := by
  apply Finset.sum_eq_zero
  intro dealer hd
  obtain ⟨d,hl⟩ := Ledger.mem_dealers.mp hd
  rw [hl, Option.map_some, Option.getD_some, h d (Ledger.lastOf_mem hl), zero_smul]

def isVote : Input G1 → Bool
  | .start _ => false
  | .message msg => !isDistribution msg

variable [SerdeJson]

open Classical in
/-- A call forms a sum only at a vote that leaves the ledger quorate. -/
theorem perform_results {c : Ctx (DKGNode G1) G1} {l : Ledger G1} (h : Refines c.node l)
    (i : Input G1) :
    (perform i (Env.top .granted) c).2.results = c.results ++
      if isVote i = true ∧ (l.append (ledger (idParsed c.node.id) (messages [i]))).Quorate
          c.node.threshold.toNat then
        [(l.append (ledger (idParsed c.node.id) (messages [i]))).keySum] else [] := by
  rcases i with rng | ⟨fromId,shares,commitments⟩ | ⟨fromId,toId,isValid⟩
  · rw [perform, startDkg_run, send_results, if_neg (by simp [isVote]), List.append_nil]
  · rw [if_neg (by simp [isVote, isDistribution]), List.append_nil, perform]
    cases hd : dealing (idParsed c.node.id) (.shareDistribution fromId shares commitments) with
    | none => rw [distribution_ignored hd]
    | some d => rw [distribution_accepted hd, send_results]
  · have hr := pushValidation_refines h toId isValid
    have hq := complete_iff hr
    rw [perform, validation_granted, groupKey_eq hr]
    exact congrArg (c.results ++ ·) (if_congr
      ⟨fun hc => ⟨rfl,hq.mp hc⟩,fun hc => hq.mpr hc.2⟩ rfl rfl)

/-- Every run of a new node leaves it with the maps its ledger gives. -/
theorem run_refines (policy : Policy) (id : String) (threshold totalNodes : Usize)
    (channel : Channel) (is : List (Input G1)) :
    Refines (run policy (.fresh (.new id threshold totalNodes) channel) is).node
      (ledger (idParsed id) (messages is)) := by
  rw [run_node]
  exact foldl_refines (new_refines id threshold totalNodes) is

theorem run_messages_refines (policy : Policy) (id : String) (threshold totalNodes : Usize)
    (channel : Channel) (msgs : List (DKGMessage G1)) :
    Refines (run policy (.fresh (.new id threshold totalNodes) channel)
      (msgs.map .message)).node (ledger (idParsed id) msgs) := by
  have h := run_refines policy id threshold totalNodes channel (msgs.map Input.message)
  rwa [messages_map] at h

theorem okRun_refines {policy : Policy} {id : String} {threshold totalNodes : Usize}
    {channel : Channel} {msgs : List (DKGMessage G1)} {c : Ctx (DKGNode G1) G1}
    (h : okRun policy (.fresh (.new id threshold totalNodes) channel) (msgs.map .message) =
      some c) : Refines c.node (ledger (idParsed id) msgs) := by
  have hr := foldl_refines (new_refines id threshold totalNodes) (msgs.map Input.message)
  rw [messages_map] at hr
  rw [okRun_node h]
  exact hr

/-- Every share a node stores has the node's own index. -/
theorem run_share_index {policy : Policy} {id : String} {threshold totalNodes : Usize}
    {channel : Channel} {is : List (Input G1)} {dealer : String} {share : KeyShare}
    (h : (run policy (.fresh (.new id threshold totalNodes) channel) is).node.shares.lookup
      dealer = some share) : share.index = idParsed id := by
  rw [(run_refines policy id threshold totalNodes channel is).share] at h
  obtain ⟨d,hl,rfl⟩ := Option.map_eq_some_iff.mp h
  obtain ⟨m,-,hm⟩ := List.mem_filterMap.mp (Ledger.lastOf_mem hl)
  exact dealing_index hm

open Classical in
/-- What one more call makes a run form. -/
theorem run_results_snoc (id : String) (threshold totalNodes : Usize) (channel : Channel)
    (is : List (Input G1)) (i : Input G1) :
    (run .granted (.fresh (.new id threshold totalNodes) channel) (is++[i])).results =
      (run .granted (.fresh (.new id threshold totalNodes) channel) is).results ++
        if isVote i = true ∧
            (ledger (idParsed id) (messages (is++[i]))).Quorate threshold.toNat then
          [(ledger (idParsed id) (messages (is++[i]))).keySum] else [] := by
  have hp := perform_results (run_refines .granted id threshold totalNodes channel is) i
  have hid : (run .granted (.fresh (.new id threshold totalNodes) channel) is).node.id = id := by
    rw [run_node, foldl_id]
    rfl
  have ht : (run .granted (.fresh (.new id threshold totalNodes) channel) is).node.threshold =
      threshold := by
    rw [run_node, foldl_threshold]
    rfl
  have hm : messages is ++ messages [i] = messages (is++[i]) := by
    rw [messages, messages, messages, List.filterMap_append]
  rw [hid, ht, ← ledger_append, hm] at hp
  rw [run_append]
  exact hp

/-- No sum is formed exactly when no vote finds both tests passed. -/
theorem run_results_nil_iff (id : String) (threshold totalNodes : Usize) (channel : Channel)
    (is : List (Input G1)) :
    (run .granted (.fresh (.new id threshold totalNodes) channel) is).results = [] ↔
      ∀ pre i post, is = pre ++ i::post → isVote i = true →
        ¬ (ledger (idParsed id) (messages (pre++[i]))).Quorate threshold.toNat := by
  induction is using List.reverseRecOn with
  | nil => exact iff_of_true rfl (Prefixes.forall_split_nil _)
  | append_singleton is i ih =>
    rw [Prefixes.forall_split_snoc (P := fun pre i => isVote i = true →
        ¬ (ledger (idParsed id) (messages (pre++[i]))).Quorate threshold.toNat),
      run_results_snoc, List.append_eq_nil_iff, ih]
    refine and_congr_right (fun _ => ?_)
    split_ifs with h
    · exact iff_of_false (by simp) (fun hn => hn h.1 h.2)
    · exact iff_of_true rfl (fun hv hq => h ⟨hv,hq⟩)

end sums
end MpcNode.Dkg
