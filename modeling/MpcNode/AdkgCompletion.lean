import MpcNode.AdkgGossip

/-!
# Complete runs of the first layer

Every node starts once, before it handles anything, and in the end all that
was sent has been handled, in some order. Every node has then been
acknowledged by all others and holds what all dealt. Its keys are of those
dealings only that it handled before the last acknowledgement for it.
-/

set_option autoImplicit false

namespace MpcNode.Adkg
open MpcNode.Bls MpcNode.Guarded MpcNode.Messages MpcNode.Tables MpcNode.Broadcast
open MpcNode.Dkg (Rng)
open scoped List

section told
variable {G1 : Type} {total : Usize} {ids : Fin total.toNat → String}

def proposedBy (id : String) : ADKGMessage G1 → Bool
  | .shareProposal senderId _ _ => senderId = id
  | .shareAck _ _ _ => false

/-- The nodes whose proposals are among some messages. -/
def dealersIn (ids : Fin total.toNat → String) (msgs : List (ADKGMessage G1)) :
    Finset (Fin total.toNat) :=
  Finset.univ.filter (fun d => msgs.any (proposedBy (ids d)))

theorem mem_dealersIn {msgs : List (ADKGMessage G1)} {d : Fin total.toNat} :
    d ∈ dealersIn ids msgs ↔ ∃ msg ∈ msgs, proposedBy (ids d) msg = true := by
  rw [dealersIn, Finset.mem_filter, List.any_eq_true]
  exact and_iff_right (Finset.mem_univ d)

theorem dealersIn_ack (msgs : List (ADKGMessage G1)) (senderId receiverId : String) (valid : Bool) :
    dealersIn ids (msgs++[.shareAck senderId receiverId valid]) = dealersIn ids msgs := by
  ext d
  simp [mem_dealersIn, or_and_right, exists_or, proposedBy]

theorem addressed_ack {own : String} {msg : ADKGMessage G1} (h : ackTo own msg = true) :
    addressedTo own msg = true := by
  cases msg with
  | shareProposal senderId shares commitments => cases h
  | shareAck senderId receiverId valid => exact (Bool.and_eq_true_iff.mp h).1

/-- The last message by which the count is complete decides what is formed. -/
theorem completed_last (node : ADKGNode G1) {pre post : List (ADKGMessage G1)}
    {msg : ADKGMessage G1} (h : node.Completes pre msg)
    (hpost : ∀ m ∈ post, addressedTo node.id m = false) :
    node.completed (pre ++ msg::post) = some (pre++[msg]) := by
  induction post using List.reverseRecOn with
  | nil => rw [completed_snoc, if_pos h]
  | append_singleton post m ih =>
    have hopen : ¬ node.Completes (pre ++ msg::post) m := by
      rintro ⟨ha,-⟩
      rw [hpost m (by simp)] at ha
      cases ha
    rw [← List.cons_append, ← List.append_assoc, completed_snoc, if_neg hopen]
    exact ih (fun m' hm => hpost m' (by simp [hm]))

theorem completed_none (node : ADKGNode G1) {msgs : List (ADKGMessage G1)}
    (h : ∀ pre msg post, msgs = pre ++ msg::post → ¬ node.Completes pre msg) :
    node.completed msgs = none := by
  induction msgs using List.reverseRecOn with
  | nil => simp [ADKGNode.completed]
  | append_singleton msgs msg ih =>
    rw [completed_snoc, if_neg (h msgs msg [] rfl)]
    exact ih (fun pre m post hm => h pre m (post++[msg]) (by simp [hm]))

def ackFrom (sender own : String) : ADKGMessage G1 → Bool
  | .shareProposal _ _ _ => false
  | .shareAck senderId receiverId _ => senderId = sender && receiverId = own

/-- The acknowledgements that a node files under a sender. -/
def filed (sender own : String) (msgs : List (ADKGMessage G1)) : List (String × Bool) :=
  msgs.filterMap (fun
    | .shareProposal _ _ _ => none
    | .shareAck senderId receiverId valid =>
      if senderId = sender ∧ receiverId = own then some (senderId,valid) else none)

theorem filed_ack (sender own senderId receiverId : String) (valid : Bool) :
    filed sender own [(.shareAck senderId receiverId valid : ADKGMessage G1)] =
      if senderId = sender ∧ receiverId = own then [(senderId,valid)] else [] := by
  split_ifs with h <;> simp [filed, h]

theorem length_filed (sender own : String) (msgs : List (ADKGMessage G1)) :
    (filed sender own msgs).length = msgs.countP (ackFrom sender own) := by
  rw [filed, List.length_filterMap_eq_countP]
  apply List.countP_congr
  intro msg _
  cases msg with
  | shareProposal senderId shares commitments => simp [ackFrom]
  | shareAck senderId receiverId valid =>
    by_cases hf : senderId = sender ∧ receiverId = own <;> simp [ackFrom, hf]

variable [G1Group G1] {t : Usize} {rng : Fin total.toNat → Rng} {k : Fin total.toNat}

theorem dealersIn_proposal (hids : Function.Injective ids) (msgs : List (ADKGMessage G1))
    (d : Fin total.toNat) (r : Rng) :
    dealersIn ids (msgs++[proposal (members ids t d) r]) = insert d (dealersIn ids msgs) := by
  ext d'
  rw [Finset.mem_insert, mem_dealersIn, mem_dealersIn]
  have hone : proposedBy (ids d') (proposal (members ids t d) r : ADKGMessage G1) = true ↔
      d' = d := by
    rw [member_proposal, proposedBy, decide_eq_true_eq, hids.eq_iff, eq_comm]
  simp [or_and_right, exists_or, hone, or_comm]

def toldNode (ids : Fin total.toNat → String) (t : Usize) (rng : Fin total.toNat → Rng)
    (k : Fin total.toNat) (msgs : List (ADKGMessage G1)) : ADKGNode G1 :=
  msgs.foldl ADKGNode.take ((members ids t k).keepOwn (rng k))

theorem acks_take (node : ADKGNode G1) (msg : ADKGMessage G1) (sender : String) :
    ((node.take msg).acks.lookup sender).getD [] =
      (node.acks.lookup sender).getD [] ++ filed sender node.id [msg] := by
  cases msg with
  | shareProposal senderId shares commitments =>
    rw [filed, List.filterMap_cons, List.filterMap_nil, List.append_nil, ADKGNode.take]
    cases node.accepted shares commitments <;> rfl
  | shareAck senderId receiverId valid =>
    rw [filed_ack, ADKGNode.take]
    by_cases hr : receiverId = node.id
    · rw [if_pos hr, (checked_maps _).2.2]
      change ((push node.acks senderId (senderId,valid)).lookup sender).getD [] = _
      by_cases hs : senderId = sender
      · rw [hs, lookup_push_self, if_pos ⟨rfl,hr⟩]
        rfl
      · rw [lookup_push_ne (Ne.symm hs), if_neg (fun h => hs h.1), List.append_nil]
    · rw [if_neg hr, if_neg (fun h => hr h.2), List.append_nil]

/-- A node files the acknowledgements for it under their senders. -/
theorem acks_filed (node : ADKGNode G1) (msgs : List (ADKGMessage G1)) (sender : String) :
    ((msgs.foldl ADKGNode.take node).acks.lookup sender).getD [] =
      (node.acks.lookup sender).getD [] ++ filed sender node.id msgs := by
  induction msgs generalizing node with
  | nil => exact (List.append_nil _).symm
  | cons msg msgs ih =>
    rw [List.foldl_cons, ih, acks_take, (take_maps node msg).1, List.append_assoc, filed, filed,
      filed, ← List.filterMap_append]
    rfl

/-- What a node has that was told only what the others say. -/
structure Told (ids : Fin total.toNat → String) (t : Usize) (rng : Fin total.toNat → Rng)
    (k : Fin total.toNat) (msgs : List (ADKGMessage G1)) (node : ADKGNode G1) : Prop where
  recorded : Recorded (members ids t k) (generateCommitments (drawnBy t (rng k))) msgs node
  honest : Honest ids t rng k node
  knows : Knows ids t rng k (dealersIn ids msgs) (insert k (dealersIn ids msgs)) node

theorem told_node (hids : Function.Injective ids) {msgs : List (ADKGMessage G1)}
    (hsaid : ∀ msg ∈ msgs, ∃ j, j ≠ k ∧ Says ids t rng j msg) :
    Told ids t rng k msgs (toldNode ids t rng k msgs) := by
  induction msgs using List.reverseRecOn with
  | nil =>
    have hnone : dealersIn ids ([] : List (ADKGMessage G1)) = ∅ := by
      ext d
      simp [mem_dealersIn]
    refine ⟨recorded_start (ids k) total t (number k) (rng k),honest_start hids,?_⟩
    rw [hnone]
    exact knows_start hids knows_new
  | append_singleton msgs msg ih =>
    obtain ⟨hrecorded,hhonest,hknows⟩ := ih (fun m hm => hsaid m (by simp [hm]))
    obtain ⟨j,hj,hspoken⟩ := hsaid msg (by simp)
    rw [toldNode, List.foldl_append, List.foldl_cons, List.foldl_nil]
    refine ⟨recorded_take hrecorded (honest_withstands hids hhonest msg),
      honest_take hids hhonest hj hspoken,?_⟩
    rcases hspoken with rfl | ⟨d,-,rfl⟩
    · rw [dealersIn_proposal hids, Finset.insert_comm]
      exact knows_proposal hids hknows j
    · rw [dealersIn_ack]
      exact knows_ack hknows rfl

theorem sums_told (hids : Function.Injective ids) {msgs : List (ADKGMessage G1)}
    (hsaid : ∀ msg ∈ msgs, ∃ j, j ≠ k ∧ Says ids t rng j msg) :
    (members ids t k : ADKGNode G1).sharesTaken msgs =
        ∑ d ∈ dealersIn ids msgs, evaluatePolynomial (drawnBy t (rng d)) (number k) ∧
      (members ids t k).keyTaken (generateCommitments (drawnBy t (rng k))) msgs =
        ∑ d ∈ insert k (dealersIn ids msgs), (drawnBy t (rng d)).headD 0•(generator : G1) := by
  obtain ⟨hrecorded,-,hknows⟩ := told_node hids hsaid
  have hkey := commitmentsSum_knows hids hknows
  have hfirst : ∀ dealer, (toldNode ids t rng k msgs).commitments.lookup dealer ≠ some [] := by
    intro dealer hd
    rw [(commitmentsSum_none _).mpr ⟨dealer,hd⟩] at hkey
    cases hkey
  rw [recorded_commitmentsSum hrecorded hfirst] at hkey
  exact ⟨(recorded_shareSum hrecorded).symm.trans (shareSum_knows hids hknows),
    Option.some.inj hkey⟩

end told

section runs
variable {G1 : Type} [G1Group G1] {total : Usize}

/-- Every node starts once, before it handles anything, and nothing is left
in flight. -/
structure Complete (ids : Fin total.toNat → String) (t : Usize) (rng : Fin total.toNat → Rng)
    (as : ADKGRun G1 total) (net : ADKGNet G1 total) : Prop where
  run : (Broadcast.start (members ids t)).run (protocol total.toNat) as = some net
  starts : ∀ i, ∃ es, history i as = .command (rng i)::es ∧ commands es = []
  quiet : net.Quiet

theorem localState_take {n : ℕ} (i : Fin n) (node : ADKGNode G1)
    {es : List (Event n Rng (ADKGMessage G1))} (hc : commands es = []) :
    localState (outline n) i node es = (handled es).foldl ADKGNode.take node := by
  induction es generalizing node with
  | nil => rfl
  | cons e es ih =>
    cases e with
    | command r => cases hc
    | message s msg => exact ih (node.take msg) hc

theorem outputs_handled {n : ℕ} (node : ADKGNode G1)
    {es : List (Event n Rng (ADKGMessage G1))} (hc : commands es = []) :
    es.flatMap (outputs node) = (handled es).flatMap (reply node) := by
  induction es with
  | nil => rfl
  | cons e es ih =>
    cases e with
    | command r => cases hc
    | message s msg =>
      rw [List.flatMap_cons, ih hc]
      rfl

theorem reply_kind {node : ADKGNode G1} {msg answer : ADKGMessage G1}
    (h : answer ∈ reply node msg) : isProposal msg = true ∧ isProposal answer = false := by
  cases msg with
  | shareProposal senderId shares commitments =>
    rw [reply] at h
    split_ifs at h
    · rw [List.mem_singleton.mp h]
      exact ⟨rfl,rfl⟩
    · cases h
  | shareAck senderId receiverId valid => cases h

variable {ids : Fin total.toNat → String} {t : Usize} {rng : Fin total.toNat → Rng}
  {as : ADKGRun G1 total} {net : ADKGNet G1 total}

theorem reply_own (s : Fin total.toNat) (own : String) (msg : ADKGMessage G1) :
    (reply (members ids t s) msg).any (ackFrom (ids s) own) =
      (reply (members ids t s) msg).any (ackTo own) := by
  cases msg with
  | shareAck senderId receiverId valid => rfl
  | shareProposal senderId shares commitments =>
    have hid : (members ids t s : ADKGNode G1).id = ids s := rfl
    rw [reply]
    split_ifs <;> simp [ackOf, ackFrom, ackTo, hid]

theorem reply_other (hids : Function.Injective ids) {d s : Fin total.toNat} (hds : d ≠ s)
    (own : String) (msg : ADKGMessage G1) :
    (reply (members ids t d) msg).any (ackFrom (ids s) own) = false := by
  cases msg with
  | shareAck senderId receiverId valid => rfl
  | shareProposal senderId shares commitments =>
    have hid : (members ids t d : ADKGNode G1).id = ids d := rfl
    have hne : ¬ ids d = ids s := fun he => hds (hids he)
    rw [reply]
    split_ifs <;> simp [ackOf, ackFrom, hid, hne]

section complete
variable (h : Complete ids t rng as net)
include h

theorem complete_outline :
    (Broadcast.start (members ids t)).run (outline total.toNat) as = some net := by
  rw [← protocol_eq_outline]
  exact h.run

theorem complete_node (k : Fin total.toNat) :
    net.node k = toldNode ids t rng k (handled (history k as)) := by
  obtain ⟨es,he,hc⟩ := h.starts k
  rw [run_node _ (complete_outline h), he]
  exact localState_take k _ hc

/-- What one node has handled from another is all that one sent. -/
theorem received_all {s r : Fin total.toNat} (hsr : s ≠ r) : received s (history r as) ~
    proposal (members ids t s) (rng s)::
      (handled (history s as)).flatMap (reply (members ids t s)) := by
  obtain ⟨es,he,hc⟩ := h.starts s
  have hb := run_balance _ (complete_outline h) hsr
  rw [h.quiet, sent_outline, he, List.flatMap_cons, outputs_handled _ hc] at hb
  rw [he]
  exact hb

theorem received_none (k : Fin total.toNat) : received k (history k as) = [] :=
  run_received_self _ (complete_outline h) (fun _ => rfl) k

theorem proposal_handled {k : Fin total.toNat} {msg : ADKGMessage G1}
    (hm : msg ∈ handled (history k as)) (hp : isProposal msg = true) :
    ∃ d, d ≠ k ∧ msg = proposal (members ids t d) (rng d) := by
  obtain ⟨d,hd⟩ := mem_handled.mp hm
  have hdk : d ≠ k := by
    rintro rfl
    rw [received_none h] at hd
    cases hd
  rcases List.mem_cons.mp ((received_all h hdk).subset hd) with rfl | hd
  · exact ⟨d,hdk,rfl⟩
  · obtain ⟨asked,-,ha⟩ := List.mem_flatMap.mp hd
    rw [(reply_kind ha).2] at hp
    cases hp

theorem handled_said {k : Fin total.toNat} {msg : ADKGMessage G1}
    (hm : msg ∈ handled (history k as)) : ∃ j, j ≠ k ∧ Says ids t rng j msg := by
  obtain ⟨s,hs⟩ := mem_handled.mp hm
  have hsk : s ≠ k := by
    rintro rfl
    rw [received_none h] at hs
    cases hs
  refine ⟨s,hsk,?_⟩
  rcases List.mem_cons.mp ((received_all h hsk).subset hs) with rfl | hs
  · exact Or.inl rfl
  · obtain ⟨asked,hasked,ha⟩ := List.mem_flatMap.mp hs
    obtain ⟨d,hds,rfl⟩ := proposal_handled h hasked (reply_kind ha).1
    rw [member_reply, List.mem_singleton] at ha
    exact Or.inr ⟨d,hds,ha⟩

theorem dealers_all (hids : Function.Injective ids) (k : Fin total.toNat) :
    dealersIn ids (handled (history k as)) = Finset.univ.erase k := by
  ext d
  rw [mem_dealersIn, Finset.mem_erase]
  constructor
  · rintro ⟨msg,hm,hp⟩
    have hkind : isProposal msg = true := by
      cases msg with
      | shareProposal senderId shares commitments => rfl
      | shareAck senderId receiverId valid => cases hp
    obtain ⟨d',hd',rfl⟩ := proposal_handled h hm hkind
    rw [member_proposal, proposedBy, decide_eq_true_eq] at hp
    obtain rfl := hids hp
    exact ⟨hd',Finset.mem_univ _⟩
  · rintro ⟨hdk,-⟩
    refine ⟨proposal (members ids t d) (rng d),mem_handled.mpr ⟨d,?_⟩,decide_eq_true rfl⟩
    exact (received_all h hdk).symm.subset (List.mem_cons_self ..)

/-- Whatever is counted, what a node handles are the proposals of the others
and their answers to what they handle. -/
theorem countP_all (f : ADKGMessage G1 → Bool) (k : Fin total.toNat) :
    (handled (history k as)).countP f = ∑ s, if s = k then 0 else
      (handled (history s as)).countP (fun m => (reply (members ids t s) m).any f) +
        if f (proposal (members ids t s) (rng s)) then 1 else 0 := by
  rw [countP_handled]
  apply Finset.sum_congr rfl
  intro s _
  by_cases hsk : s = k
  · rw [if_pos hsk, hsk, received_none h]
    rfl
  · rw [if_neg hsk, (received_all h hsk).countP_eq, List.countP_cons, countP_replies]

/-- Another node answers the proposal of a node once, and nothing else of it. -/
theorem answers_once (hids : Function.Injective ids) {s k : Fin total.toNat} (hsk : s ≠ k) :
    (handled (history s as)).countP
      (fun m => (reply (members ids t s) m).any (ackTo (ids k))) = 1 := by
  have hsilent : ∀ d, (handled (history d as)).countP (fun m => (reply (members ids t d) m).any
      (fun answer => (reply (members ids t s) answer).any (ackTo (ids k)))) = 0 := by
    intro d
    refine List.countP_eq_zero.mpr (fun m _ => ?_)
    rw [List.any_eq_true, not_exists]
    rintro answer ⟨ha,hanswered⟩
    cases answer with
    | shareProposal senderId shares commitments => cases (reply_kind ha).2
    | shareAck senderId receiverId valid => cases hanswered
  have hone : ∀ d, (if d = s then 0 else (handled (history d as)).countP
      (fun m => (reply (members ids t d) m).any
        (fun answer => (reply (members ids t s) answer).any (ackTo (ids k)))) +
      if (reply (members ids t s) (proposal (members ids t d) (rng d) : ADKGMessage G1)).any
        (ackTo (ids k)) then 1 else 0) = if d = k then 1 else 0 := by
    intro d
    by_cases hds : d = s
    · rw [if_pos hds, if_neg (by rw [hds]; exact hsk)]
    · rw [if_neg hds, reply_member hids, hsilent, zero_add]
      simp only [decide_eq_true_eq]
  rw [countP_all h, Finset.sum_congr rfl (fun d _ => hone d), Finset.sum_ite_eq',
    if_pos (Finset.mem_univ k)]

theorem acks_all (hids : Function.Injective ids) (k : Fin total.toNat) :
    (handled (history k as)).countP (ackTo (ids k)) = total.toNat-1 := by
  have hall : ∀ s, (if s = k then 0 else (handled (history s as)).countP
      (fun m => (reply (members ids t s) m).any (ackTo (ids k))) +
        if ackTo (ids k) (proposal (members ids t s) (rng s) : ADKGMessage G1) then 1 else 0) =
      if s ≠ k then 1 else 0 := by
    intro s
    by_cases hsk : s = k
    · simp [hsk]
    · rw [if_neg hsk, answers_once h hids hsk, if_pos hsk]
      rfl
  rw [countP_all h, Finset.sum_congr rfl (fun s _ => hall s), ← Finset.sum_filter,
    Finset.sum_const, smul_eq_mul, mul_one, Finset.filter_ne',
    Finset.card_erase_of_mem (Finset.mem_univ k), Finset.card_univ, Fintype.card_fin]

theorem acks_once (hids : Function.Injective ids) {s k : Fin total.toNat} (hsk : s ≠ k) :
    (handled (history k as)).countP (ackFrom (ids s) (ids k)) = 1 := by
  have hfrom : ∀ d, (if d = k then 0 else (handled (history d as)).countP
      (fun m => (reply (members ids t d) m).any (ackFrom (ids s) (ids k))) +
        if ackFrom (ids s) (ids k) (proposal (members ids t d) (rng d) : ADKGMessage G1) then 1
        else 0) = if d = s then 1 else 0 := by
    intro d
    have hproposal : ackFrom (ids s) (ids k)
        (proposal (members ids t d) (rng d) : ADKGMessage G1) = false := rfl
    by_cases hd : d = s
    · subst hd
      simp [reply_own, answers_once h hids hsk, hproposal, hsk]
    · simp [reply_other hids hd, hproposal, hd]
  rw [countP_all h, Finset.sum_congr rfl (fun d _ => hfrom d), Finset.sum_ite_eq',
    if_pos (Finset.mem_univ s)]

theorem complete_acks (hids : Function.Injective ids) {s k : Fin total.toNat} (hsk : s ≠ k) :
    (net.node k).acks.lookup (ids s) = some [(ids s,true)] := by
  have hlength : (filed (ids s) (ids k) (handled (history k as))).length = 1 := by
    rw [length_filed, acks_once h hids hsk]
  have hvalid : ∀ ack ∈ filed (ids s) (ids k) (handled (history k as)), ack = (ids s,true) := by
    intro ack hack
    obtain ⟨msg,hm,hf⟩ := List.mem_filterMap.mp hack
    obtain ⟨j,-,rfl | ⟨d,-,rfl⟩⟩ := handled_said h hm
    · cases hf
    · obtain ⟨⟨hj,-⟩,rfl⟩ := Option.ite_some_none_eq_some.mp hf
      rw [hj]
  have hacks := acks_filed ((members ids t k).keepOwn (rng k)) (handled (history k as)) (ids s)
  rw [← toldNode, ← complete_node h] at hacks
  have hone : ((net.node k).acks.lookup (ids s)).getD [] = [(ids s,true)] :=
    hacks.trans (List.eq_replicate_iff.mpr ⟨hlength,hvalid⟩)
  cases hl : (net.node k).acks.lookup (ids s) with
  | none =>
    rw [hl] at hone
    cases hone
  | some acks =>
    rw [hl] at hone
    exact congrArg some hone

theorem complete_told (hids : Function.Injective ids) (k : Fin total.toNat) :
    Told ids t rng k (handled (history k as)) (net.node k) := by
  rw [complete_node h]
  exact told_node hids (fun msg hm => handled_said h hm)

/-- Each node has been acknowledged by all others, and holds all commitments
and all shares but its own. -/
theorem complete_record (hids : Function.Injective ids) (k : Fin total.toNat) :
    (net.node k).validAcks = total.toNat-1 ∧
      Knows ids t rng k (Finset.univ.erase k) Finset.univ (net.node k) := by
  obtain ⟨hrecorded,-,hknows⟩ := complete_told h hids k
  rw [dealers_all h hids, Finset.insert_erase (Finset.mem_univ k)] at hknows
  exact ⟨hrecorded.acks.trans (acks_all h hids k),hknows⟩

section last
variable {k : Fin total.toNat} {pre post : List (ADKGMessage G1)} {ack : ADKGMessage G1}

theorem last_completes (hids : Function.Injective ids) (ht : t.toNat < total.toNat)
    (hm : handled (history k as) = pre ++ ack::post) (ha : addressedTo (ids k) ack = true)
    (hpost : ∀ m ∈ post, addressedTo (ids k) m = false) :
    (members ids t k : ADKGNode G1).Completes pre ack := by
  have hnone : post.countP (ackTo (ids k)) = 0 := by
    refine List.countP_eq_zero.mpr (fun m hmem hto => ?_)
    have hfor := addressed_ack hto
    rw [hpost m hmem] at hfor
    cases hfor
  have hall := acks_all h hids k
  rw [hm, List.append_cons, List.countP_append, hnone, add_zero] at hall
  refine ⟨ha,?_⟩
  change t.toNat ≤ (pre++[ack]).countP (ackTo (ids k))
  omega

/-- The keys of a node are of what it handled before the last acknowledgement
for it. -/
theorem keys_last (hids : Function.Injective ids) (ht : t.toNat < total.toNat)
    (hm : handled (history k as) = pre ++ ack::post) (ha : addressedTo (ids k) ack = true)
    (hpost : ∀ m ∈ post, addressedTo (ids k) m = false) :
    (net.node k).secretKeyShare =
        some (∑ d ∈ dealersIn ids pre, evaluatePolynomial (drawnBy t (rng d)) (number k)) ∧
      (net.node k).publicKey =
        some (∑ d ∈ insert k (dealersIn ids pre), (drawnBy t (rng d)).headD 0•generator) := by
  have hrecorded := (complete_told h hids k).recorded
  have hsaid : ∀ msg ∈ pre++[ack], ∃ j, j ≠ k ∧ Says ids t rng j msg := by
    intro msg hmsg
    refine handled_said h ?_
    rw [hm, List.append_cons]
    exact List.mem_append_left _ hmsg
  have hpre : dealersIn ids (pre++[ack]) = dealersIn ids pre := by
    cases ack with
    | shareProposal senderId shares commitments => cases ha
    | shareAck senderId receiverId valid => exact dealersIn_ack pre senderId receiverId valid
  obtain ⟨hshares,hkeys⟩ := sums_told hids hsaid
  rw [hrecorded.secretKeyShare, hrecorded.publicKey, hm, completed_last _
    (last_completes h hids ht hm ha hpost) hpost, Option.map_some, Option.map_some, hshares,
    hkeys, hpre]
  exact ⟨rfl,rfl⟩

end last

theorem last_addressed (hids : Function.Injective ids) (k : Fin total.toNat)
    (htotal : 2 ≤ total.toNat) :
    ∃ pre ack post, handled (history k as) = pre ++ ack::post ∧ addressedTo (ids k) ack = true ∧
      ∀ m ∈ post, addressedTo (ids k) m = false := by
  have hpos : 0 < (handled (history k as)).countP (ackTo (ids k)) := by
    rw [acks_all h hids]
    omega
  obtain ⟨m,hm,hto⟩ := List.countP_pos_iff.mp hpos
  have hsome : (handled (history k as)).filterMap (Option.guard (addressedTo (ids k))) ≠ [] :=
    List.ne_nil_of_mem (List.mem_filterMap.mpr ⟨m,hm,Option.guard_pos (addressed_ack hto)⟩)
  obtain ⟨b,hb⟩ := Option.ne_none_iff_exists'.mp (mt List.getLast?_eq_none_iff.mp hsome)
  obtain ⟨pre,ack,post,hsplit,hack,hpost⟩ := Prefixes.getLast?_filterMap hb
  exact ⟨pre,ack,post,hsplit,(Option.guard_eq_some_iff.mp hack).2,
    fun x hx => Option.guard_eq_none_iff.mp (hpost x hx)⟩

/-- There are keys if and only if there are others to acknowledge a node, and
the threshold asks for no more than them. -/
theorem keys_formed_iff (hids : Function.Injective ids) (k : Fin total.toNat) :
    (net.node k).secretKeyShare.isSome ↔ 2 ≤ total.toNat ∧ t.toNat < total.toNat := by
  constructor
  · intro hsome
    have hcompleted : (members ids t k : ADKGNode G1).completed (handled (history k as)) ≠
        none := by
      intro hnone
      rw [(complete_told h hids k).recorded.secretKeyShare, hnone] at hsome
      cases hsome
    obtain ⟨pre,msg,post,hm,-,ht⟩ : ∃ pre msg post, handled (history k as) = pre ++ msg::post ∧
        (members ids t k : ADKGNode G1).Completes pre msg := by
      by_contra hno
      refine hcompleted (completed_none _ (fun pre msg post hm hc => ?_))
      exact hno ⟨pre,msg,post,hm,hc⟩
    obtain ⟨j,hj,-⟩ := handled_said h (by rw [hm]; simp : msg ∈ handled (history k as))
    have hall := acks_all h hids k
    rw [hm, List.append_cons, List.countP_append] at hall
    change t.toNat ≤ (pre++[msg]).countP (ackTo (ids k)) at ht
    have hlt := j.isLt
    have hne : j.val ≠ k.val := fun he => hj (Fin.ext he)
    omega
  · rintro ⟨htotal,ht⟩
    obtain ⟨pre,ack,post,hm,ha,hpost⟩ := last_addressed h hids k htotal
    rw [(keys_last h hids ht hm ha hpost).1]
    rfl

end complete
end runs
end MpcNode.Adkg
