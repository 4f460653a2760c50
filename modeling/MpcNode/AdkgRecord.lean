import MpcNode.AdkgPanics

/-!
# What the history of a node leaves it with

The node started with its own dealing and has then taken some messages, none
of which made it fail. Its maps hold each dealer's last accepted dealing, and
its keys are the sums formed when the count of acknowledgements was last
found complete.
-/

set_option autoImplicit false

namespace MpcNode.Adkg
open MpcNode.Bls MpcNode.Guarded MpcNode.Messages MpcNode.Tables
open MpcNode.Dkg (Rng commitmentSum)
open MpcNode.Reconstruction (foldlM_some)

variable {G1 : Type}

/-- The first messages up to the last by which the count was found complete. -/
def ADKGNode.completed (node : ADKGNode G1) (msgs : List (ADKGMessage G1)) :
    Option (List (ADKGMessage G1)) :=
  (msgs.inits.filter (fun pre => pre.getLast?.any (addressedTo node.id) ∧
    node.t.toNat ≤ pre.countP (ackTo node.id))).getLast?

theorem completed_snoc (node : ADKGNode G1) (msgs : List (ADKGMessage G1))
    (msg : ADKGMessage G1) : node.completed (msgs++[msg]) =
      if node.Completes msgs msg then some (msgs++[msg]) else node.completed msgs := by
  have hinits : (msgs++[msg]).inits = msgs.inits++[msgs++[msg]] := by simp [List.inits_append]
  have hlast : ((msgs++[msg]).getLast?.any (addressedTo node.id) = true ∧
      node.t.toNat ≤ (msgs++[msg]).countP (ackTo node.id)) ↔ node.Completes msgs msg := by
    rw [List.getLast?_concat]
    exact Iff.rfl
  rw [ADKGNode.completed, hinits, List.filter_append, List.filter_singleton]
  by_cases h : node.Completes msgs msg
  · rw [decide_eq_true (hlast.mpr h), if_pos h]
    simp
  · rw [decide_eq_false (mt hlast.mp h), if_neg h]
    simp [ADKGNode.completed]

variable [G1Group G1]

/-- The share and the commitments of each proposal a node accepts, under the
sender. -/
def ADKGNode.taken (node : ADKGNode G1) (msgs : List (ADKGMessage G1)) :
    List (String × (Scalar × List G1)) :=
  msgs.filterMap (fun
    | .shareProposal senderId shares commitments =>
      (node.accepted shares commitments).map (fun share => (senderId,(share,commitments)))
    | .shareAck _ _ _ => none)

theorem taken_snoc (node : ADKGNode G1) (msgs : List (ADKGMessage G1)) (msg : ADKGMessage G1) :
    node.taken (msgs++[msg]) = node.taken msgs ++ node.taken [msg] := List.filterMap_append

theorem taken_proposal (node : ADKGNode G1) (senderId : String) (shares : List Scalar)
    (commitments : List G1) : node.taken [.shareProposal senderId shares commitments] =
      ((node.accepted shares commitments).map
        (fun share => (senderId,(share,commitments)))).toList := by
  cases ha : node.accepted shares commitments <;> simp [ADKGNode.taken, ha]

theorem taken_opens {node : ADKGNode G1} {msgs : List (ADKGMessage G1)}
    {p : String × (Scalar × List G1)} (hp : p ∈ node.taken msgs) :
    commitmentSum (node.idx.toNat : Scalar) p.2.2 = p.2.1•generator := by
  obtain ⟨msg,-,hmsg⟩ := List.mem_filterMap.mp hp
  cases msg with
  | shareProposal senderId shares commitments =>
    obtain ⟨share,ha,rfl⟩ := Option.map_eq_some_iff.mp hmsg
    exact (accepted_some.mp ha).2
  | shareAck senderId receiverId valid => cases hmsg

theorem taken_of_idx {node node' : ADKGNode G1} (h : node'.idx = node.idx)
    (msgs : List (ADKGMessage G1)) : node'.taken msgs = node.taken msgs := by
  rw [ADKGNode.taken, ADKGNode.taken]
  apply List.filterMap_congr
  intro msg _
  cases msg with
  | shareProposal senderId shares commitments => simp only [accepted_of_idx h]
  | shareAck senderId receiverId valid => rfl

theorem take_maps (node : ADKGNode G1) (msg : ADKGMessage G1) :
    (node.take msg).id = node.id ∧ (node.take msg).idx = node.idx ∧ (node.take msg).t = node.t ∧
    (node.take msg).shares = written node.shares ((node.taken [msg]).map (fun p => (p.1,p.2.1))) ∧
    (node.take msg).commitments =
      written node.commitments ((node.taken [msg]).map (fun p => (p.1,p.2.2))) := by
  cases msg with
  | shareProposal senderId shares commitments =>
    rw [taken_proposal, ADKGNode.take]
    cases node.accepted shares commitments with
    | none => exact ⟨rfl,rfl,rfl,rfl,rfl⟩
    | some share => exact ⟨rfl,rfl,rfl,rfl,rfl⟩
  | shareAck senderId receiverId valid =>
    rw [ADKGNode.take]
    split_ifs
    · obtain ⟨hid,hidx,-,ht⟩ := checked_settings (node.pushAck senderId valid)
      obtain ⟨hs,hc,-⟩ := checked_maps (node.pushAck senderId valid)
      exact ⟨hid,hidx,ht,hs,hc⟩
    · exact ⟨rfl,rfl,rfl,rfl,rfl⟩

def ADKGNode.sharesTaken (node : ADKGNode G1) (msgs : List (ADKGMessage G1)) : Scalar :=
  ∑ dealer ∈ ((node.taken msgs).map Prod.fst).toFinset,
    ((under dealer (node.taken msgs)).getLast?.map (fun d => d.1)).getD 0

/-- The sum of the shares opens the sum of the commitments they came with. -/
theorem sharesTaken_opens (node : ADKGNode G1) (msgs : List (ADKGMessage G1)) :
    node.sharesTaken msgs•(generator : G1) =
      ∑ dealer ∈ ((node.taken msgs).map Prod.fst).toFinset,
        commitmentSum (node.idx.toNat : Scalar)
          (((under dealer (node.taken msgs)).getLast?.map (fun d => d.2)).getD []) := by
  rw [ADKGNode.sharesTaken, Finset.sum_smul]
  apply Finset.sum_congr rfl
  intro dealer _
  cases hd : (under dealer (node.taken msgs)).getLast? with
  | none => exact zero_smul _ _
  | some d => exact (taken_opens (mem_under.mp (List.mem_of_getLast? hd))).symm

def ADKGNode.recorded (node : ADKGNode G1) (own : List G1) (msgs : List (ADKGMessage G1)) :
    List (String × List G1) :=
  (node.id,own)::(node.taken msgs).map (fun p => (p.1,p.2.2))

/-- What the first commitments kept last, one of each dealer, add up to. -/
def ADKGNode.keyTaken (node : ADKGNode G1) (own : List G1) (msgs : List (ADKGMessage G1)) : G1 :=
  ∑ dealer ∈ ((node.recorded own msgs).map Prod.fst).toFinset,
    ((under dealer (node.recorded own msgs)).getLast?.map (fun c => c.headD 0)).getD 0

/-- A message by which the node does not fail, if this is what its
publication is answered with. -/
def ADKGNode.Withstands (node : ADKGNode G1) (refusal : Option String) : ADKGMessage G1 → Prop
  | .shareProposal _ shares commitments =>
    (node.accepted shares commitments).isSome → refusal = none
  | .shareAck _ receiverId valid => receiverId = node.id →
    node.t.toNat ≤ node.validAcks+(if valid then 1 else 0) →
      ∀ dealer, node.commitments.lookup dealer ≠ some []

theorem message_ok_iff (policy : Policy) (node : ADKGNode G1) (refusal : Option String)
    (msg : ADKGMessage G1) :
    (handleMessage msg (Env.top policy) ⟨node,⟨[],refusal⟩⟩).1 = .ok () ↔
      node.Withstands refusal msg := by
  cases msg with
  | shareProposal senderId shares commitments =>
    rw [ADKGNode.Withstands]
    cases ha : node.accepted shares commitments with
    | none =>
      rw [proposal_rejected (c := ⟨node,⟨[],refusal⟩⟩) ha]
      simp
    | some share =>
      rw [proposal_accepted (c := ⟨node,⟨[],refusal⟩⟩) ha, publish]
      cases refusal <;> simp
  | shareAck senderId receiverId valid =>
    rw [ADKGNode.Withstands]
    by_cases hr : receiverId = node.id
    · subst hr
      have hrun := ack_counted policy ⟨node,⟨[],refusal⟩⟩ senderId valid
      rw [checkCompletion_run] at hrun
      have hok : (handleMessage (.shareAck senderId node.id valid) (Env.top policy)
          ⟨node,⟨[],refusal⟩⟩).1 = .ok () ↔ (handleMessage (.shareAck senderId node.id valid)
            (Env.top policy) ⟨node,⟨[],refusal⟩⟩).1 ≠ .panicked := by
        dsimp only at hrun
        rw [hrun]
        split_ifs <;> simp
      rw [hok, Ne, ack_panicked_iff, not_and, not_exists]
      exact ⟨fun h _ => h,fun h => h rfl⟩
    · rw [ack_ignored policy (c := ⟨node,⟨[],refusal⟩⟩) hr]
      simp [hr]

def ADKGNode.Survives (node : ADKGNode G1) (own : List G1) (past : List (ADKGMessage G1))
    (refusal : Option String) : ADKGMessage G1 → Prop
  | .shareProposal _ shares commitments =>
    (node.accepted shares commitments).isSome → refusal = none
  | .shareAck senderId receiverId valid =>
    node.Completes past (.shareAck senderId receiverId valid) →
      ∀ dealer, (under dealer (node.recorded own past)).getLast? ≠ some []

/-- What a node that was `first` holds after its own dealing and some
messages. -/
structure Recorded (first : ADKGNode G1) (own : List G1) (msgs : List (ADKGMessage G1))
    (node : ADKGNode G1) : Prop where
  id : node.id = first.id
  idx : node.idx = first.idx
  t : node.t = first.t
  shares : node.shares = written ∅ ((first.taken msgs).map (fun p => (p.1,p.2.1)))
  commitments : node.commitments = written ∅ (first.recorded own msgs)
  acks : node.validAcks = msgs.countP (ackTo first.id)
  secretKeyShare : node.secretKeyShare = (first.completed msgs).map first.sharesTaken
  publicKey : node.publicKey = (first.completed msgs).map (first.keyTaken own)

theorem recorded_start (id : String) (n t : Usize) (idx : UInt64) (rng : Rng) :
    Recorded (.new id n t idx) (generateCommitments (generatePolynomial t.toNat rng).1) []
      ((.new id n t idx : ADKGNode G1).keepOwn rng) :=
  ⟨rfl,rfl,rfl,rfl,rfl,rfl,rfl,rfl⟩

section step
variable {first node : ADKGNode G1} {own : List G1} {msgs : List (ADKGMessage G1)}

theorem recorded_shareSum (h : Recorded first own msgs node) :
    node.shareSum = first.sharesTaken msgs := by
  rw [ADKGNode.shareSum, foldl_add (fun share => share), zero_add, h.shares, sum_written,
    List.map_map, ADKGNode.sharesTaken]
  simp only [under_map, List.getLast?_map, Option.map_map]
  rfl

theorem recorded_commitmentsSum (h : Recorded first own msgs node)
    (hfirst : ∀ dealer, node.commitments.lookup dealer ≠ some []) :
    node.commitmentsSum = some (first.keyTaken own msgs) := by
  have hstep : ∀ key : G1, ∀ comms ∈ values node.commitments,
      comms[0]?.map (fun first => key+first) = some (key+comms.headD 0) := by
    intro key comms hc
    obtain ⟨dealer,hd⟩ := mem_values.mp hc
    cases comms with
    | nil => exact absurd hd (hfirst dealer)
    | cons first rest => rfl
  rw [ADKGNode.commitmentsSum, foldlM_some _ hstep,
    foldl_add (fun comms : List G1 => comms.headD 0), zero_add, h.commitments, sum_written]
  rfl

theorem withstands_iff (h : Recorded first own msgs node) (refusal : Option String)
    (msg : ADKGMessage G1) :
    node.Withstands refusal msg ↔ first.Survives own msgs refusal msg := by
  cases msg with
  | shareProposal senderId shares commitments =>
    rw [ADKGNode.Withstands, ADKGNode.Survives, accepted_of_idx h.idx]
  | shareAck senderId receiverId valid =>
    have hack : ∀ hr : receiverId = first.id,
        ackTo first.id (.shareAck senderId receiverId valid : ADKGMessage G1) = valid := by
      intro hr
      simp [ackTo, hr]
    rw [ADKGNode.Withstands, ADKGNode.Survives, ADKGNode.Completes, addressedTo,
      decide_eq_true_eq, acks_snoc, h.id, h.t, h.acks, h.commitments, and_imp]
    simp only [lookup_written, AList.lookup_empty, Option.or_none]
    exact forall_congr' (fun hr => by rw [hack hr])

theorem recorded_maps (h : Recorded first own msgs node) (msg : ADKGMessage G1) :
    (node.take msg).shares =
        written ∅ ((first.taken (msgs++[msg])).map (fun p => (p.1,p.2.1))) ∧
      (node.take msg).commitments = written ∅ (first.recorded own (msgs++[msg])) := by
  obtain ⟨-,-,-,hs,hc⟩ := take_maps node msg
  rw [hs, hc, taken_of_idx h.idx, h.shares, h.commitments, ← written_append, ← written_append,
    ← List.map_append, ← taken_snoc, ADKGNode.recorded, List.cons_append, ← List.map_append,
    ← taken_snoc]
  exact ⟨rfl,rfl⟩

theorem recorded_proposal (h : Recorded first own msgs node) (senderId : String)
    (shares : List Scalar) (commitments : List G1) :
    Recorded first own (msgs++[.shareProposal senderId shares commitments])
      (node.take (.shareProposal senderId shares commitments)) := by
  obtain ⟨hid,hidx,ht,-,-⟩ := take_maps node (.shareProposal senderId shares commitments)
  obtain ⟨hshares,hcommitments⟩ := recorded_maps h (.shareProposal senderId shares commitments)
  have hopen : ¬ first.Completes msgs (.shareProposal senderId shares commitments) :=
    fun hc => Bool.false_ne_true hc.1
  have hkept : (node.take (.shareProposal senderId shares commitments)).acks = node.acks ∧
      (node.take (.shareProposal senderId shares commitments)).secretKeyShare =
        node.secretKeyShare ∧
      (node.take (.shareProposal senderId shares commitments)).publicKey = node.publicKey := by
    rw [ADKGNode.take]
    split <;> exact ⟨rfl,rfl,rfl⟩
  refine ⟨hid.trans h.id,hidx.trans h.idx,ht.trans h.t,hshares,hcommitments,?_,?_,?_⟩
  · rw [ADKGNode.validAcks, hkept.1, ← ADKGNode.validAcks, h.acks, acks_snoc, ackTo]
    simp
  · rw [completed_snoc, if_neg hopen, hkept.2.1, h.secretKeyShare]
  · rw [completed_snoc, if_neg hopen, hkept.2.2, h.publicKey]

theorem recorded_keys (h : Recorded first own msgs node) {senderId receiverId : String}
    {valid : Bool} (hr : receiverId = first.id)
    (hw : node.t.toNat ≤ node.validAcks+(if valid then 1 else 0) →
      ∀ dealer, node.commitments.lookup dealer ≠ some []) :
    (node.pushAck senderId valid).checked.secretKeyShare =
        (first.completed (msgs++[.shareAck senderId receiverId valid])).map first.sharesTaken ∧
      (node.pushAck senderId valid).checked.publicKey =
        (first.completed (msgs++[.shareAck senderId receiverId valid])).map
          (first.keyTaken own) := by
  have htaken : first.taken (msgs++[.shareAck senderId receiverId valid]) = first.taken msgs := by
    rw [taken_snoc]
    exact List.append_nil _
  have hshares : first.sharesTaken (msgs++[.shareAck senderId receiverId valid]) =
      node.shareSum := by
    rw [recorded_shareSum h, ADKGNode.sharesTaken, htaken, ADKGNode.sharesTaken]
  have hkeys : first.keyTaken own (msgs++[.shareAck senderId receiverId valid]) =
      first.keyTaken own msgs := by
    rw [ADKGNode.keyTaken, ADKGNode.recorded, htaken, ← ADKGNode.recorded, ADKGNode.keyTaken]
  have hcompletes : first.Completes msgs (.shareAck senderId receiverId valid) ↔
      (node.pushAck senderId valid).t.toNat ≤ (node.pushAck senderId valid).validAcks := by
    rw [ADKGNode.Completes, validAcks_pushAck, addressedTo, decide_eq_true_eq, acks_snoc, ackTo,
      ← h.acks, ← h.t]
    simp [hr, ADKGNode.pushAck]
  rw [ADKGNode.checked, completed_snoc]
  by_cases ht : (node.pushAck senderId valid).t.toNat ≤ (node.pushAck senderId valid).validAcks
  · have hfirst := hw (by rw [← validAcks_pushAck]; exact ht)
    have hsum : node.commitmentsSum = some (first.keyTaken own msgs) :=
      recorded_commitmentsSum h hfirst
    have hkey : (node.pushAck senderId valid).commitmentsSum = some (first.keyTaken own msgs) :=
      hsum
    rw [if_pos ht, hkey, if_pos (hcompletes.mpr ht), Option.map_some, Option.map_some, hshares,
      hkeys]
    exact ⟨rfl,rfl⟩
  · rw [if_neg ht, if_neg (mt hcompletes.mp ht)]
    exact ⟨h.secretKeyShare,h.publicKey⟩

/-- An acknowledgement for the node counts, and forms the keys anew if the
count is then complete. -/
theorem recorded_ack (h : Recorded first own msgs node) {refusal : Option String}
    {senderId receiverId : String} {valid : Bool}
    (hw : node.Withstands refusal (.shareAck senderId receiverId valid)) :
    Recorded first own (msgs++[.shareAck senderId receiverId valid])
      (node.take (.shareAck senderId receiverId valid)) := by
  obtain ⟨hid,hidx,ht,-,-⟩ := take_maps node (.shareAck senderId receiverId valid)
  obtain ⟨hshares,hcommitments⟩ := recorded_maps h (.shareAck senderId receiverId valid)
  by_cases hr : receiverId = first.id
  · have hcounted : node.take (.shareAck senderId receiverId valid) =
        (node.pushAck senderId valid).checked := by
      rw [ADKGNode.take, if_pos (hr.trans h.id.symm)]
    obtain ⟨hshare,hkey⟩ := recorded_keys h hr (hw (hr.trans h.id.symm))
    refine ⟨hid.trans h.id,hidx.trans h.idx,ht.trans h.t,hshares,hcommitments,?_,?_,?_⟩
    · rw [hcounted, ADKGNode.validAcks, (checked_maps (node.pushAck senderId valid)).2.2,
        ← ADKGNode.validAcks, validAcks_pushAck, h.acks, acks_snoc, hr]
      simp [ackTo]
    · rw [hcounted, hshare]
    · rw [hcounted, hkey]
  · have hignored : node.take (.shareAck senderId receiverId valid) = node := by
      rw [ADKGNode.take, if_neg (by rwa [h.id])]
    have hopen : ¬ first.Completes msgs (.shareAck senderId receiverId valid) := by
      rintro ⟨ha,-⟩
      exact hr (decide_eq_true_eq.mp ha)
    refine ⟨hid.trans h.id,hidx.trans h.idx,ht.trans h.t,hshares,hcommitments,?_,?_,?_⟩
    · rw [hignored, h.acks, acks_snoc]
      simp [ackTo, hr]
    · rw [hignored, completed_snoc, if_neg hopen, h.secretKeyShare]
    · rw [hignored, completed_snoc, if_neg hopen, h.publicKey]

theorem recorded_take (h : Recorded first own msgs node) {refusal : Option String}
    {msg : ADKGMessage G1} (hw : node.Withstands refusal msg) :
    Recorded first own (msgs++[msg]) (node.take msg) := by
  cases msg with
  | shareProposal senderId shares commitments =>
    exact recorded_proposal h senderId shares commitments
  | shareAck senderId receiverId valid => exact recorded_ack h hw

end step
end MpcNode.Adkg
