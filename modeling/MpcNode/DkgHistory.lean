import MpcNode.DkgLedger

/-!
# The state as the accepted history

Both maps and the queue are written by the same calls: the entries of a
dealer come from its last accepted dealing, one vote is queued for each
accepted dealing, and the recorded votes are those on the dealer, in order.
-/

set_option autoImplicit false

namespace MpcNode.Dkg
open MpcNode.Bls MpcNode.Guarded MpcNode.Messages MpcNode.Wire MpcNode.Channels MpcNode.Tables

variable {G1 : Type}

/-- The vote a node queues at a message, if it does. -/
def answer (id : String) : DKGMessage G1 → Option (DKGMessage G1)
  | .shareDistribution fromId shares _ =>
    if shares.any (fun s => s.index = idParsed id) then some (.shareValidation id fromId true)
    else none
  | .shareValidation _ _ _ => none

def flagOn (dealer : String) : DKGMessage G1 → Option Bool
  | .shareDistribution _ _ _ => none
  | .shareValidation _ toId isValid => if toId = dealer then some isValid else none

theorem answer_eq (id : String) (msg : DKGMessage G1) : answer id msg =
    (dealing (idParsed id) msg).map (fun d => .shareValidation id d.dealer true) := by
  cases msg with
  | shareDistribution fromId shares commitments =>
    rw [answer, dealing, Option.map_map]
    cases hs : shares.find? (fun s => s.index = idParsed id) with
    | none =>
      rw [List.find?_eq_none] at hs
      rw [if_neg (by simpa using hs)]
      rfl
    | some share =>
      have hm := List.mem_of_find?_eq_some hs
      have hi := List.find?_some hs
      rw [if_pos (List.any_eq_true.mpr ⟨share,hm,hi⟩)]
      rfl
  | shareValidation fromId toId isValid => rfl

theorem flags_eq (own : Usize) (dealer : String) (msgs : List (DKGMessage G1)) :
    (ledger own msgs).flags dealer = msgs.filterMap (flagOn dealer) := by
  rw [Ledger.flags, ledger, List.filter_filterMap, List.map_filterMap]
  apply List.filterMap_congr
  intro m _
  cases m with
  | shareDistribution fromId shares commitments => rfl
  | shareValidation fromId toId isValid =>
    by_cases h : toId = dealer <;> simp [vote, flagOn, Option.filter, h]

theorem lastOf_split {own : Usize} {msgs : List (DKGMessage G1)} {dealer : String} {d : Dealing G1}
    (h : (ledger own msgs).lastOf dealer = some d) :
    ∃ pre shares commitments post,
      msgs = pre ++ .shareDistribution dealer shares commitments::post ∧
      shares.find? (fun s => s.index = own) = some d.share ∧
      d.commitments = commitments.map (fun c => c.point) ∧
      ∀ shares' commitments', .shareDistribution dealer shares' commitments' ∈ post →
        shares'.find? (fun s => s.index = own) = none := by
  rw [Ledger.lastOf, ledger, List.filter_filterMap] at h
  obtain ⟨pre,m,post,rfl,hm,hpost⟩ := Prefixes.getLast?_filterMap h
  obtain ⟨hd,hdealer⟩ := Option.filter_eq_some_iff.mp hm
  cases m with
  | shareValidation fromId toId isValid => cases hd
  | shareDistribution fromId shares commitments =>
    obtain ⟨share,hs,rfl⟩ := Option.map_eq_some_iff.mp hd
    obtain rfl : fromId = dealer := by simpa using hdealer
    refine ⟨pre,shares,commitments,post,rfl,hs,rfl,?_⟩
    intro shares' commitments' hp
    have hn := hpost _ hp
    by_contra hsome
    obtain ⟨share',hs'⟩ := Option.ne_none_iff_exists'.mp hsome
    simp [dealing, hs'] at hn

section queue
variable [G1Group G1] [SerdeJson]

theorem perform_channel {c : Ctx (DKGNode G1) G1} (ho : c.channel.closed = false)
    (msg : DKGMessage G1) (hr : (answer c.node.id msg).isSome → c.channel.Room) :
    (perform (.message msg) (Env.top .granted) c).2.channel = { c.channel with
      queue := c.channel.queue ++ (answer c.node.id msg).toList.map dkgPayload } := by
  rw [answer_eq] at hr ⊢
  cases msg with
  | shareDistribution fromId shares commitments =>
    rw [perform]
    cases hd : dealing (idParsed c.node.id) (.shareDistribution fromId shares commitments) with
    | none =>
      rw [distribution_ignored hd]
      simp
    | some d =>
      rw [distribution_accepted hd]
      change (c.channel.send _).2 = _
      rw [channel_send_room ho (hr (by rw [hd]; rfl))]
      rfl
  | shareValidation fromId toId isValid =>
    rw [perform, validation_granted]
    simp [dealing]

theorem run_channel {c : Ctx (DKGNode G1) G1} {msgs : List (DKGMessage G1)}
    (ho : c.channel.closed = false) (hr : c.channel.queue.length+
      (msgs.filterMap (answer c.node.id)).length ≤ c.channel.capacity) :
    (run .granted c (msgs.map .message)).channel = { c.channel with
      queue := c.channel.queue ++ (msgs.filterMap (answer c.node.id)).map dkgPayload } := by
  induction msgs generalizing c with
  | nil => simp [run]
  | cons m msgs ih =>
    have hsplit : (m::msgs).filterMap (answer c.node.id) =
        (answer c.node.id m).toList ++ msgs.filterMap (answer c.node.id) := by
      rw [List.filterMap_cons]
      cases answer c.node.id m <;> rfl
    rw [hsplit, List.length_append] at hr
    have hp := perform_channel ho m (fun hs => by
      obtain ⟨vote,hv⟩ := Option.isSome_iff_exists.mp hs
      rw [hv, Option.toList_some, List.length_singleton] at hr
      exact (by omega : c.channel.queue.length < c.channel.capacity))
    have hid : (perform (.message m) (Env.top .granted) c).2.node.id = c.node.id := by
      rw [perform_node, after_id]
    have hnext := ih (c := (perform (.message m) (Env.top .granted) c).2) (by rw [hp]; exact ho) (by
      rw [hp, hid, List.length_append, List.length_map]
      change _ ≤ c.channel.capacity
      omega)
    rw [List.map_cons, run, hnext, hp, hid, hsplit, List.map_append, List.append_assoc]

/-- What a node's data and queue record of the messages it handled. -/
structure Recorded (id : String) (queue : List ChannelMessage) (msgs : List (DKGMessage G1))
    (c : Ctx (DKGNode G1) G1) : Prop where
  keys : keySet c.node.shares = keySet c.node.commitments
  entries : ∀ dealer ∈ keySet c.node.shares, ∃ pre shares commitments post share,
    msgs = pre ++ .shareDistribution dealer shares commitments::post ∧
    shares.find? (fun s => s.index = idParsed id) = some share ∧
    (∀ shares' commitments', .shareDistribution dealer shares' commitments' ∈ post →
      shares'.find? (fun s => s.index = idParsed id) = none) ∧
    c.node.shares.lookup dealer = some share ∧
    c.node.commitments.lookup dealer = some (commitments.map (fun c => c.point))
  dealers : ∀ dealer shares commitments, .shareDistribution dealer shares commitments ∈ msgs →
    (∃ share ∈ shares, share.index = idParsed id) → dealer ∈ keySet c.node.shares
  queued : c.channel.queue = queue ++ (msgs.filterMap (answer id)).map dkgPayload
  validations : ∀ dealer,
    (c.node.validations.lookup dealer).getD [] = msgs.filterMap (flagOn dealer)

/-- After any messages, a new node's state is exactly its accepted history. -/
theorem run_recorded (id : String) (threshold totalNodes : Usize) {channel : Channel}
    {msgs : List (DKGMessage G1)} (ho : channel.Open)
    (hr : channel.queue.length+(msgs.filterMap (answer id)).length ≤ channel.capacity) :
    Recorded id channel.queue msgs
      (run .granted (.fresh (.new id threshold totalNodes) channel) (msgs.map .message)) := by
  have href := run_messages_refines .granted id threshold totalNodes channel msgs
  have hkeys := keySet_shares href
  refine ⟨hkeys.trans (keySet_commitments href).symm,?_,?_,?_,?_⟩
  · intro dealer hd
    rw [hkeys, Ledger.mem_dealers] at hd
    obtain ⟨d,hd⟩ := hd
    obtain ⟨pre,shares,commitments,post,hm,hs,hc,hpost⟩ := lastOf_split hd
    refine ⟨pre,shares,commitments,post,d.share,hm,hs,hpost,?_,?_⟩
    · rw [href.share, hd, Option.map_some]
    · rw [href.commitments, hd, Option.map_some, hc]
  · rintro dealer shares commitments hm ⟨share,hs,hi⟩
    rw [hkeys, Ledger.dealers, List.mem_toFinset, List.mem_map]
    obtain ⟨first,hf⟩ := exists_find_index ⟨share,hs,hi⟩
    exact ⟨_,List.mem_filterMap.mpr ⟨_,hm,by rw [dealing, hf]; rfl⟩,rfl⟩
  · have hc := run_channel (c := .fresh (.new id threshold totalNodes) channel) ho hr
    rw [hc]
    rfl
  · intro dealer
    rw [href.validations, flags_eq]
    split_ifs with hf
    · exact hf.symm
    · rfl

end queue

section sample
attribute [local instance] compactJson

def sampleHistory : List (DKGMessage LogPoint) :=
  [.shareDistribution "2" [⟨1,⟨5⟩⟩] [],.shareDistribution "2" [⟨3,⟨1⟩⟩,⟨1,⟨6⟩⟩,⟨1,⟨7⟩⟩] [],
    .shareValidation "3" "2" false]

theorem sample_recorded : Recorded "1" [] sampleHistory
    (run .granted (.fresh (.new "1" 1 2) .empty) (sampleHistory.map .message)) :=
  run_recorded "1" 1 2 (show Channel.empty.Open from rfl) (by decide)

end sample
end MpcNode.Dkg
