import MpcNode.Assembly
import MpcNode.DkgVerification

/-!
# What holds in the assembled network

Each node promises to publish its own dealings and its votes on dealings it
took from others. Under these promises whatever a node stores is in a dealing
that another node published under its own name, and a loop stops only at a
full queue or at a vote that another node published.
-/

set_option autoImplicit false

namespace MpcNode.Network
open MpcNode.Bls MpcNode.Guarded MpcNode.Messages MpcNode.Wire MpcNode.Channels MpcNode.Tables
open MpcNode.Dkg MpcNode.Services
open MpcNode.Rpc (Encoded RPCRequest RPCResponse)

variable {G1 P A : Type} {n : ℕ}

theorem after_vote (node : DKGNode G1) (fromId toId : String) (isValid : Bool) :
    (node.after (.message (.shareValidation fromId toId isValid))).validations ≠ ∅ := by
  intro h
  have hl := lookup_push_self node.validations toId isValid
  rw [show push node.validations toId isValid = ∅ from h] at hl
  cases hl

theorem after_distribution (node : DKGNode G1) (fromId : String) (shares : List KeyShare)
    (commitments : List (SerializableG1Affine G1)) :
    (node.after (.message (.shareDistribution fromId shares commitments))).validations =
      node.validations := by
  simp only [DKGNode.after, DKGNode.take]
  split <;> rfl

/-- Only a vote is counted, and the first one is all its dealer has. -/
theorem first_counted {node : DKGNode G1} (input : Input G1) (hvotes : node.validations = ∅)
    (hcounted : (node.after input).validations ≠ ∅) : ∃ fromId toId isValid,
      input = .message (.shareValidation fromId toId isValid) ∧
      (node.after input).validations.lookup toId = some [isValid] := by
  rcases input with rng | ⟨fromId,shares,commitments⟩ | ⟨fromId,toId,isValid⟩
  · exact absurd hvotes hcounted
  · rw [after_distribution] at hcounted
    exact absurd hvotes hcounted
  · refine ⟨fromId,toId,isValid,rfl,?_⟩
    show (push node.validations toId isValid).lookup toId = some [isValid]
    rw [lookup_push_self, hvotes]
    rfl

section members
variable (ids : Fin n → String) (threshold total : Usize)

/-- A node whose id is an index of a share. -/
def Indexed (i : Fin n) : Prop :=
  1 ≤ (idParsed (ids i)).toNat ∧ (idParsed (ids i)).toNat ≤ total.toNat

/-- A member is set up as the others are, and stores nothing unless its id is
the index of a share. -/
structure Member (i : Fin n) (node : DKGNode G1) : Prop where
  entries : Indexed ids total i ∨
    ∀ dealer, node.shares.lookup dealer = none ∧ node.commitments.lookup dealer = none
  id : node.id = ids i
  threshold : node.threshold = threshold
  totalNodes : node.totalNodes = total

theorem member_new (i : Fin n) :
    Member ids threshold total i (.new (ids i) threshold total : DKGNode G1) :=
  ⟨Or.inr (fun _ => ⟨rfl,rfl⟩),rfl,rfl,rfl⟩

end members

section promises
variable [G1Group G1] (ids : Fin n → String) (threshold total : Usize)

/-- A dealing of the node, or its vote on another node's. -/
def Says (i : Fin n) (msg : DKGMessage G1) : Prop :=
  (∃ rng, msg = distribution (.new (ids i) threshold total) rng) ∨
    (Indexed ids total i ∧ ∃ j, j ≠ i ∧ msg = .shareValidation (ids i) (ids j) true)

variable (G1) in
def Promises [SerdeJson] (i : Fin n) (data : Bytes) : Prop :=
  ∃ msg : DKGMessage G1, Says ids threshold total i msg ∧ data = toVec (GossipsubMessage.dkg msg)

variable {ids threshold total}

theorem member_distribution {i : Fin n} {node : DKGNode G1}
    (h : Member ids threshold total i node) (rng : Rng) :
    distribution node rng = distribution (.new (ids i) threshold total) rng := by
  rw [← h.id, ← h.threshold, ← h.totalNodes]
  rfl

theorem spoken_dealing {i j : Fin n} {msg : DKGMessage G1} {d : Dealing G1}
    (h : Says ids threshold total j msg) (hd : dealing (idParsed (ids i)) msg = some d) :
    Indexed ids total i ∧ ∃ rng, d = dealt (ids j) threshold (idParsed (ids i)) rng := by
  rcases h with ⟨rng,rfl⟩ | ⟨-,k,-,rfl⟩
  · rw [dealing_distribution] at hd
    split_ifs at hd with hr
    exact ⟨hr,rng,(Option.some.inj hd).symm⟩
  · cases hd

theorem member_after {i : Fin n} {node : DKGNode G1} (h : Member ids threshold total i node)
    {input : Input G1}
    (hi : ∀ msg, input = .message msg → ∃ j, j ≠ i ∧ Says ids threshold total j msg) :
    Member ids threshold total i (node.after input) := by
  refine ⟨?_,by rw [after_id, h.id],by rw [after_threshold, h.threshold],
    by rw [after_totalNodes, h.totalNodes]⟩
  rcases input with rng | ⟨fromId,shares,commitments⟩ | ⟨fromId,toId,isValid⟩
  · exact h.entries
  · obtain ⟨j,hj,hspoken⟩ := hi _ rfl
    simp only [DKGNode.after, DKGNode.take]
    cases hd : dealing (idParsed node.id) (.shareDistribution fromId shares commitments) with
    | none => exact h.entries
    | some d =>
      rw [h.id] at hd
      exact Or.inl (spoken_dealing hspoken hd).1
  · exact h.entries

theorem member_speaks {i : Fin n} {node : DKGNode G1} (h : Member ids threshold total i node)
    {input : Input G1}
    (hi : ∀ msg, input = .message msg → ∃ j, j ≠ i ∧ Says ids threshold total j msg) :
    ∀ msg ∈ outputs node input, Says ids threshold total i msg := by
  intro msg hm
  cases input with
  | start rng =>
    rw [List.mem_singleton.mp hm, member_distribution h]
    exact Or.inl ⟨rng,rfl⟩
  | message taken =>
    obtain ⟨j,hj,hspoken⟩ := hi taken rfl
    simp only [outputs, reply] at hm
    split at hm
    · rename_i d hd
      rw [h.id] at hd
      obtain ⟨hr,rng,rfl⟩ := spoken_dealing hspoken hd
      rw [List.mem_singleton.mp hm, h.id]
      exact Or.inr ⟨hr,j,hj,rfl⟩
    · cases hm

/-- What a node stores under a name it took from a dealing that another node
of that name published. -/
def FromDealings [SerdeJson] (ids : Fin n → String) (threshold total : Usize)
    (published : Fin n → Bytes → Prop) (i : Fin n) (node : DKGNode G1) : Prop :=
  ∀ dealer share, node.shares.lookup dealer = some share → ∃ j rng commitments,
    j ≠ i ∧ ids j = dealer ∧
    published j (toVec (GossipsubMessage.dkg
      (distribution (.new dealer threshold total : DKGNode G1) rng))) ∧
    dealing (idParsed (ids i)) (distribution (.new dealer threshold total : DKGNode G1) rng) =
      some ⟨dealer,share,commitments⟩ ∧
    node.commitments.lookup dealer = some commitments

theorem fromDealings_after [SerdeJson] {published : Fin n → Bytes → Prop} {i : Fin n}
    {node : DKGNode G1} (h : FromDealings ids threshold total published i node)
    (hmember : Member ids threshold total i node) {input : Input G1}
    (hi : ∀ msg, input = .message msg → ∃ j, j ≠ i ∧ Says ids threshold total j msg ∧
      published j (toVec (GossipsubMessage.dkg msg))) :
    FromDealings ids threshold total published i (node.after input) := by
  rcases input with rng | ⟨fromId,shares,commitments⟩ | ⟨fromId,toId,isValid⟩
  · exact h
  · obtain ⟨j,hj,hspoken,hp⟩ := hi _ rfl
    simp only [DKGNode.after, DKGNode.take]
    cases hd : dealing (idParsed node.id) (.shareDistribution fromId shares commitments) with
    | none => exact h
    | some d =>
      rw [hmember.id] at hd
      obtain ⟨-,rng,rfl⟩ := spoken_dealing hspoken hd
      obtain ⟨drawn,hmsg⟩ | ⟨-,k,-,hmsg⟩ := hspoken
      · rw [hmsg] at hd hp
        have hname : (dealt (ids j) threshold (idParsed (ids i)) rng : Dealing G1).dealer =
          ids j := rfl
        intro dealer share hs
        simp only [DKGNode.accept, DKGNode.insertShare, DKGNode.insertCommitments,
          lookup_insert_eq, hname] at hs ⊢
        by_cases hdealer : dealer = ids j
        · subst hdealer
          rw [if_pos rfl] at hs
          obtain rfl := Option.some.inj hs
          exact ⟨j,drawn,_,hj,rfl,hp,hd,if_pos rfl⟩
        · rw [if_neg hdealer] at hs ⊢
          exact h dealer share hs
      · cases hmsg
  · exact h

end promises

theorem sendOr_open {channel : Channel} (ho : channel.Open) (out : Option ChannelMessage) :
    (sendOr out (.ok ()) channel).2.Open ∧
      (sendOr out (.ok ()) channel).2.capacity = channel.capacity ∧
      ((halt (sendOr out (.ok ()) channel).1 = none ∧
          (sendOr out (.ok ()) channel).2.queue = channel.queue ++ out.toList) ∨
        (halt (sendOr out (.ok ()) channel).1 = some .pending ∧
          (sendOr out (.ok ()) channel).2.queue = channel.queue ∧
          channel.capacity ≤ channel.queue.length)) := by
  cases out with
  | none => exact ⟨ho,rfl,Or.inl ⟨rfl,(List.append_nil _).symm⟩⟩
  | some message =>
    by_cases hr : channel.Room
    · rw [sendOr, channel_send_room ho hr]
      exact ⟨ho,rfl,Or.inl ⟨rfl,rfl⟩⟩
    · rw [sendOr, channel_send_full ho hr]
      exact ⟨ho,rfl,Or.inr ⟨rfl,rfl,Nat.not_lt.mp hr⟩⟩

theorem peers_not_indexed {ids : Fin n → String} (hids : ∀ i, PeerIdText (ids i)) (i : Fin n) :
    ¬ Indexed ids 5 i := by
  rintro ⟨-,hle⟩
  rw [idParsed_peerId (hids i)] at hle
  exact absurd hle (by decide)

section parties
variable [G1Group G1] [SerdeJson]

theorem idle_dkg {layer : NetworkLayer G1} {node : DKGNode G1} (hn : layer.dkgNode = some node)
    {event : SwarmEvent G1 P A}
    (hg : ∀ message, event = .gossip message →
      ∃ msg : DKGMessage G1, fromSlice (GossipsubMessage G1) message.data = some (.dkg msg))
    (rng : Rng) : idleFor .waiting layer event =
      match dkgInput (.swarm event rng) with
      | some (.message (.shareValidation _ _ _)) => .blocked .validations
      | _ => .ok () := by
  cases event with
  | gossip message =>
    obtain ⟨msg,hm⟩ := hg message rfl
    simp only [idleFor, dkgInput, hm]
    cases msg <;> simp [idleAt, hn, voteOutcome]
  | request peer request => cases request <;> rfl
  | _ => rfl

/-- A party of the assembled network, running or stopped. -/
structure Sound (ids : Fin n → String) (threshold total : Usize) (i : Fin n)
    (party : Party G1 P A) : Prop where
  node : ∃ node, party.loop.layer.dkgNode = some node ∧ Member ids threshold total i node ∧
    (party.halted = some (.blocked .validations) ↔ node.validations ≠ ∅)
  signing : party.loop.layer.signingNode = none
  isOpen : party.loop.layer.channel.Open
  capacity : party.loop.layer.channel.capacity = 100
  queued : ∀ message ∈ party.loop.layer.channel.queue,
    ∃ msg : DKGMessage G1, Says ids threshold total i msg ∧ message = dkgPayload msg
  published : ∀ topic data, .publish topic data ∈ party.loop.actions →
    Promises G1 ids threshold total i data
  stops : ∀ o, party.halted = some o →
    (o = .pending ∧ 100 ≤ party.loop.layer.channel.queue.length) ∨
      (o = .blocked .validations ∧ ∃ j, j ≠ i ∧ Indexed ids total j)

theorem sound_start (ids : Fin n → String) (threshold total : Usize) (key : Bytes) (i : Fin n) :
    Sound ids threshold total i
      (Party.start (assembled (ids i) threshold total key) : Party G1 P A) := by
  refine ⟨⟨_,rfl,member_new ids threshold total i,iff_of_false nofun (not_not_intro rfl)⟩,rfl,rfl,
    rfl,?_,?_,?_⟩
  · intro message hm
    cases hm
  · intro topic data hp
    cases hp
  · intro o ho
    cases ho

variable {ids : Fin n → String} {threshold total : Usize}

theorem Sound.running {i : Fin n} {party : Party G1 P A} (h : Sound ids threshold total i party)
    (hrun : party.halted = none) : ∃ node, party.loop.layer.dkgNode = some node ∧
      Member ids threshold total i node ∧ node.validations = ∅ := by
  obtain ⟨node,hn,hmember,hcounted⟩ := h.node
  refine ⟨node,hn,hmember,?_⟩
  by_contra hvotes
  have hstop := hcounted.mpr hvotes
  rw [hrun] at hstop
  cases hstop

theorem Sound.promise {i : Fin n} {party : Party G1 P A} (h : Sound ids threshold total i party) :
    ∀ data ∈ party.published, Promises G1 ids threshold total i data := by
  intro data hdata
  obtain ⟨action,ha,hp⟩ := List.mem_filterMap.mp hdata
  cases action with
  | publish topic payload =>
    dsimp only at hp
    split_ifs at hp
    obtain rfl := Option.some.inj hp
    exact h.published topic payload ha
  | sendRequest peer request => cases hp
  | sendResponse peer response => cases hp

theorem turned_signing {nodes : Nodes G1} (h : nodes.signing = none) (b : Branch G1 P A) :
    (nodes.turned b).signing = none := by
  cases b with
  | recv => exact h
  | swarm event rng =>
    cases event with
    | request peer request => cases request <;> exact h
    | gossip message =>
      simp only [Nodes.turned, Nodes.after]
      rcases fromSlice (GossipsubMessage G1) message.data with _ | msg | msg | cmd | msg
      · exact h
      · exact h
      · simp [h]
      · exact h
      · exact h
    | _ => exact h

theorem promised_spoken {j : Fin n} {msg : DKGMessage G1}
    (h : Promises G1 ids threshold total j (toVec (GossipsubMessage.dkg msg))) :
    Says ids threshold total j msg := by
  obtain ⟨said,hspoken,hdata⟩ := h
  have hmsg := congrArg (fromSlice (GossipsubMessage G1)) hdata
  rw [fromSlice_toVec, fromSlice_toVec] at hmsg
  obtain rfl := GossipsubMessage.dkg.inj (Option.some.inj hmsg)
  exact hspoken

/-- What a branch hands to a node comes from another one that promised it. -/
theorem input_spoken {i : Fin n} {event : SwarmEvent G1 P A} {rng : Rng}
    (h : ∀ data ∈ heard (.swarm event rng : Branch G1 P A),
      ∃ j, j ≠ i ∧ Promises G1 ids threshold total j data) :
    (∀ message, event = .gossip message →
      ∃ msg : DKGMessage G1, fromSlice (GossipsubMessage G1) message.data = some (.dkg msg)) ∧
    ∀ msg, dkgInput (.swarm event rng) = some (.message msg) →
      toVec (GossipsubMessage.dkg msg) ∈ heard (.swarm event rng : Branch G1 P A) := by
  constructor
  · rintro message rfl
    obtain ⟨j,-,msg,-,hdata⟩ := h message.data rfl
    exact ⟨msg,by rw [hdata, fromSlice_toVec]⟩
  · intro msg hm
    cases event with
    | gossip message =>
      obtain ⟨j,hj,said,hspoken,hdata⟩ := h message.data rfl
      simp only [dkgInput, hdata, fromSlice_toVec] at hm
      obtain rfl := Input.message.inj (Option.some.inj hm)
      exact congrArg some hdata
    | request peer request => cases request <;> cases hm
    | _ => cases hm

theorem sound_sends {i : Fin n} {party next : Party G1 P A} (h : Sound ids threshold total i party)
    {node : DKGNode G1} (hn : next.loop.layer.dkgNode = some node)
    (hmember : Member ids threshold total i node) (hvotes : node.validations = ∅)
    (hsigning : next.loop.layer.signingNode = none)
    (hpublished : ∀ topic data, .publish topic data ∈ next.loop.actions →
      Promises G1 ids threshold total i data)
    {out : Option ChannelMessage}
    (hout : ∀ message ∈ out,
      ∃ msg : DKGMessage G1, Says ids threshold total i msg ∧ message = dkgPayload msg)
    (hhalted : next.halted = halt (sendOr out (.ok ()) party.loop.layer.channel).1)
    (hchannel : next.loop.layer.channel = (sendOr out (.ok ()) party.loop.layer.channel).2) :
    Sound ids threshold total i next := by
  obtain ⟨ho,hcapacity,hcases⟩ := sendOr_open h.isOpen out
  rw [← hchannel] at ho hcapacity hcases
  rw [← hhalted] at hcases
  have hfree : next.halted ≠ some (.blocked .validations) := by
    rcases hcases with ⟨hr,-⟩ | ⟨hr,-⟩ <;> simp [hr]
  refine ⟨⟨node,hn,hmember,iff_of_false hfree (not_not_intro hvotes)⟩,hsigning,ho,
    hcapacity.trans h.capacity,?_,hpublished,?_⟩
  · intro message hm
    rcases hcases with ⟨-,hq⟩ | ⟨-,hq,-⟩
    · rw [hq, List.mem_append] at hm
      rcases hm with hm | hm
      · exact h.queued message hm
      · exact hout message (Option.mem_toList.mp hm)
    · rw [hq] at hm
      exact h.queued message hm
  · intro o hs
    rcases hcases with ⟨hrun,-⟩ | ⟨hstop,hq,hfull⟩
    · rw [hrun] at hs
      cases hs
    · rw [hstop] at hs
      obtain rfl := Option.some.inj hs
      rw [hq, ← h.capacity]
      exact Or.inl ⟨rfl,hfull⟩

theorem sound_counts {i j : Fin n} {party next : Party G1 P A}
    (h : Sound ids threshold total i party) {node : DKGNode G1}
    (hn : next.loop.layer.dkgNode = some node) (hmember : Member ids threshold total i node)
    (hvotes : node.validations ≠ ∅) (hsigning : next.loop.layer.signingNode = none)
    (hpublished : ∀ topic data, .publish topic data ∈ next.loop.actions →
      Promises G1 ids threshold total i data)
    (hj : j ≠ i) (hindexed : Indexed ids total j)
    (hhalted : next.halted = some (.blocked .validations))
    (hchannel : next.loop.layer.channel = party.loop.layer.channel) :
    Sound ids threshold total i next := by
  refine ⟨⟨node,hn,hmember,iff_of_true hhalted hvotes⟩,hsigning,?_,?_,?_,hpublished,
    fun o ho => ?_⟩
  · rw [hchannel]
    exact h.isOpen
  · rw [hchannel]
    exact h.capacity
  · rw [hchannel]
    exact h.queued
  · rw [hhalted] at ho
    exact Or.inr ⟨(Option.some.inj ho).symm,j,hj,hindexed⟩

variable [Blake3] [DecidableEq P] [Encoded P] [Hex]

/-- What is left of an event's turn, whether or not it returns. -/
theorem turn_swarm {party : Party G1 P A} (h : party.halted = none) (event : SwarmEvent G1 P A)
    (rng : Rng) :
    let next := party.turn (.swarm event rng)
    let sent := sendOr (party.loop.layer.nodes.output rng event)
      (idleFor .waiting party.loop.layer event) party.loop.layer.channel
    next.halted = halt sent.1 ∧ next.loop.layer.channel = sent.2 ∧
      next.loop.layer.nodes = party.loop.layer.nodes.turned (.swarm event rng) ∧
      ∃ answers, next.loop.actions = party.loop.actions ++ answers ∧
        ∀ action ∈ answers, action.isRelayed = false := by
  have hturn := swarm_turn .waiting rng event party.loop
  have hsends := layerCall_sends .waiting rng event party.loop.layer
  have hnodes := layerCall_nodes .waiting rng event party.loop.layer
  rw [← hturn] at hsends hnodes
  dsimp only
  rw [turn_running h]
  refine ⟨?_,?_,hnodes,swarm_answers .waiting rng event party.loop⟩
  · rw [← hsends]
    rfl
  · rw [← hsends]
    rfl

theorem turn_dkg {party : Party G1 P A} {node : DKGNode G1} (h : party.halted = none)
    (hn : party.loop.layer.dkgNode = some node) (event : SwarmEvent G1 P A) (rng : Rng) :
    (party.turn (.swarm event rng)).loop.layer.dkgNode =
      some ((dkgInput (.swarm event rng : Branch G1 P A)).toList.foldl DKGNode.after node) := by
  have hdkg := congrArg Nodes.dkg (turn_swarm h event rng).2.2.1
  have hmapped : party.loop.layer.nodes.dkg = some node := hn
  rw [turned_dkg, hmapped, Option.map_some] at hdkg
  exact hdkg

theorem turn_heard {party : Party G1 P A} {node : DKGNode G1} {message : Message}
    {msg : DKGMessage G1} (h : party.halted = none) (hn : party.loop.layer.dkgNode = some node)
    (hm : fromSlice (GossipsubMessage G1) message.data = some (.dkg msg)) (rng : Rng) :
    (party.turn (.swarm (.gossip message) rng)).loop.layer.dkgNode =
      some (node.after (.message msg)) := by
  rw [turn_dkg h hn]
  simp only [dkgInput, hm]
  rfl

theorem sound_swarm {i : Fin n} {party : Party G1 P A} (h : Sound ids threshold total i party)
    (hrun : party.halted = none) (event : SwarmEvent G1 P A) (rng : Rng)
    (hheard : ∀ data ∈ heard (.swarm event rng : Branch G1 P A),
      ∃ j, j ≠ i ∧ Promises G1 ids threshold total j data) :
    Sound ids threshold total i (party.turn (.swarm event rng)) := by
  obtain ⟨node,hn,hmember,hvotes⟩ := h.running hrun
  obtain ⟨hgossip,htaken⟩ := input_spoken hheard
  have hspoken : ∀ msg, dkgInput (.swarm event rng) = some (.message msg) →
      ∃ j, j ≠ i ∧ Says ids threshold total j msg := by
    intro msg hm
    obtain ⟨j,hj,hp⟩ := hheard _ (htaken msg hm)
    exact ⟨j,hj,promised_spoken hp⟩
  obtain ⟨hhalted,hchannel,hnodes,answers,hactions,hanswers⟩ := turn_swarm hrun event rng
  have hdkg := turn_dkg hrun hn event rng
  have hsigning := congrArg Nodes.signing hnodes
  rw [turned_signing h.signing] at hsigning
  have hmapped : party.loop.layer.nodes.dkg = some node := hn
  rw [output_dkg hmapped h.signing rng event, idle_dkg hn hgossip rng] at hhalted hchannel
  have hkept : ∀ topic data, .publish topic data ∈ (party.turn (.swarm event rng)).loop.actions →
      Promises G1 ids threshold total i data := by
    intro topic data ha
    rw [hactions, List.mem_append] at ha
    rcases ha with ha | ha
    · exact h.published topic data ha
    · exact absurd (hanswers _ ha) (by simp [SwarmAction.isRelayed])
  cases hi : dkgInput (.swarm event rng) with
  | none =>
    rw [hi] at hdkg hhalted hchannel
    exact sound_sends h hdkg hmember hvotes hsigning hkept (by simp) hhalted hchannel
  | some input =>
    have hafter := member_after hmember (fun msg hm => hspoken msg (hi.trans (congrArg some hm)))
    have hout := member_speaks hmember (fun msg hm => hspoken msg (hi.trans (congrArg some hm)))
    rw [hi] at hdkg hhalted hchannel
    have hsaid : ∀ message ∈ (outputs node input).head?.map dkgPayload,
        ∃ msg : DKGMessage G1, Says ids threshold total i msg ∧ message = dkgPayload msg := by
      intro message hm
      obtain ⟨msg,hmsg,rfl⟩ := Option.map_eq_some_iff.mp hm
      exact ⟨msg,hout msg (List.mem_of_mem_head? hmsg),rfl⟩
    rcases input with rng | ⟨fromId,shares,commitments⟩ | ⟨fromId,toId,isValid⟩
    · exact sound_sends h hdkg hafter hvotes hsigning hkept hsaid hhalted hchannel
    · have hsame := (after_distribution node fromId shares commitments).trans hvotes
      exact sound_sends h hdkg hafter hsame hsigning hkept hsaid hhalted hchannel
    · -- the vote is counted and the loop stops in its handler
      obtain ⟨j,hj,⟨_,hd⟩ | ⟨hindexed,-⟩⟩ := hspoken _ hi
      · cases hd
      exact sound_counts h hdkg hafter (after_vote node fromId toId isValid) hsigning hkept hj
        hindexed hhalted hchannel

/-- A receive turn takes the front of the queue and publishes it. -/
theorem turn_recv {i : Fin n} {party : Party G1 P A} (h : Sound ids threshold total i party)
    (hrun : party.halted = none) :
    (party.turn .recv).halted = none ∧ (party.turn .recv).loop.layer =
        { party.loop.layer with channel := party.loop.layer.channel.recv.2 } ∧
      (party.turn .recv).loop.actions = party.loop.actions ++
        (party.loop.layer.channel.queue.head?.bind relay).toList := by
  obtain ⟨hok,hactions⟩ := recv_ok (Env.top .waiting) party.loop
  have haddressed : ∀ message ∈ party.loop.layer.channel.queue.head?, Addressed P message := by
    intro message hm
    obtain ⟨msg,-,rfl⟩ := h.queued message (List.mem_of_mem_head? hm)
    exact trivial
  have hr := hok.mpr haddressed
  rw [turn_running hrun, hr]
  exact ⟨rfl,(recv_turn (Env.top .waiting) party.loop).2,hactions hr⟩

theorem sound_recv {i : Fin n} {party : Party G1 P A} (h : Sound ids threshold total i party)
    (hrun : party.halted = none) : Sound ids threshold total i (party.turn .recv) := by
  obtain ⟨hgoes,hl,hactions⟩ := turn_recv h hrun
  refine ⟨?_,?_,?_,?_,?_,?_,fun o ho => ?_⟩
  · rw [hl]
    obtain ⟨node,hn,hmember,hvotes⟩ := h.running hrun
    exact ⟨node,hn,hmember,iff_of_false (by simp [hgoes]) (not_not_intro hvotes)⟩
  · rw [hl]
    exact h.signing
  · rw [hl]
    exact h.isOpen
  · rw [hl]
    exact h.capacity
  · rw [hl]
    exact fun message hm => h.queued message (List.mem_of_mem_tail hm)
  · intro topic data hp
    rw [hactions, List.mem_append] at hp
    rcases hp with hp | hp
    · exact h.published topic data hp
    · obtain ⟨message,hm,hrelay⟩ := Option.bind_eq_some_iff.mp (Option.mem_toList.mp hp)
      obtain ⟨msg,hspoken,rfl⟩ := h.queued message (List.mem_of_mem_head? hm)
      obtain ⟨-,hdata⟩ := SwarmAction.publish.inj (Option.some.inj hrelay)
      exact ⟨msg,hspoken,hdata.symm⟩
  · rw [hgoes] at ho
    cases ho

/-- A turn in which a party hears only what was promised keeps it sound, and
takes back nothing it published. -/
theorem sound_turn {i : Fin n} {party : Party G1 P A} (h : Sound ids threshold total i party)
    (b : Branch G1 P A)
    (hheard : ∀ data ∈ heard b, ∃ j, j ≠ i ∧ Promises G1 ids threshold total j data) :
    Sound ids threshold total i (party.turn b) ∧
      party.published ⊆ (party.turn b).published := by
  cases hhalted : party.halted with
  | some o =>
    have hsame : party.turn b = party := by rw [Party.turn, hhalted]
    rw [hsame]
    exact ⟨h,List.Subset.refl _⟩
  | none =>
    cases b with
    | recv =>
      refine ⟨sound_recv h hhalted,?_⟩
      rw [Party.published, Party.published, (turn_recv h hhalted).2.2, publications,
        publications, List.filterMap_append]
      exact List.subset_append_left _ _
    | swarm event rng =>
      refine ⟨sound_swarm h hhalted event rng hheard,?_⟩
      obtain ⟨-,-,-,answers,hactions,-⟩ := turn_swarm hhalted event rng
      rw [Party.published, Party.published, hactions, publications, publications,
        List.filterMap_append]
      exact List.subset_append_left _ _

theorem sound_reaches (ids : Fin n → String) (threshold total : Usize) (keys : Fin n → Bytes)
    {s : Fin n → Party G1 P A}
    (h : (assembly n).Reaches
      (fun i => Party.start (assembled (ids i) threshold total (keys i))) s) (i : Fin n) :
    Sound ids threshold total i (s i) :=
  Gossip.reaches_invariant (I := fun i party => Sound ids threshold total i party)
    (G := fun i data => Promises G1 ids threshold total i data)
    (fun i => sound_start ids threshold total (keys i) i)
    (fun _ _ hs data hdata => hs.promise data hdata)
    (fun _ _ b hs hheard => (sound_turn hs b hheard).1) h i

/-- What a party stored, and the vote it stopped at, are in what the others
published. -/
structure Traced (ids : Fin n → String) (threshold total : Usize)
    (published : Fin n → Bytes → Prop) (i : Fin n) (party : Party G1 P A) : Prop where
  stored : ∀ node, party.loop.layer.dkgNode = some node →
    FromDealings ids threshold total published i node
  stopped : ∀ node, party.loop.layer.dkgNode = some node →
    party.halted = some (.blocked .validations) →
    ∃ j k, j ≠ i ∧ k ≠ j ∧ Indexed ids total j ∧
      published j (toVec (GossipsubMessage.dkg
        (.shareValidation (ids j) (ids k) true : DKGMessage G1))) ∧
      node.validations.lookup (ids k) = some [true]

theorem traced_swarm {published : Fin n → Bytes → Prop} {i : Fin n} {party : Party G1 P A}
    (h : Sound ids threshold total i party) (ht : Traced ids threshold total published i party)
    (hrun : party.halted = none) (event : SwarmEvent G1 P A) (rng : Rng)
    (hheard : ∀ data ∈ heard (.swarm event rng : Branch G1 P A),
      ∃ j, j ≠ i ∧ Promises G1 ids threshold total j data ∧ published j data) :
    Traced ids threshold total published i (party.turn (.swarm event rng)) := by
  have hpromised : ∀ data ∈ heard (.swarm event rng : Branch G1 P A),
      ∃ j, j ≠ i ∧ Promises G1 ids threshold total j data := by
    intro data hd
    obtain ⟨j,hj,hp,-⟩ := hheard data hd
    exact ⟨j,hj,hp⟩
  obtain ⟨node,hn,hmember,hvotes⟩ := h.running hrun
  obtain ⟨-,htaken⟩ := input_spoken hpromised
  have hspoken : ∀ msg, dkgInput (.swarm event rng) = some (.message msg) → ∃ j, j ≠ i ∧
      Says ids threshold total j msg ∧ published j (toVec (GossipsubMessage.dkg msg)) := by
    intro msg hm
    obtain ⟨j,hj,hp,hpublished⟩ := hheard _ (htaken msg hm)
    exact ⟨j,hj,promised_spoken hp,hpublished⟩
  have hdkg := turn_dkg hrun hn event rng
  obtain ⟨next,hnext,-,hcounted⟩ := (sound_swarm h hrun event rng hpromised).node
  obtain rfl := Option.some.inj (hnext.symm.trans hdkg)
  refine ⟨fun other ho => ?_,fun other ho hstop => ?_⟩
  · obtain rfl := Option.some.inj (hnext.symm.trans ho)
    cases hi : dkgInput (.swarm event rng) with
    | none => exact ht.stored node hn
    | some input =>
      exact fromDealings_after (ht.stored node hn) hmember
        (fun msg hm => hspoken msg (hi.trans (congrArg some hm)))
  · obtain rfl := Option.some.inj (hnext.symm.trans ho)
    have hmoved := hcounted.mp hstop
    cases hi : dkgInput (.swarm event rng) with
    | none =>
      rw [hi] at hmoved
      exact absurd hvotes hmoved
    | some input =>
      rw [hi] at hmoved
      obtain ⟨fromId,toId,isValid,rfl,hfirst⟩ := first_counted input hvotes hmoved
      obtain ⟨j,hj,⟨_,hd⟩ | ⟨hindexed,k,hk,hvote⟩,hp⟩ := hspoken _ hi
      · cases hd
      obtain ⟨rfl,rfl,rfl⟩ := DKGMessage.shareValidation.inj hvote
      exact ⟨j,k,hj,hk,hindexed,hp,hfirst⟩

theorem traced_turn {published : Fin n → Bytes → Prop} {i : Fin n} {party : Party G1 P A}
    (h : Sound ids threshold total i party) (ht : Traced ids threshold total published i party)
    (b : Branch G1 P A)
    (hheard : ∀ data ∈ heard b,
      ∃ j, j ≠ i ∧ Promises G1 ids threshold total j data ∧ published j data) :
    Traced ids threshold total published i (party.turn b) := by
  cases hhalted : party.halted with
  | some o =>
    have hsame : party.turn b = party := by rw [Party.turn, hhalted]
    rw [hsame]
    exact ht
  | none =>
    cases b with
    | recv =>
      obtain ⟨hgoes,hl,-⟩ := turn_recv h hhalted
      refine ⟨fun node hn => ?_,fun node _ hstop => ?_⟩
      · rw [hl] at hn
        exact ht.stored node hn
      · rw [hgoes] at hstop
        cases hstop
    | swarm event rng => exact traced_swarm h ht hhalted event rng hheard

/-- Every party of a reachable network is traced to what the others have
published by then. -/
theorem traced_reaches {keys : Fin n → Bytes} {s : Fin n → Party G1 P A}
    (h : (assembly n).Reaches
      (fun i => Party.start (assembled (ids i) threshold total (keys i))) s) (i : Fin n) :
    Traced ids threshold total (fun j data => data ∈ (s j).published) i (s i) := by
  refine (Gossip.reaches_given (I := fun published i party => Sound ids threshold total i party ∧
    Traced ids threshold total published i party)
    (G := fun i data => Promises G1 ids threshold total i data) ?_ ?_ ?_ ?_ h i).2
  · intro published i
    refine ⟨sound_start ids threshold total (keys i) i,fun node hn => ?_,fun node _ hstop => ?_⟩
    · obtain rfl := Option.some.inj hn
      intro dealer share hs
      cases hs
    · cases hstop
  · rintro p q i party hpq ⟨hs,ht⟩
    refine ⟨hs,fun node hn dealer share hl => ?_,fun node hn hstop => ?_⟩
    · obtain ⟨j,rng,commitments,hj,hd,hp,hrest⟩ := ht.stored node hn dealer share hl
      exact ⟨j,rng,commitments,hj,hd,hpq j _ hp,hrest⟩
    · obtain ⟨j,k,hj,hk,hindexed,hp,hvote⟩ := ht.stopped node hn hstop
      exact ⟨j,k,hj,hk,hindexed,hpq j _ hp,hvote⟩
  · exact fun published i party hs data hdata => hs.1.promise data hdata
  · rintro published i party b ⟨hs,ht⟩ hheard
    obtain ⟨hnext,hkept⟩ := sound_turn hs b (fun data hd => (hheard data hd).imp
      (fun j hj => ⟨hj.1,hj.2.1⟩))
    exact ⟨⟨hnext,traced_turn hs ht b hheard⟩,hkept⟩

/-- In every state the network reaches, what a node stores under a name is in
a dealing that another node of that name published, and satisfies the
equation. -/
theorem stored_dealt {keys : Fin n → Bytes} {s : Fin n → Party G1 P A}
    (h : (assembly n).Reaches
      (fun i => Party.start (assembled (ids i) threshold total (keys i))) s)
    (i : Fin n) {node : DKGNode G1} (hn : (s i).loop.layer.dkgNode = some node) {dealer : String}
    {share : KeyShare} (hs : node.shares.lookup dealer = some share) :
    ∃ j rng commitments, j ≠ i ∧ ids j = dealer ∧
      toVec (GossipsubMessage.dkg (distribution (.new dealer threshold total : DKGNode G1) rng)) ∈
        (s j).published ∧
      dealing (idParsed (ids i)) (distribution (.new dealer threshold total : DKGNode G1) rng) =
        some ⟨dealer,share,commitments⟩ ∧
      node.commitments.lookup dealer = some commitments ∧ Feldman share commitments := by
  obtain ⟨j,rng,commitments,hj,hd,hp,hdealing,hc⟩ :=
    (traced_reaches h i).stored node hn dealer share hs
  exact ⟨j,rng,commitments,hj,hd,hp,hdealing,hc,honest_feldman hdealing⟩

/-- No loop of the network panics or fails: one that stopped waits for room
in its own full queue, or has counted one vote, which another node published. -/
theorem stops_only {keys : Fin n → Bytes} {s : Fin n → Party G1 P A}
    (h : (assembly n).Reaches
      (fun i => Party.start (assembled (ids i) threshold total (keys i))) s)
    (i : Fin n) : (s i).halted = none ∨
      ((s i).halted = some .pending ∧ 100 ≤ (s i).loop.layer.channel.queue.length) ∨
      ((s i).halted = some (.blocked .validations) ∧ ∃ j k node, j ≠ i ∧ k ≠ j ∧
        Indexed ids total j ∧ toVec (GossipsubMessage.dkg
          (.shareValidation (ids j) (ids k) true : DKGMessage G1)) ∈ (s j).published ∧
        (s i).loop.layer.dkgNode = some node ∧
        node.validations.lookup (ids k) = some [true]) := by
  have hsound := sound_reaches ids threshold total keys h i
  cases hhalted : (s i).halted with
  | none => exact Or.inl rfl
  | some o =>
    rcases hsound.stops o hhalted with ⟨rfl,hq⟩ | ⟨rfl,-⟩
    · exact Or.inr (Or.inl ⟨rfl,hq⟩)
    · obtain ⟨node,hn,-⟩ := hsound.node
      obtain ⟨j,k,hj,hk,hindexed,hp,hvote⟩ := (traced_reaches h i).stopped node hn hhalted
      exact Or.inr (Or.inr ⟨rfl,j,k,node,hj,hk,hindexed,hp,hn,hvote⟩)

/-- In the network that `main` assembles no node ever stores a share, counts
a vote or publishes anything but its own dealings, and its loop stops only
at a full queue. -/
theorem peers_never_store {ids : Fin n → String} (hids : ∀ i, PeerIdText (ids i))
    {keys : Fin n → Bytes} {s : Fin n → Party G1 P A}
    (h : (assembly n).Reaches (fun i => Party.start (assembled (ids i) 3 5 (keys i))) s)
    (i : Fin n) :
    (∃ node, (s i).loop.layer.dkgNode = some node ∧
      (∀ dealer, node.shares.lookup dealer = none ∧ node.commitments.lookup dealer = none) ∧
      node.validations = ∅) ∧
    ((s i).halted = none ∨
      (s i).halted = some .pending ∧ 100 ≤ (s i).loop.layer.channel.queue.length) ∧
    ∀ data ∈ (s i).published, ∃ rng, data = toVec
      (GossipsubMessage.dkg (distribution (.new (ids i) 3 5 : DKGNode G1) rng)) := by
  have hsound := sound_reaches ids 3 5 keys h i
  have hnot := peers_not_indexed hids
  have hrunning : (s i).halted = none ∨
      (s i).halted = some .pending ∧ 100 ≤ (s i).loop.layer.channel.queue.length := by
    cases hhalted : (s i).halted with
    | none => exact Or.inl rfl
    | some o =>
      rcases hsound.stops o hhalted with ⟨rfl,hq⟩ | ⟨-,j,-,hj⟩
      · exact Or.inr ⟨rfl,hq⟩
      · exact absurd hj (hnot j)
  refine ⟨?_,hrunning,?_⟩
  · obtain ⟨node,hn,hmember,hcounted⟩ := hsound.node
    refine ⟨node,hn,fun dealer => ?_,not_not.mp (fun hvotes => ?_)⟩
    · rcases hmember.entries with hi | hnone
      · exact absurd hi (hnot i)
      · exact hnone dealer
    · have hblocked := hcounted.mpr hvotes
      rcases hrunning with hr | ⟨hr,-⟩ <;> simp [hr] at hblocked
  · intro data hdata
    obtain ⟨msg,hspoken | ⟨hi,-⟩,rfl⟩ := hsound.promise data hdata
    · obtain ⟨rng,rfl⟩ := hspoken
      exact ⟨rng,rfl⟩
    · exact absurd hi (hnot i)

end parties

section two
attribute [local instance] compactJson constantBlake3 base16

abbrev SampleParty := Party LogPoint Rpc.PeerId Bytes

def twoIds (i : Fin 2) : String := if i = 0 then "1" else "2"

def twoParties (i : Fin 2) : SampleParty := .start (assembled (twoIds i) 1 2 [])

def startTurn : Branch LogPoint Rpc.PeerId Bytes :=
  .swarm (.request Rpc.ed25519Id .startADKG) (fun _ => 0)

def dealerParty : SampleParty := ((twoParties 0).turn startTurn).turn .recv

def dealtData : Bytes :=
  toVec (GossipsubMessage.dkg (distribution (.new "1" 1 2 : DKGNode LogPoint) (fun _ => 0)))

theorem dealerParty_published : dealtData ∈ dealerParty.published := by
  have hp : dealerParty.loop.actions = [.sendResponse Rpc.ed25519Id (.dkgStarted ⟨Rpc.ed25519Id⟩),
      .publish msgTopicDkg dealtData] := rfl
  rw [Party.published, hp, publications]
  simp [defaultTopics]

def hearTurn : Branch LogPoint Rpc.PeerId Bytes :=
  .swarm (.gossip ⟨some "1",dealtData⟩) (fun _ => 0)

def twoDealt : Fin 2 → SampleParty :=
  Function.update (Function.update twoParties 0 dealerParty) 1 ((twoParties 1).turn hearTurn)

theorem twoDealt_reached : (assembly 2).Reaches twoParties twoDealt := by
  have hstart : (assembly 2).Reaches twoParties
      (Function.update twoParties 0 ((twoParties 0).turn startTurn)) :=
    .step (e := startTurn) .init (fun data hdata => by cases hdata)
  have hdealer : (assembly 2).Reaches twoParties (Function.update twoParties 0 dealerParty) := by
    have hs := Gossip.System.Reaches.step (i := 0) (e := (.recv : Branch LogPoint Rpc.PeerId Bytes))
      hstart (fun data hdata => by cases hdata)
    rwa [Function.update_self, Function.update_idem] at hs
  refine Gossip.System.Reaches.step (i := 1) (e := hearTurn) hdealer ?_
  intro data hdata
  obtain rfl := Option.some.inj hdata
  exact ⟨0,by decide,dealerParty_published⟩

theorem twoDealt_stored : ∃ node share, (twoDealt 1).loop.layer.dkgNode = some node ∧
    node.shares.lookup "1" = some share := by
  have hnode : (twoDealt 1).loop.layer.dkgNode = some ((DKGNode.new "2" 1 2).after
      (.message (distribution (.new "1" 1 2 : DKGNode LogPoint) (fun _ => 0)))) := by
    rw [twoDealt, Function.update_self]
    exact turn_heard rfl rfl (fromSlice_toVec _) _
  have hown : idParsed "2" = 2 := by decide
  have hdealing : dealing (idParsed "2")
      (distribution (.new "1" 1 2 : DKGNode LogPoint) (fun _ => 0)) =
        some (dealt "1" 1 (idParsed "2") (fun _ => 0)) := by
    rw [dealing_distribution, hown]
    exact if_pos (by decide)
  have htaken : (DKGNode.new "2" 1 2).after
      (.message (distribution (.new "1" 1 2 : DKGNode LogPoint) (fun _ => 0))) =
        (DKGNode.new "2" 1 2).accept (dealt "1" 1 (idParsed "2") (fun _ => 0)) := by
    rw [distribution] at hdealing ⊢
    rw [DKGNode.after, DKGNode.take,
      show (DKGNode.new "2" 1 2 : DKGNode LogPoint).id = "2" from rfl, hdealing]
  rw [htaken] at hnode
  exact ⟨_,_,hnode,AList.lookup_insert _⟩

/-- The share is in the dealing that the first node published. -/
theorem twoDealt_dealt : ∃ node share, (twoDealt 1).loop.layer.dkgNode = some node ∧
    node.shares.lookup "1" = some share ∧
    ∃ j rng commitments, j ≠ 1 ∧ twoIds j = "1" ∧
      toVec (GossipsubMessage.dkg (distribution (.new "1" 1 2 : DKGNode LogPoint) rng)) ∈
        (twoDealt j).published ∧
      dealing (idParsed (twoIds 1)) (distribution (.new "1" 1 2 : DKGNode LogPoint) rng) =
        some ⟨"1",share,commitments⟩ ∧
      node.commitments.lookup "1" = some commitments ∧ Feldman share commitments := by
  obtain ⟨node,share,hn,hs⟩ := twoDealt_stored
  exact ⟨node,share,hn,hs,stored_dealt twoDealt_reached 1 hn hs⟩

theorem twoDealt_stops_only : (twoDealt 1).halted = none ∨
    ((twoDealt 1).halted = some .pending ∧ 100 ≤ (twoDealt 1).loop.layer.channel.queue.length) ∨
    ((twoDealt 1).halted = some (.blocked .validations) ∧ ∃ j k node, j ≠ 1 ∧ k ≠ j ∧
      Indexed twoIds 2 j ∧ toVec (GossipsubMessage.dkg
        (.shareValidation (twoIds j) (twoIds k) true : DKGMessage LogPoint)) ∈
          (twoDealt j).published ∧
      (twoDealt 1).loop.layer.dkgNode = some node ∧
      node.validations.lookup (twoIds k) = some [true]) :=
  stops_only twoDealt_reached 1

end two

section peers
attribute [local instance] compactJson constantBlake3 base16

def twoPeers (i : Fin 2) : String := samplePeers ⟨i.val,i.isLt⟩

def peerParties (i : Fin 2) : SampleParty := .start (assembled (twoPeers i) 3 5 [])

theorem twoPeers_never_store : ∃ s, (assembly 2).Reaches peerParties s ∧
    ∀ i, (∃ node, (s i).loop.layer.dkgNode = some node ∧
        (∀ dealer, node.shares.lookup dealer = none ∧ node.commitments.lookup dealer = none) ∧
        node.validations = ∅) ∧
      ((s i).halted = none ∨
        (s i).halted = some .pending ∧ 100 ≤ (s i).loop.layer.channel.queue.length) ∧
      ∀ data ∈ (s i).published, ∃ rng, data = toVec
        (GossipsubMessage.dkg (distribution (.new (twoPeers i) 3 5 : DKGNode LogPoint) rng)) := by
  have hs : (assembly 2).Reaches peerParties
      (Function.update peerParties 0 ((peerParties 0).turn startTurn)) :=
    .step (e := startTurn) .init (fun data hdata => by cases hdata)
  exact ⟨_,hs,peers_never_store (fun i => samplePeers_text ⟨i.val,i.isLt⟩) hs⟩

end peers
end MpcNode.Network
