import MpcNode.LoopNetwork

/-!
# How far the assembled network gets

A node of the protocol has counted a vote exactly if one was delivered to it,
and a loop stops at the first. So the loops take those runs of the protocol
in which no vote is delivered, and no others, and a network in which somebody
deals to an index of a share comes to rest only with a loop stopped.
-/

set_option autoImplicit false

namespace MpcNode.Network
open MpcNode.Bls MpcNode.Guarded MpcNode.Messages MpcNode.Wire MpcNode.Channels MpcNode.Tables
open MpcNode.Dkg MpcNode.Services MpcNode.Broadcast
open MpcNode.Rpc (Encoded RPCRequest RPCResponse)
open scoped List

variable {G1 P A : Type} {n : ℕ}

section protocol
variable [G1Group G1] {ids : Fin n → String} {threshold total : Usize}
variable {bs : List (Action n Rng (DKGMessage G1))} {abs : Net n (DKGNode G1) (DKGMessage G1)}

theorem counted_iff
    (h : (Broadcast.start (nodes ids threshold total)).run (outline n) bs = some abs) (i : Fin n) :
    (abs.node i).validations ≠ ∅ ↔ ∃ msg ∈ handled (history i bs), vote msg ≠ none := by
  constructor
  · intro hv
    by_contra hno
    have hnone : ∀ msg, .message msg ∈ (history i bs).map toInput → vote msg = none := by
      intro msg hm
      by_contra hvote
      refine hno ⟨msg,?_,hvote⟩
      rw [← messages_toInput]
      exact List.mem_filterMap.mpr ⟨_,hm,rfl⟩
    refine hv ?_
    rw [run_node _ h, localState_outline, (inputs_kept hnone _).1]
    rfl
  · rintro ⟨msg,hm,hvote⟩ hv
    obtain ⟨v,hvote⟩ := Option.ne_none_iff_exists'.mp hvote
    have hf : (ledger (idParsed (ids i)) (handled (history i bs))).flags v.1 ≠ [] := by
      have hmem : v ∈ (ledger (idParsed (ids i)) (handled (history i bs))).votes :=
        List.mem_filterMap.mpr ⟨msg,hm,hvote⟩
      rw [Ledger.flags]
      exact List.ne_nil_of_mem (List.mem_map.mpr ⟨v,List.mem_filter.mpr ⟨hmem,by simp⟩,rfl⟩)
    have hl := (network_refines h i).validations v.1
    rw [if_neg hf, hv] at hl
    cases hl

/-- A vote that is delivered answers a dealing to an index of a share. -/
theorem vote_cause
    (h : (Broadcast.start (nodes ids threshold total)).run (outline n) bs = some abs) {i : Fin n}
    {msg : DKGMessage G1} (hm : msg ∈ handled (history i bs)) (hvote : vote msg ≠ none) :
    ∃ s k rng, k ≠ s ∧ Indexed ids total s ∧ rng ∈ commands (history k bs) := by
  obtain ⟨s,hs⟩ := mem_handled.mp hm
  have hsi : s ≠ i := by
    rintro rfl
    rw [run_received_self _ h (fun _ => rfl)] at hs
    cases hs
  have hvoted : msg ∈ (sent (outline n) s (nodes ids threshold total s) (history s bs)).filter
      (fun m => !isDistribution m) := by
    refine List.mem_filter.mpr ⟨run_received_subset _ h hsi hs,?_⟩
    cases msg with
    | shareDistribution fromId shares commitments => exact absurd rfl hvote
    | shareValidation fromId toId isValid => rfl
  rw [sent_votes] at hvoted
  obtain ⟨d,hd,-⟩ := List.mem_map.mp hvoted
  obtain ⟨dealt,hdealt,hd⟩ := List.mem_filterMap.mp hd
  obtain ⟨k,hk⟩ := mem_handled.mp hdealt
  have hdist : isDistribution dealt = true := by
    cases dealt with
    | shareDistribution fromId shares commitments => rfl
    | shareValidation fromId toId isValid => cases hd
  obtain ⟨hks,rng,hrng,rfl⟩ := handled_distribution h hk hdist
  have hspoken : Says ids threshold total k (distribution (nodes ids threshold total k : DKGNode G1)
      rng) := Or.inl ⟨rng,rfl⟩
  exact ⟨s,k,rng,hks,(spoken_dealing hspoken hd).1,hrng⟩

/-- Once everything is delivered, a dealing to an index of a share has been
answered with a vote. -/
theorem vote_effect
    (h : (Broadcast.start (nodes ids threshold total)).run (outline n) bs = some abs)
    (hq : ∀ s r, s ≠ r → abs.flight s r = []) {s k : Fin n} (hks : k ≠ s)
    (hindexed : Indexed ids total s) {rng : Rng} (hrng : rng ∈ commands (history k bs)) :
    ∃ msg ∈ handled (history k bs), vote msg ≠ none := by
  have hdealt := received_distributions h hks (by rw [hq k s hks]; rfl)
  have hm : distribution (nodes ids threshold total k) rng ∈ received k (history s bs) :=
    (List.mem_filter.mp (hdealt.symm.subset (List.mem_map.mpr ⟨rng,hrng,rfl⟩))).1
  have hd : dealing (idParsed (ids s)) (distribution (nodes ids threshold total k : DKGNode G1)
      rng) = some (dealt (ids k) threshold (idParsed (ids s)) rng) :=
    (dealing_distribution _ _ _).trans (if_pos hindexed)
  have hvoted : DKGMessage.shareValidation (ids s) (ids k) true ∈
      (sent (outline n) s (nodes ids threshold total s) (history s bs)).filter
        (fun m => !isDistribution m) := by
    rw [sent_votes]
    exact List.mem_map.mpr ⟨_,List.mem_filterMap.mpr ⟨_,mem_handled.mpr ⟨k,hm⟩,hd⟩,rfl⟩
  have hp := run_received_perm _ h (Ne.symm hks) (fun m => !isDistribution m)
    (by rw [hq s k (Ne.symm hks)]; rfl)
  have hr := (List.mem_filter.mp (hp.symm.subset hvoted)).1
  exact ⟨_,mem_handled.mpr ⟨s,hr⟩,by simp [vote]⟩

end protocol

section loops
variable [G1Group G1] [SerdeJson] {ids : Fin n → String} {threshold total : Usize}

theorem action_command {a : Action n (Own G1 P A) Bytes} {k : Fin n} {rng : Rng} :
    (reading.action a : Option (Action n Rng (DKGMessage G1))) = some (k,.command rng) ↔
      ∃ b : Own G1 P A, a = (k,.command b) ∧ started b.1 = some rng := by
  obtain ⟨i,b | ⟨s,data⟩⟩ := a
  · simp only [Reading.action, Reading.event, reading, Option.map_map, Option.map_eq_some_iff,
      Function.comp_apply, Prod.mk.injEq, Event.command.injEq]
    constructor
    · rintro ⟨rng',hb,rfl,rfl⟩
      exact ⟨b,⟨rfl,rfl⟩,hb⟩
    · rintro ⟨b',⟨rfl,rfl⟩,hb⟩
      exact ⟨rng,hb,rfl,rfl⟩
  · simp [Reading.action, Reading.event, reading]

variable [Blake3] [DecidableEq P] [Encoded P] [Hex]
variable {keys : Fin n → Bytes} {origin : Fin n → Option String}
variable {as : List (Action n (Own G1 P A) Bytes)} {net : Net n (Party G1 P A) Bytes}

/-- When nothing is in flight and the loops that still run have nothing
queued, some loop has stopped if and only if one waits for room in its full
queue, or some node was asked to deal while another's id is an index of a
share. -/
theorem stops_iff (h : (Broadcast.start (parties ids threshold total keys)).run
      (fabric origin) as = some net) (hquiet : net.Quiet)
    (hdrained : ∀ i, (net.node i).halted = none →
      (net.node i).loop.layer.channel.queue = []) :
    (∃ i, (net.node i).halted ≠ none) ↔
      (∃ i, (net.node i).halted = some .pending) ∨ ∃ k s, k ≠ s ∧ Indexed ids total s ∧
        ∃ (b : Own G1 P A) (rng : Rng), (k,.command b) ∈ as ∧ started b.1 = some rng := by
  obtain ⟨abs,hb,hshows⟩ := fabric_shows h
  have hnode := hshows.stands
  have hsound := (fabric_sound h).1
  constructor
  · rintro ⟨i,hi⟩
    obtain ⟨o,ho⟩ := Option.ne_none_iff_exists'.mp hi
    rcases (hsound i).stops o ho with ⟨rfl,-⟩ | ⟨rfl,-⟩
    · exact Or.inl ⟨i,ho⟩
    · obtain ⟨node,hn,-,hcounted⟩ := (hsound i).node
      obtain rfl := Option.some.inj (hn.symm.trans (hnode i))
      obtain ⟨msg,hm,hvote⟩ := (counted_iff hb i).mp (hcounted.mp ho)
      obtain ⟨s,k,rng,hks,hindexed,hrng⟩ := vote_cause hb hm hvote
      obtain ⟨a,ha,haction⟩ := List.mem_filterMap.mp
        ((Reading.trace_sublist _ as).subset (mem_history.mp (mem_commands.mp hrng)))
      obtain ⟨b,rfl,hstarted⟩ := action_command.mp haction
      exact Or.inr ⟨k,s,hks,hindexed,b,rng,ha,hstarted⟩
  · rintro (⟨i,hi⟩ | ⟨k,s,hks,hindexed,b,rng,ha,hstarted⟩)
    · exact ⟨i,by rw [hi]; exact Option.some_ne_none _⟩
    · by_contra hno
      have hrun : ∀ i, (net.node i).halted = none := fun i => not_not.mp (not_exists.mp hno i)
      rw [trace_running h hrun] at hb
      have hq : ∀ s r, s ≠ r → abs.flight s r = [] := by
        intro s r hne
        have hp := carried_running hshows hrun hne
        rw [hquiet, hdrained s (hrun s)] at hp
        exact hp.symm.eq_nil
      have hrng : rng ∈ commands (history k (as.filterMap reading.action)) := by
        rw [mem_commands, mem_history]
        exact List.mem_filterMap.mpr ⟨_,ha,action_command.mpr ⟨b,rfl,hstarted⟩⟩
      obtain ⟨node,hn,-,hvotes⟩ := (hsound k).running (hrun k)
      obtain rfl := Option.some.inj (hn.symm.trans (hnode k))
      exact (counted_iff hb k).mpr (vote_effect hb hq hks hindexed hrng) hvotes

theorem shown_quiet {abs : Net n (DKGNode G1) (DKGMessage G1)}
    (h : (Broadcast.start (parties ids threshold total keys)).run (fabric origin) as = some net)
    (hshows : reading.Shows net abs) (hq : abs.Quiet) : net.Quiet := by
  intro s r
  refine List.eq_nil_iff_forall_not_mem.mpr (fun data hdata => ?_)
  obtain ⟨hne,msg,-,hpayload⟩ := (fabric_sound h).2 s r data hdata
  obtain ⟨lost,hp,-⟩ := hshows.carries s r hne
  rw [hq] at hp
  have hnone := List.append_eq_nil_iff.mp (List.append_eq_nil_iff.mp hp.eq_nil).1
  have hmem : msg ∈ (net.flight s r).filterMap decoded :=
    List.mem_filterMap.mpr ⟨data,hdata,by rw [hpayload, decoded, fromSlice_toVec]⟩
  rw [show (net.flight s r).filterMap decoded = [] from hnone.1] at hmem
  cases hmem

theorem turn_vote {i : Fin n} {party : Party G1 P A} (h : Sound ids threshold total i party)
    (hrun : party.halted = none) {data : Bytes} {fromId toId : String} {isValid : Bool}
    (hd : decoded data = some (.shareValidation fromId toId isValid : DKGMessage G1))
    (source : Fin n → Option String) (s : Fin n) :
    (party.turn (branch source (.message s data))).loop.layer.channel =
      party.loop.layer.channel := by
  obtain ⟨node,hn,-,-⟩ := h.running hrun
  obtain ⟨-,hchannel,-⟩ := turn_swarm hrun (.gossip ⟨source s,data⟩) (fun _ => 0)
  have hi := event_input source (.message s data : Event n (Own G1 P A) Bytes)
  change ((decoded data).map (Event.message s)).map toInput = _ at hi
  rw [hd] at hi
  rw [output_dkg hn h.signing] at hchannel
  rw [branch] at hi ⊢
  rw [← hi] at hchannel
  exact hchannel

/-- A network at rest: all loops run and no queue holds anything. -/
structure Rests (ids : Fin n → String) (threshold total : Usize) (keys : Fin n → Bytes)
    (origin : Fin n → Option String) (abs : Net n (DKGNode G1) (DKGMessage G1))
    (net : Net n (Party G1 P A) Bytes) : Prop where
  reached : ∃ as, (Broadcast.start (parties ids threshold total keys)).run (fabric origin) as =
    some net
  shows : reading.Shows net abs
  running : ∀ i, (net.node i).halted = none
  drained : ∀ i, (net.node i).loop.layer.channel.queue = []
  self : ∀ i, abs.flight i i = []

theorem turn_goes {i : Fin n} {party : Party G1 P A} (h : Sound ids threshold total i party)
    (hrun : party.halted = none) (hempty : party.loop.layer.channel.queue = [])
    {b : Branch G1 P A} {input : Input G1} (hi : dkgInput b = some input)
    (hvote : ∀ msg, input = .message msg → vote msg = none) :
    (party.turn b).halted = none ∧ (party.turn b).loop.layer.channel.queue.length ≤ 1 := by
  cases b with
  | recv => cases hi
  | swarm event rng =>
    obtain ⟨node,hn,-,-⟩ := h.running hrun
    obtain ⟨hhalted,hchannel,-⟩ := turn_swarm hrun event rng
    have hgossip : ∀ message, event = .gossip message → ∃ msg : DKGMessage G1,
        fromSlice (GossipsubMessage G1) message.data = some (.dkg msg) := by
      rintro message rfl
      simp only [dkgInput] at hi
      split at hi
      · rename_i msg hm
        exact ⟨msg,hm⟩
      · cases hi
    have hidle : idleFor .waiting party.loop.layer event = .ok () := by
      rw [idle_dkg hn hgossip rng, hi]
      rcases input with rng | ⟨fromId,shares,commitments⟩ | ⟨fromId,toId,isValid⟩
      · rfl
      · rfl
      · exact absurd (hvote _ rfl) (by simp [vote])
    rw [hidle] at hhalted hchannel
    obtain ⟨-,-,⟨hgoes,hq⟩ | ⟨-,-,hfull⟩⟩ :=
      sendOr_open h.isOpen (party.loop.layer.nodes.output rng event)
    · refine ⟨hhalted.trans hgoes,?_⟩
      rw [hchannel, hq, hempty, List.nil_append]
      exact Option.length_toList_le
    · rw [hempty, h.capacity] at hfull
      exact absurd hfull (by decide)

variable {abs : Net n (DKGNode G1) (DKGMessage G1)}

theorem fabric_node {a : Action n (Own G1 P A) Bytes} {next : Net n (Party G1 P A) Bytes}
    (hs : net.step (fabric origin) a = some next) :
    next.node = Function.update net.node a.1 ((net.node a.1).turn (branch origin a.2)) :=
  step_node _ hs

theorem rests_flushed {i : Fin n}
    (h : (Broadcast.start (parties ids threshold total keys)).run (fabric origin) as = some net)
    (hshows : reading.Shows net abs) (hrun : ∀ j, (net.node j).halted = none)
    (hothers : ∀ j, j ≠ i → (net.node j).loop.layer.channel.queue = [])
    (hone : (net.node i).loop.layer.channel.queue.length ≤ 1) (hself : ∀ j, abs.flight j j = []) :
    ∃ as' net', net.run (fabric origin) as' = some net' ∧ as'.filterMap reading.action =
        ([] : List (Action n Rng (DKGMessage G1))) ∧
      Rests ids threshold total keys origin abs net' := by
  by_cases hempty : (net.node i).loop.layer.channel.queue = []
  · refine ⟨[],net,rfl,rfl,⟨as,h⟩,hshows,hrun,fun j => ?_,hself⟩
    by_cases hj : j = i
    · rw [hj, hempty]
    · exact hothers j hj
  · let a : Action n (Own G1 P A) Bytes := (i,.command ⟨.recv,heard_recv⟩)
    obtain ⟨next,hs⟩ : ∃ next, net.step (fabric origin) a = some next := ⟨_,rfl⟩
    obtain ⟨abs',ha,hnext⟩ := Reading.step_shows (reading_drowsy origin) hshows
      (fabric_matched h a (hshows.stands i)) hs
    rw [Reading.heeded_awake (Option.isNone_iff_eq_none.mpr (hrun i))] at ha
    obtain rfl : abs = abs' := Option.some.inj ha
    obtain ⟨hgoes,hlayer,-⟩ := turn_recv ((fabric_sound h).1 i) (hrun i)
    refine ⟨[a],next,by simp [Net.run, hs],rfl,⟨_,run_snoc _ h hs⟩,hnext,fun j => ?_,
      fun j => ?_,hself⟩
    · rw [fabric_node hs]
      by_cases hj : j = i
      · subst hj
        rw [Function.update_self]
        exact hgoes
      · rw [Function.update_of_ne hj]
        exact hrun j
    · rw [fabric_node hs]
      by_cases hj : j = i
      · subst hj
        rw [Function.update_self]
        change ((net.node j).turn .recv).loop.layer.channel.queue = []
        rw [hlayer]
        exact List.eq_nil_of_length_eq_zero (by simp [Channel.recv]; omega)
      · rw [Function.update_of_ne hj]
        exact hothers j hj

theorem rests_action {a : Action n (Own G1 P A) Bytes} {b : Action n Rng (DKGMessage G1)}
    {next : Net n (Party G1 P A) Bytes} {abs' : Net n (DKGNode G1) (DKGMessage G1)}
    (hr : Rests ids threshold total keys origin abs net)
    (hs : net.step (fabric origin) a = some next) (ha : reading.action a = some b)
    (hb : abs.step (outline n) b = some abs')
    (hvote : ∀ s msg, b.2 = .message s msg → vote msg = none) :
    ∃ as net', net.run (fabric origin) as = some net' ∧ as.filterMap reading.action = [b] ∧
      Rests ids threshold total keys origin abs' net' := by
  obtain ⟨as,h⟩ := hr.reached
  obtain ⟨absNext,hq,hnext⟩ := Reading.step_shows (reading_drowsy origin) hr.shows
    (fabric_matched h a (hr.shows.stands a.1)) hs
  rw [Reading.heeded_awake (Option.isNone_iff_eq_none.mpr (hr.running a.1)), ha,
    Option.toList_some, Net.run, hb, Option.bind_some, Net.run] at hq
  obtain rfl : abs' = absNext := Option.some.inj hq
  obtain ⟨e,he,rfl⟩ := Option.map_eq_some_iff.mp ha
  have hi := event_input origin a.2
  rw [he, Option.map_some] at hi
  obtain ⟨hgoes,hone⟩ := turn_goes ((fabric_sound h).1 a.1) (hr.running a.1) (hr.drained a.1)
    hi.symm (fun msg hmsg => by
      cases e with
      | command rng => cases hmsg
      | message s m =>
        obtain rfl := Input.message.inj hmsg
        exact hvote s m rfl)
  have hnode := fabric_node hs
  have hsame : ∀ j, j ≠ a.1 → next.node j = net.node j := by
    intro j hj
    rw [hnode, Function.update_of_ne hj]
  have hself : next.node a.1 = (net.node a.1).turn (branch origin a.2) := by
    rw [hnode, Function.update_self]
  have hrunning : ∀ j, (next.node j).halted = none := by
    intro j
    by_cases hj : j = a.1
    · subst hj
      rw [hself]
      exact hgoes
    · rw [hsame j hj]
      exact hr.running j
  obtain ⟨as',net',hrun,hnone,hrests⟩ := rests_flushed (i := a.1) (run_snoc _ h hs) hnext
    hrunning (fun j hj => by rw [hsame j hj]; exact hr.drained j) (by rw [hself]; exact hone)
    (step_self _ hb hr.self)
  refine ⟨a::as',net',?_,?_,hrests⟩
  · rw [Net.run, hs, Option.bind_some]
    exact hrun
  · rw [Reading.filterMap_action_cons, ha, hnone]
    rfl

theorem rests_carried (hr : Rests ids threshold total keys origin abs net) {s i : Fin n}
    {msg : DKGMessage G1} (hm : msg ∈ abs.flight s i) :
    ∃ data ∈ net.flight s i, decoded data = some msg := by
  have hne : s ≠ i := by
    rintro rfl
    rw [hr.self] at hm
    cases hm
  have hp := carried_running hr.shows hr.running hne
  rw [hr.drained s] at hp
  exact List.mem_filterMap.mp (by simpa [gossiped] using hp.symm.subset hm)

/-- A network at rest can take any action of the protocol that delivers no vote. -/
theorem rests_step (peer : P) {b : Action n Rng (DKGMessage G1)}
    {abs' : Net n (DKGNode G1) (DKGMessage G1)}
    (hr : Rests ids threshold total keys origin abs net)
    (hvote : ∀ s msg, b.2 = .message s msg → vote msg = none)
    (hb : abs.step (outline n) b = some abs') :
    ∃ as net', net.run (fabric origin) as = some net' ∧ as.filterMap reading.action = [b] ∧
      Rests ids threshold total keys origin abs' net' := by
  obtain ⟨i,rng | ⟨s,msg⟩⟩ := b
  · let a : Action n (Own G1 P A) Bytes :=
      (i,.command ⟨.swarm (.request peer .startADKG) rng,rfl⟩)
    exact rests_action (a := a) hr rfl rfl hb hvote
  · obtain ⟨c,hc,-⟩ | ⟨s',msg',he,hm,-⟩ := step_cases _ hb
    · cases hc
    · obtain ⟨rfl,rfl⟩ := Event.message.inj he
      obtain ⟨data,hdata,hmsg⟩ := rests_carried hr hm
      obtain ⟨next,hs⟩ := step_delivers (fabric origin) hdata
      exact rests_action hr hs (Reading.action_message hmsg s i) hb hvote

theorem rests_run (peer : P) (keys : Fin n → Bytes) (origin : Fin n → Option String)
    {bs : List (Action n Rng (DKGMessage G1))}
    (hb : (Broadcast.start (nodes ids threshold total)).run (outline n) bs = some abs)
    (hvote : ∀ i msg, msg ∈ handled (history i bs) → vote msg = none) :
    ∃ as, ∃ net : Net n (Party G1 P A) Bytes,
      (Broadcast.start (parties ids threshold total keys)).run (fabric origin) as = some net ∧
        as.filterMap reading.action = bs ∧ Rests ids threshold total keys origin abs net := by
  have hstep : ∀ abs (net : Net n (Party G1 P A) Bytes) (b : Action n Rng (DKGMessage G1)) abs',
      Rests ids threshold total keys origin abs net →
        (∀ s msg, b.2 = .message s msg → vote msg = none) →
        abs.step (outline n) b = some abs' → ∃ as net', net.run (fabric origin) as = some net' ∧
          as.filterMap reading.action = [b] ∧ Rests ids threshold total keys origin abs' net' :=
    fun abs net b abs' hr hsilent hs => rests_step peer hr hsilent hs
  have hsilent : ∀ b ∈ bs, ∀ s msg, b.2 = .message s msg → vote msg = none := by
    intro b hmem s msg hmsg
    refine hvote b.1 msg (message_handled (s := s) (mem_history.mpr ?_))
    rw [← hmsg]
    exact hmem
  have hrests : Rests ids threshold total keys origin
      (Broadcast.start (nodes ids threshold total))
      (Broadcast.start (parties ids threshold total keys) : Net n (Party G1 P A) Bytes) :=
    ⟨⟨[],rfl⟩,parties_shown ids threshold total keys,fun _ => rfl,fun _ => rfl,fun _ => rfl⟩
  exact Reading.run_realised hstep hrests hsilent hb

/-- The loops that do not stop take exactly the runs of the protocol that
deliver no vote. -/
theorem realised_iff (peer : P) (ids : Fin n → String) (threshold total : Usize)
    (keys : Fin n → Bytes) (origin : Fin n → Option String)
    (bs : List (Action n Rng (DKGMessage G1))) :
    (∃ as, ∃ net : Net n (Party G1 P A) Bytes,
      (Broadcast.start (parties ids threshold total keys)).run (fabric origin) as = some net ∧
        (∀ i, (net.node i).halted = none) ∧ as.filterMap reading.action = bs) ↔
    (∃ abs, (Broadcast.start (nodes ids threshold total)).run (outline n) bs = some abs) ∧
      ∀ i msg, msg ∈ handled (history i bs) → vote msg = none := by
  constructor
  · rintro ⟨as,net,h,hrun,rfl⟩
    obtain ⟨abs,hb,hshows⟩ := fabric_shows h
    rw [trace_running h hrun] at hb
    refine ⟨⟨abs,hb⟩,fun i msg hm => ?_⟩
    by_contra hvote
    obtain ⟨node,hn,-,hvotes⟩ := ((fabric_sound h).1 i).running (hrun i)
    obtain rfl := Option.some.inj (hn.symm.trans (hshows.stands i))
    exact (counted_iff hb i).mpr ⟨msg,hm,hvote⟩ hvotes
  · rintro ⟨⟨abs,hb⟩,hvote⟩
    obtain ⟨as,net,h,ha,hr⟩ := rests_run peer keys origin hb hvote
    exact ⟨as,net,h,hr.running,ha⟩

end loops

section two
attribute [local instance] compactJson constantBlake3 base16

def dealtActions : List (Action 2 Rng (DKGMessage LogPoint)) :=
  [(theDealer,.command (fun _ => 0)),(theVoter,.message theDealer
    (distribution (nodes twoIds 1 2 theDealer : DKGNode LogPoint) (fun _ => 0)))]

def theVote : DKGMessage LogPoint := .shareValidation "2" "1" true

def votedAction : Action 2 Rng (DKGMessage LogPoint) := (theDealer,.message theVoter theVote)

theorem dealt_found : ∃ abs, (Broadcast.start (nodes twoIds 1 2)).run (outline 2) dealtActions =
    some abs ∧ theVote ∈ abs.flight theVoter theDealer ∧
      (abs.step (outline 2) votedAction).any (fun last => decide last.Quiet) = true :=
  run_found _ (by decide +kernel)

theorem vote_stops : ∃ as, ∃ net : Net 2 SampleParty Bytes,
    (Broadcast.start (parties twoIds 1 2 (fun _ => []))).run (fabric (fun _ => none)) as =
      some net ∧ net.Quiet ∧ ∃ i, (net.node i).halted ≠ none := by
  obtain ⟨abs,hb,hm,hlast⟩ := dealt_found
  obtain ⟨last,hs,hq⟩ := (Option.any_eq_true _ _).mp hlast
  obtain ⟨as,net,h,ha,hr⟩ := rests_run (A := Bytes) Rpc.ed25519Id (fun _ => []) (fun _ => none) hb
    (by decide)
  obtain ⟨data,hdata,hmsg⟩ := rests_carried hr hm
  obtain ⟨next,hnext⟩ := step_delivers (fabric (fun _ => none)) hdata
  obtain ⟨abs',habs,hshows⟩ := Reading.step_shows (reading_drowsy _) hr.shows
    (fabric_matched h (theDealer,.message theVoter data) (hr.shows.stands theDealer)) hnext
  rw [Reading.heeded_awake (Option.isNone_iff_eq_none.mpr (hr.running theDealer)),
    Reading.action_message hmsg, Option.toList_some, Net.run,
    show abs.step (outline 2) (theDealer,.message theVoter theVote) = some last from hs,
    Option.bind_some, Net.run] at habs
  obtain rfl : last = abs' := Option.some.inj habs
  have hrun := run_snoc _ h hnext
  have hquiet := shown_quiet hrun hshows (of_decide_eq_true hq)
  have hdrained : ∀ i, (next.node i).halted = none →
      (next.node i).loop.layer.channel.queue = [] := by
    intro i _
    rw [fabric_node hnext]
    by_cases hi : i = theDealer
    · subst hi
      rw [Function.update_self]
      have hsame := turn_vote ((fabric_sound h).1 theDealer)
        (hr.running theDealer) hmsg (fun _ => none) theVoter
      exact (congrArg Channel.queue hsame).trans (hr.drained theDealer)
    · rw [Function.update_of_ne hi]
      exact hr.drained i
  have hmem : ((theDealer,.command (fun _ => 0)) : Action 2 Rng (DKGMessage LogPoint)) ∈
      as.filterMap reading.action := by
    rw [ha]
    exact List.mem_cons_self ..
  obtain ⟨a,hin,hact⟩ := List.mem_filterMap.mp hmem
  obtain ⟨b,rfl,hstarted⟩ := action_command.mp hact
  exact ⟨_,next,hrun,hquiet,(stops_iff hrun hquiet hdrained).mpr
    (Or.inr ⟨theDealer,theVoter,by decide,⟨by decide,by decide⟩,b,_,
      List.mem_append_left _ hin,hstarted⟩)⟩

end two
end MpcNode.Network
