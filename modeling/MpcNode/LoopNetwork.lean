import MpcNode.AssemblySafety
import MpcNode.Library.Simulation

/-!
# The assembled network refines the key generation protocol

Over a gossip that neither loses nor repeats, the event loops are a broadcast
network of their own, whose messages are payloads. A loop stands for its key
generation node, and what its queue holds is still to be sent. The network
refines the protocol of the nodes, and loses to it only what a stopped loop
no longer hears or says.
-/

set_option autoImplicit false

namespace MpcNode.Network
open MpcNode.Bls MpcNode.Guarded MpcNode.Messages MpcNode.Wire MpcNode.Channels MpcNode.Tables
open MpcNode.Dkg MpcNode.Services MpcNode.Broadcast
open MpcNode.Rpc (Encoded RPCRequest RPCResponse)
open MpcNode.Guarded.Handler (bind_ok)
open scoped List

variable {G1 P A : Type} {n : ℕ}

/-- A branch that the gossip does not bring. -/
abbrev Own (G1 P A : Type) := { b : Branch G1 P A // heard b = none }

theorem heard_recv : heard (.recv : Branch G1 P A) = none := rfl

/-- The branch of an event. A payload comes with its origin. -/
def branch (origin : Fin n → Option String) : Event n (Own G1 P A) Bytes → Branch G1 P A
  | .command b => b.1
  | .message s data => .swarm (.gossip ⟨origin s,data⟩) (fun _ => 0)

theorem heard_branch {origin : Fin n → Option String} {e : Event n (Own G1 P A) Bytes}
    {data : Bytes} (h : data ∈ heard (branch origin e)) : ∃ s, e = .message s data := by
  cases e with
  | command b =>
    rw [branch, b.2] at h
    cases h
  | message s data' =>
    obtain rfl := Option.some.inj h
    exact ⟨s,rfl⟩

theorem publications_append (actions actions' : List (SwarmAction G1 P A)) :
    publications (actions ++ actions') = publications actions ++ publications actions' :=
  List.filterMap_append

section network
variable [G1Group G1]

theorem sendOr_queue {channel : Channel} (ho : channel.Open) (out : Option ChannelMessage)
    (idle : Outcome Lock Error Unit) :
    (sendOr out idle channel).2.queue = channel.queue ++ out.toList ∨
      ((sendOr out idle channel).2.queue = channel.queue ∧
        halt (sendOr out idle channel).1 = some .pending) := by
  cases out with
  | none => exact Or.inl (List.append_nil _).symm
  | some message =>
    by_cases hr : channel.Room
    · rw [sendOr, channel_send_room ho hr]
      exact Or.inl rfl
    · rw [sendOr, channel_send_full ho hr]
      exact Or.inr ⟨rfl,rfl⟩

variable [SerdeJson]

theorem gossiped_append (queue queue' : List ChannelMessage) :
    (gossiped (queue ++ queue') : List (DKGMessage G1)) = gossiped queue ++ gossiped queue' :=
  List.filterMap_append

theorem gossiped_outputs (node : DKGNode G1) (input : Option (Input G1)) :
    gossiped (input.bind (fun i => (outputs node i).head?.map dkgPayload)).toList =
      input.toList.flatMap (outputs node) := by
  rcases input with _ | rng | msg
  · rfl
  · exact gossiped_payload _
  · simp only [Option.bind_some, Option.toList_some, List.flatMap_cons, List.flatMap_nil,
      List.append_nil, outputs, reply]
    cases dealing (idParsed node.id) msg with
    | none => rfl
    | some d => exact gossiped_payload _

/-- What a payload is to a key generation node. -/
def decoded (data : Bytes) : Option (DKGMessage G1) :=
  match fromSlice (GossipsubMessage G1) data with
  | some (.dkg msg) => some msg
  | _ => none

def started : Branch G1 P A → Option Rng
  | .swarm (.request _ .startADKG) rng => some rng
  | _ => none

/-- A loop stands for its key generation node. -/
def reading : Reading (Party G1 P A) (DKGNode G1) (Own G1 P A) Rng Bytes (DKGMessage G1) where
  Stands party node := party.loop.layer.dkgNode = some node
  waiting party := gossiped party.loop.layer.channel.queue
  awake party := party.halted.isNone
  command b := started b.1
  message := decoded

theorem event_input (origin : Fin n → Option String) (e : Event n (Own G1 P A) Bytes) :
    (reading.event e).map toInput = dkgInput (branch origin e) := by
  cases e with
  | command b =>
    obtain ⟨b,hb⟩ := b
    cases b with
    | recv => rfl
    | swarm event rng =>
      cases event with
      | request peer request => cases request <;> rfl
      | gossip message => cases hb
      | _ => rfl
  | message s data =>
    simp only [Reading.event, reading, decoded, branch, dkgInput]
    rcases fromSlice (GossipsubMessage G1) data with _ | msg | msg | cmd | msg <;> rfl

/-- What a running loop makes of an event as a node. -/
theorem outcome_input (origin : Fin n → Option String) (i : Fin n) {party : Party G1 P A}
    (h : party.halted = none) (node : DKGNode G1) (e : Event n (Own G1 P A) Bytes) :
    reading.outcome (outline n) i party node e =
      ((dkgInput (branch origin e)).toList.foldl DKGNode.after node,
        (dkgInput (branch origin e)).toList.flatMap (outputs node)) := by
  rw [Reading.outcome, Reading.meant_awake (Option.isNone_iff_eq_none.mpr h),
    ← event_input origin e]
  cases reading.event e with
  | none => rfl
  | some e' => simp [outline]

/-- What is published for the front of the queue is decoded as that. -/
theorem decoded_relay [Encoded P] [Hex] (msg : DKGMessage G1) :
    (publications (relay (dkgPayload msg) : Option (SwarmAction G1 P A)).toList).filterMap decoded =
      (gossiped [dkgPayload msg] : List (DKGMessage G1)) := by
  rw [gossiped_payload]
  simp [relay, dkgPayload, publications, defaultTopics, decoded]

def parties (ids : Fin n → String) (threshold total : Usize) (keys : Fin n → Bytes) (i : Fin n) :
    Party G1 P A := .start (assembled (ids i) threshold total (keys i))

theorem parties_shown (ids : Fin n → String) (threshold total : Usize) (keys : Fin n → Bytes) :
    (reading : Reading (Party G1 P A) (DKGNode G1) (Own G1 P A) Rng Bytes (DKGMessage G1)).Shows
      (Broadcast.start (parties ids threshold total keys))
      (Broadcast.start (nodes ids threshold total)) :=
  ⟨fun _ => rfl,fun _ _ _ => ⟨[],List.Perm.refl _,fun _ => rfl⟩,fun _ => rfl⟩

theorem carried_running {net : Net n (Party G1 P A) Bytes}
    {abs : Net n (DKGNode G1) (DKGMessage G1)} (h : reading.Shows net abs)
    (hrun : ∀ i, (net.node i).halted = none) {s r : Fin n} (hne : s ≠ r) :
    (net.flight s r).filterMap decoded ++ gossiped (net.node s).loop.layer.channel.queue ~
      abs.flight s r := by
  obtain ⟨lost,hp,hlost⟩ := h.carries s r hne
  rwa [hlost (fun i => Option.isNone_iff_eq_none.mpr (hrun i)), List.append_nil] at hp

theorem recv_actions [Blake3] [DecidableEq P] [Encoded P] [Hex] (env : Env Lock)
    (loop : Loop G1 P A) : ∃ more, (loopStep .recv env loop).2.actions = loop.actions ++ more := by
  have hnone : ∀ actions : List (SwarmAction G1 P A), actions = loop.actions →
      ∃ more, actions = loop.actions ++ more := fun _ ha => ⟨[],by rw [ha, List.append_nil]⟩
  have hr : recv env loop = (.ok loop.layer.channel.recv.1,
      { loop with layer := { loop.layer with channel := loop.layer.channel.recv.2 } }) := rfl
  rw [loopStep, bind_ok hr]
  rcases loop.layer.channel.recv.1 with _ | ⟨topic,data⟩ | ⟨peerId,data⟩
  · exact hnone _ rfl
  · exact ⟨_,rfl⟩
  · simp only [handleChannelMessage]
    cases Hex.decode peerId with
    | error text => exact hnone _ rfl
    | ok bytes =>
      dsimp only
      cases (Encoded.fromBytes bytes : Except String P) with
      | error text => exact hnone _ rfl
      | ok peer => exact ⟨_,rfl⟩

variable [Blake3] [DecidableEq P] [Encoded P] [Hex]

/-- What is new among the publications goes to all others. -/
def fabric (origin : Fin n → Option String) :
    Protocol n (Party G1 P A) (Own G1 P A) Bytes where
  react _ party e :=
    let next := party.turn (branch origin e)
    (next,next.published.drop party.published.length)

theorem turn_halted {party : Party G1 P A} (h : party.halted ≠ none) (b : Branch G1 P A) :
    party.turn b = party := by
  obtain ⟨o,ho⟩ := Option.ne_none_iff_exists'.mp h
  rw [Party.turn, ho]

theorem reading_drowsy (origin : Fin n → Option String) :
    reading.Drowsy (fabric origin : Protocol n (Party G1 P A) (Own G1 P A) Bytes) := by
  intro i party e h
  by_contra hs
  have hhalted : party.halted ≠ none := fun hn => hs (Option.isNone_iff_eq_none.mpr hn)
  dsimp only [fabric] at h
  rw [turn_halted hhalted] at h
  exact hs h

variable {ids : Fin n → String} {threshold total : Usize}

/-- What a turn has to leave for it to be what its event means. -/
theorem matched_turn {origin : Fin n → Option String} {i : Fin n} {party : Party G1 P A}
    {e : Event n (Own G1 P A) Bytes} {b : Branch G1 P A} (he : branch origin e = b)
    {node : DKGNode G1} {out : DKGNode G1 × List (DKGMessage G1)}
    (ho : reading.outcome (outline n) i party node e = out) {published : List Bytes}
    {lost : List (DKGMessage G1)} (hn : (party.turn b).loop.layer.dkgNode = some out.1)
    (hp : (party.turn b).published = party.published ++ published)
    (hs : published.filterMap decoded ++ gossiped (party.turn b).loop.layer.channel.queue ++ lost ~
      gossiped party.loop.layer.channel.queue ++ out.2)
    (hl : (party.turn b).halted = none → lost = []) :
    reading.Matched (fabric origin) (outline n) i party node e := by
  subst he ho
  refine ⟨hn,lost,?_,fun h => hl (Option.isNone_iff_eq_none.mp h)⟩
  change ((party.turn (branch origin e)).published.drop party.published.length).filterMap
    decoded ++ _ ++ lost ~ _
  rw [hp, List.drop_left]
  exact hs

/-- An event of the swarm is to the node what it means, and what the node
sends waits in the queue, if the loop goes on. -/
theorem matched_swarm (origin : Fin n → Option String) {i : Fin n} {party : Party G1 P A}
    (h : Sound ids threshold total i party) (hrun : party.halted = none)
    {e : Event n (Own G1 P A) Bytes} {event : SwarmEvent G1 P A} {rng : Rng}
    (he : branch origin e = .swarm event rng) {node : DKGNode G1}
    (hn : party.loop.layer.dkgNode = some node) :
    reading.Matched (fabric origin) (outline n) i party node e := by
  obtain ⟨hhalted,hchannel,hnodes,answers,hactions,hanswers⟩ := turn_swarm hrun event rng
  have hmapped : party.loop.layer.nodes.dkg = some node := hn
  have hdkg := congrArg Nodes.dkg hnodes
  rw [turned_dkg, hmapped, Option.map_some] at hdkg
  rw [output_dkg hmapped h.signing rng event] at hhalted hchannel
  have hpublished : (party.turn (.swarm event rng)).published = party.published ++ [] := by
    have hnone : publications answers = [] := by
      rw [publications, List.filterMap_eq_nil_iff]
      intro action ha
      cases action with
      | publish topic data => exact absurd (hanswers _ ha) (by simp [SwarmAction.isRelayed])
      | _ => rfl
    rw [Party.published, hactions, publications_append, hnone]
    rfl
  have hout := outcome_input origin i hrun node e
  rw [he] at hout
  rcases sendOr_queue h.isOpen ((dkgInput (.swarm event rng)).bind
    (fun i => (outputs node i).head?.map dkgPayload)) (idleFor .waiting party.loop.layer event)
    with hq | ⟨hq,hstop⟩
  · refine matched_turn he hout hdkg hpublished ?_ (fun _ => rfl)
    rw [hchannel, hq, gossiped_append, gossiped_outputs, List.append_nil]
    rfl
  · refine matched_turn he hout hdkg hpublished (by rw [hchannel, hq]; rfl) (fun hgoes => ?_)
    rw [hhalted, hstop] at hgoes
    cases hgoes

/-- A receive turn publishes what waited longest. -/
theorem matched_recv (origin : Fin n → Option String) {i : Fin n} {party : Party G1 P A}
    (h : Sound ids threshold total i party) (hrun : party.halted = none)
    {e : Event n (Own G1 P A) Bytes} (he : branch origin e = .recv) {node : DKGNode G1}
    (hn : party.loop.layer.dkgNode = some node) :
    reading.Matched (fabric origin) (outline n) i party node e := by
  obtain ⟨-,hlayer,hactions⟩ := turn_recv h hrun
  have hpublished : (party.turn .recv).published = party.published ++
      publications (party.loop.layer.channel.queue.head?.bind relay :
        Option (SwarmAction G1 P A)).toList := by
    rw [Party.published, hactions, publications_append]
    rfl
  have hout := outcome_input origin i hrun node e
  rw [he] at hout
  refine matched_turn he hout (by rw [hlayer]; exact hn) hpublished ?_ (fun _ => rfl)
  rw [hlayer, List.append_nil]
  change _ ~ gossiped party.loop.layer.channel.queue ++ []
  rw [List.append_nil]
  cases hq : party.loop.layer.channel.queue with
  | nil => simp [Channel.recv, hq, publications]
  | cons message rest =>
    obtain ⟨msg,-,rfl⟩ := h.queued message (by rw [hq]; exact List.mem_cons_self ..)
    rw [List.head?_cons, Option.bind_some, decoded_relay, ← gossiped_append]
    simp [Channel.recv, hq]

theorem matched_halted (origin : Fin n → Option String) {i : Fin n} {party : Party G1 P A}
    (hstop : party.halted ≠ none) (e : Event n (Own G1 P A) Bytes) {node : DKGNode G1}
    (hn : party.loop.layer.dkgNode = some node) :
    reading.Matched (fabric origin) (outline n) i party node e := by
  have hm : reading.meant party e = none :=
    if_neg (fun h => hstop (Option.isNone_iff_eq_none.mp h))
  have hturn := turn_halted hstop (branch origin e)
  refine matched_turn rfl (Reading.outcome_asleep hm) (by rw [hturn]; exact hn)
    (by rw [hturn, List.append_nil]) ?_ (fun _ => rfl)
  rw [hturn]
  exact List.Perm.refl _

theorem turn_actions (party : Party G1 P A) (b : Branch G1 P A) :
    ∃ more, (party.turn b).loop.actions = party.loop.actions ++ more := by
  by_cases hrun : party.halted = none
  · rw [turn_running hrun]
    cases b with
    | swarm event rng =>
      obtain ⟨answers,ha,-⟩ := swarm_answers .waiting rng event party.loop
      exact ⟨answers,ha⟩
    | recv => exact recv_actions (Env.top .waiting) party.loop
  · rw [turn_halted hrun]
    exact ⟨[],(List.append_nil _).symm⟩

theorem fabric_publishes (origin : Fin n → Option String) :
    Publishes (fabric origin : Protocol n (Party G1 P A) (Own G1 P A) Bytes) Party.published := by
  intro i party e
  obtain ⟨more,hmore⟩ := turn_actions party (branch origin e)
  have hp : (party.turn (branch origin e)).published = party.published ++ publications more := by
    rw [Party.published, hmore, publications_append]
    rfl
  change (party.turn (branch origin e)).published = party.published ++
    (party.turn (branch origin e)).published.drop party.published.length
  rw [hp, List.drop_left]

section runs
variable {keys : Fin n → Bytes} {origin : Fin n → Option String}
variable {as : List (Action n (Own G1 P A) Bytes)} {net : Net n (Party G1 P A) Bytes}

theorem fabric_reaches (h : (Broadcast.start (parties ids threshold total keys)).run
      (fabric origin) as = some net) :
    (assembly n).Reaches (parties ids threshold total keys) net.node ∧
      ∀ s r data, data ∈ net.flight s r → s ≠ r ∧ data ∈ (net.node s).published := by
  have hreact : ∀ i party (e : Event n (Own G1 P A) Bytes),
      ((fabric origin).react i party e).1 = (assembly n).step i party (branch origin e) :=
    fun _ _ _ => rfl
  exact run_reaches (fabric_publishes origin) hreact (fun _ _ e data hd => heard_branch hd)
    (fun _ _ _ hm => by cases hm) h

theorem fabric_sound (h : (Broadcast.start (parties ids threshold total keys)).run
      (fabric origin) as = some net) :
    (∀ i, Sound ids threshold total i (net.node i)) ∧
      ∀ s r data, data ∈ net.flight s r → s ≠ r ∧ Promises G1 ids threshold total s data := by
  obtain ⟨hreaches,hflight⟩ := fabric_reaches h
  have hsound := sound_reaches ids threshold total keys hreaches
  refine ⟨hsound,fun s r data hdata => ?_⟩
  obtain ⟨hne,hp⟩ := hflight s r data hdata
  exact ⟨hne,(hsound s).promise data hp⟩

/-- Each step of the network is what it means to the nodes. -/
theorem fabric_matched (h : (Broadcast.start (parties ids threshold total keys)).run
      (fabric origin) as = some net) (a : Action n (Own G1 P A) Bytes)
    {node : DKGNode G1} (hn : reading.Stands (net.node a.1) node) :
    reading.Matched (fabric origin) (outline n) a.1 (net.node a.1) node a.2 := by
  have hsound := (fabric_sound h).1 a.1
  by_cases hrun : (net.node a.1).halted = none
  · cases hb : branch origin a.2 with
    | recv => exact matched_recv origin hsound hrun hb hn
    | swarm event rng => exact matched_swarm origin hsound hrun hb hn
  · exact matched_halted origin hrun a.2 hn

theorem fabric_shows (h : (Broadcast.start (parties ids threshold total keys)).run
      (fabric origin) as = some net) :
    ∃ abs, (Broadcast.start (nodes ids threshold total)).run (outline n)
        (reading.trace (fabric origin) (Broadcast.start (parties ids threshold total keys)) as) =
          some abs ∧ reading.Shows net abs := by
  refine Reading.run_shows (I := fun net => ∃ as, (Broadcast.start
    (parties ids threshold total keys)).run (fabric origin) as = some net)
    (reading_drowsy origin) ?_ ?_ ⟨[],rfl⟩ (parties_shown ids threshold total keys) h
  · rintro net a next ⟨as,has⟩ hs
    exact ⟨as++[a],run_snoc _ has hs⟩
  · rintro net a next ⟨as,has⟩ hs node hn
    exact fabric_matched has a hn

theorem trace_running (h : (Broadcast.start (parties ids threshold total keys)).run
      (fabric origin) as = some net) (hrun : ∀ i, (net.node i).halted = none) :
    (reading.trace (fabric origin) (Broadcast.start (parties ids threshold total keys)) as :
      List (Action n Rng (DKGMessage G1))) = as.filterMap reading.action :=
  Reading.trace_awake (reading_drowsy origin) h (fun i => Option.isNone_iff_eq_none.mpr (hrun i))

/-- The network of the loops refines the protocol of their nodes. What its
loops do not sleep through is a run of the protocol, their nodes are those of
that run, and what is in flight or queued is in flight there. As long as no
loop stops nothing is missing. -/
theorem refines_outline (h : (Broadcast.start (parties ids threshold total keys)).run
      (fabric origin) as = some net) :
    ∃ bs abs, (Broadcast.start (nodes ids threshold total)).run (outline n) bs = some abs ∧
      bs <+ as.filterMap reading.action ∧
      (∀ i, (net.node i).loop.layer.dkgNode = some (abs.node i)) ∧
      (∀ s r, s ≠ r → (net.flight s r).filterMap decoded ++
        gossiped (net.node s).loop.layer.channel.queue <+~ abs.flight s r) ∧
      ((∀ i, (net.node i).halted = none) → bs = as.filterMap reading.action ∧
        ∀ s r, s ≠ r → (net.flight s r).filterMap decoded ++
          gossiped (net.node s).loop.layer.channel.queue ~ abs.flight s r) := by
  obtain ⟨abs,ha,hshows⟩ := fabric_shows h
  refine ⟨_,abs,ha,Reading.trace_sublist _ as,hshows.stands,fun s r hne => ?_,fun hrun => ?_⟩
  · obtain ⟨lost,hp,-⟩ := hshows.carries s r hne
    exact (List.sublist_append_left _ lost).subperm.trans hp.subperm
  · exact ⟨trace_running h hrun,fun s r hne => carried_running hshows hrun hne⟩

end runs
end network

section two
attribute [local instance] compactJson constantBlake3 base16

def theDealer : Fin 2 := ⟨0,Nat.two_pos⟩

def theVoter : Fin 2 := ⟨1,Nat.one_lt_two⟩

theorem heard_startTurn : heard startTurn = none := rfl

def dealingTurns : List (Action 2 (Own LogPoint Rpc.PeerId Bytes) Bytes) :=
  [(theDealer,.command ⟨startTurn,heard_startTurn⟩),(theDealer,.command ⟨.recv,heard_recv⟩)]

theorem dealing_refines : ∃ net : Net 2 SampleParty Bytes,
    (Broadcast.start (parties twoIds 1 2 (fun _ => []))).run (fabric (fun _ => none))
      dealingTurns = some net ∧
    ∃ bs abs, (Broadcast.start (nodes twoIds 1 2)).run (outline 2) bs = some abs ∧
      bs <+ dealingTurns.filterMap reading.action ∧
      (∀ i, (net.node i).loop.layer.dkgNode = some (abs.node i)) ∧
      (∀ s r, s ≠ r → (net.flight s r).filterMap decoded ++
        gossiped (net.node s).loop.layer.channel.queue <+~ abs.flight s r) ∧
      ((∀ i, (net.node i).halted = none) → bs = dealingTurns.filterMap reading.action ∧
        ∀ s r, s ≠ r → (net.flight s r).filterMap decoded ++
          gossiped (net.node s).loop.layer.channel.queue ~ abs.flight s r) :=
  ⟨_,rfl,refines_outline rfl⟩

end two
end MpcNode.Network
