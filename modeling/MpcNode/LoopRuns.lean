import MpcNode.Mailbox

/-!
# Whole runs of the event loop

Nothing that a component sends is lost, doubled or overtaken on its way to
the swarm, every request is answered once, and the components are what their
inputs make of them. A run goes on for as long as its mailbox allows each
turn.
-/

set_option autoImplicit false

namespace MpcNode.Network
open MpcNode.Bls MpcNode.Guarded MpcNode.Messages MpcNode.Wire MpcNode.Channels MpcNode.Tables
open MpcNode.Dkg MpcNode.Signing MpcNode.Services
open MpcNode.Rpc (Encoded RPCRequest RPCResponse)

variable {G1 P A : Type}

def SwarmAction.isRelayed : SwarmAction G1 P A → Bool
  | .sendResponse _ _ => false
  | _ => true

theorem relay_isRelayed [Encoded P] [Hex] {message : ChannelMessage} {action : SwarmAction G1 P A}
    (h : relay message = some action) : action.isRelayed = true := by
  cases message with
  | broadcast topic data =>
    obtain rfl := Option.some.inj h
    rfl
  | unicast peerId data =>
    simp only [relay] at h
    split at h
    · cases h
    · split at h
      · cases h
      · obtain rfl := Option.some.inj h
        rfl

theorem answers_isRelayed (nodes : Nodes G1) (event : SwarmEvent G1 P A) :
    ∀ action ∈ nodes.answers event, action.isRelayed = false := by
  intro action h
  cases event with
  | request peer request =>
    rw [List.mem_singleton.mp h]
    rfl
  | _ => cases h

theorem startLoop_shown (layer : NetworkLayer G1) (queue : List ChannelMessage) :
    (layer.mailbox queue).Shows (startLoop layer queue : Loop G1 P A) := ⟨rfl,rfl,rfl,rfl,rfl⟩

section components
variable [G1Group G1] [SerdeJson]

def Nodes.sent (nodes : Nodes G1) : Branch G1 P A → List ChannelMessage
  | .swarm event rng => (nodes.output rng event).toList
  | .recv => []

def Nodes.answered (nodes : Nodes G1) : Branch G1 P A → List (SwarmAction G1 P A)
  | .swarm event _ => nodes.answers event
  | .recv => []

theorem after_turned (box : Mailbox G1) (b : Branch G1 P A) :
    (box.after b).nodes = box.nodes.turned b := by
  cases b <;> rfl

/-- What the components send over a run, in order. -/
def sentBy (nodes : Nodes G1) (bs : List (Branch G1 P A)) : List ChannelMessage :=
  Fifo.pops Nodes.turned Nodes.sent nodes bs

/-- The answers of a run, each from the components as they are then. -/
def answersTo (nodes : Nodes G1) (bs : List (Branch G1 P A)) : List (SwarmAction G1 P A) :=
  Fifo.pops Nodes.turned Nodes.answered nodes bs

/-- What a branch hands to the key generation node. -/
def dkgInput : Branch G1 P A → Option (Input G1)
  | .swarm (.request _ .startADKG) rng => some (.start rng)
  | .swarm (.gossip message) _ =>
    match fromSlice (GossipsubMessage G1) message.data with
    | some (.dkg msg) => some (.message msg)
    | _ => none
  | _ => none

theorem turned_dkg (nodes : Nodes G1) (b : Branch G1 P A) : (nodes.turned b).dkg =
    nodes.dkg.map (fun node => (dkgInput b).toList.foldl DKGNode.after node) := by
  have hid : nodes.dkg = nodes.dkg.map (fun node => node) := Option.map_id'.symm
  cases b with
  | recv => exact hid
  | swarm event rng =>
    cases event with
    | request peer request =>
      cases request with
      | startADKG => rfl
      | _ => exact hid
    | gossip message =>
      simp only [Nodes.turned, Nodes.after, dkgInput]
      rcases fromSlice (GossipsubMessage G1) message.data with _ | msg | msg | cmd | msg
      · exact hid
      · rfl
      · exact hid
      · exact hid
      · exact hid
    | _ => exact hid

variable [Blake3] [DecidableEq P] [Encoded P] [Hex]

theorem shown_run {policy : Policy} {layer : NetworkLayer G1} {queue : List ChannelMessage}
    {bs : List (Branch G1 P A)} {next : Loop G1 P A}
    (h : loopRun policy (startLoop layer queue) bs = some next) :
    (bs.foldl Mailbox.after (layer.mailbox queue)).Shows next ∧
      next.actions = Fifo.pops Mailbox.after Mailbox.actions (layer.mailbox queue) bs := by
  have hrun : (bs.foldl Mailbox.after (layer.mailbox queue)).Shows next ∧
      next.actions = (startLoop layer queue : Loop G1 P A).actions ++
        Fifo.pops Mailbox.after Mailbox.actions (layer.mailbox queue) bs :=
    Fifo.run_outputs turn_shown (startLoop_shown layer queue) h
  exact hrun

theorem turn_relayed {policy : Policy} {loop next : Loop G1 P A} {box : Mailbox G1}
    {b : Branch G1 P A} (h : box.Shows loop) (ht : loopTurn policy loop b = some next) :
    ∃ taken, taken ++ (box.after b).queue = box.queue ++ box.nodes.sent b ∧
      ((box.actions b).filter SwarmAction.isRelayed).map some = taken.map relay := by
  cases b with
  | swarm event rng =>
    refine ⟨[],rfl,?_⟩
    have hnone : (box.nodes.answers event).filter SwarmAction.isRelayed = [] := by
      rw [List.filter_eq_nil_iff]
      intro action ha
      rw [answers_isRelayed box.nodes event action ha]
      exact Bool.false_ne_true
    rw [Mailbox.actions, hnone]
    rfl
  | recv =>
    have hok := (recv_ok (Env.top policy) loop).1.mp
      (congrArg Prod.fst (loopTurn_some.mp ht))
    rw [h.queue] at hok
    cases hq : box.queue with
    | nil =>
      refine ⟨[],?_,?_⟩
      · simp [Mailbox.after, hq, Nodes.sent]
      · simp [Mailbox.actions, hq]
    | cons message rest =>
      rw [hq] at hok
      have ha : (relay message : Option (SwarmAction G1 P A)).isSome :=
        (relay_isSome_iff message).mpr (hok message rfl)
      obtain ⟨action,hr⟩ := Option.isSome_iff_exists.mp ha
      refine ⟨[message],?_,?_⟩
      · simp [Mailbox.after, hq, Nodes.sent]
      · simp [Mailbox.actions, hq, hr, relay_isRelayed hr]

/-- The queue of a loop that still runs: what was taken from it, in order,
has been relayed, and with what is left it is all that was ever queued. -/
theorem relayed_run {policy : Policy} {loop next : Loop G1 P A} {box : Mailbox G1}
    {bs : List (Branch G1 P A)} (h : box.Shows loop) (hr : loopRun policy loop bs = some next) :
    ∃ taken, taken ++ next.layer.channel.queue = box.queue ++ sentBy box.nodes bs ∧
      (next.actions.filter SwarmAction.isRelayed).map some =
        (loop.actions.filter SwarmAction.isRelayed).map some ++ taken.map relay := by
  induction bs generalizing loop box with
  | nil =>
    obtain rfl := Option.some.inj hr
    exact ⟨[],by rw [h.queue]; simp [sentBy, Fifo.pops],by simp⟩
  | cons b bs ih =>
    obtain ⟨mid,hm,hrest⟩ := Runs.run_cons.mp hr
    obtain ⟨first,hq,ha⟩ := turn_relayed h hm
    obtain ⟨hmid,hactions⟩ := turn_shown loop box b mid h hm
    obtain ⟨later,hq',ha'⟩ := ih hmid hrest
    refine ⟨first++later,?_,?_⟩
    · rw [List.append_assoc, hq', ← List.append_assoc, hq, List.append_assoc, after_turned]
      rfl
    · rw [ha', hactions, List.filter_append, List.map_append, ha, List.append_assoc,
        List.map_append]

/-- In every run nothing is lost, doubled or overtaken between a component's
send and the swarm. -/
theorem relayed {policy : Policy} {layer : NetworkLayer G1} {queue : List ChannelMessage}
    {bs : List (Branch G1 P A)} {next : Loop G1 P A}
    (h : loopRun policy (startLoop layer queue) bs = some next) :
    ∃ taken, taken ++ next.layer.channel.queue = queue ++ sentBy layer.nodes bs ∧
      (next.actions.filter SwarmAction.isRelayed).map some = taken.map relay :=
  relayed_run (startLoop_shown layer queue) h

/-- In every run each request is answered once, in order, as the components
stand when it comes. -/
theorem answered {policy : Policy} {layer : NetworkLayer G1} {queue : List ChannelMessage}
    {bs : List (Branch G1 P A)} {next : Loop G1 P A}
    (h : loopRun policy (startLoop layer queue) bs = some next) :
    next.actions.filter (fun action => !action.isRelayed) = answersTo layer.nodes bs := by
  have hone : ∀ (box : Mailbox G1) (b : Branch G1 P A),
      (box.actions b).filter (fun action => !action.isRelayed) = box.nodes.answered b := by
    intro box b
    cases b with
    | swarm event rng =>
      rw [Mailbox.actions, Nodes.answered, List.filter_eq_self]
      intro action ha
      rw [answers_isRelayed box.nodes event action ha]
      rfl
    | recv =>
      rw [Mailbox.actions, Nodes.answered, List.filter_eq_nil_iff]
      intro action ha
      obtain ⟨message,-,hr⟩ := Option.bind_eq_some_iff.mp (Option.mem_toList.mp ha)
      simp [relay_isRelayed hr]
  rw [(shown_run h).2, Fifo.pops_filter]
  simp only [hone]
  exact Fifo.pops_part after_turned Nodes.answered (layer.mailbox queue) bs

theorem allowed_run {loop : Loop G1 P A} {box : Mailbox G1} (h : box.Shows loop)
    (bs : List (Branch G1 P A)) : (loopRun .waiting loop bs).isSome ↔
      ∀ pre b post, bs = pre ++ b::post → (pre.foldl Mailbox.after box).Allows b :=
  Runs.run_isSome_iff (fun loop box b next hshows ht => (turn_shown loop box b next hshows ht).1)
    turn_allowed h bs

/-- A run goes through exactly when the mailbox, which follows from the
events alone, allows each of its turns. -/
theorem runs_through_iff (layer : NetworkLayer G1) (queue : List ChannelMessage)
    (bs : List (Branch G1 P A)) : (loopRun .waiting (startLoop layer queue) bs).isSome ↔
      ∀ pre b post, bs = pre ++ b::post →
        (pre.foldl Mailbox.after (layer.mailbox queue)).Allows b :=
  allowed_run (startLoop_shown layer queue) bs

end components

section started
attribute [local instance] compactJson constantBlake3 base16

def startedTurns : List (Branch LogPoint Rpc.PeerId Bytes) :=
  [.swarm (.request Rpc.ed25519Id .startADKG) (fun _ => 0),.recv]

theorem started_run :
    ∃ next, loopRun .waiting (startLoop starterLayer []) startedTurns = some next :=
  Option.isSome_iff_exists.mp (by decide)

theorem started_relayed :
    ∃ next, loopRun .waiting (startLoop starterLayer []) startedTurns = some next ∧
      ∃ taken, taken ++ next.layer.channel.queue = [] ++ sentBy starterLayer.nodes startedTurns ∧
        (next.actions.filter SwarmAction.isRelayed).map some = taken.map relay := by
  obtain ⟨next,h⟩ := started_run
  exact ⟨next,h,relayed h⟩

theorem started_answered :
    ∃ next, loopRun .waiting (startLoop starterLayer []) startedTurns = some next ∧
      next.actions.filter (fun action => !action.isRelayed) =
        answersTo starterLayer.nodes startedTurns := by
  obtain ⟨next,h⟩ := started_run
  exact ⟨next,h,answered h⟩

end started
end MpcNode.Network
