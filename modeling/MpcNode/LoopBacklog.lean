import MpcNode.Library.Walks
import MpcNode.LoopTurns

/-!
# The loop and its own channel

The loop is the only receiver of the channel its handlers send to, so a send
on a full queue waits for the task that is making it. The backlog keeps what
decides it: how many messages are queued, and the components as the handled
events left them. As long as the loop runs it follows the backlog, and the
backlog stays below the capacity when in no stretch of turns the sends get
that far ahead of the receives.
-/

set_option autoImplicit false

namespace MpcNode.Network
open MpcNode.Bls MpcNode.Guarded MpcNode.Messages MpcNode.Wire MpcNode.Channels MpcNode.Tables
open MpcNode.Dkg MpcNode.Signing MpcNode.Services
open MpcNode.Rpc (Encoded RPCRequest RPCResponse)
open MpcNode.Guarded.Handler (withGuard bind_run bind_ok withGuard_free top_blocks)

variable {G1 P A : Type}

section turns
variable [G1Group G1] [SerdeJson]

/-- The events at which a component sends. -/
def Nodes.sends (nodes : Nodes G1) : SwarmEvent G1 P A → Bool
  | .request _ .startADKG => nodes.dkg.isSome
  | .gossip message => (fromSlice (GossipsubMessage G1) message.data).any (sendsAt nodes)
  | _ => false

def Nodes.after (nodes : Nodes G1) (rng : Rng) : SwarmEvent G1 P A → Nodes G1
  | .request _ .startADKG => { nodes with dkg := nodes.dkg.map (fun n => n.after (.start rng)) }
  | .gossip message =>
    match fromSlice (GossipsubMessage G1) message.data with
    | some (.dkg msg) => { nodes with dkg := nodes.dkg.map (fun n => n.after (.message msg)) }
    | some (.signing msg) => { nodes with signing := nodes.signing.map (fun n => n.take msg) }
    | _ => nodes
  | _ => nodes

theorem onDkg_nodes (policy : Policy) (i : Input G1) (layer : NetworkLayer G1) :
    (onDkg (perform i) (Env.top policy) layer).2.nodes =
      { layer.nodes with dkg := layer.nodes.dkg.map (fun n => n.after i) } := by
  cases hn : layer.dkgNode with
  | none =>
    rw [onDkg_none hn]
    simp [NetworkLayer.nodes, hn]
  | some node =>
    rw [onDkg_some hn]
    simp [NetworkLayer.nodes, hn, perform_node]

theorem onSigning_nodes (policy : Policy) (msg : SigningMessage G1) (layer : NetworkLayer G1) :
    (onSigning (Signing.handleMessage msg) (Env.top policy) layer).2.nodes =
      { layer.nodes with signing := layer.nodes.signing.map (fun n => n.take msg) } := by
  cases hn : layer.signingNode with
  | none =>
    rw [onSigning_none hn]
    simp [NetworkLayer.nodes, hn]
  | some node =>
    rw [onSigning_some hn]
    simp [NetworkLayer.nodes, hn, Signing.handleMessage_node]

variable [Blake3]

/-- The part of an event's handling that the layer sees. -/
def layerCall (rng : Rng) : SwarmEvent G1 P A → LayerCall G1 Unit
  | .request _ .startADKG => onDkg (startDkg rng)
  | .gossip message => handleGossipsubMessage message
  | _ => pure ()

theorem layerCall_nodes (policy : Policy) (rng : Rng) (event : SwarmEvent G1 P A)
    (layer : NetworkLayer G1) :
    (layerCall rng event (Env.top policy) layer).2.nodes = layer.nodes.after rng event := by
  cases event with
  | request peer request =>
    cases request with
    | startADKG => exact onDkg_nodes policy (.start rng) layer
    | _ => rfl
  | gossip message =>
    simp only [layerCall, Nodes.after]
    unfold handleGossipsubMessage
    cases h : fromSlice (GossipsubMessage G1) message.data with
    | none => rfl
    | some payload =>
      cases payload with
      | dkg msg => exact onDkg_nodes policy (.message msg) layer
      | signing msg => exact onSigning_nodes policy msg layer
      | command cmd => simp only [lift_layer]
      | consensus msg => simp only [lift_layer]
  | _ => rfl

theorem layerCall_uses (policy : Policy) (rng : Rng) (event : SwarmEvent G1 P A)
    (layer : NetworkLayer G1) : ∃ idle, idle ≠ .pending ∧
      Uses (layer.nodes.sends event) idle layer.channel
        ((layerCall rng event (Env.top policy) layer).1,
          (layerCall rng event (Env.top policy) layer).2.channel) := by
  cases event with
  | request peer request =>
    cases request with
    | startADKG =>
      refine ⟨.ok (),by simp,?_⟩
      simp only [layerCall, Nodes.sends, onDkg, NetworkLayer.nodes]
      cases hn : layer.dkgNode with
      | none => exact uses_idle _ _
      | some node =>
        dsimp only
        rw [startDkg_run]
        exact uses_send _ _ (Env.top policy) _
    | _ => exact ⟨.ok (),by simp,uses_idle _ _⟩
  | gossip message =>
    simp only [layerCall, Nodes.sends]
    cases h : fromSlice (GossipsubMessage G1) message.data with
    | none =>
      unfold handleGossipsubMessage
      rw [h]
      exact ⟨.panicked,by simp,uses_idle _ _⟩
    | some payload =>
      exact ⟨idleAt policy layer payload,idleAt_ne_pending policy layer payload,
        gossip_uses policy layer h⟩
  | _ => exact ⟨.ok (),by simp,uses_idle _ _⟩

theorem startADKG_turn [DecidableEq P] (rng : Rng) (peer : P) (env : Env Lock)
    (loop : Loop G1 P A) :
    ((handleSwarmEvent rng (.request peer .startADKG) env loop).1,
      (handleSwarmEvent rng (.request peer .startADKG) env loop).2.layer) =
        onDkg (startDkg rng) env loop.layer := by
  have hl : layer env loop = (.ok loop.layer,loop) := rfl
  rw [handleSwarmEvent, bind_run, responseTo, bind_ok hl]
  cases hn : loop.layer.dkgNode with
  | none =>
    simp only [onDkg, hn]
    rfl
  | some node =>
    dsimp only
    rw [bind_run, onLayer]
    rcases onDkg (startDkg rng) env loop.layer with ⟨_ | _ | _ | _ | _,next⟩ <;> rfl

theorem swarm_turn [DecidableEq P] (policy : Policy) (rng : Rng) (event : SwarmEvent G1 P A)
    (loop : Loop G1 P A) :
    ((handleSwarmEvent rng event (Env.top policy) loop).1,
      (handleSwarmEvent rng event (Env.top policy) loop).2.layer) =
        layerCall rng event (Env.top policy) loop.layer := by
  cases event with
  | request peer request =>
    cases request with
    | startADKG => exact startADKG_turn rng peer (Env.top policy) loop
    | sendAVSSShare dealerId receiverId share commitments =>
      have hl : layer (Env.top policy) loop = (.ok loop.layer,loop) := rfl
      rw [handleSwarmEvent, bind_run, responseTo, bind_ok hl]
      cases loop.layer.dkgNode <;> rfl
    | _ => rfl
  | discovered peers =>
    rw [handleSwarmEvent, bind_ok (forPeers_run _ _ _ _), bind_ok (connectedPeers_run _ _)]
    rfl
  | expired peers =>
    rw [handleSwarmEvent, bind_ok (forPeers_run _ _ _ _), bind_ok (connectedPeers_run _ _)]
    rfl
  | _ => rfl

/-- How many messages are queued, and the components that send. -/
structure Backlog (G1 : Type) where
  queued : ℕ
  nodes : Nodes G1

def Backlog.sends (backlog : Backlog G1) : Branch G1 P A → Bool
  | .swarm event _ => backlog.nodes.sends event
  | .recv => false

def Backlog.after (backlog : Backlog G1) : Branch G1 P A → Backlog G1
  | .swarm event rng =>
    ⟨backlog.queued + (backlog.nodes.sends event).toNat,backlog.nodes.after rng event⟩
  | .recv => ⟨backlog.queued-1,backlog.nodes⟩

variable [DecidableEq P] [Encoded P] [Hex]

theorem recv_turn (env : Env Lock) (loop : Loop G1 P A) :
    (loopStep .recv env loop).1 ≠ .pending ∧
      (loopStep .recv env loop).2.layer =
        { loop.layer with channel := loop.layer.channel.recv.2 } := by
  have hr : recv env loop = (.ok loop.layer.channel.recv.1,
      { loop with layer := { loop.layer with channel := loop.layer.channel.recv.2 } }) := rfl
  rw [loopStep, bind_ok hr]
  cases loop.layer.channel.recv.1 with
  | none => exact ⟨by rintro ⟨⟩,rfl⟩
  | some message => exact channelMessage_layer message env _

/-- A running loop, and what the backlog says of it. -/
structure Follows (loop : Loop G1 P A) (backlog : Backlog G1) : Prop where
  queued : loop.layer.channel.queue.length = backlog.queued
  nodes : loop.layer.nodes = backlog.nodes
  isOpen : loop.layer.channel.Open
  capacity : loop.layer.channel.capacity = 100

/-- A turn waits for room just when the backlog sends and is a hundred. -/
theorem turn_pending_iff {loop : Loop G1 P A} {backlog : Backlog G1} (h : Follows loop backlog)
    (policy : Policy) (b : Branch G1 P A) :
    (loopStep b (Env.top policy) loop).1 = .pending ↔
      backlog.sends b = true ∧ 100 ≤ backlog.queued := by
  have hroom : ¬ loop.layer.channel.Room ↔ 100 ≤ backlog.queued := by
    rw [Channel.Room, h.queued, h.capacity, Nat.not_lt]
  cases b with
  | swarm event rng =>
    obtain ⟨idle,hi,hu⟩ := layerCall_uses policy rng event loop.layer
    have hp := uses_pending_iff hu hi
    rw [← swarm_turn, hroom, h.nodes, and_iff_right h.isOpen] at hp
    exact hp
  | recv => simp [(recv_turn (Env.top policy) loop).1, Backlog.sends]

theorem follows_turn {policy : Policy} (loop : Loop G1 P A) (backlog : Backlog G1)
    (b : Branch G1 P A) (next : Loop G1 P A) (h : Follows loop backlog)
    (ht : loopTurn policy loop b = some next) : Follows next (backlog.after b) := by
  have hstep := loopTurn_some.mp ht
  cases b with
  | swarm event rng =>
    obtain ⟨idle,-,hu⟩ := layerCall_uses policy rng event loop.layer
    have hn := layerCall_nodes policy rng event loop.layer
    have hs := swarm_turn policy rng event loop
    rw [← loopStep, hstep] at hs
    rw [← hs, h.nodes] at hu hn
    obtain ⟨hq,hc,hcap⟩ := uses_ok_channel hu rfl
    exact ⟨hq.trans (by rw [h.queued]; rfl),hn,hc.trans h.isOpen,hcap.trans h.capacity⟩
  | recv =>
    have hl := (recv_turn (Env.top policy) loop).2
    rw [hstep] at hl
    refine ⟨?_,?_,?_,?_⟩
    · rw [hl]
      simp [Channel.recv, Backlog.after, h.queued]
    · rw [hl]
      exact h.nodes
    · rw [hl]
      exact h.isOpen
    · rw [hl]
      exact h.capacity

def startLoop (layer : NetworkLayer G1) (queue : List ChannelMessage) : Loop G1 P A where
  layer := { layer with channel := { Channel.empty with queue := queue } }
  peers := ∅
  actions := []

def backlogAfter (layer : NetworkLayer G1) (queue : List ChannelMessage)
    (bs : List (Branch G1 P A)) : Backlog G1 := bs.foldl Backlog.after ⟨queue.length,layer.nodes⟩

/-- As long as the loop runs, it follows the backlog. -/
theorem follows_run {policy : Policy} {layer : NetworkLayer G1} {queue : List ChannelMessage}
    {bs : List (Branch G1 P A)} {next : Loop G1 P A}
    (h : loopRun policy (startLoop layer queue) bs = some next) :
    Follows next (backlogAfter layer queue bs) := by
  have hs : Follows (startLoop layer queue : Loop G1 P A) ⟨queue.length,layer.nodes⟩ :=
    ⟨rfl,rfl,rfl,rfl⟩
  exact Runs.run_simulates follows_turn hs h

/-- No turn waits for room in the channel. -/
def NeverWaits (policy : Policy) (layer : NetworkLayer G1) (queue : List ChannelMessage)
    (bs : List (Branch G1 P A)) : Prop :=
  ∀ pre b post next, bs = pre++b::post →
    loopRun policy (startLoop layer queue) pre = some next →
      (loopStep b (Env.top policy) next).1 ≠ .pending

end turns

section schedules
variable [G1Group G1] [SerdeJson]

def Nodes.turned (nodes : Nodes G1) : Branch G1 P A → Nodes G1
  | .swarm event rng => nodes.after rng event
  | .recv => nodes

def Nodes.sendsIn (nodes : Nodes G1) : Branch G1 P A → Bool
  | .swarm event _ => nodes.sends event
  | .recv => false

def isRecv : Branch G1 P A → Bool
  | .swarm _ _ => false
  | .recv => true

def Nodes.sendTurns : Nodes G1 → List (Branch G1 P A) → ℕ
  | _, [] => 0
  | nodes, b::bs => (nodes.sendsIn b).toNat + (nodes.turned b).sendTurns bs

def recvTurns (bs : List (Branch G1 P A)) : ℕ := bs.countP isRecv

/-- In every stretch of turns that ends just before a turn that sends, the
turns that send outnumber those that take by fewer than a hundred. What is
queued before the first turn counts as sent in a stretch from there. -/
def KeepsUp (nodes : Nodes G1) (queued : ℕ) (bs : List (Branch G1 P A)) : Prop :=
  ∀ pre b post, bs = pre++b::post → (pre.foldl Nodes.turned nodes).sendsIn b = true →
    queued + nodes.sendTurns pre < recvTurns pre + 100 ∧
    ∀ before stretch, pre = before++stretch →
      (before.foldl Nodes.turned nodes).sendTurns stretch < recvTurns stretch + 100

def Nodes.move (nodes : Nodes G1) (b : Branch G1 P A) : ℤ :=
  (nodes.sendsIn b).toNat - (isRecv b).toNat

theorem total_move (nodes : Nodes G1) (bs : List (Branch G1 P A)) :
    Walks.total Nodes.turned Nodes.move nodes bs = (nodes.sendTurns bs : ℤ) - recvTurns bs := by
  induction bs generalizing nodes with
  | nil => rfl
  | cons b bs ih =>
    have ht : recvTurns (b::bs) = recvTurns bs + (isRecv b).toNat := by
      rw [recvTurns, List.countP_cons, recvTurns]
      cases isRecv b <;> rfl
    rw [Walks.total, ih, Nodes.sendTurns, ht, Nodes.move]
    push_cast
    omega

theorem sendTurns_le_length (nodes : Nodes G1) (bs : List (Branch G1 P A)) :
    nodes.sendTurns bs ≤ bs.length := by
  induction bs generalizing nodes with
  | nil => exact Nat.le_refl 0
  | cons b bs ih =>
    have hb := Bool.toNat_le (nodes.sendsIn b)
    have hi := ih (nodes.turned b)
    rw [Nodes.sendTurns, List.length_cons]
    omega

theorem backlogAfter_nodes (layer : NetworkLayer G1) (queue : List ChannelMessage)
    (bs : List (Branch G1 P A)) :
    (backlogAfter layer queue bs).nodes = bs.foldl Nodes.turned layer.nodes := by
  refine (List.foldl_hom Backlog.nodes (fun backlog b => ?_)).symm
  cases b <;> rfl

/-- So many messages are queued exactly when the sends of some last stretch
of turns are so far ahead of its receives. -/
theorem le_queued_iff (layer : NetworkLayer G1) (queue : List ChannelMessage)
    (bs : List (Branch G1 P A)) (c : ℕ) :
    c ≤ (backlogAfter layer queue bs).queued ↔
      c + recvTurns bs ≤ queue.length + layer.nodes.sendTurns bs ∨
      ∃ before stretch, bs = before++stretch ∧
        c + recvTurns stretch ≤ (before.foldl Nodes.turned layer.nodes).sendTurns stretch := by
  have hnodes : ∀ (backlog : Backlog G1) (b : Branch G1 P A),
      (backlog.after b).nodes = backlog.nodes.turned b := by
    intro backlog b
    cases b <;> rfl
  have hqueued : ∀ (backlog : Backlog G1) (b : Branch G1 P A),
      ((backlog.after b).queued : ℤ) = max 0 ((backlog.queued : ℤ) + backlog.nodes.move b) := by
    intro backlog b
    cases b <;> simp only [Backlog.after, Nodes.move, Nodes.sendsIn, isRecv, Bool.toNat_false,
      Bool.toNat_true] <;> omega
  have h := Walks.le_level_iff (fun backlog => (backlog.queued : ℤ)) hnodes hqueued
    (t := ⟨queue.length,layer.nodes⟩) (Int.natCast_nonneg _) bs c
  simp only [total_move] at h
  rw [← Int.ofNat_le]
  refine h.trans (or_congr ?_ (exists_congr (fun before => exists_congr (fun stretch =>
    and_congr_right (fun _ => ?_)))))
  · omega
  · omega

theorem keepsUp_iff (layer : NetworkLayer G1) (queue : List ChannelMessage)
    (bs : List (Branch G1 P A)) :
    KeepsUp layer.nodes queue.length bs ↔
    ∀ pre b post, bs = pre++b::post → (backlogAfter layer queue pre).sends b = true →
      (backlogAfter layer queue pre).queued < 100 := by
  have hsends : ∀ (backlog : Backlog G1) (b : Branch G1 P A),
      backlog.sends b = backlog.nodes.sendsIn b := by
    intro backlog b
    cases b <;> rfl
  refine forall_congr' (fun pre => forall_congr' (fun b => forall_congr' (fun post =>
    imp_congr_right (fun _ => ?_))))
  rw [hsends, backlogAfter_nodes]
  have hq := not_congr (le_queued_iff layer queue pre 100)
  simp only [not_or, not_exists, not_and, not_le, Nat.add_comm 100] at hq
  exact imp_congr_right (fun _ => hq.symm)

variable [Blake3] [DecidableEq P] [Encoded P] [Hex]

/-- No handler waits for room in the channel in a run in which the receives
keep up with the sends, nor in any other that the loop comes through. -/
theorem never_waits (policy : Policy) (layer : NetworkLayer G1) (queue : List ChannelMessage)
    (bs : List (Branch G1 P A)) :
    (KeepsUp layer.nodes queue.length bs → NeverWaits policy layer queue bs) ∧
    ((∀ pre b post, bs = pre++b::post → (loopRun policy (startLoop layer queue) pre).isSome) →
      NeverWaits policy layer queue bs → KeepsUp layer.nodes queue.length bs) := by
  rw [keepsUp_iff]
  constructor
  · intro h pre b post next hbs hr hp
    obtain ⟨hsends,hq⟩ := (turn_pending_iff (follows_run hr) policy b).mp hp
    exact Nat.not_lt.mpr hq (h pre b post hbs hsends)
  · intro hrun h pre b post hbs hsends
    obtain ⟨next,hr⟩ := Option.isSome_iff_exists.mp (hrun pre b post hbs)
    by_contra hq
    apply h pre b post next hbs hr
    exact (turn_pending_iff (follows_run hr) policy b).mpr ⟨hsends,Nat.not_lt.mp hq⟩

end schedules

section starts
variable [G1Group G1] [SerdeJson] [Blake3] [DecidableEq P] [Encoded P] [Hex]

theorem start_turn (policy : Policy) (rng : Rng) (peer : P) {loop : Loop G1 P A}
    {backlog : Backlog G1} (h : Follows loop backlog) (hd : backlog.nodes.dkg.isSome)
    (hq : backlog.queued < 100) :
    ∃ next, loopTurn policy loop (.swarm (.request peer .startADKG) rng) = some next := by
  let event : SwarmEvent G1 P A := .request peer .startADKG
  obtain ⟨idle,-,hu⟩ := layerCall_uses policy rng event loop.layer
  have hsends : loop.layer.nodes.sends event = true := by
    rw [h.nodes]
    exact hd
  have hroom : loop.layer.channel.Room := by
    rwa [Channel.Room, h.queued, h.capacity]
  rw [hsends, ← swarm_turn policy rng event loop] at hu
  have hok := (uses_ok_iff hu).mpr (by rw [if_pos rfl]; exact ⟨h.isOpen,hroom⟩)
  exact ⟨_,loopTurn_some.mpr (Prod.ext hok rfl)⟩

/-- Start requests fill the queue. -/
theorem starts_run (policy : Policy) (rng : Rng) (peer : P) (n : ℕ) {loop : Loop G1 P A}
    {backlog : Backlog G1} (h : Follows loop backlog) (hd : backlog.nodes.dkg.isSome)
    (hq : backlog.queued+n ≤ 100) :
    ∃ next, loopRun policy loop (List.replicate n (.swarm (.request peer .startADKG) rng)) =
        some next ∧
      ∃ full, Follows next full ∧ full.nodes.dkg.isSome ∧ full.queued = backlog.queued+n := by
  induction n generalizing loop backlog with
  | zero => exact ⟨loop,rfl,backlog,h,hd,rfl⟩
  | succ n ih =>
    obtain ⟨mid,hm⟩ := start_turn policy rng peer h hd (by omega)
    have hmid := follows_turn loop backlog _ mid h hm
    have hmq : (backlog.after (.swarm (.request peer .startADKG) rng : Branch G1 P A)).queued =
        backlog.queued+1 := by simp [Backlog.after, Nodes.sends, hd]
    obtain ⟨next,hn,full,hf,hfd,hfq⟩ := ih hmid (by simpa [Backlog.after, Nodes.after] using hd)
      (by omega)
    exact ⟨next,Runs.run_cons.mpr ⟨mid,hm,hn⟩,full,hf,hfd,by omega⟩

end starts

section flooded
attribute [local instance] compactJson constantBlake3 base16

def starterLayer : NetworkLayer LogPoint := NetworkLayer.new.setDkgNode (.new "1" 1 2)

theorem hundred_starts_never_wait : NeverWaits .waiting starterLayer []
    (List.replicate 100 (.swarm (.request Rpc.ed25519Id .startADKG) (fun _ => 0)) :
      List (Branch LogPoint Rpc.PeerId Bytes)) := by
  apply (never_waits _ _ _ _).1
  intro pre b post hbs _
  have hlen : pre.length < 100 := by
    have h := congrArg List.length hbs
    rw [List.length_replicate, List.length_append, List.length_cons] at h
    omega
  constructor
  · have h := sendTurns_le_length starterLayer.nodes pre
    rw [List.length_nil]
    omega
  · rintro before stretch rfl
    have h := sendTurns_le_length (before.foldl Nodes.turned starterLayer.nodes) stretch
    rw [List.length_append] at hlen
    omega

/-- After a hundred start requests in a row the next one waits. -/
theorem starts_wait : ¬ NeverWaits .waiting starterLayer []
    (List.replicate 101 (.swarm (.request Rpc.ed25519Id .startADKG) (fun _ => 0)) :
      List (Branch LogPoint Rpc.PeerId Bytes)) := by
  intro h
  have hs : Follows (startLoop starterLayer [] : Loop LogPoint Rpc.PeerId Bytes)
      ⟨0,starterLayer.nodes⟩ := ⟨rfl,rfl,rfl,rfl⟩
  obtain ⟨next,hn,full,hf,hd,hq⟩ := starts_run .waiting (fun _ => 0) Rpc.ed25519Id 100 hs rfl
    (Nat.le_refl 100)
  exact h _ _ [] next List.replicate_succ' hn ((turn_pending_iff hf _ _).mpr ⟨hd,hq.ge⟩)

end flooded
end MpcNode.Network
