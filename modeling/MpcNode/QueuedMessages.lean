import MpcNode.LoopRuns

/-!
# Emptying the queue

The layer's own sends go through the channel that the loop later empties.
Up to a hundred of them return before `start` is called, and then each turn
hands one to the swarm until one names no peer. What the components send
names none, so a running loop can always be emptied.
-/

set_option autoImplicit false

namespace MpcNode.Network
open MpcNode.Bls MpcNode.Guarded MpcNode.Messages MpcNode.Wire MpcNode.Channels MpcNode.Tables
open MpcNode.Services
open MpcNode.Rpc (Encoded)
open MpcNode.Guarded.Handler (bind_run bind_ok)

variable {G1 P A : Type}

def queueing : ChannelMessage → LayerCall G1 Unit
  | .broadcast topic data => NetworkLayer.broadcast topic data
  | .unicast peerId data => NetworkLayer.sendDirectMessage peerId data

def queueAll : List ChannelMessage → LayerCall G1 Unit
  | [] => pure ()
  | message::messages => do
    queueing message
    queueAll messages

theorem queueing_run (message : ChannelMessage) (env : Env Lock) (layer : NetworkLayer G1) :
    queueing message env layer = ((layer.channel.send message).1,
      { layer with channel := (layer.channel.send message).2 }) := by
  cases message <;> rfl

theorem queueAll_run (messages : List ChannelMessage) (env : Env Lock) {layer : NetworkLayer G1}
    (ho : layer.channel.Open) (hl : layer.channel.queue.length ≤ layer.channel.capacity) :
    ((queueAll messages env layer).1 = .ok () ↔
      layer.channel.queue.length+messages.length ≤ layer.channel.capacity) ∧
    ((queueAll messages env layer).1 = .ok () →
      (queueAll messages env layer).2.channel.queue = layer.channel.queue ++ messages) := by
  induction messages generalizing layer with
  | nil => exact ⟨iff_of_true rfl hl,fun _ => (List.append_nil _).symm⟩
  | cons message messages ih =>
    rw [queueAll]
    by_cases hr : layer.channel.Room
    · have hq : queueing message env layer =
          (.ok (),{ layer with channel := layer.channel.push message }) := by
        rw [queueing_run, channel_send_room ho hr]
      have hlength : (layer.channel.push message).queue.length = layer.channel.queue.length+1 := by
        simp [Channel.push]
      have ho' : ({ layer with channel := layer.channel.push message } :
          NetworkLayer G1).channel.Open := ho
      obtain ⟨hok,hqueue⟩ := ih ho' (hlength.trans_le hr)
      rw [bind_ok hq]
      constructor
      · rw [hok]
        dsimp only
        rw [hlength, List.length_cons, show layer.channel.queue.length+1+messages.length =
          layer.channel.queue.length+(messages.length+1) by omega]
        rfl
      · intro h
        rw [hqueue h, Channel.push, List.append_assoc, List.singleton_append]
    · have hq : queueing message env layer = (.pending,layer) := by
        rw [queueing_run, channel_send_full ho hr]
      have hfull : layer.channel.capacity ≤ layer.channel.queue.length := Nat.not_lt.mp hr
      rw [bind_run, hq]
      constructor
      · rw [List.length_cons]
        exact iff_of_false (by simp) (by omega)
      · intro h
        cases h

section waiting
variable [G1Group G1] [SerdeJson]

theorem recvs_queue (n : ℕ) (box : Mailbox G1) :
    ((List.replicate n (.recv : Branch G1 P A)).foldl Mailbox.after box).queue =
      box.queue.drop n := by
  induction n generalizing box with
  | zero => rfl
  | succ n ih =>
    rw [List.replicate_succ, List.foldl_cons, ih, Mailbox.after, List.drop_tail]

theorem recvs_sent (n : ℕ) (nodes : Nodes G1) :
    sentBy nodes (List.replicate n (.recv : Branch G1 P A)) = [] := by
  induction n with
  | zero => rfl
  | succ n ih =>
    rw [List.replicate_succ]
    exact ih

variable [Encoded P] [Hex]

/-- Nothing that a turn queues can be refused later. -/
theorem addressed_after {box : Mailbox G1} (h : ∀ message ∈ box.queue, Addressed P message)
    (b : Branch G1 P A) : ∀ message ∈ (box.after b).queue, Addressed P message := by
  intro message hm
  cases b with
  | recv => exact h message (List.mem_of_mem_tail hm)
  | swarm event rng =>
    rcases List.mem_append.mp hm with hm | hm
    · exact h message hm
    · obtain ⟨topic,data,rfl⟩ := relay_output box.nodes rng event (Option.mem_toList.mp hm)
      exact trivial

theorem addressed_foldl {box : Mailbox G1} (h : ∀ message ∈ box.queue, Addressed P message)
    (bs : List (Branch G1 P A)) :
    ∀ message ∈ (bs.foldl Mailbox.after box).queue, Addressed P message := by
  induction bs generalizing box with
  | nil => exact h
  | cons b bs ih => exact ih (addressed_after h b)

end waiting

section recvs
variable [G1Group G1] [SerdeJson] [Blake3] [DecidableEq P] [Encoded P] [Hex]

/-- Turns that only take from the queue go on until a message names no peer. -/
theorem recvs_through_iff (n : ℕ) {loop : Loop G1 P A} {box : Mailbox G1} (h : box.Shows loop) :
    (loopRun .waiting loop (List.replicate n .recv)).isSome ↔
      ∀ message ∈ box.queue.take n, Addressed P message := by
  induction n generalizing loop box with
  | zero => simp [loopRun, Runs.run]
  | succ n ih =>
    have hhead := turn_allowed loop box .recv h
    rw [List.replicate_succ, loopRun, Runs.run]
    cases ht : loopTurn .waiting loop .recv with
    | none =>
      refine iff_of_false (by simp) (fun hall => ?_)
      have hnot : ¬ box.Allows (.recv : Branch G1 P A) := by
        rw [← hhead, ht]
        simp
      apply hnot
      intro message hm
      apply hall message
      cases hq : box.queue with
      | nil => simp [hq] at hm
      | cons first rest =>
        rw [hq] at hm
        simp [Option.some.inj hm]
    | some mid =>
      rw [ht] at hhead
      have hallowed : ∀ message ∈ box.queue.head?, Addressed P message := hhead.mp rfl
      refine (ih (turn_shown loop box .recv mid h ht).1).trans ?_
      cases hq : box.queue with
      | nil => simp [Mailbox.after, hq]
      | cons first rest =>
        rw [hq] at hallowed
        have hfirst := hallowed first rfl
        simp [Mailbox.after, hq, hfirst]

theorem recvs_actions (n : ℕ) {loop next : Loop G1 P A} {box : Mailbox G1} (h : box.Shows loop)
    (hn : loopRun .waiting loop (List.replicate n .recv) = some next) :
    next.actions = loop.actions ++ (box.queue.take n).filterMap relay := by
  induction n generalizing loop box with
  | zero =>
    obtain rfl := Option.some.inj hn
    simp
  | succ n ih =>
    obtain ⟨mid,hm,hrest⟩ := Runs.run_cons.mp hn
    obtain ⟨hmid,ha⟩ := turn_shown loop box .recv mid h hm
    rw [ih hmid hrest, ha, List.append_assoc]
    congr 1
    cases hq : box.queue with
    | nil => simp [Mailbox.actions, Mailbox.after, hq]
    | cons first rest =>
      cases hr : (relay first : Option (SwarmAction G1 P A)) <;>
        simp [Mailbox.actions, Mailbox.after, hq, hr]

/-- Before the start just a hundred sends return, and after it as many turns
hand them on in order, up to the first that names no peer. -/
theorem queued_handed_on (layer : NetworkLayer G1) (messages : List ChannelMessage)
    (env : Env Lock) :
    ((queueAll messages env { layer with channel := .empty }).1 = .ok () ↔
      messages.length ≤ 100) ∧
    ((queueAll messages env { layer with channel := .empty }).1 = .ok () → ∀ n,
      let start : Loop G1 P A := startLoop layer
        (queueAll messages env { layer with channel := .empty }).2.channel.queue
      ((loopRun .waiting start (List.replicate n .recv)).isSome ↔
        ∀ message ∈ messages.take n, Addressed P message) ∧
      ∀ next, loopRun .waiting start (List.replicate n .recv) = some next →
        next.actions = (messages.take n).filterMap relay) := by
  have hfresh : ({ layer with channel := .empty } : NetworkLayer G1).channel.Open := rfl
  obtain ⟨hok,hqueue⟩ := queueAll_run messages env hfresh (Nat.zero_le _)
  refine ⟨hok.trans ?_,fun h n => ?_⟩
  · rw [show (Channel.empty.queue.length+messages.length) = messages.length from Nat.zero_add _]
    rfl
  · rw [hqueue h]
    have hshown := startLoop_shown (P := P) (A := A) layer messages
    exact ⟨recvs_through_iff n hshown,fun next hn => recvs_actions n hshown hn⟩

/-- In every run, a loop that goes on can be emptied by as many turns as
messages wait, and has then handed on all that was ever sent, in order. -/
theorem drained {layer : NetworkLayer G1} {queue : List ChannelMessage}
    {bs : List (Branch G1 P A)} {next : Loop G1 P A}
    (hqueue : ∀ message ∈ queue, Addressed P message)
    (h : loopRun .waiting (startLoop layer queue) bs = some next) :
    ∃ last, loopRun .waiting next (List.replicate next.layer.channel.queue.length .recv) =
        some last ∧ last.layer.channel.queue = [] ∧
      (last.actions.filter SwarmAction.isRelayed).map some =
        (queue ++ sentBy layer.nodes bs).map relay := by
  obtain ⟨taken,hq,ha⟩ := relayed_run (startLoop_shown layer queue) h
  have hshown := (shown_run h).1
  have haddressed : ∀ message ∈ (bs.foldl Mailbox.after (layer.mailbox queue)).queue,
      Addressed P message := addressed_foldl hqueue bs
  have hthrough := recvs_through_iff next.layer.channel.queue.length hshown
  obtain ⟨last,hlast⟩ := Option.isSome_iff_exists.mp
    (hthrough.mpr (fun message hm => haddressed message (List.mem_of_mem_take hm)))
  obtain ⟨rest,hq',ha'⟩ := relayed_run hshown hlast
  have hempty : last.layer.channel.queue = [] := by
    have hl := (Fifo.run_outputs turn_shown hshown hlast).1.queue
    rw [hl, recvs_queue, ← hshown.queue, List.drop_length]
  have hstart : ((startLoop layer queue : Loop G1 P A).actions.filter
      SwarmAction.isRelayed).map some = [] := rfl
  refine ⟨last,hlast,hempty,?_⟩
  rw [recvs_sent, hempty, List.append_nil, List.append_nil, ← hshown.queue] at hq'
  rw [ha', ha, hq', hstart, List.nil_append, ← List.map_append, hq]
  rfl

end recvs

section started
attribute [local instance] compactJson constantBlake3 base16

theorem started_drained : ∃ next,
    loopRun .waiting (startLoop starterLayer []) (startedTurns.take 1) = some next ∧
      next.layer.channel.queue.length = 1 ∧
      ∃ last, loopRun .waiting next (List.replicate next.layer.channel.queue.length .recv) =
          some last ∧ last.layer.channel.queue = [] ∧
        (last.actions.filter SwarmAction.isRelayed).map some =
          ([] ++ sentBy starterLayer.nodes (startedTurns.take 1)).map relay := by
  obtain ⟨next,h,hl⟩ : ∃ next,
      loopRun .waiting (startLoop starterLayer []) (startedTurns.take 1) = some next ∧
        next.layer.channel.queue.length = 1 := by
    have hr : (loopRun .waiting (startLoop starterLayer []) (startedTurns.take 1)).any
        (fun next => next.layer.channel.queue.length = 1) = true := by decide
    obtain ⟨next,hn,hl⟩ := (Option.any_eq_true _ _).mp hr
    exact ⟨next,hn,decide_eq_true_eq.mp hl⟩
  exact ⟨next,h,hl,drained (fun _ hm => absurd hm List.not_mem_nil) h⟩

end started
end MpcNode.Network
