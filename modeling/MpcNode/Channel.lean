import MpcNode.Library.Guarded
import MpcNode.Wire

/-!
# Locks, errors and the outgoing channel

The guards a handler of the node can await, the errors it can return, and
the channel to the network loop. A call runs on a node together with its
channel and with the results of the sums it has formed, which the code
computes and drops.
-/

set_option autoImplicit false

namespace MpcNode.Channels
open MpcNode.Guarded MpcNode.Messages

inductive Lock where
  | validations
  | shares
  | commitments
  | signingCommitments
  | signatureShares
  | peers
  deriving DecidableEq, Repr

inductive Error where
  | sendError (message : ChannelMessage)
  | other (text : String)
  deriving DecidableEq

structure Channel where
  queue : List ChannelMessage
  capacity : ℕ
  closed : Bool
  deriving DecidableEq

/-- `mpsc::channel(100)`. -/
def Channel.empty : Channel := ⟨[],100,false⟩

def Channel.Room (channel : Channel) : Prop := channel.queue.length < channel.capacity

instance (channel : Channel) : Decidable channel.Room :=
  inferInstanceAs (Decidable (_ < _))

theorem empty_room : Channel.empty.Room := by decide

def Channel.push (channel : Channel) (message : ChannelMessage) : Channel :=
  { channel with queue := channel.queue ++ [message] }

/-- `Sender::send`. On a full queue it waits for the receiver. -/
def Channel.send (channel : Channel) (message : ChannelMessage) :
    Outcome Lock Error Unit × Channel :=
  if channel.closed then (.err (.sendError message),channel)
  else if channel.Room then (.ok (),channel.push message)
  else (.pending,channel)

def Channel.Open (channel : Channel) : Prop := channel.closed = false

theorem channel_send_room {channel : Channel} (ho : channel.Open) (hr : channel.Room)
    (message : ChannelMessage) : channel.send message = (.ok (),channel.push message) := by
  have ho' : channel.closed = false := ho
  simp [Channel.send, ho', hr]

theorem channel_send_full {channel : Channel} (ho : channel.Open) (hr : ¬ channel.Room)
    (message : ChannelMessage) : channel.send message = (.pending,channel) := by
  have ho' : channel.closed = false := ho
  simp [Channel.send, ho', hr]

theorem channel_send_closed {channel : Channel} (h : ¬ channel.Open) (message : ChannelMessage) :
    channel.send message = (.err (.sendError message),channel) := by
  have h' : channel.closed = true := by simpa [Channel.Open] using h
  simp [Channel.send, h']

theorem channel_send_ok_iff (channel : Channel) (message : ChannelMessage) :
    (channel.send message).1 = .ok () ↔ channel.Open ∧ channel.Room := by
  by_cases ho : channel.Open
  · by_cases hr : channel.Room
    · simp [channel_send_room ho hr, ho, hr]
    · simp [channel_send_full ho hr, ho, hr]
  · simp [channel_send_closed ho, ho]

theorem channel_send_pending_iff (channel : Channel) (message : ChannelMessage) :
    (channel.send message).1 = .pending ↔ channel.Open ∧ ¬ channel.Room := by
  by_cases ho : channel.Open
  · by_cases hr : channel.Room
    · simp [channel_send_room ho hr, ho, hr]
    · simp [channel_send_full ho hr, ho, hr]
  · simp [channel_send_closed ho, ho]

/-- `Receiver::recv` on a channel that does not wait for a sender. -/
def Channel.recv (channel : Channel) : Option ChannelMessage × Channel :=
  (channel.queue.head?,{ channel with queue := channel.queue.tail })

structure Ctx (N K : Type) where
  node : N
  channel : Channel
  results : List K

abbrev Call (N K α : Type) := Handler Lock Error (Ctx N K) α

variable {N K : Type}

def Ctx.fresh (node : N) (channel : Channel) : Ctx N K := ⟨node,channel,[]⟩

@[simp] theorem fresh_node (node : N) (channel : Channel) :
    (Ctx.fresh node channel : Ctx N K).node = node := rfl

@[simp] theorem fresh_channel (node : N) (channel : Channel) :
    (Ctx.fresh node channel : Ctx N K).channel = channel := rfl

def update (f : N → N) : Call N K Unit := Handler.modify (fun c => { c with node := f c.node })

def record (k : K) : Call N K Unit :=
  Handler.modify (fun c => { c with results := c.results ++ [k] })

def node : Call N K N := fun _ c => (.ok c.node,c)

def send (message : ChannelMessage) : Call N K Unit := fun _ c =>
  ((c.channel.send message).1,{ c with channel := (c.channel.send message).2 })

def broadcast (topic : String) (data : Bytes) : Call N K Unit := send (.broadcast topic data)

@[simp] theorem update_run (f : N → N) (env : Env Lock) (c : Ctx N K) :
    update f env c = (.ok (),{ c with node := f c.node }) := rfl

@[simp] theorem node_run (env : Env Lock) (c : Ctx N K) : node env c = (.ok c.node,c) := rfl

theorem send_room (message : ChannelMessage) (env : Env Lock) (c : Ctx N K)
    (ho : c.channel.closed = false) (hr : c.channel.Room) :
    send message env c = (.ok (),{ c with channel := c.channel.push message }) := by
  rw [send, channel_send_room ho hr]

theorem send_full (message : ChannelMessage) (env : Env Lock) (c : Ctx N K)
    (ho : c.channel.closed = false) (hr : ¬ c.channel.Room) :
    send message env c = (.pending,c) := by
  rw [send, channel_send_full ho hr]

theorem send_closed (message : ChannelMessage) (env : Env Lock) (c : Ctx N K)
    (h : c.channel.closed = true) :
    send message env c = (.err (.sendError message),c) := by
  rw [send, channel_send_closed (by simp [Channel.Open, h])]

/-- A send fails exactly on a closed channel. -/
theorem send_failed_iff (message : ChannelMessage) (env : Env Lock) (c : Ctx N K) {P : Prop} :
    (∀ e, (send message env c).1 = .err e → P) ↔ (c.channel.closed = true → P) := by
  by_cases hc : c.channel.closed = true
  · rw [send_closed message env c hc]
    simp [hc]
  · have ho : c.channel.closed = false := by simpa using hc
    by_cases hr : c.channel.Room
    · rw [send_room message env c ho hr]
      simp [ho]
    · rw [send_full message env c ho hr]
      simp [ho]

@[simp] theorem send_node (message : ChannelMessage) (env : Env Lock) (c : Ctx N K) :
    (send message env c).2.node = c.node := rfl

@[simp] theorem send_results (message : ChannelMessage) (env : Env Lock) (c : Ctx N K) :
    (send message env c).2.results = c.results := rfl

end MpcNode.Channels
