import MpcNode.AdkgHonest
import MpcNode.AdkgRuns
import MpcNode.Library.Gossip

/-!
# A network of runs of the first layer

Every node runs the loop and hears what the others publish, once, often,
late or never. Lines may be typed, peers come and go, and any publication may
be refused, which ends the run. A typed line is taken to be none of the
layer's messages. The keys a node ever holds are then those of one set of
dealers, itself among them, up to its own share of its own dealing.
-/

set_option autoImplicit false

namespace MpcNode.Adkg
open MpcNode.Bls MpcNode.Guarded MpcNode.Messages MpcNode.Tables
open MpcNode.Dkg (Rng constantRng)
open MpcNode.Wire (Serde SerdeJson toVec fromSlice fromSlice_toVec)

variable {G1 P : Type}

/-- A run, and the outcome of the call it ended at. -/
structure Runner (G1 P : Type) where
  state : RunState G1 P
  halted : Option (Outcome MapLock String Unit)

def stopOf : Outcome MapLock String Unit → Option (Outcome MapLock String Unit)
  | .ok () => none
  | o => some o

def Runner.after (call : RunCall G1 P Unit) (s : RunState G1 P) : Runner G1 P :=
  let r := call (Env.top .waiting) s
  ⟨r.2,stopOf r.1⟩

/-- Both topics are subscribed to, and a message is read whatever its topic. -/
def Runner.published (runner : Runner G1 P) : List Bytes :=
  runner.state.calls.filterMap (fun
    | .publish _ data => some data
    | _ => none)

theorem mem_published {runner : Runner G1 P} {data : Bytes} :
    data ∈ runner.published ↔ ∃ topic, .publish topic data ∈ runner.state.calls := by
  rw [Runner.published, List.mem_filterMap]
  constructor
  · rintro ⟨c,hc,hd⟩
    cases c with
    | publish topic payload =>
      obtain rfl := Option.some.inj hd
      exact ⟨topic,hc⟩
    | _ => cases hd
  · rintro ⟨topic,hc⟩
    exact ⟨_,hc,rfl⟩

def LoopEvent.payload : LoopEvent P → Option Bytes
  | .message data => some data
  | _ => none

section system
variable [G1Group G1] [Serde Scalar] [Serde G1] [SerdeJson]

variable (G1) in
def PlainLine (turn : LoopTurn P) : Prop :=
  ∀ text, turn.1 = .line text → fromSlice (ADKGMessage G1) text = none

variable (G1 P) in
abbrev PlainTurn : Type := {turn : LoopTurn P // PlainLine G1 turn}

def Runner.start (id : String) (n t : Usize) (idx : UInt64) (rng : Rng) (refusal : Option String) :
    Runner G1 P :=
  .after (onNode refusal (startADKG rng)) ⟨.new id n t idx,[],[]⟩

variable [DecidableEq P]

def Runner.turn (runner : Runner G1 P) (turn : LoopTurn P) : Runner G1 P :=
  match runner.halted with
  | some _ => runner
  | none => .after (handleEvent turn.2 turn.1) runner.state

def runners (n : ℕ) : Gossip.System (Fin n) (Runner G1 P) (PlainTurn G1 P) Bytes where
  step _ runner turn := runner.turn turn.1
  published := Runner.published
  heard turn := turn.1.1.payload

theorem turn_running {runner : Runner G1 P} (h : runner.halted = none) (turn : LoopTurn P) :
    runner.turn turn = .after (handleEvent turn.2 turn.1) runner.state := by
  rw [Runner.turn, h]

end system

section honest
variable [G1Group G1] {total : Usize}

/-- The proposal of a node, or its acknowledgement of another one's. -/
def Says (ids : Fin total.toNat → String) (t : Usize) (rng : Fin total.toNat → Rng)
    (i : Fin total.toNat) (msg : ADKGMessage G1) : Prop :=
  msg = proposal (members ids t i) (rng i) ∨ ∃ d, d ≠ i ∧ msg = .shareAck (ids i) (ids d) true

variable {ids : Fin total.toNat → String} {t : Usize} {rng : Fin total.toNat → Rng}
  {i : Fin total.toNat}

/-- No keys, or those of some dealers, the node's own share left out. -/
def Keyed (t : Usize) (rng : Fin total.toNat → Rng) (i : Fin total.toNat) (node : ADKGNode G1) :
    Prop :=
  (node.secretKeyShare = none ∧ node.publicKey = none) ∨
    ∃ S, i ∉ S ∧
      node.secretKeyShare = some (∑ d ∈ S, evaluatePolynomial (drawnBy t (rng d)) (number i)) ∧
      node.publicKey = some (∑ d ∈ insert i S, (drawnBy t (rng d)).headD 0•generator)

/-- A node that has heard only what the others say. -/
def Honest (ids : Fin total.toNat → String) (t : Usize) (rng : Fin total.toNat → Rng)
    (i : Fin total.toNat) (node : ADKGNode G1) : Prop :=
  Keyed t rng i node ∧ ∃ S, i ∉ S ∧ Knows ids t rng i S (insert i S) node

theorem honest_start (hids : Function.Injective ids) :
    Honest ids t rng i ((members ids t i : ADKGNode G1).keepOwn (rng i)) :=
  ⟨Or.inl ⟨rfl,rfl⟩,∅,Finset.notMem_empty i,knows_start hids knows_new⟩

theorem honest_proposal (hids : Function.Injective ids) {node : ADKGNode G1}
    (h : Honest ids t rng i node) {d : Fin total.toNat} (hd : d ≠ i) :
    Honest ids t rng i (node.take (proposal (members ids t d) (rng d))) := by
  obtain ⟨hkeyed,S,hi,hk⟩ := h
  have hsame : (node.take (proposal (members ids t d) (rng d))).secretKeyShare =
        node.secretKeyShare ∧
      (node.take (proposal (members ids t d) (rng d))).publicKey = node.publicKey := by
    rw [member_proposal, ADKGNode.take, member_accepted hk.idx]
    exact ⟨rfl,rfl⟩
  refine ⟨?_,insert d S,?_,?_⟩
  · rw [Keyed, hsame.1, hsame.2]
    exact hkeyed
  · rw [Finset.mem_insert, not_or]
    exact ⟨hd.symm,hi⟩
  · rw [Finset.insert_comm]
    exact knows_proposal hids hk d

theorem honest_ack (hids : Function.Injective ids) {node : ADKGNode G1}
    (h : Honest ids t rng i node) (senderId receiverId : String) (valid : Bool) :
    Honest ids t rng i (node.take (.shareAck senderId receiverId valid)) := by
  obtain ⟨hkeyed,S,hi,hk⟩ := h
  refine ⟨?_,S,hi,knows_ack hk rfl⟩
  rw [ADKGNode.take]
  by_cases hr : receiverId = node.id
  · rw [if_pos hr, ADKGNode.checked]
    by_cases ht : (node.pushAck senderId valid).t.toNat ≤ (node.pushAck senderId valid).validAcks
    · have hshare := shareSum_knows hids hk
      have hsum := commitmentsSum_knows hids hk
      have hkey : (node.pushAck senderId valid).commitmentsSum =
          some (∑ d ∈ insert i S, (drawnBy t (rng d)).headD 0•generator) := hsum
      rw [if_pos ht, hkey]
      exact Or.inr ⟨S,hi,congrArg some hshare,rfl⟩
    · rw [if_neg ht]
      exact hkeyed
  · rw [if_neg hr]
    exact hkeyed

/-- An honest node withstands what the others say, unless a publication is
refused. -/
theorem honest_withstands (hids : Function.Injective ids) {node : ADKGNode G1}
    (h : Honest ids t rng i node) (msg : ADKGMessage G1) : node.Withstands none msg := by
  obtain ⟨-,S,-,hk⟩ := h
  cases msg with
  | shareProposal senderId shares commitments => exact fun _ => rfl
  | shareAck senderId receiverId valid =>
    intro _ _ dealer hd
    have hnone := (commitmentsSum_none node).mpr ⟨dealer,hd⟩
    rw [commitmentsSum_knows hids hk] at hnone
    cases hnone

/-- What an honest node answers. -/
theorem honest_reply {node : ADKGNode G1} (h : Honest ids t rng i node) {j : Fin total.toNat}
    (hj : j ≠ i) {msg : ADKGMessage G1} (hm : Says ids t rng j msg) :
    ∀ answer ∈ reply node msg, Says ids t rng i answer := by
  obtain ⟨-,S,-,hk⟩ := h
  intro answer ha
  rcases hm with rfl | ⟨d,-,rfl⟩
  · rw [member_proposal, reply, member_accepted hk.idx, if_pos Option.isSome_some,
      List.mem_singleton] at ha
    rw [ha, ackOf, hk.id]
    exact Or.inr ⟨j,hj,rfl⟩
  · cases ha

theorem honest_take (hids : Function.Injective ids) {node : ADKGNode G1}
    (h : Honest ids t rng i node) {j : Fin total.toNat} (hj : j ≠ i) {msg : ADKGMessage G1}
    (hm : Says ids t rng j msg) : Honest ids t rng i (node.take msg) := by
  rcases hm with rfl | ⟨d,-,rfl⟩
  · exact honest_proposal hids h hj
  · exact honest_ack hids h _ _ _

end honest

section network
variable [G1Group G1] [Serde Scalar] [Serde G1] [SerdeJson] {total : Usize}

variable (G1) in
/-- What a node lets the others hear. -/
def Vouches (ids : Fin total.toNat → String) (t : Usize) (rng : Fin total.toNat → Rng)
    (i : Fin total.toNat) (data : Bytes) : Prop :=
  fromSlice (ADKGMessage G1) data = none ∨
    ∃ msg : ADKGMessage G1, Says ids t rng i msg ∧ data = toVec msg

/-- What ends a run. -/
def Refused (o : Outcome MapLock String Unit) : Prop :=
  ∃ e, o = .err ("Failed to publish message: " ++ e) ∨ o = .err ("Failed to publish ACK: " ++ e)

theorem quiet_published {node : ADKGNode G1} {turn : LoopTurn P} (hplain : PlainLine G1 turn)
    (hq : (turn.1.heard : Option (ADKGMessage G1)) = none) {topic : String} {data : Bytes}
    (hd : .publish topic data ∈ node.callsAt turn) : fromSlice (ADKGMessage G1) data = none := by
  have hsighting : ∀ (found : Bool) (peers : List P),
      .publish topic data ∉ peers.map (explicitly found) := by
    intro found peers hp
    obtain ⟨peer,-,hc⟩ := List.mem_map.mp hp
    cases found <;> cases hc
  obtain ⟨e,refusal⟩ := turn
  cases e with
  | line text =>
    cases refusal with
    | none =>
      obtain ⟨-,hdata⟩ := BehaviourCall.publish.inj (List.mem_singleton.mp hd)
      rw [hdata]
      exact hplain text rfl
    | some error => cases hd
  | discovered peers => exact absurd hd (hsighting true peers)
  | expired peers => exact absurd hd (hsighting false peers)
  | message payload =>
    have hnone : fromSlice (ADKGMessage G1) payload = none := hq
    simp only [ADKGNode.callsAt, hnone] at hd
    cases hd
  | other => cases hd

theorem start_published (ids : Fin total.toNat → String) (t : Usize) (rng : Fin total.toNat → Rng)
    (i : Fin total.toNat) :
    (Runner.start (ids i) total t (number i) (rng i) none : Runner G1 P) =
      ⟨⟨(members ids t i).keepOwn (rng i),[],
        [.publish adkgTopic (toVec (proposal (members ids t i : ADKGNode G1) (rng i)))]⟩,none⟩ := by
  have hs := startADKG_published
    (c := (⟨members ids t i,⟨[],none⟩⟩ : Session G1)) rfl .waiting (rng i)
  rw [Runner.start, Runner.after, onNode_run hs]
  rfl

theorem start_refused (ids : Fin total.toNat → String) (t : Usize) (rng : Fin total.toNat → Rng)
    (i : Fin total.toNat) (e : String) :
    (Runner.start (ids i) total t (number i) (rng i) (some e) : Runner G1 P) =
      ⟨⟨members ids t i,[],[]⟩,some (.err ("Failed to publish message: " ++ e))⟩ := by
  have hs := startADKG_refused
    (c := (⟨members ids t i,⟨[],some e⟩⟩ : Session G1)) rfl .waiting (rng i)
  rw [Runner.start, Runner.after, onNode_run hs]
  rfl

variable [DecidableEq P]

/-- A run of the network, going on or ended. -/
structure Sound (ids : Fin total.toNat → String) (t : Usize) (rng : Fin total.toNat → Rng)
    (i : Fin total.toNat) (runner : Runner G1 P) : Prop where
  node : Honest ids t rng i runner.state.node ∨
    runner.halted ≠ none ∧ runner.state.node = members ids t i
  peerList : ∃ sightings, runner.state.peerList = standing sightings
  published : ∀ data ∈ runner.published, Vouches G1 ids t rng i data
  stops : ∀ o, runner.halted = some o → Refused o

variable {ids : Fin total.toNat → String} {t : Usize} {rng : Fin total.toNat → Rng}
  {i : Fin total.toNat}

theorem sound_start (hids : Function.Injective ids) (refusal : Option String) :
    Sound ids t rng i (Runner.start (ids i) total t (number i) (rng i) refusal : Runner G1 P) := by
  cases refusal with
  | none =>
    rw [start_published]
    refine ⟨Or.inl (honest_start hids),⟨[],rfl⟩,?_,fun o ho => by cases ho⟩
    intro data hd
    obtain rfl := List.mem_singleton.mp hd
    exact Or.inr ⟨_,Or.inl rfl,rfl⟩
  | some e =>
    rw [start_refused]
    refine ⟨Or.inr ⟨by simp,rfl⟩,⟨[],rfl⟩,(fun data hd => by cases hd),fun o ho => ?_⟩
    obtain rfl := Option.some.inj ho
    exact ⟨e,Or.inl rfl⟩

theorem sound_quiet {runner : Runner G1 P} (h : Sound ids t rng i runner)
    (hrun : runner.halted = none) {turn : LoopTurn P} (hplain : PlainLine G1 turn)
    (hq : (turn.1.heard : Option (ADKGMessage G1)) = none) :
    Sound ids t rng i (runner.turn turn) := by
  obtain ⟨sightings,hs⟩ := h.peerList
  have hquiet := quiet_run .waiting hs runner.state.node hq
  rw [turn_running hrun, Runner.after, hquiet]
  refine ⟨?_,⟨_,rfl⟩,?_,fun o ho => by cases ho⟩
  · rcases h.node with hnode | ⟨hstopped,-⟩
    · exact Or.inl hnode
    · exact absurd hrun hstopped
  · intro data hd
    obtain ⟨topic,hc⟩ := mem_published.mp hd
    rcases List.mem_append.mp hc with hc | hc
    · exact h.published data (mem_published.mpr ⟨topic,hc⟩)
    · exact Or.inl (quiet_published hplain hq hc)

/-- A turn that gives the node what another one says. -/
theorem sound_heard (hids : Function.Injective ids) {runner : Runner G1 P}
    (h : Sound ids t rng i runner) (hrun : runner.halted = none) {turn : LoopTurn P}
    {msg : ADKGMessage G1} (hm : turn.1.heard = some msg) {j : Fin total.toNat} (hj : j ≠ i)
    (hspoken : Says ids t rng j msg) : Sound ids t rng i (runner.turn turn) := by
  have hnode : Honest ids t rng i runner.state.node := by
    rcases h.node with hnode | ⟨hstopped,-⟩
    · exact hnode
    · exact absurd hrun hstopped
  have hafter := honest_take hids hnode hj hspoken
  rw [← handleMessage_node .waiting msg ⟨runner.state.node,⟨[],turn.2⟩⟩] at hafter
  have houtcome := message_outcome .waiting (honest_withstands hids hnode msg) turn.2
  rw [turn_running hrun, Runner.after, (heard_run hm).1, onNode]
  refine ⟨Or.inl hafter,h.peerList,?_,?_⟩
  · intro data hd
    obtain ⟨topic,hc⟩ := mem_published.mp hd
    rcases List.mem_append.mp hc with hc | hc
    · exact h.published data (mem_published.mpr ⟨topic,hc⟩)
    · obtain ⟨p,hp,hcall⟩ := List.mem_map.mp hc
      obtain ⟨-,hdata⟩ := BehaviourCall.publish.inj hcall
      rcases houtcome with ⟨-,hpublished⟩ | ⟨e,-,-,hpublished⟩
      · rw [hpublished] at hp
        obtain ⟨answer,hanswer,rfl⟩ := List.mem_map.mp hp
        exact Or.inr ⟨answer,honest_reply hnode hj hspoken answer hanswer,hdata.symm⟩
      · rw [hpublished] at hp
        cases hp
  · intro o ho
    rcases houtcome with ⟨hok,-⟩ | ⟨e,-,herr,-⟩
    · dsimp only at ho
      rw [hok] at ho
      cases ho
    · dsimp only at ho
      rw [herr] at ho
      obtain rfl := Option.some.inj ho
      exact ⟨e,Or.inr rfl⟩

theorem sound_turn (hids : Function.Injective ids) {runner : Runner G1 P}
    (h : Sound ids t rng i runner) (turn : PlainTurn G1 P)
    (hheard : ∀ data ∈ turn.1.1.payload, ∃ j, j ≠ i ∧ Vouches G1 ids t rng j data) :
    Sound ids t rng i (runner.turn turn.1) := by
  cases hhalted : runner.halted with
  | some o =>
    rw [Runner.turn, hhalted]
    exact h
  | none =>
    cases hm : (turn.1.1.heard : Option (ADKGMessage G1)) with
    | none => exact sound_quiet h hhalted turn.2 hm
    | some msg =>
      obtain ⟨⟨e,refusal⟩,hplain⟩ := turn
      cases e with
      | message data =>
        have hd : fromSlice (ADKGMessage G1) data = some msg := hm
        obtain ⟨j,hj,hnone | ⟨said,hspoken,rfl⟩⟩ := hheard data rfl
        · rw [hnone] at hd
          cases hd
        · rw [fromSlice_toVec] at hd
          obtain rfl := Option.some.inj hd
          exact sound_heard hids h hhalted hm hj hspoken
      | _ => cases hm

theorem sound_runs (hids : Function.Injective ids) {refusals : Fin total.toNat → Option String}
    {s : Fin total.toNat → Runner G1 P}
    (h : (runners total.toNat).Reaches
      (fun i => .start (ids i) total t (number i) (rng i) (refusals i)) s)
    (i : Fin total.toNat) : Sound ids t rng i (s i) :=
  Gossip.reaches_invariant (I := fun i runner => Sound ids t rng i runner)
    (G := fun i data => Vouches G1 ids t rng i data)
    (fun i => sound_start hids (refusals i)) (fun _ _ hs => hs.published)
    (fun _ _ turn hs hheard => sound_turn hids hs turn hheard) h i

/-- In every state the network reaches, a node's keys are those of one set of
dealers it belongs to: with its own share of its own dealing, which it never
adds, its key share is on their polynomial, and its public key is of that
polynomial's secret. -/
theorem keys_of_dealers (hids : Function.Injective ids)
    {refusals : Fin total.toNat → Option String} {s : Fin total.toNat → Runner G1 P}
    (h : (runners total.toNat).Reaches
      (fun i => .start (ids i) total t (number i) (rng i) (refusals i)) s)
    (i : Fin total.toNat) :
    ((s i).state.node.secretKeyShare = none ∧ (s i).state.node.publicKey = none) ∨
      ∃ dealers share, i ∈ dealers ∧ (s i).state.node.secretKeyShare = some share ∧
        share+evaluatePolynomial (drawnBy t (rng i)) (number i) =
          ∑ d ∈ dealers, evaluatePolynomial (drawnBy t (rng d)) (number i) ∧
        (s i).state.node.publicKey =
          some (∑ d ∈ dealers, (drawnBy t (rng d)).headD 0•generator) := by
  rcases (sound_runs hids h i).node with ⟨hkeyed,-⟩ | ⟨-,hnew⟩
  · rcases hkeyed with hnone | ⟨S,hi,hshare,hkey⟩
    · exact Or.inl hnone
    · refine Or.inr ⟨insert i S,_,Finset.mem_insert_self i S,hshare,?_,hkey⟩
      rw [Finset.sum_insert hi, add_comm]
  · rw [hnew]
    exact Or.inl ⟨rfl,rfl⟩

/-- In every state the network reaches, a run that ended was refused a
publication: none panics or waits for ever. What a node let the others hear
is its proposal, or its acknowledgement of another node's. -/
theorem ends_refused (hids : Function.Injective ids)
    {refusals : Fin total.toNat → Option String} {s : Fin total.toNat → Runner G1 P}
    (h : (runners total.toNat).Reaches
      (fun i => .start (ids i) total t (number i) (rng i) (refusals i)) s)
    (i : Fin total.toNat) :
    ((s i).halted = none ∨ ∃ e, (s i).halted = some (.err ("Failed to publish message: " ++ e)) ∨
      (s i).halted = some (.err ("Failed to publish ACK: " ++ e))) ∧
    ∀ data ∈ (s i).published, ∀ msg, fromSlice (ADKGMessage G1) data = some msg →
      msg = proposal (members ids t i) (rng i) ∨
        ∃ d, d ≠ i ∧ msg = .shareAck (ids i) (ids d) true := by
  have hsound := sound_runs hids h i
  constructor
  · cases hhalted : (s i).halted with
    | none => exact Or.inl rfl
    | some o =>
      obtain ⟨e,rfl | rfl⟩ := hsound.stops o hhalted
      · exact Or.inr ⟨e,Or.inl rfl⟩
      · exact Or.inr ⟨e,Or.inr rfl⟩
  · intro data hd msg hm
    rcases hsound.published data hd with hnone | ⟨said,hspoken,rfl⟩
    · rw [hnone] at hm
      cases hm
    · rw [fromSlice_toVec] at hm
      obtain rfl := Option.some.inj hm
      exact hspoken

end network

section two
attribute [local instance] MpcNode.Wire.compactJson scalarArrays pointArrays

def twoRunners (i : Fin (2 : Usize).toNat) : Runner LogPoint ℕ :=
  .start (pairIds i) 2 1 (number i) (pairRng i) none

theorem twoRunners_published (i : Fin (2 : Usize).toNat) :
    toVec (pairProposal i) ∈ (twoRunners i).published := by
  rw [twoRunners, start_published]
  exact List.mem_singleton_self _

theorem twoRunners_honest (i : Fin (2 : Usize).toNat) :
    Honest pairIds 1 pairRng i (twoRunners i).state.node := by
  rw [twoRunners, start_published]
  exact honest_start (by decide)

def telling (msg : ADKGMessage LogPoint) : PlainTurn LogPoint ℕ :=
  ⟨(.message (toVec msg),none),fun _ h => by cases h⟩

theorem telling_turn {runner : Runner LogPoint ℕ} (h : runner.halted = none)
    (msg : ADKGMessage LogPoint) : runner.turn (telling msg).1 =
      .after (onNode none (handleMessage msg)) runner.state := by
  have hm : ((.message (toVec msg),none) : LoopTurn ℕ).1.heard = some msg := fromSlice_toVec msg
  rw [turn_running h, telling, (heard_run hm).1]

theorem telling_reaches {s : Fin (2 : Usize).toNat → Runner LogPoint ℕ}
    (hs : (runners (2 : Usize).toNat).Reaches twoRunners s) {i j : Fin (2 : Usize).toNat}
    (hj : j ≠ i) {msg : ADKGMessage LogPoint} (hp : toVec msg ∈ (s j).published) :
    (runners (2 : Usize).toNat).Reaches twoRunners
      (Function.update s i ((s i).turn (telling msg).1)) := by
  refine Gossip.System.Reaches.step (i := i) (e := telling msg) hs ?_
  intro data hd
  obtain rfl := Option.some.inj hd
  exact ⟨j,hj,hp⟩

def twoTold : Fin (2 : Usize).toNat → Runner LogPoint ℕ :=
  Function.update twoRunners right ((twoRunners right).turn (telling (pairProposal left)).1)

theorem left_ne_right : left ≠ right := by decide

theorem twoTold_reached : (runners (2 : Usize).toNat).Reaches twoRunners twoTold :=
  telling_reaches .init left_ne_right (twoRunners_published left)

theorem twoTold_right : (twoTold right).halted = none ∧ (twoTold right).published =
    [toVec (pairProposal right),toVec (.shareAck "2" "1" true : ADKGMessage LogPoint)] := by
  have hwithstands := honest_withstands (by decide) (twoRunners_honest right) (pairProposal left)
  have hreply : reply (twoRunners right).state.node (pairProposal left) =
      [.shareAck "2" "1" true] := by
    rw [twoRunners, start_published]
    exact (reply_congr rfl rfl _).trans (member_reply right left (pairRng left))
  rw [twoTold, Function.update_self, telling_turn rfl, Runner.after, onNode]
  obtain ⟨hok,hp⟩ | ⟨e,he,-⟩ := message_outcome .waiting hwithstands none
  · rw [hreply] at hp
    dsimp only
    rw [hok, Runner.published]
    dsimp only
    rw [hp, twoRunners, start_published]
    exact ⟨rfl,rfl⟩
  · cases he

def twoAnswered : Fin (2 : Usize).toNat → Runner LogPoint ℕ :=
  Function.update twoTold left ((twoTold left).turn (telling (pairProposal right)).1)

def twoKeyed : Fin (2 : Usize).toNat → Runner LogPoint ℕ :=
  Function.update twoAnswered left
    ((twoAnswered left).turn (telling (.shareAck "2" "1" true)).1)

theorem twoKeyed_reached : (runners (2 : Usize).toNat).Reaches twoRunners twoKeyed := by
  have hanswered : (runners (2 : Usize).toNat).Reaches twoRunners twoAnswered := by
    refine telling_reaches twoTold_reached left_ne_right.symm ?_
    rw [twoTold_right.2]
    exact List.mem_cons_self ..
  refine telling_reaches hanswered left_ne_right.symm ?_
  rw [twoAnswered, Function.update_of_ne left_ne_right.symm, twoTold_right.2]
  simp

/-- The first node has keys then. -/
theorem two_keys_of_dealers : ∃ s, (runners (2 : Usize).toNat).Reaches twoRunners s ∧
    (s left).state.node.secretKeyShare ≠ none ∧ ∀ i,
      ((s i).state.node.secretKeyShare = none ∧ (s i).state.node.publicKey = none) ∨
      ∃ dealers share, i ∈ dealers ∧ (s i).state.node.secretKeyShare = some share ∧
        share+evaluatePolynomial (drawnBy 1 (pairRng i)) (number i) =
          ∑ d ∈ dealers, evaluatePolynomial (drawnBy 1 (pairRng d)) (number i) ∧
        (s i).state.node.publicKey =
          some (∑ d ∈ dealers, (drawnBy 1 (pairRng d)).headD 0•generator) := by
  refine ⟨twoKeyed,twoKeyed_reached,?_,keys_of_dealers (by decide) twoKeyed_reached⟩
  have hleft : twoTold left = twoRunners left := Function.update_of_ne left_ne_right _ _
  have hanswered : twoAnswered left =
      .after (onNode none (handleMessage (pairProposal right))) (twoRunners left).state := by
    rw [twoAnswered, Function.update_self, hleft, telling_turn rfl]
  have hgoes : (twoAnswered left).halted = none := by
    rw [hanswered]
    decide +kernel
  rw [twoKeyed, Function.update_self, telling_turn hgoes, hanswered]
  decide +kernel

theorem two_ends_refused : ∃ s, (runners (2 : Usize).toNat).Reaches twoRunners s ∧ ∀ i,
    ((s i).halted = none ∨ ∃ e, (s i).halted = some (.err ("Failed to publish message: " ++ e)) ∨
      (s i).halted = some (.err ("Failed to publish ACK: " ++ e))) ∧
    ∀ data ∈ (s i).published, ∀ msg, fromSlice (ADKGMessage LogPoint) data = some msg →
      msg = proposal (members pairIds 1 i) (pairRng i) ∨
        ∃ d, d ≠ i ∧ msg = .shareAck (pairIds i) (pairIds d) true :=
  ⟨_,twoTold_reached,ends_refused (by decide) twoTold_reached⟩

end two
end MpcNode.Adkg
