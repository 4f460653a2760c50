import MpcNode.AdkgLoop
import MpcNode.AdkgRecord

/-!
# Whole runs of the first layer

What a run that goes on has published, which peers it lists and what its node
holds follow from the events alone, and so does whether it goes on: no
acknowledgement of its own may be refused, and no count may become complete
while the last commitments kept from some dealer are none.
-/

set_option autoImplicit false

namespace MpcNode.Adkg
open MpcNode.Bls MpcNode.Guarded MpcNode.Messages MpcNode.Tables
open MpcNode.Dkg (Rng commitmentSum constantRng)
open MpcNode.Wire (Serde SerdeJson toVec fromSlice)
open MpcNode.Guarded.Handler (bind_ok)

variable {G1 P : Type}

/-- Which peers an event names, and whether as found or as gone. -/
def LoopEvent.sightings : LoopEvent P → List (P × Bool)
  | .discovered peers => peers.map (fun peer => (peer,true))
  | .expired peers => peers.map (fun peer => (peer,false))
  | _ => []

def sightingsOf (turns : List (LoopTurn P)) : List (P × Bool) :=
  turns.flatMap (fun turn => turn.1.sightings)

def toldOf : BehaviourCall P → Option (P × Bool)
  | .publish _ _ => none
  | .addExplicitPeer peer => some (peer,true)
  | .removeExplicitPeer peer => some (peer,false)

theorem sightPeers_run [DecidableEq P] (found : Bool) (peers : List P) {s : RunState G1 P}
    {sightings : List (P × Bool)} (h : s.peerList = standing sightings) :
    peers.foldl (sightPeer found) s =
      ⟨s.node,standing (sightings ++ peers.map (fun peer => (peer,found))),
        s.calls ++ peers.map (explicitly found)⟩ := by
  induction peers generalizing s sightings with
  | nil =>
    rw [List.foldl_nil, List.map_nil, List.map_nil, List.append_nil, List.append_nil, ← h]
  | cons peer peers ih =>
    have hone : (sightPeer found s peer).peerList = standing (sightings++[(peer,found)]) := by
      rw [standing_snoc, ← h]
      rfl
    rw [List.foldl_cons, ih hone, List.map_cons, List.map_cons, List.append_assoc,
      List.singleton_append]
    simp [sightPeer, RunState.call]

theorem reply_congr [G1Group G1] {first node : ADKGNode G1} (hid : node.id = first.id)
    (hidx : node.idx = first.idx) (msg : ADKGMessage G1) : reply node msg = reply first msg := by
  cases msg with
  | shareProposal senderId shares commitments =>
    rw [reply, reply, accepted_of_idx hidx, ackOf, ackOf, hid]
  | shareAck senderId receiverId valid => rfl

theorem message_published [G1Group G1] {policy : Policy} {node : ADKGNode G1}
    {refusal : Option String} {msg : ADKGMessage G1}
    (h : (handleMessage msg (Env.top policy) ⟨node,⟨[],refusal⟩⟩).1 = .ok ()) :
    (handleMessage msg (Env.top policy) ⟨node,⟨[],refusal⟩⟩).2.swarm.published =
      (reply node msg).map (fun m => (adkgTopic,m)) := by
  have hw := (message_ok_iff policy node refusal msg).mp h
  cases msg with
  | shareProposal senderId shares commitments =>
    rw [reply]
    cases ha : node.accepted shares commitments with
    | none =>
      rw [proposal_rejected (c := ⟨node,⟨[],refusal⟩⟩) ha]
      rfl
    | some share =>
      obtain rfl := hw (by rw [ha]; rfl)
      rw [proposal_accepted (c := ⟨node,⟨[],none⟩⟩) ha]
      rfl
  | shareAck senderId receiverId valid =>
    by_cases hr : receiverId = node.id
    · subst hr
      have hrun := ack_counted policy ⟨node,⟨[],refusal⟩⟩ senderId valid
      rw [checkCompletion_run] at hrun
      dsimp only at hrun
      rw [hrun]
      rfl
    · rw [ack_ignored policy (c := ⟨node,⟨[],refusal⟩⟩) hr]
      rfl

/-- A refused publication is the one way in which a message that could be
answered fails. -/
theorem message_outcome [G1Group G1] (policy : Policy) {node : ADKGNode G1} {msg : ADKGMessage G1}
    (h : node.Withstands none msg) (refusal : Option String) :
    let r := handleMessage msg (Env.top policy) ⟨node,⟨[],refusal⟩⟩
    (r.1 = .ok () ∧ r.2.swarm.published = (reply node msg).map (fun m => (adkgTopic,m))) ∨
      ∃ e, refusal = some e ∧ r.1 = .err ("Failed to publish ACK: " ++ e) ∧
        r.2.swarm.published = [] := by
  by_cases hw : node.Withstands refusal msg
  · have hok := (message_ok_iff policy node refusal msg).mpr hw
    exact Or.inl ⟨hok,message_published hok⟩
  · cases refusal with
    | none => exact absurd h hw
    | some e =>
      cases msg with
      | shareProposal senderId shares commitments =>
        obtain ⟨share,ha⟩ := Option.isSome_iff_exists.mp (Classical.not_imp.mp hw).1
        refine Or.inr ⟨e,rfl,?_⟩
        rw [proposal_accepted (c := ⟨node,⟨[],some e⟩⟩) ha]
        exact ⟨rfl,rfl⟩
      | shareAck senderId receiverId valid => exact absurd h hw

section runs
variable [G1Group G1] [Serde Scalar] [Serde G1] [SerdeJson]

def LoopEvent.heard : LoopEvent P → Option (ADKGMessage G1)
  | .message data => fromSlice (ADKGMessage G1) data
  | _ => none

def heardOver (turns : List (LoopTurn P)) : List (ADKGMessage G1) :=
  turns.filterMap (fun turn => turn.1.heard)

/-- What the behaviour takes in a turn. -/
def ADKGNode.callsAt (node : ADKGNode G1) (turn : LoopTurn P) : List (BehaviourCall P) :=
  match turn.1 with
  | .line text => if turn.2 = none then [.publish testNet text] else []
  | .discovered peers => peers.map (explicitly true)
  | .expired peers => peers.map (explicitly false)
  | .message data =>
    ((fromSlice (ADKGMessage G1) data).toList.flatMap (reply node)).map
      (fun msg => .publish adkgTopic (toVec msg))
  | .other => []

/-- What a run that goes on has come to after some turns. -/
structure Follows [DecidableEq P] (first : ADKGNode G1) (rng : Rng) (turns : List (LoopTurn P))
    (s : RunState G1 P) : Prop where
  node : Recorded first (generateCommitments (generatePolynomial first.t.toNat rng).1)
    (heardOver turns) s.node
  peerList : s.peerList = standing (sightingsOf turns)
  calls : s.calls =
    .publish adkgTopic (toVec (proposal first rng))::turns.flatMap first.callsAt

theorem told_calls (node : ADKGNode G1) (turn : LoopTurn P) :
    (node.callsAt turn).filterMap toldOf = turn.1.sightings := by
  have htold : ∀ (found : Bool) (peers : List P), (peers.map (explicitly found)).filterMap toldOf =
      peers.map (fun peer => (peer,found)) := by
    intro found peers
    rw [List.filterMap_map]
    have hone : (toldOf ∘ explicitly found) = some ∘ (fun peer : P => (peer,found)) := by
      funext peer
      cases found <;> rfl
    rw [hone, List.filterMap_eq_map]
  obtain ⟨e,refusal⟩ := turn
  cases e with
  | line text => cases refusal <;> rfl
  | discovered peers => exact htold true peers
  | expired peers => exact htold false peers
  | message data =>
    exact List.filterMap_map.trans (List.filterMap_eq_nil_iff.mpr (fun _ _ => rfl))
  | other => rfl

section turns
variable [DecidableEq P] {policy : Policy} {first : ADKGNode G1} {rng : Rng}

theorem follows_snoc {turns : List (LoopTurn P)} {s next : RunState G1 P} {turn : LoopTurn P}
    (h : Follows first rng turns s)
    (hnode : Recorded first (generateCommitments (generatePolynomial first.t.toNat rng).1)
      (heardOver turns ++ turn.1.heard.toList) next.node)
    (hlist : next.peerList = standing (sightingsOf turns ++ turn.1.sightings))
    (hcalls : next.calls = s.calls ++ first.callsAt turn) :
    Follows first rng (turns++[turn]) next := by
  refine ⟨?_,?_,?_⟩
  · have hheard : (heardOver (turns++[turn]) : List (ADKGMessage G1)) =
        heardOver turns ++ turn.1.heard.toList := by
      rw [heardOver, List.filterMap_append, ← heardOver]
      rfl
    rw [hheard]
    exact hnode
  · rw [hlist, sightingsOf, sightingsOf, List.flatMap_append, List.flatMap_singleton]
  · rw [hcalls, h.calls, List.flatMap_append, List.flatMap_singleton, List.cons_append]

theorem quiet_run (policy : Policy) {s : RunState G1 P} {sightings : List (P × Bool)}
    (h : s.peerList = standing sightings) (node : ADKGNode G1) {turn : LoopTurn P}
    (hq : (turn.1.heard : Option (ADKGMessage G1)) = none) :
    handleEvent turn.2 turn.1 (Env.top policy) s =
      (.ok (),⟨s.node,standing (sightings ++ turn.1.sightings),s.calls ++ node.callsAt turn⟩) := by
  obtain ⟨e,refusal⟩ := turn
  have hsame : s = ⟨s.node,standing (sightings++[]),s.calls++[]⟩ := by
    rw [List.append_nil, List.append_nil, ← h]
  cases e with
  | line text =>
    cases refusal with
    | none =>
      have hcall : s.call (.publish testNet text) =
          ⟨s.node,standing (sightings++[]),s.calls++[.publish testNet text]⟩ := by
        rw [List.append_nil, ← h]
        rfl
      exact Prod.ext rfl hcall
    | some error => exact Prod.ext rfl hsame
  | discovered peers => exact Prod.ext rfl (sightPeers_run true peers h)
  | expired peers => exact Prod.ext rfl (sightPeers_run false peers h)
  | message data =>
    have hd : fromSlice (ADKGMessage G1) data = none := hq
    simp only [handleEvent, ADKGNode.callsAt, hd]
    exact Prod.ext rfl hsame
  | other => exact Prod.ext rfl hsame

theorem heard_run {turn : LoopTurn P} {msg : ADKGMessage G1} (hm : turn.1.heard = some msg) :
    (handleEvent turn.2 turn.1 : RunCall G1 P Unit) = onNode turn.2 (handleMessage msg) ∧
      turn.1.sightings = [] ∧ ∀ node : ADKGNode G1, node.callsAt turn =
        (reply node msg).map (fun m => .publish adkgTopic (toVec m)) := by
  obtain ⟨e,refusal⟩ := turn
  cases e with
  | message data =>
    have hd : fromSlice (ADKGMessage G1) data = some msg := hm
    refine ⟨?_,rfl,fun node => ?_⟩
    · simp only [handleEvent, hd]
    · simp only [ADKGNode.callsAt, hd, Option.toList_some, List.flatMap_singleton]
  | _ => cases hm

/-- A turn returns if the node withstands what it is given. -/
theorem turn_isSome_iff (policy : Policy) {s : RunState G1 P} {turns : List (LoopTurn P)}
    (h : Follows first rng turns s) (turn : LoopTurn P) :
    (runTurn policy s turn).isSome ↔
      ∀ msg : ADKGMessage G1, turn.1.heard = some msg → s.node.Withstands turn.2 msg := by
  rw [runTurn, goOn_isSome]
  cases hm : (turn.1.heard : Option (ADKGMessage G1)) with
  | none =>
    rw [quiet_run policy h.peerList first hm]
    simp
  | some msg =>
    rw [(heard_run hm).1]
    exact (message_ok_iff policy s.node turn.2 msg).trans (by simp)

theorem turn_follows (s : RunState G1 P) (turns : List (LoopTurn P)) (turn : LoopTurn P)
    (next : RunState G1 P) (h : Follows first rng turns s)
    (ht : runTurn policy s turn = some next) : Follows first rng (turns++[turn]) next := by
  have hsome := (turn_isSome_iff policy h turn).mp (by rw [ht]; rfl)
  have hrun := goOn_some.mp ht
  cases hm : (turn.1.heard : Option (ADKGMessage G1)) with
  | none =>
    rw [quiet_run policy h.peerList first hm] at hrun
    obtain rfl := congrArg Prod.snd hrun
    refine follows_snoc h ?_ rfl rfl
    rw [hm, Option.toList_none, List.append_nil]
    exact h.node
  | some msg =>
    obtain ⟨he,hs,hc⟩ := heard_run (P := P) hm
    rw [he] at hrun
    have hok := (message_ok_iff policy s.node turn.2 msg).mpr (hsome msg hm)
    have hpublished := message_published hok
    obtain rfl := congrArg Prod.snd hrun
    refine follows_snoc h ?_ ?_ ?_
    · rw [hm, Option.toList_some]
      have hnode := recorded_take h.node (hsome msg hm)
      rw [← handleMessage_node policy msg ⟨s.node,⟨[],turn.2⟩⟩] at hnode
      exact hnode
    · rw [hs, List.append_nil]
      exact h.peerList
    · rw [hc, onNode]
      dsimp only
      rw [hpublished, reply_congr h.node.id h.node.idx, List.map_map]
      rfl

theorem start_follows (policy : Policy) (id : String) (n t : Usize) (idx : UInt64) (rng : Rng)
    (refusal : Option String) :
    ((goOn (onNode refusal (startADKG rng)) policy
      (⟨.new id n t idx,[],[]⟩ : RunState G1 P)).isSome ↔ refusal = none) ∧
    ∀ s : RunState G1 P,
      goOn (onNode refusal (startADKG rng)) policy ⟨.new id n t idx,[],[]⟩ = some s →
        Follows (.new id n t idx) rng [] s := by
  cases refusal with
  | none =>
    have hs := startADKG_published (c := (⟨.new id n t idx,⟨[],none⟩⟩ : Session G1)) rfl policy rng
    rw [goOn_isSome]
    simp only [goOn_some, onNode, hs]
    refine ⟨trivial,fun s hs => ?_⟩
    obtain rfl := congrArg Prod.snd hs
    exact ⟨recorded_start id n t idx rng,rfl,rfl⟩
  | some error =>
    have hs := startADKG_refused (c := (⟨.new id n t idx,⟨[],some error⟩⟩ : Session G1)) rfl
      policy rng
    rw [goOn_isSome]
    simp only [goOn_some, onNode, hs]
    simp

theorem run_follows {id : String} {n t : Usize} {idx : UInt64} {refusal : Option String}
    {turns : List (LoopTurn P)} {next : RunState G1 P}
    (h : run policy id n t idx rng refusal turns = some next) :
    Follows (.new id n t idx) rng turns next := by
  obtain ⟨s,hs,hr⟩ := Option.bind_eq_some_iff.mp h
  have hstart := (start_follows policy id n t idx rng refusal).2 s hs
  have hrun := Runs.run_simulates turn_follows hstart hr
  rwa [Runs.foldl_snoc] at hrun

end turns

section results
variable [DecidableEq P] {policy : Policy} {id : String} {n t : Usize} {idx : UInt64} {rng : Rng}
  {refusal : Option String} {turns : List (LoopTurn P)}

/-- A run goes on exactly if its proposal is published, no acknowledgement of
its own is refused, and whenever the count becomes complete each dealer's
last commitments that were kept are some. -/
theorem goes_on_iff (policy : Policy) (id : String) (n t : Usize) (idx : UInt64) (rng : Rng)
    (refusal : Option String) (turns : List (LoopTurn P)) :
    (run policy id n t idx rng refusal turns : Option (RunState G1 P)).isSome ↔
      refusal = none ∧ ∀ pre turn post, turns = pre ++ turn::post →
        ∀ msg : ADKGMessage G1, turn.1.heard = some msg → (ADKGNode.new id n t idx).Survives
          (generateCommitments (generatePolynomial t.toNat rng).1) (heardOver pre) turn.2 msg := by
  obtain ⟨hstart,hfollows⟩ : _ ∧ ∀ s : RunState G1 P, _ → _ :=
    start_follows policy id n t idx rng refusal
  by_cases hr : refusal = none
  · obtain ⟨s,hs⟩ := Option.isSome_iff_exists.mp (hstart.mpr hr)
    have hstep : ∀ (s : RunState G1 P) past turn, Follows (.new id n t idx) rng past s →
        ((runTurn policy s turn).isSome ↔ ∀ msg : ADKGMessage G1, turn.1.heard = some msg →
          (ADKGNode.new id n t idx).Survives
            (generateCommitments (generatePolynomial t.toNat rng).1) (heardOver past) turn.2
              msg) := by
      intro s past turn h
      rw [turn_isSome_iff policy h turn]
      exact forall₂_congr (fun msg _ => withstands_iff h.node turn.2 msg)
    have hrun := Runs.run_isSome_iff turn_follows hstep (hfollows s hs) turns
    simp only [Runs.foldl_snoc] at hrun
    rw [run, hs, Option.bind_some, hrun, and_iff_right hr]
  · have hnone := Option.not_isSome_iff_eq_none.mp (mt hstart.mp hr)
    rw [run, hnone]
    exact iff_of_false Bool.false_ne_true (fun h => hr h.1)

variable {next : RunState G1 P}

/-- What the behaviour takes over a run that goes on: the node's proposal,
then every line that is not refused, every peer, and one acknowledgement for
each proposal accepted. -/
theorem calls_made (h : run policy id n t idx rng refusal turns = some next) :
    next.calls = .publish adkgTopic (toVec (proposal (.new id n t idx : ADKGNode G1) rng))::
      turns.flatMap (ADKGNode.new id n t idx : ADKGNode G1).callsAt := (run_follows h).calls

/-- The list has each peer once that the behaviour was last told of as found,
in the order found, and it is told of all sightings. -/
theorem peers_listed (h : run policy id n t idx rng refusal turns = some next) :
    next.calls.filterMap toldOf = sightingsOf turns ∧
      next.peerList = standing (next.calls.filterMap toldOf) ∧ next.peerList.Nodup ∧
      ∀ peer, peer ∈ next.peerList ↔
        (under peer (next.calls.filterMap toldOf)).getLast? = some true := by
  have htold : next.calls.filterMap toldOf = sightingsOf turns := by
    rw [(run_follows h).calls, List.filterMap_cons, sightingsOf, List.filterMap_flatMap]
    simp only [told_calls]
    rfl
  have hlist : next.peerList = standing (next.calls.filterMap toldOf) := by
    rw [htold]
    exact (run_follows h).peerList
  refine ⟨htold,hlist,?_,fun peer => ?_⟩
  · rw [hlist]
    exact standing_nodup _
  · rw [hlist]
    exact mem_standing

/-- The keys of a node whose run goes on are the sums over what each dealer
dealt last when the count was last found complete. The key share opens the
sum of the commitments it was dealt with. -/
theorem keys_taken (h : run policy id n t idx rng refusal turns = some next) :
    ((ADKGNode.new id n t idx).completed (heardOver turns : List (ADKGMessage G1)) = none →
      next.node.secretKeyShare = none ∧ next.node.publicKey = none) ∧
    ∀ pre, (ADKGNode.new id n t idx).completed (heardOver turns) = some pre →
      ∃ share, next.node.secretKeyShare = some share ∧
        share = (ADKGNode.new id n t idx : ADKGNode G1).sharesTaken pre ∧
        share•(generator : G1) =
          ∑ dealer ∈ (((ADKGNode.new id n t idx).taken pre).map Prod.fst).toFinset,
            commitmentSum (idx.toNat : Scalar) (((under dealer
              ((ADKGNode.new id n t idx).taken pre)).getLast?.map (fun d => d.2)).getD []) ∧
        next.node.publicKey = some ((ADKGNode.new id n t idx).keyTaken
          (generateCommitments (generatePolynomial t.toNat rng).1) pre) := by
  obtain ⟨-,-,-,-,-,-,hshare,hkey⟩ := (run_follows h).node
  rw [hshare, hkey]
  constructor
  · intro hnone
    rw [hnone]
    exact ⟨rfl,rfl⟩
  · intro pre hpre
    rw [hpre]
    exact ⟨_,rfl,rfl,sharesTaken_opens _ pre,rfl⟩

end results
end runs

section sample
attribute [local instance] MpcNode.Wire.compactJson

@[reducible] def scalarArrays : Serde Scalar where
  toJson s := Wire.toJson (SerializableScalar.mk s)
  fromJson j := (Wire.fromJson j).map SerializableScalar.scalar
  fromJson_toJson s := by simp

@[reducible] def pointArrays : Serde LogPoint where
  toJson p := Wire.toJson (SerializableG1Affine.mk p)
  fromJson j := (Wire.fromJson j).map SerializableG1Affine.point
  fromJson_toJson p := by simp

attribute [local instance] scalarArrays pointArrays

def secondProposal : ADKGMessage LogPoint := proposal (.new "2" 1 1 1) (constantRng 1)

def soloTurns : List (LoopTurn ℕ) :=
  [(.discovered [7],none),(.message (toVec secondProposal),none),
    (.message (toVec (.shareAck "2" "1" true : ADKGMessage LogPoint)),none)]

theorem solo_heard : (heardOver soloTurns : List (ADKGMessage LogPoint)) =
    [secondProposal,.shareAck "2" "1" true] := by
  simp [heardOver, soloTurns, LoopEvent.heard]

theorem solo_run : ∃ next : RunState LogPoint ℕ,
    run .waiting "1" 1 1 1 (constantRng 0) none soloTurns = some next := by
  have hheard : ∀ msg : ADKGMessage LogPoint,
      (handleEvent none (.message (toVec msg)) : RunCall LogPoint ℕ Unit) =
        onNode none (handleMessage msg) := by
    intro msg
    have hm : ((.message (toVec msg),none) : LoopTurn ℕ).1.heard = some msg :=
      Wire.fromSlice_toVec msg
    exact (heard_run hm).1
  simp only [run, soloTurns, Runs.run, runTurn, hheard]
  exact Option.isSome_iff_exists.mp (by decide +kernel)

theorem solo_calls_made : ∃ next : RunState LogPoint ℕ,
    run .waiting "1" 1 1 1 (constantRng 0) none soloTurns = some next ∧
      next.calls =
        .publish adkgTopic (toVec (proposal (.new "1" 1 1 1 : ADKGNode LogPoint) (constantRng 0)))::
          soloTurns.flatMap (ADKGNode.new "1" 1 1 1 : ADKGNode LogPoint).callsAt := by
  obtain ⟨next,h⟩ := solo_run
  exact ⟨next,h,calls_made h⟩

theorem solo_peers_listed : ∃ next : RunState LogPoint ℕ,
    run .waiting "1" 1 1 1 (constantRng 0) none soloTurns = some next ∧
      next.calls.filterMap toldOf = sightingsOf soloTurns ∧
      next.peerList = standing (next.calls.filterMap toldOf) ∧ next.peerList.Nodup ∧
      ∀ peer, peer ∈ next.peerList ↔
        (under peer (next.calls.filterMap toldOf)).getLast? = some true := by
  obtain ⟨next,h⟩ := solo_run
  exact ⟨next,h,peers_listed h⟩

theorem solo_keys_taken : ∃ next : RunState LogPoint ℕ,
    run .waiting "1" 1 1 1 (constantRng 0) none soloTurns = some next ∧
      ∃ share, next.node.secretKeyShare = some share ∧
        share = (ADKGNode.new "1" 1 1 1 : ADKGNode LogPoint).sharesTaken (heardOver soloTurns) ∧
        share•(generator : LogPoint) = ∑ dealer ∈ (((ADKGNode.new "1" 1 1 1).taken
            (heardOver soloTurns : List (ADKGMessage LogPoint))).map Prod.fst).toFinset,
          commitmentSum ((1 : UInt64).toNat : Scalar)
            (((under dealer ((ADKGNode.new "1" 1 1 1).taken (heardOver soloTurns))).getLast?.map
              (fun d => d.2)).getD []) ∧
        next.node.publicKey = some ((ADKGNode.new "1" 1 1 1).keyTaken (generateCommitments
          (generatePolynomial (1 : Usize).toNat (constantRng 0)).1) (heardOver soloTurns)) := by
  obtain ⟨next,h⟩ := solo_run
  exact ⟨next,h,(keys_taken h).2 _ (by rw [solo_heard]; rfl)⟩

end sample
end MpcNode.Adkg
