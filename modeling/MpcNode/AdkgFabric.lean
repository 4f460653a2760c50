import MpcNode.AdkgCompletion
import MpcNode.Library.Simulation

/-!
# The network of runs refines the protocol of the first layer

All nodes start at the outset, and what one publishes each other one hears
once, in any order. Lines may be typed, peers come and go, and the behaviour
may refuse any publication of a node, which ends its run. A run stands for
its node, and what it does not sleep through is a run of the protocol.
-/

set_option autoImplicit false

namespace MpcNode.Adkg
open MpcNode.Bls MpcNode.Guarded MpcNode.Messages MpcNode.Tables MpcNode.Broadcast
open MpcNode.Dkg (Rng)
open MpcNode.Wire (Serde SerdeJson toVec fromSlice fromSlice_toVec)
open scoped List

variable {G1 P : Type} {n : ℕ}

def payloadOf : BehaviourCall P → Option Bytes
  | .publish _ data => some data
  | _ => none

theorem published_calls (runner : Runner G1 P) :
    runner.published = runner.state.calls.filterMap payloadOf := by
  rw [Runner.published]
  congr 1

theorem sightPeers_calls [DecidableEq P] (found : Bool) (peers : List P) (s : RunState G1 P) :
    (peers.foldl (sightPeer found) s).calls = s.calls ++ peers.map (explicitly found) := by
  induction peers generalizing s with
  | nil => exact (List.append_nil _).symm
  | cons peer peers ih =>
    rw [List.foldl_cons, ih, List.map_cons]
    simp [sightPeer, RunState.call]

section starts
variable {total : Usize} {refusals : Fin total.toNat → Option String}

variable (G1) in
/-- The starts of the nodes whose proposal is not refused. -/
def starts (rng : Fin total.toNat → Rng) (refusals : Fin total.toNat → Option String) :
    ADKGRun G1 total :=
  ((List.finRange total.toNat).filter (fun i => refusals i = none)).map
    (fun i => (i,.command (rng i)))

theorem mem_starters {i : Fin total.toNat} :
    i ∈ (List.finRange total.toNat).filter (fun i => refusals i = none) ↔ refusals i = none := by
  rw [List.mem_filter, decide_eq_true_eq]
  exact and_iff_right (List.mem_finRange i)

end starts

section fabric
variable [Serde Scalar] [Serde G1] [SerdeJson]

theorem message_plain (data : Bytes) (refusal : Option String) :
    PlainLine G1 ((.message data,refusal) : LoopTurn P) := fun _ h => by cases h

variable (G1 P) in
abbrev OwnTurn : Type := {turn : PlainTurn G1 P // turn.1.1.payload = none}

variable (G1 P) in
/-- The error with which the behaviour refuses what a node answers, if it does. -/
abbrev Refusals (n : ℕ) : Type := Fin n → Runner G1 P → Bytes → Option String

def turnOf (refuse : Refusals G1 P n) (i : Fin n) (runner : Runner G1 P) :
    Event n (OwnTurn G1 P) Bytes → PlainTurn G1 P
  | .command turn => turn.1
  | .message _ data => ⟨(.message data,refuse i runner data),message_plain data _⟩

theorem turnOf_payload {refuse : Refusals G1 P n} {i : Fin n} {runner : Runner G1 P}
    {e : Event n (OwnTurn G1 P) Bytes} {data : Bytes}
    (h : data ∈ (turnOf refuse i runner e).1.1.payload) : ∃ s, e = .message s data := by
  cases e with
  | command turn =>
    rw [turnOf, turn.2] at h
    cases h
  | message s data' =>
    obtain rfl := Option.some.inj h
    exact ⟨s,rfl⟩

theorem decoded_answers (msgs : List (ADKGMessage G1)) :
    ((msgs.map (fun m => (.publish adkgTopic (toVec m) : BehaviourCall P))).filterMap
      payloadOf).filterMap (fromSlice (ADKGMessage G1)) = msgs := by
  induction msgs with
  | nil => rfl
  | cons m msgs ih =>
    have hm : fromSlice (ADKGMessage G1) (toVec m) = some m := fromSlice_toVec m
    rw [List.map_cons, List.filterMap_cons]
    simp only [payloadOf]
    rw [List.filterMap_cons, hm, ih]

/-- A run stands for its node. -/
def reading : Reading (Runner G1 P) (ADKGNode G1) (OwnTurn G1 P) Rng Bytes (ADKGMessage G1) where
  Stands runner node := runner.state.node = node
  waiting _ := []
  awake runner := runner.halted.isNone
  command _ := none
  message := fromSlice (ADKGMessage G1)

theorem meant_running {runner : Runner G1 P} (h : runner.halted = none) (refuse : Refusals G1 P n)
    (i : Fin n) (e : Event n (OwnTurn G1 P) Bytes) :
    (((turnOf refuse i runner e).1.1.heard : Option (ADKGMessage G1)) = none ∧
        (reading.meant runner e : Option (Event n Rng (ADKGMessage G1))) = none) ∨
      ∃ s, ∃ msg : ADKGMessage G1, (turnOf refuse i runner e).1.1.heard = some msg ∧
        reading.meant runner e = some (.message s msg) := by
  have hmeant : (reading.meant runner e : Option (Event n Rng (ADKGMessage G1))) =
      reading.event e := Reading.meant_awake (Option.isNone_iff_eq_none.mpr h) e
  rw [hmeant]
  cases e with
  | command turn =>
    obtain ⟨⟨⟨e,refusal⟩,hplain⟩,hown⟩ := turn
    refine Or.inl ⟨?_,rfl⟩
    cases e with
    | message data => cases hown
    | _ => rfl
  | message s data =>
    cases hm : fromSlice (ADKGMessage G1) data with
    | none => exact Or.inl ⟨hm,congrArg (Option.map (Event.message s)) hm⟩
    | some msg => exact Or.inr ⟨s,msg,hm,congrArg (Option.map (Event.message s)) hm⟩

theorem carried_running {net : Net n (Runner G1 P) Bytes}
    {abs : Net n (ADKGNode G1) (ADKGMessage G1)} (h : reading.Shows net abs)
    (hrun : ∀ i, (net.node i).halted = none) {s r : Fin n} (hne : s ≠ r) :
    (net.flight s r).filterMap (fromSlice (ADKGMessage G1)) ~ abs.flight s r := by
  obtain ⟨lost,hp,hlost⟩ := h.carries s r hne
  rw [hlost (fun i => Option.isNone_iff_eq_none.mpr (hrun i)), List.append_nil] at hp
  exact (List.append_nil ((net.flight s r).filterMap _)) ▸ hp

variable [G1Group G1]

/-- All nodes have started, and their proposals are under way. -/
def outset {total : Usize} (ids : Fin total.toNat → String) (t : Usize)
    (rng : Fin total.toNat → Rng) (refusals : Fin total.toNat → Option String) :
    Net total.toNat (Runner G1 P) Bytes :=
  let starts (i : Fin total.toNat) : Runner G1 P :=
    .start (ids i) total t (number i) (rng i) (refusals i)
  ⟨starts,fun s r => if s = r then [] else (starts s).published⟩

theorem mem_outset {total : Usize} {ids : Fin total.toNat → String} {t : Usize}
    {rng : Fin total.toNat → Rng} {refusals : Fin total.toNat → Option String}
    {s r : Fin total.toNat} {data : Bytes} :
    data ∈ (outset ids t rng refusals : Net total.toNat (Runner G1 P) Bytes).flight s r ↔ s ≠ r ∧
      data ∈ (Runner.start (ids s) total t (number s) (rng s) (refusals s) :
        Runner G1 P).published := by
  dsimp only [outset]
  split_ifs with hsr
  · simp [hsr]
  · exact (and_iff_right hsr).symm

variable (G1 P) in
theorem outset_shown {total : Usize} (ids : Fin total.toNat → String) (t : Usize)
    (rng : Fin total.toNat → Rng) (refusals : Fin total.toNat → Option String) :
    ∃ abs : ADKGNet G1 total, (Broadcast.start (members ids t)).run (outline total.toNat)
        (starts G1 rng refusals) = some abs ∧
      reading.Shows (outset ids t rng refusals : Net total.toNat (Runner G1 P) Bytes) abs ∧
        ∀ s, abs.flight s s = [] := by
  refine ⟨_,run_commands _ _ rng ((List.nodup_finRange _).filter _),
    ⟨fun i => ?_,fun s r hne => ⟨[],?_,fun _ => rfl⟩,fun i => if_pos rfl⟩,
    fun s => if_neg (fun hc => hc.2 rfl)⟩
  · dsimp only [reading, outset]
    simp only [mem_starters]
    cases hr : refusals i with
    | none =>
      rw [start_published]
      rfl
    | some e =>
      rw [start_refused]
      rfl
  · dsimp only [reading, outset]
    simp only [mem_starters, if_neg hne, List.append_nil]
    cases hr : refusals s with
    | none =>
      have hread : fromSlice (ADKGMessage G1) (toVec (proposal (members ids t s) (rng s))) =
          some (proposal (members ids t s) (rng s)) := fromSlice_toVec _
      rw [start_published, if_pos ⟨rfl,hne⟩, published_calls]
      simp [payloadOf, hread, outline, outputs]
    | some e =>
      rw [start_refused, if_neg (fun hc => Option.some_ne_none e hc.1)]
      exact List.Perm.refl _

variable [DecidableEq P]

/-- What is new among the publications goes to all others. -/
def fabric (refuse : Refusals G1 P n) : Protocol n (Runner G1 P) (OwnTurn G1 P) Bytes where
  react i runner e :=
    let next := runner.turn (turnOf refuse i runner e).1
    (next,next.published.drop runner.published.length)

section turns
variable {refuse : Refusals G1 P n} {i : Fin n}

theorem turn_halted {runner : Runner G1 P} (h : runner.halted ≠ none) (turn : LoopTurn P) :
    runner.turn turn = runner := by
  obtain ⟨o,ho⟩ := Option.ne_none_iff_exists'.mp h
  rw [Runner.turn, ho]

theorem turn_calls (runner : Runner G1 P) (turn : LoopTurn P) :
    ∃ more, (runner.turn turn).state.calls = runner.state.calls ++ more := by
  by_cases hrun : runner.halted = none
  · rw [turn_running hrun]
    obtain ⟨e,refusal⟩ := turn
    cases e with
    | line text => cases refusal with
      | none => exact ⟨_,rfl⟩
      | some error => exact ⟨[],(List.append_nil _).symm⟩
    | discovered peers => exact ⟨_,sightPeers_calls true peers runner.state⟩
    | expired peers => exact ⟨_,sightPeers_calls false peers runner.state⟩
    | message data =>
      cases hm : fromSlice (ADKGMessage G1) data with
      | none =>
        refine ⟨[],?_⟩
        simp only [Runner.after, handleEvent, hm, List.append_nil]
        rfl
      | some msg =>
        simp only [Runner.after, handleEvent, hm]
        exact ⟨_,rfl⟩
    | other => exact ⟨[],(List.append_nil _).symm⟩
  · rw [turn_halted hrun]
    exact ⟨[],(List.append_nil _).symm⟩

theorem fabric_publishes (refuse : Refusals G1 P n) :
    Publishes (fabric refuse) Runner.published := by
  intro i runner e
  obtain ⟨more,hmore⟩ := turn_calls runner (turnOf refuse i runner e).1
  have hp : (runner.turn (turnOf refuse i runner e).1).published =
      runner.published ++ more.filterMap payloadOf := by
    rw [published_calls, published_calls, hmore, List.filterMap_append]
  change (runner.turn (turnOf refuse i runner e).1).published = runner.published ++
    (runner.turn (turnOf refuse i runner e).1).published.drop runner.published.length
  rw [hp, List.drop_left]

theorem reading_drowsy (refuse : Refusals G1 P n) :
    reading.Drowsy (fabric refuse) := by
  intro i runner e h
  by_contra hs
  have hhalted : runner.halted ≠ none := fun hn => hs (Option.isNone_iff_eq_none.mpr hn)
  dsimp only [fabric] at h
  rw [turn_halted hhalted] at h
  exact hs h

end turns

section matched
variable {total : Usize} {ids : Fin total.toNat → String} {t : Usize}
  {rng : Fin total.toNat → Rng} {refuse : Refusals G1 P total.toNat} {i : Fin total.toNat}
  {runner : Runner G1 P} {e : Event total.toNat (OwnTurn G1 P) Bytes}

/-- What a turn has to leave for it to be what its event means. -/
theorem matched_turn {out : ADKGNode G1 × List (ADKGMessage G1)}
    (ho : reading.outcome (outline total.toNat) i runner runner.state.node e = out)
    (calls : List (BehaviourCall P)) (lost : List (ADKGMessage G1))
    (hn : (runner.turn (turnOf refuse i runner e).1).state.node = out.1)
    (hc : (runner.turn (turnOf refuse i runner e).1).state.calls = runner.state.calls ++ calls)
    (hs : (calls.filterMap payloadOf).filterMap (fromSlice (ADKGMessage G1)) ++ lost = out.2)
    (hl : (runner.turn (turnOf refuse i runner e).1).halted = none → lost = []) :
    reading.Matched (fabric refuse) (outline total.toNat) i runner runner.state.node e := by
  subst ho
  refine ⟨hn,lost,?_,fun h => hl (Option.isNone_iff_eq_none.mp h)⟩
  change ((runner.turn (turnOf refuse i runner e).1).published.drop
    runner.published.length).filterMap _ ++ [] ++ lost ~ [] ++ _
  rw [published_calls, published_calls, hc, List.filterMap_append, List.drop_left, ← hs,
    List.append_nil]
  exact List.Perm.refl _

theorem matched_halted (h : runner.halted ≠ none) :
    reading.Matched (fabric refuse) (outline total.toNat) i runner runner.state.node e := by
  have hm : (reading.meant runner e : Option (Event total.toNat Rng (ADKGMessage G1))) = none :=
    if_neg (fun hn => h (Option.isNone_iff_eq_none.mp hn))
  have hturn := turn_halted h (turnOf refuse i runner e).1
  exact matched_turn (Reading.outcome_asleep hm) [] [] (by rw [hturn])
    (by rw [hturn, List.append_nil]) rfl (fun _ => rfl)

theorem matched_quiet (h : Sound ids t rng i runner) (hrun : runner.halted = none)
    (hq : ((turnOf refuse i runner e).1.1.heard : Option (ADKGMessage G1)) = none)
    (hm : (reading.meant runner e : Option (Event total.toNat Rng (ADKGMessage G1))) = none) :
    reading.Matched (fabric refuse) (outline total.toNat) i runner runner.state.node e := by
  obtain ⟨sightings,hs⟩ := h.peerList
  have hquiet := quiet_run .waiting hs runner.state.node hq
  have hturn := turn_running hrun (turnOf refuse i runner e).1
  rw [Runner.after, hquiet] at hturn
  refine matched_turn (Reading.outcome_asleep hm) _ [] (by rw [hturn]) (by rw [hturn]) ?_
    (fun _ => rfl)
  rw [List.append_nil, List.filterMap_eq_nil_iff]
  intro data hd
  obtain ⟨c,hc,hdata⟩ := List.mem_filterMap.mp hd
  cases c with
  | publish topic payload =>
    obtain rfl := Option.some.inj hdata
    exact quiet_published (turnOf refuse i runner e).2 hq hc
  | _ => cases hdata

/-- What a node is given it takes, and it goes on if its answer is taken. -/
theorem turn_heard (hids : Function.Injective ids) (h : Sound ids t rng i runner)
    (hrun : runner.halted = none) {turn : LoopTurn P} {msg : ADKGMessage G1}
    (hm : turn.1.heard = some msg) :
    (runner.turn turn).state.node = runner.state.node.take msg ∧
      (((runner.turn turn).halted = none ∧ (runner.turn turn).state.calls = runner.state.calls ++
          (reply runner.state.node msg).map (fun m => .publish adkgTopic (toVec m))) ∨
        (turn.2 ≠ none ∧ (runner.turn turn).halted ≠ none ∧
          (runner.turn turn).state.calls = runner.state.calls ++ [])) := by
  have hnode : Honest ids t rng i runner.state.node := by
    rcases h.node with hnode | ⟨hstopped,-⟩
    · exact hnode
    · exact absurd hrun hstopped
  rw [turn_running hrun, Runner.after, (heard_run hm).1, onNode]
  refine ⟨handleMessage_node .waiting msg _,?_⟩
  rcases message_outcome .waiting (honest_withstands hids hnode msg) turn.2 with
    ⟨hok,hpublished⟩ | ⟨error,hrefused,herr,hpublished⟩
  · refine Or.inl ⟨?_,?_⟩
    · dsimp only
      rw [hok]
      rfl
    · dsimp only
      rw [hpublished, List.map_map]
      rfl
  · refine Or.inr ⟨by rw [hrefused]; exact Option.some_ne_none error,?_,?_⟩
    · dsimp only
      rw [herr]
      exact Option.some_ne_none _
    · dsimp only
      rw [hpublished]
      rfl

/-- A message is to a run what it means, but for an answer that is refused. -/
theorem matched_heard (hids : Function.Injective ids) (h : Sound ids t rng i runner)
    (hrun : runner.halted = none) {s : Fin total.toNat} {msg : ADKGMessage G1}
    (hm : (turnOf refuse i runner e).1.1.heard = some msg)
    (hmeant : reading.meant runner e = some (.message s msg)) :
    reading.Matched (fabric refuse) (outline total.toNat) i runner runner.state.node e := by
  have hout : reading.outcome (outline total.toNat) i runner runner.state.node e =
      (runner.state.node.take msg,reply runner.state.node msg) := Reading.outcome_meant hmeant
  obtain ⟨hn,⟨-,hc⟩ | ⟨-,hstop,hc⟩⟩ := turn_heard hids h hrun hm
  · refine matched_turn hout _ [] hn hc ?_ (fun _ => rfl)
    rw [List.append_nil]
    exact decoded_answers _
  -- the run has ended, and with it the answer is lost
  · exact matched_turn hout [] _ hn hc (List.nil_append _) (fun hgoes => absurd hgoes hstop)

theorem matched_sound (hids : Function.Injective ids) (refuse : Refusals G1 P total.toNat)
    (h : Sound ids t rng i runner) (e : Event total.toNat (OwnTurn G1 P) Bytes) :
    reading.Matched (fabric refuse) (outline total.toNat) i runner runner.state.node e := by
  by_cases hrun : runner.halted = none
  · rcases meant_running hrun refuse i e with ⟨hq,hm⟩ | ⟨s,msg,hm,hmeant⟩
    · exact matched_quiet h hrun hq hm
    · exact matched_heard hids h hrun hm hmeant
  · exact matched_halted hrun

end matched

section runs
variable {total : Usize} {ids : Fin total.toNat → String} {t : Usize}
  {rng : Fin total.toNat → Rng} {refusals : Fin total.toNat → Option String}
  {refuse : Refusals G1 P total.toNat} {net : Net total.toNat (Runner G1 P) Bytes}
  {as : List (Action total.toNat (OwnTurn G1 P) Bytes)}

/-- The network reaches only what a gossip may that also loses and repeats. -/
theorem fabric_sound (hids : Function.Injective ids)
    (h : (outset ids t rng refusals).run (fabric refuse) as = some net) (i : Fin total.toNat) :
    Sound ids t rng i (net.node i) := by
  have hreact : ∀ i runner (e : Event total.toNat (OwnTurn G1 P) Bytes),
      ((fabric refuse).react i runner e).1 =
        (runners total.toNat).step i runner (turnOf refuse i runner e) := fun _ _ _ => rfl
  exact sound_runs hids (run_reaches (fabric_publishes refuse) hreact
    (fun _ _ _ data hd => turnOf_payload hd) (fun _ _ _ hd => mem_outset.mp hd) h).1 i

variable (G1) in
/-- What the run takes over the starts. -/
def taken (ids : Fin total.toNat → String) (t : Usize) (rng : Fin total.toNat → Rng)
    (refusals : Fin total.toNat → Option String) (refuse : Refusals G1 P total.toNat)
    (as : List (Action total.toNat (OwnTurn G1 P) Bytes)) : ADKGRun G1 total :=
  reading.trace (fabric refuse) (outset ids t rng refusals) as

theorem fabric_shows (hids : Function.Injective ids)
    (h : (outset ids t rng refusals).run (fabric refuse) as = some net) :
    ∃ abs : ADKGNet G1 total, (Broadcast.start (members ids t)).run (outline total.toNat)
        (starts G1 rng refusals ++ taken G1 ids t rng refusals refuse as) = some abs ∧
      reading.Shows net abs ∧ ∀ s, abs.flight s s = [] := by
  obtain ⟨first,hfirst,hshown,hself⟩ := outset_shown G1 P ids t rng refusals
  have hstep : ∀ (net : Net total.toNat (Runner G1 P) Bytes) a next,
      (∃ as, (outset ids t rng refusals).run (fabric refuse) as = some net) →
        net.step (fabric refuse) a = some next →
          ∃ as, (outset ids t rng refusals).run (fabric refuse) as = some next := by
    rintro net a next ⟨as,has⟩ hs
    exact ⟨as++[a],run_snoc _ has hs⟩
  have hmatched : ∀ (net : Net total.toNat (Runner G1 P) Bytes) a next,
      (∃ as, (outset ids t rng refusals).run (fabric refuse) as = some net) →
        net.step (fabric refuse) a = some next → ∀ node, reading.Stands (net.node a.1) node →
          reading.Matched (fabric refuse) (outline total.toNat) a.1 (net.node a.1) node a.2 := by
    rintro net a next ⟨as,has⟩ - node rfl
    exact matched_sound hids refuse (fabric_sound hids has a.1) a.2
  obtain ⟨abs,habs,hshows⟩ := Reading.run_shows (reading_drowsy refuse) hstep hmatched ⟨[],rfl⟩
    hshown h
  refine ⟨abs,run_append _ hfirst habs,hshows,?_⟩
  exact run_invariant (I := fun net => ∀ s, net.flight s s = []) _
    (fun _ _ _ hf hs => step_self _ hs hf) hself habs

section running
variable (h : (outset ids t rng refusals).run (fabric refuse) as = some net)
  (hrun : ∀ i, (net.node i).halted = none)
include h hrun

theorem running_refusals (i : Fin total.toNat) : refusals i = none := by
  have hawake := Reading.run_awake (reading_drowsy refuse) h
    (fun j => Option.isNone_iff_eq_none.mpr (hrun j)) i
  cases hr : refusals i with
  | none => rfl
  | some e =>
    dsimp only [reading, outset] at hawake
    rw [hr, start_refused] at hawake
    cases hawake

theorem taken_running :
    taken G1 ids t rng refusals refuse as = as.filterMap reading.action :=
  Reading.trace_awake (reading_drowsy refuse) h (fun i => Option.isNone_iff_eq_none.mpr (hrun i))

end running

/-- The network of the runs refines the protocol of their nodes. After the
starts that were not refused it takes a run of the protocol, of what is not
slept through. Its nodes are those of that run, and what is in flight is in
flight there. As long as no run has ended nothing is missing. -/
theorem refines_protocol (hids : Function.Injective ids)
    (h : (outset ids t rng refusals).run (fabric refuse) as = some net) :
    ∃ bs abs, (Broadcast.start (members ids t)).run (protocol total.toNat)
        (starts G1 rng refusals ++ bs) = some abs ∧ bs <+ as.filterMap reading.action ∧
      (∀ i, (net.node i).state.node = abs.node i) ∧
      (∀ s r, s ≠ r → (net.flight s r).filterMap (fromSlice (ADKGMessage G1)) <+~
        abs.flight s r) ∧
      ((∀ i, (net.node i).halted = none) →
        (∀ i, refusals i = none) ∧ bs = as.filterMap reading.action ∧ ∀ s r, s ≠ r →
          (net.flight s r).filterMap (fromSlice (ADKGMessage G1)) ~ abs.flight s r) := by
  obtain ⟨abs,ha,hshows,-⟩ := fabric_shows hids h
  refine ⟨_,abs,by rw [protocol_eq_outline]; exact ha,Reading.trace_sublist _ as,hshows.stands,
    fun s r hne => ?_,fun hrun => ?_⟩
  · obtain ⟨lost,hp,-⟩ := hshows.carries s r hne
    rw [List.append_assoc] at hp
    exact (List.sublist_append_left _ _).subperm.trans hp.subperm
  · exact ⟨running_refusals h hrun,taken_running h hrun,
      fun s r hne => carried_running hshows hrun hne⟩

end runs
end fabric

section two
attribute [local instance] MpcNode.Wire.compactJson scalarArrays pointArrays

abbrev TwoNet : Type := Net (2 : Usize).toNat (Runner LogPoint ℕ) Bytes

/-- Two nodes start. -/
def twoOutset : TwoNet := outset pairIds 1 pairRng (fun _ => none)

def willing : Refusals LogPoint ℕ (2 : Usize).toNat := fun _ _ _ => none

def hearingAction : Action (2 : Usize).toNat (OwnTurn LogPoint ℕ) Bytes :=
  (right,.message left (toVec (pairProposal left)))

theorem twoOutset_flight : toVec (pairProposal left) ∈ twoOutset.flight left right :=
  mem_outset.mpr ⟨left_ne_right,twoRunners_published left⟩

theorem two_refines : ∃ net : TwoNet, twoOutset.run (fabric willing) [hearingAction] = some net ∧
    ∃ bs abs, (Broadcast.start (members pairIds 1)).run (protocol (2 : Usize).toNat)
        (starts LogPoint pairRng (fun _ => none) ++ bs) = some abs ∧
      bs <+ [hearingAction].filterMap reading.action ∧
      (∀ i, (net.node i).state.node = abs.node i) ∧
      (∀ s r, s ≠ r → (net.flight s r).filterMap (fromSlice (ADKGMessage LogPoint)) <+~
        abs.flight s r) ∧
      ((∀ i, (net.node i).halted = none) →
        (∀ _ : Fin (2 : Usize).toNat, (none : Option String) = none) ∧
        bs = [hearingAction].filterMap reading.action ∧ ∀ s r, s ≠ r →
          (net.flight s r).filterMap (fromSlice (ADKGMessage LogPoint)) ~ abs.flight s r) := by
  obtain ⟨net,hs⟩ := step_delivers (fabric willing) twoOutset_flight
  have hrun : twoOutset.run (fabric willing) [hearingAction] = some net := by
    rw [hearingAction, Net.run, hs, Option.bind_some, Net.run]
  exact ⟨net,hrun,refines_protocol (by decide) hrun⟩

end two
end MpcNode.Adkg
