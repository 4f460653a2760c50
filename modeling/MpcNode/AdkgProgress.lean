import MpcNode.AdkgFabric

/-!
# How far the network of runs gets

If nothing is refused no run ends, and the network takes exactly the runs of
the protocol in which all have started. When nothing is left in flight and no
run has ended, every node is acknowledged by all others and holds what all
dealt. Which dealings its keys are of depends on the order in which it heard
them: those that come after the last acknowledgement for it are left out.
-/

set_option autoImplicit false

namespace MpcNode.Adkg
open MpcNode.Bls MpcNode.Guarded MpcNode.Messages MpcNode.Tables MpcNode.Broadcast
open MpcNode.Dkg (Rng)
open MpcNode.Wire (Serde SerdeJson toVec fromSlice fromSlice_toVec)
open scoped List

variable {G1 P : Type}

section starts
variable {total : Usize} {rng : Fin total.toNat → Rng} {refusals : Fin total.toNat → Option String}

theorem history_starts (hr : ∀ i, refusals i = none) (i : Fin total.toNat) :
    history i (starts G1 rng refusals) = [.command (rng i)] := by
  rw [starts, history_commands rng ((List.nodup_finRange _).filter _), if_pos]
  exact mem_starters.mpr (hr i)

end starts

section runs
variable [Serde Scalar] [Serde G1] [SerdeJson]
variable {total : Usize} {ids : Fin total.toNat → String} {t : Usize}
  {rng : Fin total.toNat → Rng} {refusals : Fin total.toNat → Option String}
  {as : List (Action total.toNat (OwnTurn G1 P) Bytes)}

/-- The messages of the layer that a node has been given. -/
def heardBy (as : List (Action total.toNat (OwnTurn G1 P) Bytes)) (k : Fin total.toNat) :
    List (ADKGMessage G1) := (handled (history k as)).filterMap (fromSlice (ADKGMessage G1))

theorem commands_actions (i : Fin total.toNat) :
    commands (history i (as.filterMap reading.action : ADKGRun G1 total)) = [] := by
  rw [Reading.history_action, Reading.commands_event]
  exact List.filterMap_eq_nil_iff.mpr (fun _ _ => rfl)

theorem handled_actions (hr : ∀ i, refusals i = none) (k : Fin total.toNat) :
    handled (history k (starts G1 rng refusals ++ as.filterMap reading.action)) =
      heardBy as k := by
  rw [history_append, handled_append, history_starts hr, Reading.history_action,
    Reading.handled_event]
  rfl

variable [G1Group G1] [DecidableEq P] {refuse : Refusals G1 P total.toNat}
  {net : Net total.toNat (Runner G1 P) Bytes}

theorem complete_run (hids : Function.Injective ids)
    (h : (outset ids t rng refusals).run (fabric refuse) as = some net)
    (hquiet : ∀ s r, (net.flight s r).filterMap (fromSlice (ADKGMessage G1)) = [])
    (hrun : ∀ i, (net.node i).halted = none) :
    ∃ abs, Complete ids t rng (starts G1 rng refusals ++ as.filterMap reading.action) abs ∧
      ∀ i, (net.node i).state.node = abs.node i := by
  obtain ⟨abs,ha,hshows,hself⟩ := fabric_shows hids h
  rw [taken_running h hrun] at ha
  refine ⟨abs,⟨by rw [protocol_eq_outline]; exact ha,fun i => ?_,fun s r => ?_⟩,hshows.stands⟩
  · refine ⟨history i (as.filterMap reading.action),?_,commands_actions i⟩
    rw [history_append, history_starts (running_refusals h hrun)]
    rfl
  · by_cases hsr : s = r
    · rw [hsr, hself]
    · have hp := carried_running hshows hrun hsr
      rw [hquiet] at hp
      exact hp.symm.eq_nil

/-- When nothing of the layer is left in flight and no run has ended, each
node has filed one valid acknowledgement under each other node and no other
valid one, and holds the commitments of all and the shares of all but itself.
It has keys if and only if there are other nodes, and the threshold is at
most their number. -/
theorem all_acknowledged (hids : Function.Injective ids)
    (h : (outset ids t rng refusals).run (fabric refuse) as = some net)
    (hquiet : ∀ s r, (net.flight s r).filterMap (fromSlice (ADKGMessage G1)) = [])
    (hrun : ∀ i, (net.node i).halted = none) (k : Fin total.toNat) :
    (∀ s, s ≠ k → (net.node k).state.node.acks.lookup (ids s) = some [(ids s,true)]) ∧
      (net.node k).state.node.validAcks = total.toNat-1 ∧
      (∀ d, (net.node k).state.node.shares.lookup (ids d) =
        if d = k then none else some (evaluatePolynomial (drawnBy t (rng d)) (number k))) ∧
      (∀ d, (net.node k).state.node.commitments.lookup (ids d) =
        some (generateCommitments (drawnBy t (rng d)))) ∧
      ((net.node k).state.node.secretKeyShare.isSome ↔
        2 ≤ total.toNat ∧ t.toNat < total.toNat) := by
  obtain ⟨abs,hcomplete,hnode⟩ := complete_run hids h hquiet hrun
  obtain ⟨hacks,hknows⟩ := complete_record hcomplete hids k
  rw [hnode k]
  refine ⟨fun s hsk => complete_acks hcomplete hids hsk,hacks,fun d => ?_,
    fun d => hknows.commitments.entry d (Finset.mem_univ d),keys_formed_iff hcomplete hids k⟩
  split_ifs with hdk
  · exact hknows.shares.absent hids (by rw [hdk]; exact Finset.notMem_erase k _)
  · exact hknows.shares.entry d (Finset.mem_erase.mpr ⟨hdk,Finset.mem_univ d⟩)

/-- The keys of a node are then of those dealings, its own share left out,
that it heard before the last acknowledgement for it, whatever it heard of
the others later. -/
theorem keys_before_last (hids : Function.Injective ids)
    (h : (outset ids t rng refusals).run (fabric refuse) as = some net)
    (hquiet : ∀ s r, (net.flight s r).filterMap (fromSlice (ADKGMessage G1)) = [])
    (hrun : ∀ i, (net.node i).halted = none) (ht : t.toNat < total.toNat) {k : Fin total.toNat}
    {pre post : List (ADKGMessage G1)} {ack : ADKGMessage G1}
    (hm : heardBy as k = pre ++ ack::post) (ha : addressedTo (ids k) ack = true)
    (hpost : ∀ msg ∈ post, addressedTo (ids k) msg = false) :
    (net.node k).state.node.secretKeyShare =
        some (∑ d ∈ dealersIn ids pre, evaluatePolynomial (drawnBy t (rng d)) (number k)) ∧
      (net.node k).state.node.publicKey =
        some (∑ d ∈ insert k (dealersIn ids pre), (drawnBy t (rng d)).headD 0•generator) := by
  obtain ⟨abs,hcomplete,hnode⟩ := complete_run hids h hquiet hrun
  rw [hnode k]
  refine keys_last hcomplete hids ht ?_ ha hpost
  rw [handled_actions (running_refusals h hrun), hm]

theorem turn_goes (hids : Function.Injective ids) {i : Fin total.toNat} {runner : Runner G1 P}
    (h : Sound ids t rng i runner) (hrun : runner.halted = none)
    {e : Event total.toNat (OwnTurn G1 P) Bytes}
    (hr : ∀ i runner data, refuse i runner data = none) :
    (runner.turn (turnOf refuse i runner e).1).halted = none := by
  rcases meant_running hrun refuse i e with ⟨hq,-⟩ | ⟨s,msg,hm,-⟩
  · obtain ⟨sightings,hs⟩ := h.peerList
    rw [turn_running hrun, Runner.after, quiet_run .waiting hs runner.state.node hq]
    rfl
  · obtain ⟨-,⟨hgoes,-⟩ | ⟨hrefused,-⟩⟩ := turn_heard hids h hrun hm
    · exact hgoes
    · cases e with
      | command turn =>
        obtain ⟨⟨⟨e,refusal⟩,hplain⟩,hown⟩ := turn
        cases e with
        | message data => cases hown
        | _ => cases hm
      | message s data => exact absurd (hr i runner data) hrefused

theorem fabric_goes (hids : Function.Injective ids)
    (hr : ∀ i runner data, refuse i runner data = none)
    (h : (outset ids t rng (fun _ => none)).run (fabric refuse) as = some net)
    (i : Fin total.toNat) : (net.node i).halted = none := by
  have hstart : ∀ i, ((outset ids t rng (fun _ => none) :
      Net total.toNat (Runner G1 P) Bytes).node i).halted = none := by
    intro i
    dsimp only [outset]
    rw [start_published]
  have hall : (∃ as, (outset ids t rng (fun _ => none)).run (fabric refuse) as = some net) ∧
      ∀ i, (net.node i).halted = none := by
    refine run_invariant (I := fun net : Net total.toNat (Runner G1 P) Bytes =>
      (∃ as, (outset ids t rng (fun _ => none)).run (fabric refuse) as = some net) ∧
        ∀ i, (net.node i).halted = none) _ ?_ ⟨⟨[],rfl⟩,hstart⟩ h
    rintro net a next ⟨⟨as,has⟩,hrun⟩ hs
    refine ⟨⟨as++[a],run_snoc _ has hs⟩,fun j => ?_⟩
    rw [step_node _ hs]
    by_cases hj : j = a.1
    · subst hj
      rw [Function.update_self]
      exact turn_goes hids (fabric_sound hids has a.1) (hrun a.1) hr
    · rw [Function.update_of_ne hj]
      exact hrun j
  exact hall.2 i

/-- A network that shows a state of the protocol. -/
structure InStep (ids : Fin total.toNat → String) (t : Usize) (rng : Fin total.toNat → Rng)
    (refuse : Refusals G1 P total.toNat) (abs : ADKGNet G1 total)
    (net : Net total.toNat (Runner G1 P) Bytes) : Prop where
  reached : ∃ as, (outset ids t rng (fun _ => none)).run (fabric refuse) as = some net
  shows : reading.Shows net abs
  self : ∀ i, abs.flight i i = []

theorem inStep_delivered (hids : Function.Injective ids)
    (hr : ∀ i runner data, refuse i runner data = none) {abs abs' : ADKGNet G1 total}
    {i s : Fin total.toNat} {msg : ADKGMessage G1} (h : InStep ids t rng refuse abs net)
    (hb : abs.step (outline total.toNat) (i,.message s msg) = some abs') :
    ∃ as net', net.run (fabric refuse) as = some net' ∧
      as.filterMap reading.action = [(i,.message s msg)] ∧ InStep ids t rng refuse abs' net' := by
  obtain ⟨as,has⟩ := h.reached
  have hrun := fabric_goes hids hr has
  obtain ⟨c,hc,-⟩ | ⟨s',msg',he,hm,-⟩ := step_cases _ hb
  · cases hc
  · obtain ⟨rfl,rfl⟩ := Event.message.inj he
    have hne : s ≠ i := by
      rintro rfl
      rw [h.self] at hm
      cases hm
    obtain ⟨data,hdata,hread⟩ :=
      List.mem_filterMap.mp ((carried_running h.shows hrun hne).symm.subset hm)
    obtain ⟨next,hs⟩ := step_delivers (fabric refuse) hdata
    obtain ⟨absNext,hq,hshows⟩ := Reading.step_shows (reading_drowsy refuse) h.shows
      ((h.shows.stands i) ▸ matched_sound hids refuse (fabric_sound hids has i) _) hs
    rw [Reading.heeded_awake (Option.isNone_iff_eq_none.mpr (hrun i)),
      Reading.action_message hread, Option.toList_some, Net.run, hb, Option.bind_some,
      Net.run] at hq
    obtain rfl := Option.some.inj hq
    refine ⟨[(i,.message s data)],next,by rw [Net.run, hs, Option.bind_some, Net.run],?_,
      ⟨_,run_snoc _ has hs⟩,hshows,step_self _ hb h.self⟩
    rw [Reading.filterMap_action_cons, Reading.action_message hread]
    rfl

theorem run_taken (hids : Function.Injective ids)
    (hr : ∀ i runner data, refuse i runner data = none) {bs : ADKGRun G1 total}
    {abs : ADKGNet G1 total} (hb : (Broadcast.start (members ids t)).run (outline total.toNat)
      (starts G1 rng (fun _ => none) ++ bs) = some abs) (hc : ∀ i, commands (history i bs) = []) :
    ∃ as net, (outset ids t rng (fun _ => none)).run (fabric refuse) as = some net ∧
      as.filterMap reading.action = bs ∧ InStep ids t rng refuse abs net := by
  obtain ⟨first,hfirst,hshown,hself⟩ := outset_shown G1 P ids t rng (fun _ => none)
  obtain ⟨mid,hmid,hrest⟩ := run_split _ hb
  obtain rfl : first = mid := Option.some.inj (hfirst.symm.trans hmid)
  have hstep : ∀ (abs : ADKGNet G1 total) (net : Net total.toNat (Runner G1 P) Bytes)
      (b : Action total.toNat Rng (ADKGMessage G1)) abs', InStep ids t rng refuse abs net →
        (∀ c, b.2 ≠ .command c) → abs.step (outline total.toNat) b = some abs' →
          ∃ as net', net.run (fabric refuse) as = some net' ∧ as.filterMap reading.action = [b] ∧
            InStep ids t rng refuse abs' net' := by
    rintro abs net ⟨i,c | ⟨s,msg⟩⟩ abs' h hown hs
    · exact absurd rfl (hown c)
    · exact inStep_delivered hids hr h hs
  have hown : ∀ b ∈ bs, ∀ c, b.2 ≠ .command c := by
    rintro ⟨i,e⟩ hb c rfl
    have hmem := mem_commands.mpr (mem_history.mpr hb)
    rw [hc] at hmem
    cases hmem
  exact Reading.run_realised hstep ⟨⟨[],rfl⟩,hshown,hself⟩ hown hrest

/-- If no answer and no proposal is refused no run ends, and the network
takes exactly the runs of the protocol in which all have started. -/
theorem takes_runs_iff (hids : Function.Injective ids)
    (hr : ∀ i (runner : Runner G1 P) data, refuse i runner data = none) :
    (∀ as net, (outset ids t rng (fun _ => none)).run (fabric refuse) as = some net →
      ∀ i, (net.node i).halted = none) ∧
    ∀ bs : ADKGRun G1 total,
      (∃ as net, (outset ids t rng (fun _ => none)).run (fabric refuse) as = some net ∧
        as.filterMap reading.action = bs) ↔
      (∃ abs, (Broadcast.start (members ids t)).run (protocol total.toNat)
        (starts G1 rng (fun _ => none) ++ bs) = some abs) ∧ ∀ i, commands (history i bs) = [] := by
  refine ⟨fun as net h => fabric_goes hids hr h,fun bs => ⟨?_,?_⟩⟩
  · rintro ⟨as,net,h,rfl⟩
    obtain ⟨abs,ha,-,-⟩ := fabric_shows hids h
    rw [taken_running h (fabric_goes hids hr h), ← protocol_eq_outline] at ha
    exact ⟨⟨abs,ha⟩,commands_actions⟩
  · rintro ⟨⟨abs,hb⟩,hc⟩
    rw [protocol_eq_outline] at hb
    obtain ⟨as,net,h,ha,-⟩ := run_taken hids hr hb hc
    exact ⟨as,net,h,ha⟩

end runs

section two
attribute [local instance] MpcNode.Wire.compactJson scalarArrays pointArrays

def ackOfLeft : ADKGMessage LogPoint := .shareAck "1" "2" true

def ackOfRight : ADKGMessage LogPoint := .shareAck "2" "1" true

def lateActions : ADKGRun LogPoint 2 :=
  [(left,.message right (pairProposal right)),(right,.message left ackOfLeft),
    (right,.message left (pairProposal left)),(left,.message right ackOfRight)]

theorem late_found : ∃ abs, (Broadcast.start (members pairIds 1)).run (outline (2 : Usize).toNat)
    (starts LogPoint pairRng (fun _ => none) ++ lateActions) = some abs ∧ abs.Quiet :=
  run_found _ (by decide +kernel)

theorem late_commands : ∀ i, commands (history i lateActions) = [] := by decide

theorem late_taken : ∃ as, ∃ net : TwoNet, twoOutset.run (fabric willing) as = some net ∧
    as.filterMap reading.action = lateActions ∧
    (∀ s r, (net.flight s r).filterMap (fromSlice (ADKGMessage LogPoint)) = []) ∧
    ∀ i, (net.node i).halted = none := by
  obtain ⟨abs,hb,hq⟩ := late_found
  have hids : Function.Injective pairIds := by decide
  have hr : ∀ i runner data, willing i runner data = none := fun _ _ _ => rfl
  obtain ⟨as,net,h,ha,hstep⟩ := run_taken hids hr hb late_commands
  have hrun := fabric_goes hids hr h
  refine ⟨as,net,h,ha,fun s r => ?_,hrun⟩
  by_cases hsr : s = r
  · rw [hsr, hstep.shows.self]
    rfl
  · have hp := carried_running hstep.shows hrun hsr
    rw [hq] at hp
    exact hp.eq_nil

theorem late_acknowledged : ∃ as, ∃ net : TwoNet, twoOutset.run (fabric willing) as = some net ∧
    (∀ s, s ≠ right → (net.node right).state.node.acks.lookup (pairIds s) =
      some [(pairIds s,true)]) ∧
      (net.node right).state.node.validAcks = (2 : Usize).toNat-1 ∧
      (∀ d, (net.node right).state.node.shares.lookup (pairIds d) = if d = right then none else
        some (evaluatePolynomial (drawnBy 1 (pairRng d)) (number right))) ∧
      (∀ d, (net.node right).state.node.commitments.lookup (pairIds d) =
        some (generateCommitments (drawnBy 1 (pairRng d)))) ∧
      ((net.node right).state.node.secretKeyShare.isSome ↔
        2 ≤ (2 : Usize).toNat ∧ (1 : Usize).toNat < (2 : Usize).toNat) := by
  obtain ⟨as,net,h,-,hquiet,hrun⟩ := late_taken
  exact ⟨as,net,h,all_acknowledged (by decide) h hquiet hrun right⟩

theorem late_heard {as : List (Action (2 : Usize).toNat (OwnTurn LogPoint ℕ) Bytes)}
    (ha : as.filterMap reading.action = lateActions) (k : Fin (2 : Usize).toNat) :
    heardBy as k = handled (history k lateActions) := by
  rw [← ha, Reading.history_action, Reading.handled_event]
  rfl

/-- The second node's key is its own alone, the first one's of both. -/
theorem late_keys : ∃ as, ∃ net : TwoNet, twoOutset.run (fabric willing) as = some net ∧
    ((net.node right).state.node.secretKeyShare =
        some (∑ d ∈ dealersIn pairIds ([] : List (ADKGMessage LogPoint)),
          evaluatePolynomial (drawnBy 1 (pairRng d)) (number right)) ∧
      (net.node right).state.node.publicKey =
        some (∑ d ∈ insert right (dealersIn pairIds ([] : List (ADKGMessage LogPoint))),
          (drawnBy 1 (pairRng d)).headD 0•generator)) ∧
    (net.node right).state.node.publicKey ≠ (net.node left).state.node.publicKey := by
  obtain ⟨as,net,h,ha,hquiet,hrun⟩ := late_taken
  have hright := keys_before_last (by decide) h hquiet hrun (by decide)
    (show heardBy as right = [] ++ ackOfLeft::[pairProposal left] by rw [late_heard ha]; rfl)
    (by decide) (by decide)
  have hleft := keys_before_last (by decide) h hquiet hrun (by decide)
    (show heardBy as left = [pairProposal right] ++ ackOfRight::[] by rw [late_heard ha]; rfl)
    (by decide) (by decide)
  refine ⟨as,net,h,hright,?_⟩
  rw [hright.2, hleft.2]
  decide +kernel

theorem willing_takes :
    (∀ as, ∀ net : TwoNet, twoOutset.run (fabric willing) as = some net →
      ∀ i, (net.node i).halted = none) ∧
    ∀ bs : ADKGRun LogPoint 2,
      (∃ as, ∃ net : TwoNet, twoOutset.run (fabric willing) as = some net ∧
        as.filterMap reading.action = bs) ↔
      (∃ abs, (Broadcast.start (members pairIds 1)).run (protocol (2 : Usize).toNat)
        (starts LogPoint pairRng (fun _ => none) ++ bs) = some abs) ∧
          ∀ i, commands (history i bs) = [] :=
  takes_runs_iff (by decide) (fun _ _ _ => rfl)

end two
end MpcNode.Adkg
