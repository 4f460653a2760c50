import MpcNode.DkgStatus

/-!
# Calls that fail

A start sets the status and a distribution fills both maps before the
message goes into the channel. When the channel is closed the call returns
the error and the changes stay. A call in which nothing changes is one whose
changes were made before.
-/

set_option autoImplicit false

namespace MpcNode.Dkg
open MpcNode.Bls MpcNode.Guarded MpcNode.Messages MpcNode.Wire MpcNode.Channels MpcNode.Tables

variable {G1 : Type}

abbrev Turn (G1 : Type) := Input G1 × Channel

/-- The fields that calls write are the same. The maps are compared by what
they hold. -/
structure SameData (node next : DKGNode G1) : Prop where
  status : next.status = node.status
  shares : ∀ dealer, next.shares.lookup dealer = node.shares.lookup dealer
  commitments : ∀ dealer, next.commitments.lookup dealer = node.commitments.lookup dealer
  validations : ∀ dealer, next.validations.lookup dealer = node.validations.lookup dealer

/-- What a call would write, were it accepted, is there already. -/
def DKGNode.Settled (node : DKGNode G1) : Input G1 → Prop
  | .start _ => node.status = .started
  | .message msg => ∀ d, dealing (idParsed node.id) msg = some d →
    node.shares.lookup d.dealer = some d.share ∧
      node.commitments.lookup d.dealer = some d.commitments

/-- The same of the calls so far: an earlier start, or the dealer's last
accepted dealing over again. -/
def Repeats (own : Usize) (pre : List (Input G1)) : Input G1 → Prop
  | .start _ => pre.any isStart = true
  | .message msg => ∀ d, dealing own msg = some d →
    (ledger own (messages pre)).lastOf d.dealer = some d

theorem sameData_accept {node : DKGNode G1} {d : Dealing G1} :
    SameData node (node.accept d) ↔ node.shares.lookup d.dealer = some d.share ∧
      node.commitments.lookup d.dealer = some d.commitments := by
  constructor
  · intro h
    have hs := h.shares d.dealer
    have hc := h.commitments d.dealer
    simp only [DKGNode.accept, DKGNode.insertShare, DKGNode.insertCommitments,
      AList.lookup_insert] at hs hc
    exact ⟨hs.symm,hc.symm⟩
  · rintro ⟨hs,hc⟩
    exact ⟨rfl,lookup_insert_same hs,lookup_insert_same hc,fun _ => rfl⟩

theorem sameData_start {node : DKGNode G1} :
    SameData node (node.setStatus .started) ↔ node.status = .started := by
  constructor
  · intro h
    exact h.status.symm
  · intro h
    exact ⟨h.symm,fun _ => rfl,fun _ => rfl,fun _ => rfl⟩

theorem lastOf_dealer {l : Ledger G1} {dealer : String} {d : Dealing G1}
    (h : l.lastOf dealer = some d) : d.dealer = dealer := by
  simpa using (List.mem_filter.mp (List.mem_of_getLast? h)).2

theorem held_iff {node : DKGNode G1} {l : Ledger G1} (h : Refines node l) (d : Dealing G1) :
    (node.shares.lookup d.dealer = some d.share ∧
      node.commitments.lookup d.dealer = some d.commitments) ↔ l.lastOf d.dealer = some d := by
  rw [h.share, h.commitments]
  cases hl : l.lastOf d.dealer with
  | none => simp
  | some last =>
    have hd := lastOf_dealer hl
    obtain ⟨dealer,share,commitments⟩ := last
    obtain ⟨dealer',share',commitments'⟩ := d
    simp only [Option.map_some, Option.some.injEq, Dealing.mk.injEq] at hd ⊢
    simp [hd]

theorem settled_iff (id : String) (threshold totalNodes : Usize) (pre : List (Input G1))
    (i : Input G1) :
    (pre.foldl DKGNode.after (.new id threshold totalNodes)).Settled i ↔
      Repeats (idParsed id) pre i := by
  cases i with
  | start rng =>
    rw [DKGNode.Settled, foldl_status, Repeats]
    split_ifs with h <;> simp [h, DKGNode.new]
  | message msg =>
    have href : Refines (pre.foldl DKGNode.after (.new id threshold totalNodes : DKGNode G1))
        (ledger (idParsed id) (messages pre)) :=
      foldl_refines (new_refines id threshold totalNodes) pre
    rw [DKGNode.Settled, foldl_id, Repeats]
    apply forall₂_congr
    intro d _
    exact held_iff href d

section calls
variable [G1Group G1] [SerdeJson] (policy : Policy)

theorem perform_failed_iff (i : Input G1) (c : Ctx (DKGNode G1) G1) :
    (∀ e, (perform i (Env.top policy) c).1 = .err e →
      SameData c.node (perform i (Env.top policy) c).2.node) ↔
      (c.channel.closed = true → c.node.Settled i) := by
  rcases i with rng | ⟨fromId,shares,commitments⟩ | ⟨fromId,toId,isValid⟩
  · rw [perform, startDkg_run, send_failed_iff, send_node, sameData_start]
    rfl
  · rw [perform, DKGNode.Settled]
    cases hd : dealing (idParsed c.node.id) (.shareDistribution fromId shares commitments) with
    | none =>
      rw [distribution_ignored hd]
      simp
    | some d =>
      rw [distribution_accepted hd, send_failed_iff, send_node, sameData_accept]
      simp
  · rw [perform, DKGNode.Settled]
    cases policy
    · rw [validation_waiting]
      simp [dealing]
    · rw [validation_granted]
      simp [dealing]

def reached (node : DKGNode G1) (turns : List (Turn G1)) : DKGNode G1 :=
  turns.foldl (fun node turn => (perform turn.1 (Env.top policy) (.fresh node turn.2)).2.node) node

theorem reached_eq (node : DKGNode G1) (turns : List (Turn G1)) :
    reached policy node turns = (turns.map Prod.fst).foldl DKGNode.after node := by
  rw [reached, List.foldl_map]
  congr 1
  funext node turn
  exact perform_node policy turn.1 (.fresh node turn.2)

variable (id : String) (threshold totalNodes : Usize)

/-- No call of a run that returns an error changes what the node holds. -/
def NoTrace (turns : List (Turn G1)) : Prop :=
  ∀ pre turn post, turns = pre ++ turn::post → ∀ e,
    (perform turn.1 (Env.top policy)
      (.fresh (reached policy (.new id threshold totalNodes) pre) turn.2)).1 = .err e →
    SameData (reached policy (.new id threshold totalNodes) pre)
      (perform turn.1 (Env.top policy)
        (.fresh (reached policy (.new id threshold totalNodes) pre) turn.2)).2.node

/-- Failed calls leave no trace exactly when each call that finds the
channel closed repeats what the run has done. -/
theorem noTrace_iff (turns : List (Turn G1)) :
    NoTrace policy id threshold totalNodes turns ↔
      ∀ pre turn post, turns = pre ++ turn::post → turn.2.closed = true →
        Repeats (idParsed id) (pre.map Prod.fst) turn.1 := by
  rw [NoTrace]
  apply forall₄_congr
  intro pre turn post _
  rw [← settled_iff id threshold totalNodes, ← reached_eq policy]
  exact perform_failed_iff policy turn.1 (.fresh _ turn.2)

end calls

section samples
attribute [local instance] compactJson

def closedChannel : Channel := { Channel.empty with closed := true }

def closedStart : List (Turn LogPoint) := [(.start (fun _ => 0),closedChannel)]

theorem failed_start_traced : ¬ NoTrace .waiting "1" 1 1 closedStart := by
  intro h
  have hs := (h [] (.start (fun _ => 0),closedChannel) [] rfl _ rfl).status
  cases hs

end samples
end MpcNode.Dkg
