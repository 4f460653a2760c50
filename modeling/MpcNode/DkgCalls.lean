import MpcNode.Dkg
import MpcNode.Library.Runs

/-!
# What one call does, and runs of calls

A call changes the node's data in the same way whatever guards are granted
and whether or not the channel still takes messages. Its outcome, what it
sends and the sums it forms are stated apart. A run makes one call after
another; a call that never returns is given up in the state it reached, and
a run of `okRun` goes on only when the call has returned.
-/

set_option autoImplicit false

namespace MpcNode.Dkg
open MpcNode.Bls MpcNode.Guarded MpcNode.Messages MpcNode.Wire MpcNode.Channels MpcNode.Tables
open MpcNode.Guarded.Handler (withGuard bind_run bind_ok withGuard_free withGuard_granted
  withGuard_blocked top_blocks granted_blocks)

variable {G1 : Type}

/-- A share distribution as a node of index `own` takes it: its first share
of that index and the commitments. -/
structure Dealing (G1 : Type) where
  dealer : String
  share : KeyShare
  commitments : List G1
  deriving DecidableEq

def dealing (own : Usize) : DKGMessage G1 → Option (Dealing G1)
  | .shareDistribution fromId shares commitments =>
    (shares.find? (fun s => s.index = own)).map
      (fun share => ⟨fromId,share,commitments.map (fun c => c.point)⟩)
  | .shareValidation _ _ _ => none

theorem exists_find_index {own : Usize} {shares : List KeyShare}
    (h : ∃ share ∈ shares, share.index = own) :
    ∃ first, shares.find? (fun s => s.index = own) = some first := by
  obtain ⟨share,hs,hi⟩ := h
  exact Option.isSome_iff_exists.mp (List.find?_isSome.mpr ⟨share,hs,by simpa using hi⟩)

theorem dealing_index {own : Usize} {msg : DKGMessage G1} {d : Dealing G1}
    (h : dealing own msg = some d) : d.share.index = own := by
  cases msg with
  | shareValidation fromId toId isValid => cases h
  | shareDistribution fromId shares commitments =>
    obtain ⟨share,hs,rfl⟩ := Option.map_eq_some_iff.mp h
    simpa using List.find?_some hs

def vote : DKGMessage G1 → Option (String × Bool)
  | .shareDistribution _ _ _ => none
  | .shareValidation _ toId isValid => some (toId,isValid)

def isDistribution : DKGMessage G1 → Bool
  | .shareDistribution _ _ _ => true
  | .shareValidation _ _ _ => false

inductive Input (G1 : Type) where
  | start (rng : Rng)
  | message (msg : DKGMessage G1)

def DKGNode.accept (d : Dealing G1) (node : DKGNode G1) : DKGNode G1 :=
  (node.insertShare d.dealer d.share).insertCommitments d.dealer d.commitments

def DKGNode.take (node : DKGNode G1) : DKGMessage G1 → DKGNode G1
  | .shareDistribution fromId shares commitments =>
    match dealing (idParsed node.id) (.shareDistribution fromId shares commitments) with
    | some d => node.accept d
    | none => node
  | .shareValidation _ toId isValid => node.pushValidation toId isValid

def DKGNode.after (node : DKGNode G1) : Input G1 → DKGNode G1
  | .start _ => node.setStatus .started
  | .message msg => node.take msg

theorem complete_cards {node : DKGNode G1} : node.complete = true ↔
    (∀ dealer votes, node.validations.lookup dealer = some votes →
      node.threshold.toNat ≤ votes.length) ∧
      node.threshold.toNat ≤ (keySet node.shares).card := by
  rw [DKGNode.complete, Bool.and_eq_true, List.all_eq_true, decide_eq_true_eq, len_eq_card]
  refine and_congr_left (fun _ => ?_)
  constructor
  · intro h dealer votes hl
    simpa using h votes (mem_values.mpr ⟨dealer,hl⟩)
  · intro h votes hv
    obtain ⟨dealer,hl⟩ := mem_values.mp hv
    simpa using h dealer votes hl

/-- No call changes what a node was made with. -/
theorem after_settings (node : DKGNode G1) (i : Input G1) :
    (node.after i).id = node.id ∧ (node.after i).threshold = node.threshold ∧
      (node.after i).totalNodes = node.totalNodes := by
  rcases i with rng | ⟨fromId,shares,commitments⟩ | ⟨fromId,toId,isValid⟩
  · exact ⟨rfl,rfl,rfl⟩
  · simp only [DKGNode.after, DKGNode.take]
    split <;> exact ⟨rfl,rfl,rfl⟩
  · exact ⟨rfl,rfl,rfl⟩

@[simp] theorem after_id (node : DKGNode G1) (i : Input G1) : (node.after i).id = node.id :=
  (after_settings node i).1

@[simp] theorem after_threshold (node : DKGNode G1) (i : Input G1) :
    (node.after i).threshold = node.threshold := (after_settings node i).2.1

@[simp] theorem after_totalNodes (node : DKGNode G1) (i : Input G1) :
    (node.after i).totalNodes = node.totalNodes := (after_settings node i).2.2

variable [G1Group G1]

/-- The completion check under granted guards. -/
theorem checkCompletion_granted (held : List (Lock × Mode)) (c : Ctx (DKGNode G1) G1) :
    checkCompletion ⟨.granted,held⟩ c =
      (.ok (),{ c with
        results := c.results ++ if c.node.complete then [c.node.groupKey] else [] }) := by
  rw [checkCompletion, withGuard_granted, withGuard_granted, bind_ok (node_run _ _)]
  split_ifs with h
  · rw [generateGroupKey, bind_ok (withGuard_granted _ _ _ _ _)]
    rfl
  · rw [List.append_nil]
    rfl

def distribution (node : DKGNode G1) (rng : Rng) : DKGMessage G1 :=
  .shareDistribution node.id (node.generateShares (node.generatePolynomial rng))
    (generateCommitments (node.generatePolynomial rng))

variable [SerdeJson]

def dkgPayload (msg : DKGMessage G1) : ChannelMessage :=
  .broadcast msgTopicDkg (toVec (GossipsubMessage.dkg msg))

theorem startDkg_run (rng : Rng) (env : Env Lock) (c : Ctx (DKGNode G1) G1) :
    startDkg rng env c = send (dkgPayload (distribution c.node rng)) env
      { c with node := c.node.setStatus .started } := rfl

theorem distribution_accepted {policy : Policy} {c : Ctx (DKGNode G1) G1} {fromId : String}
    {shares : List KeyShare} {commitments : List (SerializableG1Affine G1)} {d : Dealing G1}
    (h : dealing (idParsed c.node.id) (.shareDistribution fromId shares commitments) = some d) :
    handleMessage (.shareDistribution fromId shares commitments) (Env.top policy) c =
      send (dkgPayload (.shareValidation c.node.id d.dealer true : DKGMessage G1))
        (Env.top policy) { c with node := c.node.accept d } := by
  obtain ⟨share,hs,rfl⟩ := Option.map_eq_some_iff.mp h
  rw [handleMessage, handleShareDistribution, bind_ok (node_run _ _)]
  dsimp only
  rw [if_pos (verifyShares_eq _ _ _), hs]
  dsimp only
  rw [bind_ok (withGuard_free (top_blocks _ _ _) _ _),
    bind_ok (withGuard_free (top_blocks _ _ _) _ _)]
  rfl

theorem distribution_ignored {policy : Policy} {c : Ctx (DKGNode G1) G1} {fromId : String}
    {shares : List KeyShare} {commitments : List (SerializableG1Affine G1)}
    (h : dealing (idParsed c.node.id) (.shareDistribution fromId shares commitments) = none) :
    handleMessage (.shareDistribution fromId shares commitments) (Env.top policy) c =
      (.ok (),c) := by
  have hs := Option.map_eq_none_iff.mp h
  rw [handleMessage, handleShareDistribution, bind_ok (node_run _ _)]
  dsimp only
  rw [if_pos (verifyShares_eq _ _ _), hs]
  rfl

theorem validation_granted (c : Ctx (DKGNode G1) G1) (fromId toId : String) (isValid : Bool) :
    handleMessage (.shareValidation fromId toId isValid) (Env.top .granted) c =
      (.ok (),{ c with
        node := c.node.pushValidation toId isValid
        results := c.results ++ if (c.node.pushValidation toId isValid).complete then
          [(c.node.pushValidation toId isValid).groupKey] else [] }) := by
  rw [handleMessage, handleShareValidation, withGuard_free (top_blocks _ _ _),
    bind_ok (update_run _ _ _)]
  exact checkCompletion_granted _ _

/-- The vote's own guard is still held when the check awaits the same map. -/
theorem validation_waiting (c : Ctx (DKGNode G1) G1) (fromId toId : String) (isValid : Bool) :
    handleMessage (.shareValidation fromId toId isValid) (Env.top .waiting) c =
      (.blocked .validations,{ c with node := c.node.pushValidation toId isValid }) := by
  rw [handleMessage, handleShareValidation, withGuard_free (top_blocks _ _ _),
    bind_ok (update_run _ _ _), checkCompletion]
  exact withGuard_blocked rfl _ _

def perform : Input G1 → DKGCall G1 Unit
  | .start rng => startDkg rng
  | .message msg => handleMessage msg

/-- The node's data after a call. -/
theorem perform_node (policy : Policy) (i : Input G1) (c : Ctx (DKGNode G1) G1) :
    (perform i (Env.top policy) c).2.node = c.node.after i := by
  rcases i with rng | ⟨fromId,shares,commitments⟩ | ⟨fromId,toId,isValid⟩
  · rw [perform, startDkg_run, send_node]
    rfl
  · simp only [perform, DKGNode.after, DKGNode.take]
    split
    · rw [distribution_accepted ‹_›, send_node]
    · rw [distribution_ignored ‹_›]
  · cases policy
    · rw [perform, validation_waiting]
      rfl
    · rw [perform, validation_granted]
      rfl

def run (policy : Policy) : Ctx (DKGNode G1) G1 → List (Input G1) → Ctx (DKGNode G1) G1
  | c, [] => c
  | c, i::is => run policy (perform i (Env.top policy) c).2 is

theorem run_append (policy : Policy) (c : Ctx (DKGNode G1) G1) (is js : List (Input G1)) :
    run policy c (is++js) = run policy (run policy c is) js := by
  induction is generalizing c with
  | nil => rfl
  | cons i is ih => exact ih _

/-- A run leaves the node's data as its calls make them, one by one. -/
theorem run_node (policy : Policy) (c : Ctx (DKGNode G1) G1) (is : List (Input G1)) :
    (run policy c is).node = is.foldl DKGNode.after c.node := by
  induction is generalizing c with
  | nil => rfl
  | cons i is ih => rw [run, ih, perform_node, List.foldl_cons]

/-- A run goes on with what a call leaves if it returns `Ok`. -/
def okCall (policy : Policy) (c : Ctx (DKGNode G1) G1) (i : Input G1) :
    Option (Ctx (DKGNode G1) G1) :=
  match perform i (Env.top policy) c with
  | (.ok (),next) => some next
  | _ => none

def okRun (policy : Policy) :
    Ctx (DKGNode G1) G1 → List (Input G1) → Option (Ctx (DKGNode G1) G1) :=
  Runs.run (okCall policy)

theorem okCall_some {policy : Policy} {c next : Ctx (DKGNode G1) G1} {i : Input G1} :
    okCall policy c i = some next ↔ perform i (Env.top policy) c = (.ok (),next) := by
  rw [okCall]
  split
  · rename_i mid h
    simp [h]
  · rename_i hno
    exact iff_of_false (by simp) (hno next)

/-- Calls that all return leave the node what they make it. -/
theorem okRun_node {policy : Policy} {c next : Ctx (DKGNode G1) G1} {is : List (Input G1)}
    (h : okRun policy c is = some next) : next.node = is.foldl DKGNode.after c.node := by
  refine Runs.run_simulates (R := fun c node => c.node = node) ?_ rfl h
  rintro c node i u rfl hi
  rw [← perform_node policy i c, okCall_some.mp hi]

/-- Under granted guards a call returns when the channel has room for what
it sends. -/
theorem perform_room (i : Input G1) {c : Ctx (DKGNode G1) G1} (ho : c.channel.Open)
    (hr : c.channel.Room) : ∃ next, perform i (Env.top .granted) c = (.ok (),next) ∧
      next.channel.Open ∧ next.channel.capacity = c.channel.capacity ∧
      next.channel.queue.length ≤ c.channel.queue.length+1 := by
  have hpushed : ∀ message, (c.channel.push message).queue.length = c.channel.queue.length+1 :=
    fun message => List.length_append
  rcases i with rng | ⟨fromId,shares,commitments⟩ | ⟨fromId,toId,isValid⟩
  · rw [perform, startDkg_run]
    exact ⟨_,send_room _ _ { c with node := c.node.setStatus .started } ho hr,ho,rfl,
      (hpushed _).le⟩
  · rw [perform]
    cases hd : dealing (idParsed c.node.id) (.shareDistribution fromId shares commitments) with
    | none =>
      rw [distribution_ignored hd]
      exact ⟨_,rfl,ho,rfl,Nat.le_succ _⟩
    | some d =>
      rw [distribution_accepted hd]
      exact ⟨_,send_room _ _ { c with node := c.node.accept d } ho hr,ho,rfl,(hpushed _).le⟩
  · rw [perform, validation_granted]
    exact ⟨_,rfl,ho,rfl,Nat.le_succ _⟩

theorem okRun_room {c : Ctx (DKGNode G1) G1} (is : List (Input G1)) (ho : c.channel.Open)
    (hr : c.channel.queue.length+is.length ≤ c.channel.capacity) :
    ∃ next, okRun .granted c is = some next := by
  induction is generalizing c with
  | nil => exact ⟨c,rfl⟩
  | cons i is ih =>
    rw [List.length_cons] at hr
    have hroom : c.channel.Room := by
      rw [Channel.Room]
      omega
    obtain ⟨mid,hmid,hopen,hcapacity,hqueue⟩ := perform_room i ho hroom
    obtain ⟨next,hnext⟩ := ih hopen (by omega)
    exact ⟨next,Runs.run_cons.mpr ⟨mid,okCall_some.mpr hmid,hnext⟩⟩

end MpcNode.Dkg
