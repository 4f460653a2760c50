import MpcNode.LoopRuns

/-!
# Key generation in a running node

A vote waits for a guard that its own handler holds, and the loop ends there.
So as long as the loop runs no vote has come, no call gets past the
completion check, and all that is ever reported is whether a start was
requested.
-/

set_option autoImplicit false

namespace MpcNode.Network
open MpcNode.Bls MpcNode.Guarded MpcNode.Messages MpcNode.Wire MpcNode.Channels MpcNode.Tables
open MpcNode.Dkg MpcNode.Signing MpcNode.Services
open MpcNode.Rpc (Encoded RPCRequest RPCResponse)

variable {G1 P A : Type}

def startsDkg : Input G1 → Bool
  | .start _ => true
  | .message _ => false

theorem inputs_kept {is : List (Input G1)} (h : ∀ msg, .message msg ∈ is → vote msg = none)
    (node : DKGNode G1) : (is.foldl DKGNode.after node).validations = node.validations ∧
      (is.foldl DKGNode.after node).status =
        if is.any startsDkg then .started else node.status := by
  induction is using List.reverseRecOn with
  | nil => exact ⟨rfl,rfl⟩
  | append_singleton is i ih =>
    obtain ⟨hv,hs⟩ := ih (fun msg hm => h msg (by simp [hm]))
    rw [List.foldl_append, List.any_append]
    rcases i with rng | ⟨fromId,shares,commitments⟩ | ⟨fromId,toId,isValid⟩
    · exact ⟨hv,by simp [DKGNode.after, DKGNode.setStatus, startsDkg]⟩
    · have hstarts : (is.any startsDkg || [Input.message (.shareDistribution fromId shares
          commitments)].any startsDkg) = is.any startsDkg := Bool.or_false _
      rw [hstarts]
      simp only [List.foldl_cons, List.foldl_nil, DKGNode.after, DKGNode.take]
      split
      · exact ⟨hv,hs⟩
      · exact ⟨hv,hs⟩
    · exact absurd (h (.shareValidation fromId toId isValid) (by simp)) (by simp [vote])

section runs
variable [G1Group G1] [SerdeJson]

theorem waiting_results (i : Input G1) (c : Ctx (DKGNode G1) G1) :
    (perform i (Env.top .waiting) c).2.results = c.results := by
  rcases i with rng | ⟨fromId,shares,commitments⟩ | ⟨fromId,toId,isValid⟩
  · rw [perform, startDkg_run, send_results]
  · rw [perform]
    cases hd : dealing (idParsed c.node.id) (.shareDistribution fromId shares commitments) with
    | none => rw [distribution_ignored hd]
    | some d => rw [distribution_accepted hd, send_results]
  · rw [perform, validation_waiting]

theorem foldl_dkg (nodes : Nodes G1) (bs : List (Branch G1 P A)) :
    (bs.foldl Nodes.turned nodes).dkg =
      nodes.dkg.map (fun node => (bs.filterMap dkgInput).foldl DKGNode.after node) := by
  induction bs using List.reverseRecOn with
  | nil => exact Option.map_id'.symm
  | append_singleton bs b ih =>
    rw [List.foldl_append, List.foldl_cons, List.foldl_nil, turned_dkg, ih, Option.map_map,
      List.filterMap_append]
    congr 1
    funext node
    rw [Function.comp_apply, List.foldl_append]
    cases hb : dkgInput b <;> simp [hb]

theorem foldl_nodes (box : Mailbox G1) (bs : List (Branch G1 P A)) :
    (bs.foldl Mailbox.after box).nodes = bs.foldl Nodes.turned box.nodes :=
  (List.foldl_hom Mailbox.nodes (fun box b => (after_turned box b).symm)).symm

variable [Encoded P] [Hex]

/-- No turn that returns hands a vote to a key generation node. -/
theorem allowed_vote {box : Mailbox G1} {b : Branch G1 P A} (h : box.Allows b)
    (hn : box.nodes.dkg ≠ none) {msg : DKGMessage G1} (hb : dkgInput b = some (.message msg)) :
    vote msg = none := by
  cases b with
  | recv => cases hb
  | swarm event rng =>
    cases event with
    | gossip message =>
      have hu := h.2 message rfl
      simp only [Mailbox.Understands] at hu
      simp only [dkgInput] at hb
      split at hb
      · rename_i m hm
        obtain rfl := Input.message.inj (Option.some.inj hb)
        rw [hm] at hu
        cases m with
        | shareDistribution fromId shares commitments => rfl
        | shareValidation fromId toId isValid => exact absurd hu hn
      · cases hb
    | request peer request => cases request <;> cases hb
    | _ => cases hb

variable [Blake3] [DecidableEq P]

/-- In every run, as long as the loop goes on no vote has been counted, no
call would form a key, and the status says whether a start was requested. -/
theorem never_completes {layer : NetworkLayer G1} {queue : List ChannelMessage}
    {bs : List (Branch G1 P A)} {next : Loop G1 P A} {node : DKGNode G1}
    (h : loopRun .waiting (startLoop layer queue) bs = some next)
    (hn : layer.dkgNode = some node) :
    ∃ after, next.layer.dkgNode = some after ∧ after.validations = node.validations ∧
      after.status = (if (bs.filterMap dkgInput).any startsDkg then .started else node.status) ∧
      ∀ i, (perform i (Env.top .waiting) (.fresh after next.layer.channel)).2.results = [] := by
  have hallowed := (allowed_run (startLoop_shown layer queue) bs).mp (by rw [h]; rfl)
  have hnodes : ∀ pre : List (Branch G1 P A),
      (pre.foldl Mailbox.after (layer.mailbox queue)).nodes.dkg =
        some ((pre.filterMap dkgInput).foldl DKGNode.after node) := by
    intro pre
    rw [foldl_nodes, foldl_dkg]
    exact congrArg (Option.map _) hn
  have hvotes : ∀ msg, .message msg ∈ bs.filterMap dkgInput → vote msg = none := by
    intro msg hm
    obtain ⟨b,hb,hi⟩ := List.mem_filterMap.mp hm
    obtain ⟨pre,post,rfl⟩ := List.append_of_mem hb
    refine allowed_vote (hallowed pre b post rfl) ?_ hi
    rw [hnodes pre]
    exact Option.some_ne_none _
  obtain ⟨hv,hs⟩ := inputs_kept hvotes node
  refine ⟨_,?_,hv,hs,fun i => waiting_results i _⟩
  exact (congrArg Nodes.dkg (shown_run h).1.nodes).trans (hnodes bs)

end runs

section started
attribute [local instance] compactJson constantBlake3 base16

theorem started_never_completes :
    ∃ next, loopRun .waiting (startLoop starterLayer []) startedTurns = some next ∧
      ∃ after, next.layer.dkgNode = some after ∧ after.validations = ∅ ∧
        after.status =
          (if (startedTurns.filterMap dkgInput).any startsDkg then .started else .new) ∧
        ∀ i, (perform i (Env.top .waiting) (.fresh after next.layer.channel)).2.results = [] := by
  obtain ⟨next,h⟩ := started_run
  exact ⟨next,h,never_completes h rfl⟩

end started
end MpcNode.Network
