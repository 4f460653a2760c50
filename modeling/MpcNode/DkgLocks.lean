import MpcNode.DkgLedger

/-!
# Guards held across awaits

A vote is counted under a write guard that lives until the handler returns,
and the completion check awaits the same map. No other call awaits a guard
while it holds one that conflicts. Waiting for room in the channel is no
wait for a guard.
-/

set_option autoImplicit false

namespace MpcNode.Dkg
open MpcNode.Bls MpcNode.Guarded MpcNode.Messages MpcNode.Wire MpcNode.Channels

def Returns {ε α : Type} (o : Outcome Lock ε α) : Prop := ∀ l, o ≠ .blocked l

theorem send_returns {N K : Type} (message : ChannelMessage) (env : Env Lock) (c : Ctx N K) :
    Returns (send message env c).1 := by
  cases h : c.channel.closed
  · by_cases hr : c.channel.Room
    · rw [send_room _ _ _ h hr]
      rintro l ⟨⟩
    · rw [send_full _ _ _ h hr]
      rintro l ⟨⟩
  · rw [send_closed _ _ _ h]
    rintro l ⟨⟩

section calls
variable {G1 : Type} [G1Group G1] [SerdeJson]

theorem startDkg_returns (rng : Rng) (c : Ctx (DKGNode G1) G1) :
    Returns (startDkg rng (Env.top .waiting) c).1 := by
  rw [startDkg_run]
  exact send_returns _ _ _

theorem handleMessage_returns_iff (msg : DKGMessage G1) (c : Ctx (DKGNode G1) G1) :
    Returns (handleMessage msg (Env.top .waiting) c).1 ↔ isDistribution msg = true := by
  cases msg with
  | shareDistribution fromId shares commitments =>
    refine iff_of_true ?_ rfl
    cases h : dealing (idParsed c.node.id) (.shareDistribution fromId shares commitments) with
    | none =>
      rw [distribution_ignored h]
      rintro l ⟨⟩
    | some d =>
      rw [distribution_accepted h]
      exact send_returns _ _ _
  | shareValidation fromId toId isValid =>
    refine iff_of_false ?_ Bool.false_ne_true
    rw [validation_waiting]
    exact fun h => h _ rfl

/-- In a run of a new node, every call returns if and only if no vote is
ever handled. -/
theorem run_returns_iff (id : String) (threshold totalNodes : Usize) (channel : Channel)
    (is : List (Input G1)) :
    (∀ pre i post, is = pre ++ i::post → Returns (perform i (Env.top .waiting)
      (run .waiting (.fresh (.new id threshold totalNodes) channel) pre)).1) ↔
    ∀ msg ∈ messages is, isDistribution msg = true := by
  constructor
  · intro h msg hm
    obtain ⟨i,hi,hmsg⟩ := List.mem_filterMap.mp hm
    obtain ⟨pre,post,rfl⟩ := List.append_of_mem hi
    have hr := h pre i post rfl
    cases i with
    | start rng => cases hmsg
    | message m =>
      obtain rfl := Option.some.inj hmsg
      exact (handleMessage_returns_iff m _).mp hr
  · rintro h pre i post rfl
    cases i with
    | start rng => exact startDkg_returns rng _
    | message m =>
      apply (handleMessage_returns_iff m _).mpr
      exact h m (List.mem_filterMap.mpr ⟨.message m,by simp,rfl⟩)

end calls

section deadlock
attribute [local instance] compactJson

/-- The first vote a node handles never returns. -/
theorem vote_never_returns : ¬ Returns (handleMessage (.shareValidation "2" "3" true)
    (Env.top .waiting) (.fresh (.new "1" 3 5) .empty : Ctx (DKGNode LogPoint) LogPoint)).1 :=
  fun h => h .validations rfl

end deadlock
end MpcNode.Dkg
