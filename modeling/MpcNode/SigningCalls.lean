import MpcNode.Library.Runs
import MpcNode.Signing

/-!
# Runs of the signing node

A run makes one call after another, and the network loop takes what each
call has queued. What a call sends and sums depends on the two maps only,
and the senders of commitments are those the run has heard since its start.
-/

set_option autoImplicit false

namespace MpcNode.Signing
open MpcNode.Bls MpcNode.Guarded MpcNode.Messages MpcNode.Wire MpcNode.Channels MpcNode.Tables

variable {G1 : Type}

inductive SigningInput (G1 : Type) where
  | start (message : Bytes) (rng : ℕ → Scalar)
  | message (msg : SigningMessage G1)

def isSessionStart : SigningInput G1 → Bool
  | .start _ _ => true
  | .message _ => false

def isSignatureShare : SigningMessage G1 → Bool
  | .commitmentShare _ _ => false
  | .signatureShare _ _ => true

/-- Whose commitments a list of calls brings. -/
def senders (is : List (SigningInput G1)) : Finset String :=
  (is.filterMap (fun
    | .message (.commitmentShare fromId _) => some fromId
    | _ => none)).toFinset

/-- The signature shares a list of calls brings. -/
def sharesBrought (is : List (SigningInput G1)) : List Scalar :=
  is.filterMap (fun
    | .message (.signatureShare _ share) => some share.scalar
    | _ => none)

theorem senders_append (is js : List (SigningInput G1)) :
    senders (is++js) = senders is ∪ senders js := by
  rw [senders, List.filterMap_append, List.toFinset_append]
  rfl

theorem sharesBrought_append (is js : List (SigningInput G1)) :
    sharesBrought (is++js) = sharesBrought is ++ sharesBrought js := List.filterMap_append

def SigningNode.after (node : SigningNode G1) : SigningInput G1 → SigningNode G1
  | .start _ rng => node.generateNonces 1 rng
  | .message msg => node.take msg

@[simp] theorem signing_after_threshold (node : SigningNode G1) (i : SigningInput G1) :
    (node.after i).threshold = node.threshold := by
  rcases i with ⟨message,rng⟩ | ⟨fromId,commitments⟩ | ⟨fromId,share⟩ <;> rfl

theorem signing_after_senders (node : SigningNode G1) (i : SigningInput G1) :
    keySet (node.after i).commitments = keySet node.commitments ∪ senders [i] := by
  rcases i with ⟨message,rng⟩ | ⟨fromId,commitments⟩ | ⟨fromId,share⟩
  · simp [SigningNode.after, SigningNode.generateNonces, senders]
  · simp only [SigningNode.after, SigningNode.take, SigningNode.insertCommitments, keySet_insert]
    simp [senders]
  · simp [SigningNode.after, SigningNode.take, SigningNode.insertShare, senders]

theorem signing_after_values (node : SigningNode G1) (i : SigningInput G1) {v : Scalar}
    (h : v ∈ values (node.after i).signatureShares) :
    v ∈ values node.signatureShares ∨ v ∈ sharesBrought [i] := by
  rcases i with ⟨message,rng⟩ | ⟨fromId,commitments⟩ | ⟨fromId,share⟩
  · exact Or.inl h
  · exact Or.inl h
  · obtain ⟨k,hk⟩ := mem_values.mp h
    simp only [SigningNode.after, SigningNode.take, SigningNode.insertShare,
      lookup_insert_eq] at hk
    split_ifs at hk
    · exact Or.inr (by simpa [sharesBrought] using (Option.some.inj hk).symm)
    · exact Or.inl (mem_values.mpr ⟨k,hk⟩)

/-- A node, what it has sent and what it has summed. -/
structure Signed (G1 : Type) where
  node : SigningNode G1
  sent : List ChannelMessage
  results : List Scalar

def Signed.new (id : String) (threshold : Usize) : Signed G1 := ⟨.new id threshold,[],[]⟩

section calls
variable [G1Group G1] [SerdeJson]

def performSigning : SigningInput G1 → SigningCall G1 Unit
  | .start message rng => startSigning message rng
  | .message msg => handleMessage msg

def attend (policy : Policy) (s : Signed G1) (i : SigningInput G1) : Signed G1 :=
  let c := (performSigning i (Env.top policy) ⟨s.node,.empty,s.results⟩).2
  ⟨c.node,s.sent ++ c.channel.queue,c.results⟩

def runSigning (policy : Policy) (s : Signed G1) (is : List (SigningInput G1)) : Signed G1 :=
  is.foldl (attend policy) s

/-- What a call sends. -/
def SigningNode.outputs (node : SigningNode G1) : SigningInput G1 → List (SigningMessage G1)
  | .start _ rng => [.commitmentShare node.id (node.generateNonces 1 rng).getCommitments]
  | .message (.commitmentShare fromId commitments) =>
    if node.threshold.toNat ≤ len (node.insertCommitments fromId commitments).commitments then
      [.signatureShare node.id ⟨0⟩] else []
  | .message (.signatureShare _ _) => []

/-- What a call sums. -/
def SigningNode.sums (node : SigningNode G1) : SigningInput G1 → List Scalar
  | .message (.signatureShare fromId share) =>
    if node.threshold.toNat ≤ len (node.insertShare fromId share.scalar).signatureShares then
      [(node.insertShare fromId share.scalar).aggregate] else []
  | _ => []

/-- One call, from an empty queue. -/
theorem attend_eq (policy : Policy) (s : Signed G1) (i : SigningInput G1) :
    attend policy s i = ⟨s.node.after i,s.sent ++ (s.node.outputs i).map signingPayload,
      s.results ++ s.node.sums i⟩ := by
  rcases i with ⟨message,rng⟩ | ⟨fromId,commitments⟩ | ⟨fromId,share⟩
  · simp only [attend, performSigning]
    rw [startSigning_run, send_room _ _ _ rfl empty_room]
    simp [SigningNode.after, SigningNode.outputs, SigningNode.sums, Channel.push, Channel.empty]
  · simp only [attend, performSigning]
    rw [commitment_run]
    split_ifs with h
    · rw [send_room _ _ _ rfl empty_room]
      simp [SigningNode.after, SigningNode.take, SigningNode.outputs, SigningNode.sums,
        Channel.push, Channel.empty, h]
    · simp [SigningNode.after, SigningNode.take, SigningNode.outputs, SigningNode.sums,
        Channel.empty, h]
  · simp only [attend, performSigning]
    rw [signature_run]
    simp [SigningNode.after, SigningNode.take, SigningNode.outputs, SigningNode.sums,
      Channel.empty]

theorem runSigning_append (policy : Policy) (s : Signed G1) (is js : List (SigningInput G1)) :
    runSigning policy s (is++js) = runSigning policy (runSigning policy s is) js :=
  List.foldl_append

theorem runSigning_snoc (policy : Policy) (s : Signed G1) (is : List (SigningInput G1))
    (i : SigningInput G1) :
    runSigning policy s (is++[i]) = attend policy (runSigning policy s is) i := by
  rw [runSigning_append]
  rfl

section runs
variable (policy : Policy) (id : String) (threshold : Usize)

theorem runSigning_threshold (s : Signed G1) (is : List (SigningInput G1)) :
    (runSigning policy s is).node.threshold = s.node.threshold := by
  apply Runs.foldl_kept (fun s : Signed G1 => s.node.threshold)
  intro s i
  rw [attend_eq, signing_after_threshold]

/-- A new node holds commitments of exactly those whose commitments the run
has brought. -/
theorem runSigning_senders (is : List (SigningInput G1)) :
    keySet (runSigning policy (.new id threshold) is).node.commitments = senders is := by
  induction is using List.reverseRecOn with
  | nil => rfl
  | append_singleton is i ih =>
    rw [runSigning_snoc, attend_eq, signing_after_senders, ih, senders_append]

theorem runSigning_values (is : List (SigningInput G1)) {v : Scalar}
    (h : v ∈ values (runSigning policy (.new id threshold) is).node.signatureShares) :
    v ∈ sharesBrought is := by
  induction is using List.reverseRecOn with
  | nil => exact h
  | append_singleton is i ih =>
    rw [runSigning_snoc, attend_eq] at h
    rw [sharesBrought_append, List.mem_append]
    exact (signing_after_values _ i h).imp ih (fun hi => hi)

end runs
end calls
end MpcNode.Signing
