import MpcNode.SigningSessions

/-!
# Nonces across sessions

A start request draws one pair and publishes commitments of the whole
vector. Nothing ever leaves the vector, so a session that is announced
publishes every commitment of those announced before it. `FrostSigner` in
the same repository takes a pair out when it signs.
-/

set_option autoImplicit false

namespace MpcNode.Signing
open MpcNode.Bls MpcNode.Guarded MpcNode.Messages MpcNode.Wire MpcNode.Channels MpcNode.Tables

variable {G1 : Type}

abbrev SigningTurn (G1 : Type) := SigningInput G1 × Channel

/-- A start request that finds the channel open and with room, a request
that waits being one that finds what it waited for, or is dropped. -/
def announces (turn : SigningTurn G1) : Bool :=
  isSessionStart turn.1 && !turn.2.closed && decide turn.2.Room

def drawn (run : List (SigningTurn G1)) : List Scalar :=
  run.flatMap (fun
    | (.start _ rng,_) => [rng 0,rng 1]
    | _ => [])

section calls
variable [G1Group G1]

theorem getCommitments_generate (node : SigningNode G1) (rng : ℕ → Scalar) :
    (node.generateNonces 1 rng).getCommitments =
      node.getCommitments ++ [⟨⟨rng 0•generator⟩,⟨rng 1•generator⟩⟩] := by
  simp [SigningNode.getCommitments, SigningNode.generateNonces]

theorem getCommitments_take (node : SigningNode G1) (msg : SigningMessage G1) :
    (node.take msg).getCommitments = node.getCommitments := by
  cases msg <;> rfl

variable [SerdeJson]

/-- The commitments that a queue holds for the other signers. -/
def publishedIn (G1 : Type) [G1Group G1] (queue : List ChannelMessage) :
    List (FrostCommitment G1) :=
  queue.flatMap (fun
    | .broadcast _ data =>
      match fromSlice (SigningMessage G1) data with
      | some (.commitmentShare _ commitments) => commitments
      | _ => []
    | .unicast _ _ => [])

theorem publishedIn_commitments (fromId : String) (commitments : List (FrostCommitment G1)) :
    publishedIn G1 [signingPayload (.commitmentShare fromId commitments)] = commitments := by
  simp [publishedIn, signingPayload]

def SigningNode.turned (policy : Policy) (node : SigningNode G1) (turn : SigningTurn G1) :
    Ctx (SigningNode G1) Scalar :=
  (performSigning turn.1 (Env.top policy) (.fresh node turn.2)).2

theorem turned_node (policy : Policy) (node : SigningNode G1) (turn : SigningTurn G1) :
    (node.turned policy turn).node = node.after turn.1 := by
  obtain ⟨i,channel⟩ := turn
  cases i with
  | start message rng =>
    simp only [SigningNode.turned, performSigning]
    rw [startSigning_run, send_node]
    rfl
  | message msg => exact handleMessage_node policy msg (.fresh node channel)

def SigningNode.publishes (policy : Policy) (node : SigningNode G1) (turn : SigningTurn G1) :
    List (FrostCommitment G1) :=
  publishedIn G1 ((node.turned policy turn).channel.queue.drop turn.2.queue.length)

theorem start_publishes (policy : Policy) (node : SigningNode G1) (message : Bytes)
    (rng : ℕ → Scalar) (channel : Channel) :
    node.publishes policy (.start message rng,channel) =
      if announces ((.start message rng,channel) : SigningTurn G1) = true then
        (node.generateNonces 1 rng).getCommitments else [] := by
  simp only [SigningNode.publishes, SigningNode.turned, performSigning, announces, isSessionStart]
  rw [startSigning_run]
  by_cases ho : channel.closed = true
  · rw [send_closed _ _ _ (by exact ho)]
    simp [ho, publishedIn]
  · have ho' : channel.closed = false := by simpa using ho
    by_cases hr : channel.Room
    · rw [send_room _ _ _ (by exact ho') (by exact hr)]
      simp [ho', hr, Channel.push, publishedIn_commitments]
    · rw [send_full _ _ _ (by exact ho') (by exact hr)]
      simp [ho', hr, publishedIn]

/-- What each start request of a run publishes. -/
def sessionCommitments (policy : Policy) :
    SigningNode G1 → List (SigningTurn G1) → List (List (FrostCommitment G1))
  | _, [] => []
  | node, turn::run =>
    (if isSessionStart turn.1 then [node.publishes policy turn] else []) ++
      sessionCommitments policy (node.turned policy turn).node run

/-- No two start requests publish a common commitment. -/
def SeparateSessions (policy : Policy) (node : SigningNode G1) (run : List (SigningTurn G1)) :
    Prop :=
  (sessionCommitments policy node run).Pairwise List.Disjoint

theorem sessionCommitments_message (policy : Policy) (node : SigningNode G1)
    (msg : SigningMessage G1) (channel : Channel) (run : List (SigningTurn G1)) :
    sessionCommitments policy node ((.message msg,channel)::run) =
      sessionCommitments policy (node.take msg) run := by
  rw [sessionCommitments, turned_node]
  rfl

theorem sessionCommitments_start (policy : Policy) (node : SigningNode G1) (message : Bytes)
    (rng : ℕ → Scalar) (channel : Channel) (run : List (SigningTurn G1)) :
    sessionCommitments policy node ((.start message rng,channel)::run) =
      (if announces ((.start message rng,channel) : SigningTurn G1) = true then
        (node.generateNonces 1 rng).getCommitments else []) ::
        sessionCommitments policy (node.generateNonces 1 rng) run := by
  rw [sessionCommitments, turned_node, ← start_publishes policy]
  rfl

/-- A run publishes nothing for a start request, or all that was there and
more. -/
theorem sessionCommitments_grow (policy : Policy) (node : SigningNode G1)
    (run : List (SigningTurn G1)) {published : List (FrostCommitment G1)}
    (h : published ∈ sessionCommitments policy node run) :
    published = [] ∨ node.getCommitments ⊆ published := by
  induction run generalizing node with
  | nil => exact absurd h List.not_mem_nil
  | cons turn run ih =>
    obtain ⟨i,channel⟩ := turn
    cases i with
    | start message rng =>
      rw [sessionCommitments_start, List.mem_cons] at h
      rcases h with rfl | h
      · split_ifs
        · right
          rw [getCommitments_generate]
          exact List.subset_append_left _ _
        · exact Or.inl rfl
      · rcases ih _ h with h | h
        · exact Or.inl h
        · rw [getCommitments_generate] at h
          exact Or.inr (List.append_subset.mp h).1
    | message msg =>
      rw [sessionCommitments_message] at h
      have hrun := ih _ h
      rwa [getCommitments_take] at hrun

theorem sessionCommitments_silent (policy : Policy) (node : SigningNode G1)
    (run : List (SigningTurn G1)) :
    (∀ published ∈ sessionCommitments policy node run, published = []) ↔
      run.countP announces = 0 := by
  induction run generalizing node with
  | nil => simp [sessionCommitments]
  | cons turn run ih =>
    obtain ⟨i,channel⟩ := turn
    cases i with
    | start message rng =>
      rw [sessionCommitments_start, List.forall_mem_cons, ih, List.countP_cons]
      by_cases ha : announces ((.start message rng,channel) : SigningTurn G1) = true
      · simp [ha, getCommitments_generate]
      · simp [ha]
    | message msg =>
      rw [sessionCommitments_message, ih, List.countP_cons_of_neg]
      simp [announces, isSessionStart]

theorem disjoint_iff (policy : Policy) {node : SigningNode G1} (hn : node.getCommitments ≠ [])
    (run : List (SigningTurn G1)) :
    (∀ published ∈ sessionCommitments policy node run, node.getCommitments.Disjoint published) ↔
      run.countP announces = 0 := by
  rw [← sessionCommitments_silent policy node]
  apply forall₂_congr
  intro published hp
  constructor
  · intro hd
    apply (sessionCommitments_grow policy node run hp).resolve_right
    intro hs
    obtain ⟨commitment,hc⟩ := List.exists_mem_of_ne_nil _ hn
    exact hd hc (hs hc)
  · rintro rfl
    exact List.disjoint_nil_right _

/-- Commitments stay within one session exactly when at most one start
request of the run finds the channel open and with room. -/
theorem separateSessions_iff (policy : Policy) (node : SigningNode G1)
    (run : List (SigningTurn G1)) :
    SeparateSessions policy node run ↔ run.countP announces ≤ 1 := by
  rw [SeparateSessions]
  induction run generalizing node with
  | nil => simp [sessionCommitments]
  | cons turn run ih =>
    obtain ⟨i,channel⟩ := turn
    cases i with
    | message msg =>
      rw [sessionCommitments_message, ih, List.countP_cons_of_neg]
      simp [announces, isSessionStart]
    | start message rng =>
      rw [sessionCommitments_start, List.pairwise_cons, ih, List.countP_cons]
      by_cases ha : announces ((.start message rng,channel) : SigningTurn G1) = true
      · have hn : (node.generateNonces 1 rng).getCommitments ≠ [] := by
          simp [getCommitments_generate]
        rw [if_pos ha, if_pos ha, disjoint_iff policy hn]
        omega
      · rw [if_neg ha, if_neg ha]
        simp

end calls

section samples
attribute [local instance] compactJson

def twoStarts : List (SigningTurn LogPoint) :=
  [(.start [] (fun k => if k = 0 then 0 else 1),.empty),
    (.start [] (fun k => if k = 0 then 1+1 else 1+1+1),.empty)]

/-- A second start publishes the commitment of the first again, with no
scalar drawn twice. -/
theorem nonce_reused : ¬ ((drawn twoStarts).Nodup →
    SeparateSessions .waiting (.new "1" 1) twoStarts) := by
  intro h
  have hs := h (by decide)
  rw [SeparateSessions, twoStarts, sessionCommitments_start, if_pos (by decide),
    List.pairwise_cons, sessionCommitments_start, if_pos (by decide)] at hs
  have hd := hs.1 _ List.mem_cons_self
  rw [getCommitments_generate, getCommitments_generate] at hd
  apply hd (a := ⟨⟨(0 : Scalar)•generator⟩,⟨(1 : Scalar)•generator⟩⟩)
  · simp
  · rw [getCommitments_generate]
    simp

end samples
end MpcNode.Signing
