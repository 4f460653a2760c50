import MpcNode.DkgNetwork
import MpcNode.SigningSessions

/-!
# As many signers as the threshold

A node keeps the commitments it receives and not its own. In a group of as
many nodes as the threshold each holds one too few for ever, so no share is
sent and nothing is summed, whatever is started and delivered.
-/

set_option autoImplicit false

namespace MpcNode.Signing
open MpcNode.Bls MpcNode.Guarded MpcNode.Messages MpcNode.Wire MpcNode.Channels MpcNode.Tables
open MpcNode.Broadcast

variable {G1 : Type} {n : ℕ}

/-- A request to sign, with what the random source yields. -/
structure SigningRequest where
  message : Bytes
  rng : ℕ → Scalar

def toSigningInput : Event n SigningRequest (SigningMessage G1) → SigningInput G1
  | .command request => .start request.message request.rng
  | .message _ msg => .message msg

section protocol
variable [G1Group G1] [SerdeJson]

/-- What the subscribers make of a queue when decoding succeeds. -/
def signingGossiped (queue : List ChannelMessage) : List (SigningMessage G1) :=
  queue.filterMap (fun
    | .broadcast topic data =>
      if topic ∈ Dkg.defaultTopics then fromSlice (SigningMessage G1) data else none
    | .unicast _ _ => none)

theorem signingGossiped_payloads (msgs : List (SigningMessage G1)) :
    signingGossiped (msgs.map signingPayload) = msgs := by
  rw [signingGossiped, List.filterMap_map]
  rw [← List.filterMap_some (l := msgs)]
  simp [signingPayload, Dkg.defaultTopics]

/-- Each event is one call, and the loop publishes what the call queued. -/
def signingProtocol (n : ℕ) (policy : Policy) :
    Protocol n (Signed G1) SigningRequest (SigningMessage G1) where
  react _ s e :=
    let t := attend policy { s with sent := [] } (toSigningInput e)
    ({ t with sent := s.sent ++ t.sent },signingGossiped t.sent)

theorem react_eq (policy : Policy) (i : Fin n) (s : Signed G1)
    (e : Event n SigningRequest (SigningMessage G1)) :
    (signingProtocol n policy).react i s e =
      (attend policy s (toSigningInput e),s.node.outputs (toSigningInput e)) := by
  simp only [signingProtocol, attend_eq, List.nil_append, signingGossiped_payloads]

def signingOutline (n : ℕ) : Protocol n (Signed G1) SigningRequest (SigningMessage G1) where
  react _ s e :=
    let i := toSigningInput e
    (⟨s.node.after i,s.sent ++ (s.node.outputs i).map signingPayload,s.results ++ s.node.sums i⟩,
      s.node.outputs i)

theorem signingProtocol_eq (n : ℕ) (policy : Policy) :
    (signingProtocol n policy : Protocol n (Signed G1) _ _) = signingOutline n := by
  have h : (signingProtocol n policy : Protocol n (Signed G1) _ _).react =
      (signingOutline n).react := by
    funext i s e
    rw [react_eq, attend_eq]
    rfl
  exact congrArg Protocol.mk h

/-- A node that has heard commitments of other nodes only. -/
structure Short (ids : Fin n → String) (i : Fin n) (s : Signed G1) : Prop where
  id : s.node.id = ids i
  threshold : s.node.threshold.toNat = n
  heard : keySet s.node.commitments ⊆ (Finset.univ.erase i).image ids
  unsigned : s.node.signatureShares = ∅
  shares : sharesIn G1 s.sent = 0
  results : s.results = []

theorem short_start (policy : Policy) {ids : Fin n → String} {i : Fin n} {s : Signed G1}
    (h : Short ids i s) (message : Bytes) (rng : ℕ → Scalar) :
    Short ids i (attend policy s (.start message rng)) := by
  rw [attend_eq]
  refine ⟨h.id,h.threshold,h.heard,h.unsigned,?_,?_⟩
  · rw [sharesIn_append, h.shares]
    simp [SigningNode.outputs, sharesIn, isSignatureShare]
  · simp [SigningNode.sums, h.results]

/-- One more commitment of another node is still one too few. -/
theorem short_outputs {ids : Fin n → String} {i t : Fin n} {s : Signed G1} (h : Short ids i s)
    (ht : t ≠ i) (commitments : List (FrostCommitment G1)) :
    s.node.outputs (.message (.commitmentShare (ids t) commitments)) = [] := by
  have hsub : keySet (s.node.insertCommitments (ids t) commitments).commitments ⊆
      (Finset.univ.erase i).image ids := by
    rw [SigningNode.insertCommitments, keySet_insert]
    apply Finset.insert_subset _ h.heard
    exact Finset.mem_image_of_mem _ (Finset.mem_erase.mpr ⟨ht,Finset.mem_univ t⟩)
  have hcard : len (s.node.insertCommitments (ids t) commitments).commitments < n := by
    rw [len_eq_card]
    calc (keySet (s.node.insertCommitments (ids t) commitments).commitments).card
      _ ≤ ((Finset.univ.erase i).image ids).card := Finset.card_le_card hsub
      _ ≤ (Finset.univ.erase i).card := Finset.card_image_le
      _ < n := by
        rw [Finset.card_erase_of_mem (Finset.mem_univ i), Finset.card_univ, Fintype.card_fin]
        exact Nat.sub_one_lt_of_lt i.pos
  rw [SigningNode.outputs, h.threshold, if_neg (Nat.not_le.mpr hcard)]

theorem short_commitment (policy : Policy) {ids : Fin n → String} {i t : Fin n} {s : Signed G1}
    (h : Short ids i s) (ht : t ≠ i) (commitments : List (FrostCommitment G1)) :
    Short ids i (attend policy s (.message (.commitmentShare (ids t) commitments))) := by
  rw [attend_eq, short_outputs h ht]
  refine ⟨h.id,h.threshold,?_,h.unsigned,?_,?_⟩
  · simp only [signing_after_senders, senders, List.filterMap_cons, List.filterMap_nil,
      List.toFinset_cons, List.toFinset_nil]
    apply Finset.union_subset h.heard
    rw [insert_empty_eq, Finset.singleton_subset_iff]
    exact Finset.mem_image_of_mem _ (Finset.mem_erase.mpr ⟨ht,Finset.mem_univ t⟩)
  · simpa using h.shares
  · simp [SigningNode.sums, h.results]

/-- Every node is short, and what is in flight are commitments of others. -/
structure AllShort (ids : Fin n → String) (net : Net n (Signed G1) (SigningMessage G1)) :
    Prop where
  node : ∀ i, Short ids i (net.node i)
  flight : ∀ s r, ∀ m ∈ net.flight s r,
    s ≠ r ∧ ∃ commitments, m = .commitmentShare (ids s) commitments

theorem allShort_apply (policy : Policy) {ids : Fin n → String}
    {net : Net n (Signed G1) (SigningMessage G1)} (h : AllShort ids net) {i : Fin n}
    {e : Event n SigningRequest (SigningMessage G1)}
    {flight : Fin n → Fin n → List (SigningMessage G1)}
    (hnode : Short ids i (attend policy (net.node i) (toSigningInput e)))
    (hout : ∀ m ∈ (net.node i).node.outputs (toSigningInput e),
      ∃ commitments, m = .commitmentShare (ids i) commitments)
    (hflight : ∀ s r, ∀ m ∈ flight s r, m ∈ net.flight s r) :
    AllShort ids (net.apply (signingProtocol n policy) i e flight) where
  node j := by
    simp only [Net.apply, react_eq]
    by_cases hj : j = i
    · subst hj
      simpa using hnode
    · rw [Function.update_of_ne hj]
      exact h.node j
  flight s r m hm := by
    simp only [Net.apply, react_eq] at hm
    rcases mem_emit.mp hm with hm | ⟨rfl,hr,hm⟩
    · exact h.flight s r m (hflight s r m hm)
    · exact ⟨Ne.symm hr,hout m hm⟩

theorem allShort_step (policy : Policy) (ids : Fin n → String)
    (net : Net n (Signed G1) (SigningMessage G1)) (a : Action n SigningRequest (SigningMessage G1))
    (net' : Net n (Signed G1) (SigningMessage G1)) (h : AllShort ids net)
    (hs : net.step (signingProtocol n policy) a = some net') : AllShort ids net' := by
  obtain ⟨i,e⟩ := a
  obtain ⟨request,he,rfl⟩ | ⟨t,m,he,hm,rfl⟩ := step_cases _ hs
  · obtain rfl : e = .command request := he
    apply allShort_apply policy h (short_start policy (h.node i) _ _)
    · intro m hm
      obtain rfl := List.mem_singleton.mp hm
      exact ⟨_,by rw [← (h.node i).id]⟩
    · exact fun s r m hm => hm
  · obtain rfl : e = .message t m := he
    obtain ⟨hti,commitments,rfl⟩ := h.flight t i m hm
    apply allShort_apply policy h (short_commitment policy (h.node i) hti commitments)
    · rw [toSigningInput, short_outputs (h.node i) hti]
      intro m hm
      cases hm
    · exact fun s r m hm => mem_take hm

end protocol

section group
variable [G1Group G1] [SerdeJson] {threshold : Usize}

/-- As many nodes as the threshold. -/
abbrev SigningNet (G1 : Type) (threshold : Usize) :=
  Net threshold.toNat (Signed G1) (SigningMessage G1)

abbrev SigningNetRun (G1 : Type) (threshold : Usize) :=
  List (Action threshold.toNat SigningRequest (SigningMessage G1))

def signers (ids : Fin threshold.toNat → String) : SigningNet G1 threshold :=
  Broadcast.start (fun i => Signed.new (ids i) threshold)

/-- Every node has sent a share and summed shares. -/
def AllSign (net : SigningNet G1 threshold) : Prop :=
  ∀ i, 0 < sharesIn G1 (net.node i).sent ∧ (net.node i).results ≠ []

/-- In no run of a group as large as the threshold does any node send a
share or sum any, so never do all. -/
theorem threshold_never_signs (policy : Policy) (ids : Fin threshold.toNat → String)
    (ht : 1 ≤ threshold.toNat) {as : SigningNetRun G1 threshold} {net : SigningNet G1 threshold}
    (h : (signers ids).run (signingProtocol threshold.toNat policy) as = some net) :
    (∀ i, sharesIn G1 (net.node i).sent = 0 ∧ (net.node i).results = []) ∧ ¬ AllSign net := by
  have hstart : AllShort ids (signers ids : SigningNet G1 threshold) :=
    ⟨fun i => ⟨rfl,rfl,Finset.empty_subset _,rfl,rfl,rfl⟩,fun s r m hm => nomatch hm⟩
  have hall := run_invariant _ (allShort_step policy ids) hstart h
  refine ⟨fun i => ⟨(hall.node i).shares,(hall.node i).results⟩,fun hsign => ?_⟩
  exact (hsign ⟨0,ht⟩).2 (hall.node ⟨0,ht⟩).results

end group

section two
attribute [local instance] compactJson

def twoIds (i : Fin (2 : Usize).toNat) : String := if i.val = 0 then "1" else "2"

def zeroRequest : SigningRequest := ⟨[],fun _ => 0⟩

def zeroCommitment (i : Fin (2 : Usize).toNat) : SigningMessage LogPoint :=
  .commitmentShare (twoIds i) [⟨⟨(0 : Scalar)⟩,⟨(0 : Scalar)⟩⟩]

def twoRun : SigningNetRun LogPoint 2 :=
  [(⟨0,by decide⟩,.command zeroRequest),(⟨1,by decide⟩,.command zeroRequest),
    (⟨1,by decide⟩,.message ⟨0,by decide⟩ (zeroCommitment ⟨0,by decide⟩)),
    (⟨0,by decide⟩,.message ⟨1,by decide⟩ (zeroCommitment ⟨1,by decide⟩))]

theorem two_quiet : ∃ net, (signers twoIds).run (signingProtocol _ .waiting) twoRun = some net ∧
    net.Quiet ∧ (net.node ⟨0,by decide⟩).results = [] := by
  rw [signingProtocol_eq]
  exact run_found _ (by decide +kernel)

theorem two_not_signed : ¬ ∀ net,
    (signers twoIds).run (signingProtocol _ .waiting) twoRun = some net → net.Quiet →
      AllSign net := by
  intro h
  obtain ⟨net,hn,hq,hr⟩ := two_quiet
  exact (h net hn hq ⟨0,by decide⟩).2 hr

theorem two_never_signs : ∃ net,
    (signers twoIds).run (signingProtocol _ .waiting) twoRun = some net ∧ ¬ AllSign net := by
  obtain ⟨net,hn,-⟩ := two_quiet
  exact ⟨net,hn,(threshold_never_signs .waiting twoIds (by decide) hn).2⟩

end two
end MpcNode.Signing
