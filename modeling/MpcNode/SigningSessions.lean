import MpcNode.Library.Prefixes
import MpcNode.SigningCalls

/-!
# Signing sessions

A start request opens a session but clears nothing: the maps keep what
earlier sessions brought, and the threshold is tested again at every later
commitment. The node sends one share for each commitment that finds it met.
-/

set_option autoImplicit false

namespace MpcNode.Signing
open MpcNode.Bls MpcNode.Guarded MpcNode.Messages MpcNode.Wire MpcNode.Channels MpcNode.Tables

variable {G1 : Type}

/-- The commitments among the calls that find `threshold` senders, those
already seen included. -/
def triggers (threshold : ℕ) : Finset String → List (SigningInput G1) → ℕ
  | _, [] => 0
  | seen, .message (.commitmentShare fromId _)::is =>
    (if threshold ≤ (insert fromId seen).card then 1 else 0) +
      triggers threshold (insert fromId seen) is
  | seen, _::is => triggers threshold seen is

theorem triggers_cons (threshold : ℕ) (seen : Finset String) (i : SigningInput G1)
    (is : List (SigningInput G1)) :
    triggers threshold seen (i::is) =
      triggers threshold seen [i]+triggers threshold (seen ∪ senders [i]) is := by
  rcases i with ⟨message,rng⟩ | ⟨fromId,commitments⟩ | ⟨fromId,share⟩ <;>
    simp [triggers, senders]

theorem triggers_single {t : ℕ} {seen : Finset String} {i : SigningInput G1}
    (h : 0 < triggers t seen [i]) : t ≤ (seen ∪ senders [i]).card := by
  rcases i with ⟨message,rng⟩ | ⟨fromId,commitments⟩ | ⟨fromId,share⟩
  · simp [triggers] at h
  · have hs : seen ∪ senders [.message (.commitmentShare fromId commitments)] =
        insert fromId seen := by simp [senders]
    rw [hs]
    by_contra hc
    simp [triggers, hc] at h
  · simp [triggers] at h

/-- The calls after the latest start, all of them if there was none. -/
def sinceStart (is : List (SigningInput G1)) : List (SigningInput G1) :=
  (is.reverse.takeWhile (fun i => !isSessionStart i)).reverse

section calls
variable [G1Group G1] [SerdeJson]

def isSharePayload (G1 : Type) [G1Group G1] : ChannelMessage → Bool
  | .broadcast _ data => (fromSlice (SigningMessage G1) data).any isSignatureShare
  | .unicast _ _ => false

@[simp] theorem isSharePayload_payload (msg : SigningMessage G1) :
    isSharePayload G1 (signingPayload msg) = isSignatureShare msg := by
  simp [isSharePayload, signingPayload]

def sharesIn (G1 : Type) [G1Group G1] (queue : List ChannelMessage) : ℕ :=
  queue.countP (isSharePayload G1)

theorem sharesIn_outputs (node : SigningNode G1) (i : SigningInput G1) :
    sharesIn G1 ((node.outputs i).map signingPayload) =
      triggers node.threshold.toNat (keySet node.commitments) [i] := by
  rcases i with ⟨message,rng⟩ | ⟨fromId,commitments⟩ | ⟨fromId,share⟩
  · simp [SigningNode.outputs, sharesIn, triggers, isSignatureShare]
  · simp only [SigningNode.outputs, triggers, SigningNode.insertCommitments, len_eq_card,
      keySet_insert, add_zero]
    split_ifs <;> simp [sharesIn, isSignatureShare]
  · simp [SigningNode.outputs, sharesIn, triggers]

theorem sharesIn_append (q r : List ChannelMessage) :
    sharesIn G1 (q++r) = sharesIn G1 q+sharesIn G1 r := List.countP_append

theorem sharesIn_run (policy : Policy) (s : Signed G1) (is : List (SigningInput G1)) :
    sharesIn G1 (runSigning policy s is).sent =
      sharesIn G1 s.sent+triggers s.node.threshold.toNat (keySet s.node.commitments) is := by
  induction is generalizing s with
  | nil => rfl
  | cons i is ih =>
    have hi := ih (attend policy s i)
    rw [attend_eq, signing_after_threshold, signing_after_senders, sharesIn_append,
      sharesIn_outputs] at hi
    rw [triggers_cons, ← Nat.add_assoc, ← hi, ← attend_eq policy]
    rfl

section sessions
variable (policy : Policy) (id : String) (threshold : Usize)

/-- Between one start and the next, at most one share is sent. -/
def OneSharePerSession (is : List (SigningInput G1)) : Prop :=
  ∀ pre s mid post, is = pre ++ s::(mid++post) → isSessionStart s = true →
    (∀ i ∈ mid, isSessionStart i = false) →
    sharesIn G1 (runSigning policy (.new id threshold) (pre ++ s::mid)).sent ≤
      sharesIn G1 (runSigning policy (.new id threshold) (pre++[s])).sent+1

/-- One share is sent a session exactly when in each session at most one
commitment finds the threshold met by all the senders so far. -/
theorem oneSharePerSession_iff (is : List (SigningInput G1)) :
    OneSharePerSession policy id threshold is ↔
      ∀ pre s mid post, is = pre ++ s::(mid++post) → isSessionStart s = true →
        (∀ i ∈ mid, isSessionStart i = false) →
        triggers threshold.toNat (senders pre) mid ≤ 1 := by
  have hcount : ∀ (pre : List (SigningInput G1)) s mid, isSessionStart s = true →
      sharesIn G1 (runSigning policy (.new id threshold) (pre ++ s::mid)).sent =
        sharesIn G1 (runSigning policy (.new id threshold) (pre++[s])).sent+
          triggers threshold.toNat (senders pre) mid := by
    intro pre s mid hs
    have hp : senders (pre++[s]) = senders pre := by
      cases s with
      | start message rng => simp [senders]
      | message msg => cases hs
    have h := sharesIn_run policy (runSigning policy (.new id threshold) (pre++[s])) mid
    rw [← runSigning_append, runSigning_senders, runSigning_threshold, hp, List.append_assoc] at h
    exact h
  constructor
  · intro h pre s mid post his hs hm
    have hle := h pre s mid post his hs hm
    rw [hcount pre s mid hs] at hle
    omega
  · intro h pre s mid post his hs hm
    have hle := h pre s mid post his hs hm
    rw [hcount pre s mid hs]
    omega

/-- Whenever a call sends a share, the window of the calls so far brings
commitments of `threshold` senders; whenever it sums, the window brings each
value summed. -/
structure Covered (window : List (SigningInput G1) → List (SigningInput G1))
    (is : List (SigningInput G1)) : Prop where
  sent : ∀ pre i post, is = pre ++ i::post →
    sharesIn G1 (runSigning policy (.new id threshold) pre).sent <
      sharesIn G1 (runSigning policy (.new id threshold) (pre++[i])).sent →
    threshold.toNat ≤ (senders (window (pre++[i]))).card
  summed : ∀ pre i post, is = pre ++ i::post →
    (runSigning policy (.new id threshold) (pre++[i])).results ≠
      (runSigning policy (.new id threshold) pre).results →
    ∀ v ∈ values (runSigning policy (.new id threshold) (pre++[i])).node.signatureShares,
      v ∈ sharesBrought (window (pre++[i]))

/-- What is sent and summed is covered by the calls since the node was made. -/
theorem covered_since_new (is : List (SigningInput G1)) :
    Covered policy id threshold (fun js => js) is where
  sent := by
    rintro pre i post rfl h
    rw [runSigning_append, sharesIn_run policy (runSigning policy (.new id threshold) pre),
      runSigning_senders, runSigning_threshold] at h
    rw [senders_append]
    exact triggers_single (Nat.lt_add_right_iff_pos.mp h)
  summed := by
    rintro pre i post rfl - v hv
    exact runSigning_values policy id threshold _ hv

end sessions
end calls

section samples
attribute [local instance] compactJson

def sampleStart : SigningInput LogPoint := .start [] (fun _ => 1)

def sampleCommitment (fromId : String) : SigningInput LogPoint :=
  .message (.commitmentShare fromId [])

def repeatedCommitments : List (SigningInput LogPoint) :=
  [sampleStart,sampleCommitment "2",sampleCommitment "2"]

theorem repeated_shares : ¬ OneSharePerSession .waiting "1" 1 repeatedCommitments := by
  intro h
  have hle := h [] sampleStart [sampleCommitment "2",sampleCommitment "2"] [] rfl rfl (by decide)
  rw [sharesIn_run, sharesIn_run] at hle
  revert hle
  decide

def twoSessions : List (SigningInput LogPoint) :=
  [sampleStart,sampleCommitment "2",sampleStart,sampleCommitment "3"]

theorem session_leaks : ¬ Covered .waiting "1" 2 sinceStart twoSessions := by
  intro h
  have hle := h.sent [sampleStart,sampleCommitment "2",sampleStart] (sampleCommitment "3") [] rfl
    (by
      rw [sharesIn_run, sharesIn_run]
      decide)
  revert hle
  decide

end samples
end MpcNode.Signing
