import MpcNode.SigningAggregate
import MpcNode.SigningSessions

/-!
# What a signing node makes of its calls

Everything a signing node holds, has sent and has summed is a function of
the calls it has taken: the nonces drawn, the last commitments and the last
share of each sender, a placeholder for every commitment that finds enough
senders and a sum for every share that does.
-/

set_option autoImplicit false

namespace MpcNode.Signing
open MpcNode.Bls MpcNode.Guarded MpcNode.Messages MpcNode.Wire MpcNode.Channels MpcNode.Tables
open MpcNode.Prefixes (splits splits_snoc)

variable {G1 : Type}

def noncesDrawn (is : List (SigningInput G1)) : List (Scalar × Scalar) :=
  is.filterMap (fun
    | .start _ rng => some (rng 0,rng 1)
    | _ => none)

def commitmentsBrought (is : List (SigningInput G1)) :
    List (String × List (FrostCommitment G1)) :=
  is.filterMap (fun
    | .message (.commitmentShare fromId commitments) => some (fromId,commitments)
    | _ => none)

/-- The sum that a call after some others forms, if it does. -/
def sumAt (threshold : ℕ) (split : List (SigningInput G1) × SigningInput G1) : Option Scalar :=
  match split.2 with
  | .message (.signatureShare _ _) =>
    if threshold ≤ (shareSenders (split.1++[split.2])).card then
      some (lastSharesSum (split.1++[split.2])) else none
  | _ => none

theorem noncesDrawn_append (is js : List (SigningInput G1)) :
    noncesDrawn (is++js) = noncesDrawn is ++ noncesDrawn js := List.filterMap_append

theorem commitmentsBrought_append (is js : List (SigningInput G1)) :
    commitmentsBrought (is++js) = commitmentsBrought is ++ commitmentsBrought js :=
  List.filterMap_append

theorem lastSharesSum_zero {is : List (SigningInput G1)}
    (h : ∀ p ∈ signedShares is, p.2 = 0) : lastSharesSum is = 0 := by
  apply Finset.sum_eq_zero
  intro sender _
  rw [sharesFrom]
  cases hl : (under sender (signedShares is)).getLast? with
  | none => rfl
  | some share => exact h _ (mem_under.mp (List.mem_of_getLast? hl))

theorem keySet_commitmentsBrought (is : List (SigningInput G1)) :
    keySet (written ∅ (commitmentsBrought is)) = senders is := by
  rw [keySet_written, senders, commitmentsBrought, List.map_filterMap]
  have hk : keySet (∅ : HashMap (List (FrostCommitment G1))) = ∅ := rfl
  rw [hk, Finset.empty_union]
  congr 1
  apply List.filterMap_congr
  intro i _
  rcases i with ⟨message,rng⟩ | ⟨fromId,commitments⟩ | ⟨fromId,share⟩ <;> rfl

section calls
variable [G1Group G1]

/-- What a node of this id sends at a call after some others. -/
def saidAt (id : String) (threshold : ℕ) (split : List (SigningInput G1) × SigningInput G1) :
    Option (SigningMessage G1) :=
  match split.2 with
  | .start _ _ => some (.commitmentShare id ((noncesDrawn (split.1++[split.2])).map
      (fun p => ⟨⟨p.1•generator⟩,⟨p.2•generator⟩⟩)))
  | .message (.commitmentShare _ _) =>
    if threshold ≤ (senders (split.1++[split.2])).card then some (.signatureShare id ⟨0⟩) else none
  | .message (.signatureShare _ _) => none

theorem said_named {id : String} {t : ℕ} {is : List (SigningInput G1)} {msg : SigningMessage G1}
    (hm : msg ∈ (splits is).filterMap (saidAt id t)) :
    (∃ commitments, msg = .commitmentShare id commitments) ∨ msg = .signatureShare id ⟨0⟩ := by
  obtain ⟨⟨pre,i⟩,-,hs⟩ := List.mem_filterMap.mp hm
  rcases i with ⟨message,rng⟩ | ⟨fromId,commitments⟩ | ⟨fromId,share⟩
  · exact Or.inl ⟨_,(Option.some.inj hs).symm⟩
  · simp only [saidAt] at hs
    split_ifs at hs
    exact Or.inr (Option.some.inj hs).symm
  · cases hs

variable [SerdeJson]

/-- A node, what it has sent and what it has summed, as its calls have it. -/
structure Accounts (own : String) (quorum : Usize) (is : List (SigningInput G1)) (s : Signed G1) :
    Prop where
  id : s.node.id = own
  threshold : s.node.threshold = quorum
  nonces : s.node.nonces = noncesDrawn is
  commitments : s.node.commitments = written ∅ (commitmentsBrought is)
  signatureShares : s.node.signatureShares = written ∅ (signedShares is)
  sent : s.sent = ((splits is).filterMap (saidAt own quorum.toNat)).map signingPayload
  results : s.results = (splits is).filterMap (sumAt quorum.toNat)

section step
variable {own : String} {quorum : Usize} {is : List (SigningInput G1)} {s : Signed G1}

theorem accounts_after (h : Accounts own quorum is s) (i : SigningInput G1) :
    (s.node.after i).id = own ∧ (s.node.after i).threshold = quorum ∧
      (s.node.after i).nonces = noncesDrawn (is++[i]) ∧
      (s.node.after i).commitments = written ∅ (commitmentsBrought (is++[i])) ∧
      (s.node.after i).signatureShares = written ∅ (signedShares (is++[i])) := by
  rw [noncesDrawn_append, commitmentsBrought_append, signedShares_append, written_append,
    written_append, ← h.nonces, ← h.commitments, ← h.signatureShares]
  rcases i with ⟨message,rng⟩ | ⟨fromId,commitments⟩ | ⟨fromId,share⟩
  · exact ⟨h.id,h.threshold,rfl,rfl,rfl⟩
  · exact ⟨h.id,h.threshold,(List.append_nil _).symm,rfl,rfl⟩
  · exact ⟨h.id,h.threshold,(List.append_nil _).symm,rfl,rfl⟩

theorem accounts_outputs (h : Accounts own quorum is s) (i : SigningInput G1) :
    s.node.outputs i = (saidAt own quorum.toNat (is,i)).toList := by
  obtain ⟨-,-,hn,hc,-⟩ := accounts_after h i
  rcases i with ⟨message,rng⟩ | ⟨fromId,commitments⟩ | ⟨fromId,share⟩
  · have hn' : (s.node.generateNonces 1 rng).nonces =
        noncesDrawn (is++[.start message rng]) := hn
    rw [SigningNode.outputs, h.id, SigningNode.getCommitments, hn']
    rfl
  · have hlen : len (s.node.insertCommitments fromId commitments).commitments =
        (senders (is++[.message (.commitmentShare fromId commitments)])).card := by
      rw [len_eq_card, ← keySet_commitmentsBrought, ← hc]
      rfl
    rw [SigningNode.outputs, saidAt, hlen, h.id, h.threshold]
    split_ifs <;> rfl
  · rfl

theorem accounts_sums (h : Accounts own quorum is s) (i : SigningInput G1) :
    s.node.sums i = (sumAt quorum.toNat (is,i)).toList := by
  obtain ⟨-,-,-,-,hs⟩ := accounts_after h i
  rcases i with ⟨message,rng⟩ | ⟨fromId,commitments⟩ | ⟨fromId,share⟩
  · rfl
  · rfl
  · have hs' : (s.node.insertShare fromId share.scalar).signatureShares =
        written ∅ (signedShares (is++[.message (.signatureShare fromId share)])) := hs
    have hlen : len (s.node.insertShare fromId share.scalar).signatureShares =
        (shareSenders (is++[.message (.signatureShare fromId share)])).card := by
      rw [len_eq_card, hs', keySet_written, shareSenders]
      exact congrArg Finset.card (Finset.empty_union _)
    have hsum : (s.node.insertShare fromId share.scalar).aggregate =
        lastSharesSum (is++[.message (.signatureShare fromId share)]) := by
      rw [SigningNode.aggregate, hs', foldl_perm (fun share => share) (List.Perm.refl _),
        sum_signedShares]
    rw [SigningNode.sums, sumAt, hlen, hsum, h.threshold]
    split_ifs <;> rfl

theorem accounts_attend (policy : Policy) (h : Accounts own quorum is s) (i : SigningInput G1) :
    Accounts own quorum (is++[i]) (attend policy s i) := by
  obtain ⟨hid,ht,hn,hc,hs⟩ := accounts_after h i
  rw [attend_eq]
  refine ⟨hid,ht,hn,hc,hs,?_,?_⟩
  · rw [splits_snoc, List.filterMap_append, List.map_append, ← h.sent, accounts_outputs h]
    cases hsaid : saidAt own quorum.toNat (is,i) <;> simp [hsaid]
  · rw [splits_snoc, List.filterMap_append, ← h.results, accounts_sums h]
    cases hsum : sumAt quorum.toNat (is,i) <;> simp [hsum]

end step

/-- In every run the whole state of a signing node, the messages it has sent
and the sums it has formed, each in order, are those of its calls. -/
theorem accounted (policy : Policy) (id : String) (threshold : Usize)
    (is : List (SigningInput G1)) :
    Accounts id threshold is (runSigning policy (.new id threshold) is) := by
  induction is using List.reverseRecOn with
  | nil => exact ⟨rfl,rfl,rfl,rfl,rfl,rfl,rfl⟩
  | append_singleton is i ih =>
    rw [runSigning_snoc]
    exact accounts_attend policy ih i

end calls
end MpcNode.Signing
