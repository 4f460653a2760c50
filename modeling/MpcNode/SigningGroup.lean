import MpcNode.SigningHistory
import MpcNode.SigningQuorum

/-!
# A group of signing nodes

Nodes that follow the code send the placeholder for a share, so whatever is
started and delivered every sum is zero. A node hears all the others and not
itself, so a group in which all have started signs when it is larger than the
threshold, and then all of it does.
-/

set_option autoImplicit false

namespace MpcNode.Signing
open MpcNode.Bls MpcNode.Guarded MpcNode.Messages MpcNode.Wire MpcNode.Channels MpcNode.Tables
open MpcNode.Broadcast
open MpcNode.Prefixes (splits splits_snoc mem_splits exists_last_kept)
open scoped List

section parties
variable {G1 : Type} {n : ℕ}

theorem sumAt_last {t : ℕ} {is : List (SigningInput G1)} (ht : t ≤ (shareSenders is).card)
    (hne : (shareSenders is).Nonempty) : (splits is).filterMap (sumAt t) ≠ [] := by
  rw [shareSenders, List.toFinset_nonempty_iff, Ne, List.map_eq_nil_iff] at hne
  obtain ⟨pre,x,hsplit,hx,hall⟩ := exists_last_kept _ hne
  have hs : shareSenders (pre++[x]) = shareSenders is :=
    congrArg (fun brought => (brought.map Prod.fst).toFinset) hall
  rcases x with ⟨message,rng⟩ | ⟨fromId,commitments⟩ | ⟨fromId,share⟩
  · cases hx
  · cases hx
  · apply List.ne_nil_of_mem (a := lastSharesSum _)
    refine List.mem_filterMap.mpr ⟨_,hsplit,?_⟩
    simp only [sumAt]
    rw [hs, if_pos ht]

variable [G1Group G1]

theorem saidAt_share {own : String} {t : ℕ} {pre : List (SigningInput G1)} {x : SigningInput G1}
    (h : saidAt own t (pre,x) = some (.signatureShare own ⟨0⟩ : SigningMessage G1)) :
    t ≤ (senders (pre++[x])).card ∧ (senders (pre++[x])).Nonempty := by
  rcases x with ⟨message,rng⟩ | ⟨fromId,commitments⟩ | ⟨fromId,share⟩
  · cases Option.some.inj h
  · simp only [saidAt] at h
    split_ifs at h with ht
    refine ⟨ht,fromId,?_⟩
    simp [senders]
  · cases h

theorem saidAt_last {own : String} {t : ℕ} {is : List (SigningInput G1)}
    (ht : t ≤ (senders is).card) (hne : (senders is).Nonempty) :
    ∃ pre x, (pre,x) ∈ splits is ∧
      saidAt own t (pre,x) = some (.signatureShare own ⟨0⟩ : SigningMessage G1) := by
  rw [senders, List.toFinset_nonempty_iff] at hne
  obtain ⟨pre,x,hsplit,hx,hall⟩ := exists_last_kept _ hne
  refine ⟨pre,x,hsplit,?_⟩
  have hs : senders (pre++[x]) = senders is := congrArg List.toFinset hall
  rcases x with ⟨message,rng⟩ | ⟨fromId,commitments⟩ | ⟨fromId,share⟩
  · cases hx
  · simp only [saidAt]
    rw [hs, if_pos ht]
  · cases hx

variable [SerdeJson]

def group (ids : Fin n → String) (threshold : Usize) : Net n (Signed G1) (SigningMessage G1) :=
  Broadcast.start (fun i => Signed.new (ids i) threshold)

/-- The calls a node takes in a run. -/
def callsOf (i : Fin n) (as : List (Action n SigningRequest (SigningMessage G1))) :
    List (SigningInput G1) :=
  (history i as).map toSigningInput

theorem share_said {own : String} {quorum : Usize} {is : List (SigningInput G1)} {s : Signed G1}
    (h : Accounts own quorum is s) : 0 < sharesIn G1 s.sent ↔
      ∃ pre x, (pre,x) ∈ splits is ∧
        saidAt own quorum.toNat (pre,x) = some (.signatureShare own ⟨0⟩) := by
  rw [h.sent, sharesIn, List.countP_map, List.countP_pos_iff]
  constructor
  · rintro ⟨msg,hm,hshare⟩
    have hsig : isSignatureShare msg = true := by
      rw [← isSharePayload_payload msg]
      exact hshare
    obtain ⟨⟨pre,x⟩,hsplit,hx⟩ := List.mem_filterMap.mp hm
    rcases said_named hm with ⟨commitments,rfl⟩ | rfl
    · cases hsig
    · exact ⟨pre,x,hsplit,hx⟩
  · rintro ⟨pre,x,hsplit,hx⟩
    exact ⟨_,List.mem_filterMap.mpr ⟨_,hsplit,hx⟩,isSharePayload_payload _⟩

/-- The node sends a share and forms a sum. -/
def Signs (s : Signed G1) : Prop := 0 < sharesIn G1 s.sent ∧ s.results ≠ []

section party
variable (policy : Policy) (i : Fin n)

theorem localState_signed (s : Signed G1) (es : List (Event n SigningRequest (SigningMessage G1))) :
    localState (signingProtocol n policy) i s es =
      runSigning policy s (es.map toSigningInput) := by
  induction es generalizing s with
  | nil => rfl
  | cons e es ih =>
    rw [localState, react_eq, ih]
    rfl

/-- What a party has broadcast is what its calls say. -/
theorem sent_said (id : String) (threshold : Usize)
    (es : List (Event n SigningRequest (SigningMessage G1))) :
    Broadcast.sent (signingProtocol n policy) i (Signed.new id threshold) es =
      (splits (es.map toSigningInput)).filterMap (saidAt id threshold.toNat) := by
  induction es using List.reverseRecOn with
  | nil => rfl
  | append_singleton es e ih =>
    have ha := accounted policy id threshold (es.map toSigningInput)
    rw [sent_append, ih, localState_signed, List.map_append, List.map_singleton, splits_snoc,
      List.filterMap_append]
    congr 1
    simp only [Broadcast.sent, react_eq, List.append_nil]
    rw [accounts_outputs ha]
    cases hs : saidAt id threshold.toNat (es.map toSigningInput,toSigningInput e) <;> simp [hs]

end party

section runs
variable {policy : Policy} {ids : Fin n → String} {threshold : Usize}
  {as : List (Action n SigningRequest (SigningMessage G1))}
  {net : Net n (Signed G1) (SigningMessage G1)}
  (h : (group ids threshold).run (signingProtocol n policy) as = some net)
include h

theorem group_accounts (i : Fin n) :
    Accounts (ids i) threshold (callsOf i as) (net.node i) := by
  rw [run_node _ h i, localState_signed]
  exact accounted policy (ids i) threshold _

/-- What a node handles another one has said. -/
theorem handled_said {r : Fin n} {msg : SigningMessage G1}
    (hm : .message msg ∈ callsOf r as) : ∃ s, s ≠ r ∧
      msg ∈ (splits (callsOf s as)).filterMap (saidAt (ids s) threshold.toNat) := by
  obtain ⟨e,he,hi⟩ := List.mem_map.mp hm
  cases e with
  | command request => cases hi
  | message s m =>
    obtain rfl := SigningInput.message.inj hi
    have hrec : m ∈ received s (history r as) := List.mem_filterMap.mpr ⟨_,he,by simp⟩
    have hsr : s ≠ r := by
      rintro rfl
      rw [run_received_self _ h (fun _ => rfl)] at hrec
      cases hrec
    have hsent := run_received_subset _ h hsr hrec
    rw [sent_said] at hsent
    exact ⟨s,hsr,hsent⟩

theorem handled_named {r : Fin n} {msg : SigningMessage G1}
    (hm : .message msg ∈ callsOf r as) : ∃ s ∈ Finset.univ.erase r,
      (∃ commitments, msg = .commitmentShare (ids s) commitments) ∨
        msg = .signatureShare (ids s) ⟨0⟩ := by
  obtain ⟨s,hsr,hs⟩ := handled_said h hm
  exact ⟨s,Finset.mem_erase.mpr ⟨hsr,Finset.mem_univ s⟩,said_named hs⟩

/-- In every run of a group, whatever was signed by whoever, each sum that a
node forms is zero. -/
theorem sums_zero (i : Fin n) : ∀ v ∈ (net.node i).results, v = 0 := by
  intro v hv
  rw [(group_accounts h i).results] at hv
  obtain ⟨⟨pre,x⟩,hsplit,hv⟩ := List.mem_filterMap.mp hv
  obtain ⟨post,hcalls⟩ := mem_splits.mp hsplit
  have hzero : ∀ p ∈ signedShares (pre++[x]), p.2 = 0 := by
    intro p hp
    obtain ⟨j,hj,hjp⟩ := List.mem_filterMap.mp hp
    have hmem : j ∈ callsOf i as := hcalls ▸ Prefixes.snoc_subset pre post x hj
    rcases j with ⟨message,rng⟩ | ⟨fromId,commitments⟩ | ⟨fromId,share⟩
    · cases hjp
    · cases hjp
    · obtain ⟨s,-,hn⟩ := handled_named h hmem
      obtain rfl := Option.some.inj hjp
      rcases hn with ⟨commitments,hc⟩ | hc
      · cases hc
      · rw [(SigningMessage.signatureShare.inj hc).2]
  rcases x with ⟨message,rng⟩ | ⟨fromId,commitments⟩ | ⟨fromId,share⟩
  · cases hv
  · cases hv
  · simp only [sumAt] at hv
    split_ifs at hv
    rw [← Option.some.inj hv]
    exact lastSharesSum_zero hzero

theorem senders_others (r : Fin n) :
    senders (callsOf r as) ⊆ (Finset.univ.erase r).image ids := by
  intro fromId hf
  obtain ⟨j,hj,hs⟩ := List.mem_filterMap.mp (List.mem_toFinset.mp hf)
  rcases j with ⟨message,rng⟩ | ⟨fromId',commitments⟩ | ⟨fromId',share⟩
  · cases hs
  · obtain rfl := Option.some.inj hs
    obtain ⟨s,hsr,hn⟩ := handled_named h hj
    rcases hn with ⟨commitments,hc⟩ | hc
    · rw [(SigningMessage.commitmentShare.inj hc).1]
      exact Finset.mem_image_of_mem _ hsr
    · cases hc
  · cases hs

/-- In a quiet run a node has handled all that another one has said. -/
theorem delivered (hq : net.Quiet) {s r : Fin n} (hsr : s ≠ r) {msg : SigningMessage G1}
    (hm : msg ∈ (splits (callsOf s as)).filterMap (saidAt (ids s) threshold.toNat)) :
    .message msg ∈ callsOf r as := by
  have hb := run_received_perm _ h hsr (fun _ => true) (by rw [hq s r]; rfl)
  rw [List.filter_true, List.filter_true, sent_said] at hb
  obtain ⟨e,he,hs⟩ := List.mem_filterMap.mp (hb.symm.subset hm)
  refine List.mem_map.mpr ⟨e,he,?_⟩
  cases e with
  | command request => cases hs
  | message t m =>
    dsimp only at hs
    split_ifs at hs
    rw [toSigningInput, Option.some.inj hs]

section started
variable (hq : net.Quiet) (hstart : ∀ i, commands (history i as) ≠ [])
include hq hstart

theorem senders_all (r : Fin n) : senders (callsOf r as) = (Finset.univ.erase r).image ids := by
  apply (senders_others h r).antisymm
  intro fromId hf
  obtain ⟨s,hs,rfl⟩ := Finset.mem_image.mp hf
  obtain ⟨request,hr⟩ := List.exists_mem_of_ne_nil _ (hstart s)
  obtain ⟨e,he,hc⟩ := List.mem_filterMap.mp hr
  cases e with
  | message t m => cases hc
  | command request =>
    have hin : .start request.message request.rng ∈ callsOf s as :=
      List.mem_map.mpr ⟨_,he,rfl⟩
    obtain ⟨pre,post,hsplit⟩ := List.append_of_mem hin
    have hd := delivered h hq (Finset.ne_of_mem_erase hs)
      (List.mem_filterMap.mpr ⟨_,mem_splits.mpr ⟨post,hsplit⟩,rfl⟩)
    exact List.mem_toFinset.mpr (List.mem_filterMap.mpr ⟨_,hd,rfl⟩)

variable (hids : Function.Injective ids)
include hids

theorem card_senders (r : Fin n) : (senders (callsOf r as)).card = n-1 := by
  rw [senders_all h hq hstart, Finset.card_image_of_injective _ hids,
    Finset.card_erase_of_mem (Finset.mem_univ r), Finset.card_univ, Fintype.card_fin]

/-- A node has heard enough others exactly when the group is large enough. -/
theorem share_sent_iff (r : Fin n) :
    0 < sharesIn G1 (net.node r).sent ↔ max threshold.toNat 1 < n := by
  have hpos := r.pos
  have hcard := card_senders h hq hstart hids r
  rw [share_said (group_accounts h r)]
  constructor
  · rintro ⟨pre,x,hsplit,hx⟩
    obtain ⟨ht,hne⟩ := saidAt_share hx
    obtain ⟨post,hcalls⟩ := mem_splits.mp hsplit
    have hle : (senders (pre++[x])).card ≤ (senders (callsOf r as)).card := by
      apply Finset.card_le_card
      rw [hcalls, List.append_cons pre x post, senders_append (pre++[x]) post]
      exact Finset.subset_union_left
    have h1 := hne.card_pos
    omega
  · intro hn
    exact saidAt_last (by omega) (Finset.card_pos.mp (by omega))

theorem card_shareSenders (hn : max threshold.toNat 1 < n) (r : Fin n) :
    n-1 ≤ (shareSenders (callsOf r as)).card := by
  have hsub : (Finset.univ.erase r).image ids ⊆ shareSenders (callsOf r as) := by
    intro fromId hf
    obtain ⟨s,hs,rfl⟩ := Finset.mem_image.mp hf
    obtain ⟨pre,x,hsplit,hx⟩ := (share_said (group_accounts h s)).mp
      ((share_sent_iff h hq hstart hids s).mpr hn)
    have hd := delivered h hq (Finset.ne_of_mem_erase hs) (List.mem_filterMap.mpr ⟨_,hsplit,hx⟩)
    rw [shareSenders, List.mem_toFinset, List.mem_map]
    exact ⟨(ids s,0),List.mem_filterMap.mpr ⟨_,hd,rfl⟩,rfl⟩
  calc n-1 = ((Finset.univ.erase r).image ids).card := by
        rw [Finset.card_image_of_injective _ hids, Finset.card_erase_of_mem (Finset.mem_univ r),
          Finset.card_univ, Fintype.card_fin]
    _ ≤ _ := Finset.card_le_card hsub

end started
end runs
end parties

section pair
attribute [local instance] compactJson

def pairRun : SigningNetRun LogPoint 2 :=
  twoRun ++ twoRun.filterMap (fun
    | (_,.command _) => none
    | (r,.message s _) => some (r,.message s (.signatureShare (twoIds s) ⟨0⟩)))

theorem pair_quiet : ∃ net,
    (group twoIds 1).run (signingProtocol _ .waiting) pairRun = some net ∧ net.Quiet := by
  rw [signingProtocol_eq]
  exact run_found _ (by decide +kernel)

theorem pair_sums_zero : ∃ net,
    (group twoIds 1).run (signingProtocol _ .waiting) pairRun = some net ∧
      ∀ i, ∀ v ∈ (net.node i).results, v = 0 := by
  obtain ⟨net,hn,-⟩ := pair_quiet
  exact ⟨net,hn,sums_zero hn⟩

end pair
end MpcNode.Signing
