import MpcNode.AdkgKeys

/-!
# Public key and key shares after an honest run

The public key of every node commits to the sum of all secrets. The key
shares interpolate to that sum less what the missing shares, each node's
evaluation of its own polynomial, interpolate to.
-/

set_option autoImplicit false

namespace MpcNode.Adkg
open MpcNode.Bls MpcNode.Guarded MpcNode.Messages MpcNode.Broadcast MpcNode.Tables
open MpcNode.Reconstruction MpcNode.PowerSum MpcNode.Interpolation
open MpcNode.Dkg (Rng evaluate_eq constantRng)
open scoped List

abbrev ADKGNet (G1 : Type) (total : Usize) := Net total.toNat (ADKGNode G1) (ADKGMessage G1)

abbrev ADKGRun (G1 : Type) (total : Usize) := List (Action total.toNat Rng (ADKGMessage G1))

section run
variable {G1 : Type} [G1Group G1] {total : Usize}

/-- Every node starts once and handles every other node's proposal, and
after that every other node's acknowledgements. -/
structure HonestRun (ids : Fin total.toNat → String) (t : Usize) (rng : Fin total.toNat → Rng)
    (as bs : ADKGRun G1 total) (mid net : ADKGNet G1 total) : Prop where
  proposing : (Broadcast.start (members ids t)).run (protocol total.toNat) as = some mid
  once : ∀ i, commands (history i as) = [rng i]
  proposals : ∀ i, ∀ m ∈ handled (history i as), isProposal m = true
  proposed : ∀ s r, (mid.flight s r).filter isProposal = []
  acknowledging : mid.run (protocol total.toNat) bs = some net
  started : ∀ i, commands (history i bs) = []
  acks : ∀ i, ∀ m ∈ handled (history i bs), isProposal m = false
  acknowledged : net.Quiet

variable {ids : Fin total.toNat → String} {t : Usize} {rng : Fin total.toNat → Rng}
  {as bs : ADKGRun G1 total} {mid net : ADKGNet G1 total}

theorem member_reply (s d : Fin total.toNat) (r : Rng) :
    reply (members ids t s) (proposal (members ids t d) r : ADKGMessage G1) =
      [.shareAck (ids s) (ids d) true] := by
  rw [member_proposal, reply, member_accepted rfl, if_pos Option.isSome_some]
  rfl

theorem reply_member (hids : Function.Injective ids) (s d k : Fin total.toNat) :
    (reply (members ids t s) (proposal (members ids t d) (rng d) : ADKGMessage G1)).any
      (ackTo (ids k)) = decide (d = k) := by
  rw [member_reply]
  simp [ackTo, hids.eq_iff]

section phases
variable (h : HonestRun ids t rng as bs mid net)
include h

theorem proposing_outline :
    (Broadcast.start (members ids t)).run (outline total.toNat) as = some mid := by
  rw [← protocol_eq_outline]
  exact h.proposing

theorem acknowledging_outline : mid.run (outline total.toNat) bs = some net := by
  rw [← protocol_eq_outline]
  exact h.acknowledging

theorem whole_outline :
    (Broadcast.start (members ids t)).run (outline total.toNat) (as++bs) = some net :=
  run_append _ (proposing_outline h) (acknowledging_outline h)

/-- Each node handles one proposal of each other node. -/
theorem received_proposal {s r : Fin total.toNat} (hsr : s ≠ r) :
    received s (history r as) = [proposal (members ids t s) (rng s)] := by
  have hp := run_received_perm _ (proposing_outline h) hsr isProposal (h.proposed s r)
  have hall : (received s (history r as)).filter isProposal = received s (history r as) := by
    rw [List.filter_eq_self]
    exact fun m hm => h.proposals r m (mem_handled.mpr ⟨s,hm⟩)
  rw [hall, sent_proposals, h.once] at hp
  exact List.perm_singleton.mp hp

theorem received_own (r : Fin total.toNat) : received r (history r as) = [] :=
  run_received_self _ (proposing_outline h) (fun _ => rfl) r

theorem knows_mid (hids : Function.Injective ids) (k : Fin total.toNat) :
    Knows ids t rng k (Finset.univ.erase k) Finset.univ (mid.node k) := by
  rw [Broadcast.run_node _ (proposing_outline h)]
  obtain ⟨S,T,hk,hS,hT⟩ := knows_history hids knows_new (history k as)
    (fun r hr => by rwa [h.once, List.mem_singleton] at hr)
    (fun d m hm => by
      by_cases hdk : d = k
      · subst hdk
        rw [received_own h] at hm
        cases hm
      · rw [received_proposal h hdk, List.mem_singleton] at hm
        exact hm)
  have hreceived : ∀ d, received d (history k as) ≠ [] ↔ d ≠ k := by
    intro d
    by_cases hdk : d = k
    · subst hdk
      simp [received_own h]
    · simp [received_proposal h hdk, hdk]
  have hS' : S = Finset.univ.erase k := by
    ext d
    simp [hS, hreceived]
  have hT' : T = Finset.univ := by
    ext d
    simp [hT, hreceived, h.once, em']
  rw [hS', hT'] at hk
  exact hk

/-- The acknowledgements of the whole run arrive in its second phase. -/
theorem countP_received_whole {s k : Fin total.toNat} (hsk : s ≠ k) (name : String) :
    ((received s (history k (as++bs))).filter (fun m => !isProposal m)).countP (ackTo name) =
      (received s (history k bs)).countP (ackTo name) := by
  have hack : ∀ m ∈ received s (history k bs),
      (ackTo name m && !isProposal m) = true ↔ ackTo name m = true := by
    intro m _
    cases m <;> simp [ackTo, isProposal]
  rw [List.countP_filter, history_append, received_append, List.countP_append,
    received_proposal h hsk, List.countP_congr hack]
  exact Nat.zero_add _

theorem replies_acks (s : Fin total.toNat) :
    (handled (history s bs)).flatMap (reply (members ids t s)) = [] := by
  rw [List.flatMap_eq_nil_iff]
  intro m hm
  have hack := h.acks s m hm
  cases m with
  | shareProposal senderId shares commitments => cases hack
  | shareAck senderId receiverId valid => rfl

theorem countP_answered (hids : Function.Injective ids) {s k : Fin total.toNat} (hsk : s ≠ k)
    (d : Fin total.toNat) : (received d (history s as)).countP
      (fun m => (reply (members ids t s) m).any (ackTo (ids k))) = if d = k then 1 else 0 := by
  by_cases hds : d = s
  · subst hds
    rw [received_own h, if_neg hsk]
    rfl
  · rw [received_proposal h hds, List.countP_singleton, reply_member hids]
    simp

theorem countP_received (hids : Function.Injective ids) (s k : Fin total.toNat) :
    (received s (history k bs)).countP (ackTo (ids k)) = if s ≠ k then 1 else 0 := by
  have hwhole := whole_outline h
  split_ifs with hsk
  · have hp := (run_received_perm _ hwhole hsk (fun m => !isProposal m)
      (by rw [h.acknowledged s k]; rfl)).countP_eq (ackTo (ids k))
    rw [countP_received_whole h hsk, sent_acks, history_append, handled_append,
      List.flatMap_append, replies_acks h, List.append_nil, countP_replies, countP_handled,
      Finset.sum_congr rfl (fun d _ => countP_answered h hids hsk d),
      Finset.sum_ite_eq' Finset.univ k, if_pos (Finset.mem_univ k)] at hp
    exact hp
  · obtain rfl := not_not.mp hsk
    have hself := run_received_self _ hwhole (fun _ => rfl) s
    rw [history_append, received_append] at hself
    rw [(List.append_eq_nil_iff.mp hself).2]
    rfl

/-- The keys every node ends with. -/
theorem final_keys (hids : Function.Injective ids) (ht : 1 ≤ t.toNat)
    (htn : t.toNat < total.toNat) (k : Fin total.toNat) :
    (net.node k).idx = number k ∧
    (net.node k).secretKeyShare = some (∑ d ∈ Finset.univ.erase k,
      evaluatePolynomial (drawnBy t (rng d)) (number k)) ∧
    (net.node k).publicKey = some (∑ d, (drawnBy t (rng d)).headD 0•generator) := by
  have hmid := knows_mid h hids k
  have hzero : (mid.node k).validAcks = 0 := by
    rw [Broadcast.run_node _ (proposing_outline h), validAcks_history _ (h.proposals k)]
    rfl
  obtain ⟨hk,hc⟩ := counted_history hids hmid ⟨hzero,fun hp => absurd hp (lt_irrefl 0)⟩
    (h.started k) (h.acks k)
  have hcount : (handled (history k bs)).countP (ackTo (ids k)) = total.toNat-1 := by
    rw [countP_handled, Finset.sum_congr rfl (fun s _ => countP_received h hids s k),
      ← Finset.sum_filter, Finset.sum_const, smul_eq_mul, mul_one, Finset.filter_ne',
      Finset.card_erase_of_mem (Finset.mem_univ k), Finset.card_univ, Fintype.card_fin]
  rw [← Broadcast.run_node _ (acknowledging_outline h)] at hk hc
  obtain ⟨hs,hp⟩ := hc.closed (by omega) (by rw [hk.threshold]; omega)
  exact ⟨hk.idx,hs,hp⟩

end phases

/-- All nodes have one public key, and any `t+1` key shares give its secret. -/
def KeysMatch (t : Usize) (net : ADKGNet G1 total) : Prop :=
  ∃ key : G1, (∀ i, (net.node i).publicKey = some key) ∧
    ∀ chosen : List (Fin total.toNat), chosen.Nodup → chosen.length = t.toNat+1 →
      ∃ secret : Scalar, (chosen.mapM (fun i => (net.node i).secretKeyShare.map
          (fun share => ((net.node i).idx,share)))).bind reconstructSecret = some secret ∧
        secret•generator = key

/-- The nodes' evaluations of their own polynomials interpolate to nothing. -/
def OwnSharesCancel (t : Usize) (rng : Fin total.toNat → Rng) : Prop :=
  ∀ chosen : Finset (Fin total.toNat), chosen.card = t.toNat+1 →
    atZero chosen (fun i => point (number i))
      (fun i => evaluatePolynomial (drawnBy t (rng i)) (number i)) = 0

/-- What `t+1` key shares interpolate to. -/
theorem atZero_keyShares (rng : Fin total.toNat → Rng) {chosen : Finset (Fin total.toNat)}
    (hc : chosen.card = t.toNat+1) :
    atZero chosen (fun i => point (number i)) (fun i => ∑ d ∈ Finset.univ.erase i,
        evaluatePolynomial (drawnBy t (rng d)) (number i)) +
      atZero chosen (fun i => point (number i))
        (fun i => evaluatePolynomial (drawnBy t (rng i)) (number i)) =
    ∑ d, (drawnBy t (rng d)).headD 0 := by
  have hinj : Set.InjOn (fun i : Fin total.toNat => point (number i)) chosen :=
    (point_injective.comp number_injective).injOn
  have hone : ∀ d, atZero chosen (fun i => point (number i))
      (fun i => evaluatePolynomial (drawnBy t (rng d)) (number i)) =
        (drawnBy t (rng d)).headD 0 := by
    intro d
    have hl : (drawnBy t (rng d)).length ≤ chosen.card := by rw [length_drawnBy, hc]
    have hd := atZero_powerSum hinj hl
    simp only [← evaluate_eq] at hd
    exact hd
  rw [← atZero_add, ← Finset.sum_congr rfl (fun d _ => hone d), ← atZero_finsetSum]
  congr 1
  funext i
  exact Finset.sum_erase_add _ _ (Finset.mem_univ i)

theorem keyShares_reconstruct (hids : Function.Injective ids) (ht : 1 ≤ t.toNat)
    (htn : t.toNat < total.toNat) (h : HonestRun ids t rng as bs mid net)
    {chosen : List (Fin total.toNat)} (hn : chosen.Nodup) :
    (chosen.mapM (fun i => (net.node i).secretKeyShare.map
      (fun share => ((net.node i).idx,share)))).bind reconstructSecret =
    some (atZero chosen.toFinset (fun i => point (number i)) (fun i =>
      ∑ d ∈ Finset.univ.erase i, evaluatePolynomial (drawnBy t (rng d)) (number i))) := by
  have hheld : ∀ i ∈ chosen, (net.node i).secretKeyShare.map
      (fun share => ((net.node i).idx,share)) = some (number i,
        ∑ d ∈ Finset.univ.erase i, evaluatePolynomial (drawnBy t (rng d)) (number i)) := by
    intro i _
    obtain ⟨hidx,hs,-⟩ := final_keys h hids ht htn i
    rw [hs, hidx, Option.map_some]
  rw [mapM_some _ hheld, Option.bind_some]
  exact reconstructSecret_parties number_injective hn _

theorem keysMatch_cancel (hids : Function.Injective ids) (ht : 1 ≤ t.toNat)
    (htn : t.toNat < total.toNat) (h : HonestRun ids t rng as bs mid net)
    (hk : KeysMatch t net) : OwnSharesCancel t rng := by
  intro chosen hc
  obtain ⟨key,hkey,hs⟩ := hk
  obtain ⟨secret,hr,he⟩ := hs chosen.toList chosen.nodup_toList (by rw [Finset.length_toList, hc])
  have hpublic := (final_keys h hids ht htn ⟨0,by omega⟩).2.2.symm.trans (hkey ⟨0,by omega⟩)
  rw [keyShares_reconstruct hids ht htn h chosen.nodup_toList, Finset.toList_toFinset] at hr
  rw [← Option.some.inj hpublic, ← Finset.sum_smul] at he
  have hsum := atZero_keyShares rng hc
  rw [Option.some.inj hr, smul_generator_injective he] at hsum
  exact left_eq_add.mp hsum.symm

/-- After an honest run the keys match if and only if the missing shares
cancel. -/
theorem keysMatch_iff (hids : Function.Injective ids) (ht : 1 ≤ t.toNat)
    (htn : t.toNat < total.toNat) (h : HonestRun ids t rng as bs mid net) :
    KeysMatch t net ↔ OwnSharesCancel t rng := by
  constructor
  · exact keysMatch_cancel hids ht htn h
  · intro hcancel
    refine ⟨_,fun i => (final_keys h hids ht htn i).2.2,fun chosen hn hl =>
      ⟨_,keyShares_reconstruct hids ht htn h hn,?_⟩⟩
    have hc : chosen.toFinset.card = t.toNat+1 := by rw [List.toFinset_card_of_nodup hn, hl]
    have hsum := atZero_keyShares rng hc
    rw [hcancel _ hc, add_zero] at hsum
    rw [hsum, Finset.sum_smul]

end run

section pair

def pairIds (i : Fin (2 : Usize).toNat) : String := if i.val = 0 then "1" else "2"

def pairRng (i : Fin (2 : Usize).toNat) : Rng := constantRng (if i.val = 0 then 1 else 0)

def pairProposal (i : Fin (2 : Usize).toNat) : ADKGMessage LogPoint :=
  proposal (members pairIds 1 i) (pairRng i)

theorem left_lt : 0 < (2 : Usize).toNat := by decide

theorem right_lt : 1 < (2 : Usize).toNat := by decide

def left : Fin (2 : Usize).toNat := ⟨0,left_lt⟩

def right : Fin (2 : Usize).toNat := ⟨1,right_lt⟩

def pairProposing : ADKGRun LogPoint 2 :=
  [(left,.command (pairRng left)),(right,.command (pairRng right)),
    (right,.message left (pairProposal left)),(left,.message right (pairProposal right))]

def pairAcknowledging : ADKGRun LogPoint 2 :=
  [(left,.message right (.shareAck "2" "1" true)),
    (right,.message left (.shareAck "1" "2" true))]

theorem pair_honest : ∃ mid net,
    HonestRun pairIds 1 pairRng pairProposing pairAcknowledging mid net := by
  obtain ⟨mid,hmid,hflight,hrest⟩ : ∃ mid,
      (Broadcast.start (members pairIds 1)).run (outline _) pairProposing = some mid ∧
      (∀ s r, (mid.flight s r).filter isProposal = []) ∧
      (mid.run (outline _) pairAcknowledging).any (fun net => decide net.Quiet) = true :=
    run_found _ (by decide +kernel)
  obtain ⟨net,hnet,hquiet⟩ := run_found _ hrest
  rw [← protocol_eq_outline] at hmid hnet
  have hstarts : ∀ i, commands (history i pairProposing) = [pairRng i] ∧
      commands (history i pairAcknowledging) = [] := fun
    | ⟨0,_⟩ => ⟨rfl,rfl⟩
    | ⟨1,_⟩ => ⟨rfl,rfl⟩
  exact ⟨mid,net,hmid,fun i => (hstarts i).1,by decide +kernel,hflight,hnet,
    fun i => (hstarts i).2,by decide +kernel,hquiet⟩

/-- The secret one is dealt by the first node, and no pair of key shares
gives it back. -/
theorem pair_keys_differ : ¬ ∀ mid net,
    HonestRun pairIds 1 pairRng pairProposing pairAcknowledging mid net → KeysMatch 1 net := by
  intro hall
  obtain ⟨mid,net,h⟩ := pair_honest
  have hc := keysMatch_cancel (by decide) (by decide) (by decide) h (hall mid net h)
    Finset.univ rfl
  revert hc
  decide +kernel

theorem pair_keysMatch_iff : ∃ mid net,
    HonestRun pairIds 1 pairRng pairProposing pairAcknowledging mid net ∧
      (KeysMatch 1 net ↔ OwnSharesCancel 1 pairRng) := by
  obtain ⟨mid,net,h⟩ := pair_honest
  exact ⟨mid,net,h,keysMatch_iff (by decide) (by decide) (by decide) h⟩

end pair
end MpcNode.Adkg
