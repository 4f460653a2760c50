import MpcNode.DkgNetwork

/-!
# Peer ids as evaluation indices

A node started by `main` is named by the base-58 text of its peer id, which
is no decimal number that fits: every such node looks for the largest index.
A dealing then reaches no receiver, or all of them at one index.
-/

set_option autoImplicit false

namespace MpcNode.Dkg
open MpcNode.Bls MpcNode.Guarded MpcNode.Messages MpcNode.Numerals MpcNode.Wire MpcNode.Channels

def isBase58 (c : Char) : Bool :=
  ('1' ≤ c && c ≤ '9') || ('A' ≤ c && c ≤ 'Z' && c ≠ 'I' && c ≠ 'O') ||
    ('a' ≤ c && c ≤ 'z' && c ≠ 'l')

/-- The text of an ed25519 peer id: 52 characters of base 58. -/
def PeerIdText (id : String) : Prop := id.toList.length = 52 ∧ id.toList.all isBase58 = true

theorem idParsed_peerId {id : String} (h : PeerIdText id) : idParsed id = usizeMax := by
  obtain ⟨hl,hc⟩ := h
  rw [List.all_eq_true] at hc
  have hplus : '+' ∉ id.toList := fun hm => absurd (hc _ hm) (by decide)
  have hzero : '0' ∉ id.toList := fun hm => absurd (hc _ hm) (by decide)
  have hnone : parseUsize id = none := by
    rw [parseUsize, readDecimal_unsigned hplus]
    cases hr : readDigits id.toList with
    | none => rfl
    | some v =>
      -- no zero digit: 52 digits are at least `10^51`, more than a machine word holds
      have hv := readDigits_lower (k := 51) hzero hl hr
      rw [Option.bind_some, if_neg]
      have hk : 2^64 ≤ 10^51 := by decide +kernel
      omega
  rw [idParsed, hnone, Option.getD_none]

section peers
variable {G1 : Type} [G1Group G1] [SerdeJson]

def receiver (policy : Policy) (id : String) (threshold totalNodes : Usize) (channel : Channel)
    (before : List (Input G1)) (msg : DKGMessage G1) : DKGNode G1 :=
  (run policy (.fresh (.new id threshold totalNodes) channel) (before++[.message msg])).node

/-- The dealing that node `d` draws from `rng` reaches its receivers, each of
which handles it after a history of its own. -/
def Reaches (G1 : Type) [G1Group G1] (policy : Policy) {total : Usize}
    (ids : Fin total.toNat → String) (threshold : Usize) (channel : Fin total.toNat → Channel)
    (before : Fin total.toNat → List (Input G1)) (d : Fin total.toNat) (rng : Rng) : Prop :=
  let after r := receiver policy (ids r) threshold total (channel r) (before r)
    (distribution (nodes ids threshold total d) rng)
  (∀ r, r ≠ d → ∃ share, (after r).shares.lookup (ids d) = some share ∧
    1 ≤ share.index.toNat ∧ share.index.toNat ≤ total.toNat ∧
    share.value.scalar = evaluate (drawn threshold rng) (share.index.toNat : Scalar)) ∧
  ∀ r r' share share', r ≠ d → r' ≠ d → r ≠ r' →
    (after r).shares.lookup (ids d) = some share →
    (after r').shares.lookup (ids d) = some share' → share.index ≠ share'.index

theorem not_reaches_of_maximal {policy : Policy} {total : Usize} {ids : Fin total.toNat → String}
    {threshold : Usize} {channel : Fin total.toNat → Channel}
    {before : Fin total.toNat → List (Input G1)} {d : Fin total.toNat} {rng : Rng}
    (hn : 2 ≤ total.toNat) (hids : ∀ i, idParsed (ids i) = usizeMax) :
    ¬ Reaches G1 policy ids threshold channel before d rng := by
  rintro ⟨hentry,hdiff⟩
  have hmax : ∀ r share, (receiver policy (ids r) threshold total (channel r) (before r)
      (distribution (nodes ids threshold total d) rng)).shares.lookup (ids d) = some share →
      share.index = usizeMax := by
    intro r share hs
    rw [run_share_index hs, hids]
  have hu : usizeMax.toNat = 2^64-1 := by decide
  obtain ⟨r,hr⟩ : ∃ r : Fin total.toNat, r ≠ d := by
    by_cases hd : d.val = 0
    · exact ⟨⟨1,by omega⟩,fun he => by simp [← he] at hd⟩
    · exact ⟨⟨0,by omega⟩,fun he => hd (by rw [← he])⟩
  obtain ⟨share,hs,-,hle,-⟩ := hentry r hr
  rw [hmax r share hs, hu] at hle
  obtain ⟨r',hr',hrr⟩ : ∃ r' : Fin total.toNat, r' ≠ d ∧ r' ≠ r := by
    have hc : ({d,r} : Finset (Fin total.toNat)).card < Fintype.card (Fin total.toNat) := by
      rw [Finset.card_pair hr.symm, Fintype.card_fin]
      omega
    obtain ⟨x,hx⟩ := Finset.exists_mem_notMem_of_card_lt_card
      (s := {d,r}) (t := Finset.univ) (by rwa [Finset.card_univ])
    exact ⟨x,by simpa using hx.2⟩
  obtain ⟨share',hs',-⟩ := hentry r' hr'
  apply hdiff r r' share share' hr hr' hrr.symm hs hs'
  rw [hmax r share hs, hmax r' share' hs']

/-- In a network named by peer ids no dealing reaches its receivers. -/
theorem peers_never_reach (policy : Policy) {total : Usize} {ids : Fin total.toNat → String}
    (hn : 2 ≤ total.toNat) (hids : ∀ i, PeerIdText (ids i)) (threshold : Usize)
    (channel : Fin total.toNat → Channel) (before : Fin total.toNat → List (Input G1))
    (d : Fin total.toNat) (rng : Rng) : ¬ Reaches G1 policy ids threshold channel before d rng :=
  not_reaches_of_maximal hn (fun i => idParsed_peerId (hids i))

end peers

section samples
attribute [local instance] compactJson

def samplePeers (i : Fin (2 : Usize).toNat) : String :=
  if i.val = 0 then "12D3KooWLkM7vGRSDGsZHVUmLEgL3rGXo6cAuVCxgWMkuKKrH4jg"
  else "12D3KooWG15p7kdp1jA7G4ZMfBu9n9L9JAxL5Y8LwcTEtfMXEkd3"

theorem samplePeers_text (i : Fin (2 : Usize).toNat) : PeerIdText (samplePeers i) := by
  unfold samplePeers
  split_ifs
  all_goals
    simp only [PeerIdText, String.reduceToList]
    decide

theorem sample_not_reached : ¬ Reaches LogPoint .waiting samplePeers 1 (fun _ => .empty)
    (fun _ => []) ⟨0,by decide⟩ (constantRng 1) :=
  not_reaches_of_maximal (by decide) (fun i => idParsed_peerId (samplePeers_text i))

theorem sample_never_reaches : ¬ Reaches LogPoint .granted samplePeers 1
    (fun _ => .empty) (fun _ => []) ⟨0,by decide⟩ (constantRng 1) :=
  peers_never_reach .granted (by decide) samplePeers_text 1 _ _ _ _

end samples
end MpcNode.Dkg
