import MpcNode.DkgHonest

/-!
# One dealer, one polynomial

A receiver keeps the dealing it handled last, and nothing tells two dealings
of one dealer apart. Receivers agree on a dealer exactly when they all
handled the same one of its dealings last.
-/

set_option autoImplicit false

namespace MpcNode.Dkg
open MpcNode.Bls MpcNode.Messages MpcNode.Wire MpcNode.Broadcast
open scoped List

section agreement
variable {G1 : Type} [G1Group G1] {threshold total : Usize}

/-- One polynomial explains what every other node holds of dealer `d`. -/
def OnePolynomial (threshold : Usize) (net : DkgNet G1 total) (d : Fin total.toNat) : Prop :=
  ∃ p : List Scalar, p.length ≤ threshold.toNat+1 ∧ ∀ k, k ≠ d → ∀ share,
    (net.node k).shares.lookup (numbered total.toNat d) = some share →
      share.value.scalar = evaluate p ((k.val+1 : ℕ) : Scalar) ∧
      (net.node k).commitments.lookup (numbered total.toNat d) =
        some (p.map (fun coeff => coeff•generator))

/-- The dealing of `d` that `k` handled last. -/
def lastDealing (as : DkgRun G1 total) (d k : Fin total.toNat) : Option (DKGMessage G1) :=
  ((received d (history k as)).filter isDistribution).getLast?

section run
variable {as : DkgRun G1 total} {net : DkgNet G1 total}
  (h : (honest threshold total).run (outline total.toNat) as = some net)
include h

/-- What `k` holds of `d` is the dealing of `d` it handled last. -/
theorem held_of_lastDealing (d k : Fin total.toNat) :
    ((net.node k).shares.lookup (numbered total.toNat d) = none ∧ lastDealing as d k = none) ∨
    ∃ rng, lastDealing as d k =
        some (distribution (nodes (numbered total.toNat) threshold total d) rng) ∧
      (net.node k).shares.lookup (numbered total.toNat d) =
        some ⟨idParsed (numbered total.toNat k),
          ⟨evaluate (drawn threshold rng) ((k.val+1 : ℕ) : Scalar)⟩⟩ ∧
      (net.node k).commitments.lookup (numbered total.toNat d) =
        some ((drawn threshold rng).map (fun coeff => coeff•generator)) := by
  obtain ⟨rngs,h1,h2⟩ := taken_eq_map h (r := k) (s := d)
  have hr := honest_refines h k
  rw [hr.share, hr.commitments, nodeLedger_lastOf h, h2, lastDealing, h1, List.getLast?_map,
    List.getLast?_map]
  cases rngs.getLast? with
  | none => exact Or.inl ⟨rfl,rfl⟩
  | some rng =>
    refine Or.inr ⟨rng,rfl,?_,rfl⟩
    rw [Option.map_some, Option.map_some, dealt, numbered_index]

theorem lastDealing_none_iff (hq : Delivered net) {d k : Fin total.toNat} (hk : k ≠ d) :
    lastDealing as d k = none ↔ commands (history d as) = [] := by
  have hp := received_distributions h hk.symm (hq d k)
  rw [lastDealing, List.getLast?_eq_none_iff, ← List.length_eq_zero_iff, hp.length_eq,
    List.length_map, List.length_eq_zero_iff]

end run

theorem drawn_length (rng : Rng) : (drawn threshold rng).length = threshold.toNat+1 := by
  simp [drawn]

theorem map_generator_injective {p p' : List Scalar}
    (h : p.map (fun coeff => coeff•(generator : G1)) = p'.map (fun coeff => coeff•generator)) :
    p = p' :=
  smul_generator_injective.list_map h

theorem generateCommitments_injective :
    Function.Injective (generateCommitments : List Scalar → List (SerializableG1Affine G1)) := by
  apply Function.Injective.list_map
  intro x y h
  exact smul_generator_injective (congrArg SerializableG1Affine.point h)

/-- A dealing is as good as the polynomial it was drawn from. -/
theorem distribution_eq_iff {id : String} {rng rng' : Rng} :
    (distribution (.new id threshold total : DKGNode G1) rng) =
      distribution (.new id threshold total) rng' ↔ drawn threshold rng = drawn threshold rng' := by
  have hp : ∀ r, (DKGNode.new id threshold total : DKGNode G1).generatePolynomial r =
      drawn threshold r := fun _ => rfl
  simp only [distribution, hp, DKGMessage.shareDistribution.injEq]
  constructor
  · rintro ⟨-,-,h⟩
    exact generateCommitments_injective h
  · intro h
    simp [h]

theorem onePolynomial_of_lastDealing {as : DkgRun G1 total} {net : DkgNet G1 total}
    (h : (honest threshold total).run (outline total.toNat) as = some net) {d : Fin total.toNat}
    (he : ∀ k k', k ≠ d → k' ≠ d → lastDealing as d k = lastDealing as d k') :
    OnePolynomial threshold net d := by
  by_cases hx : ∃ k, k ≠ d ∧ lastDealing as d k ≠ none
  · obtain ⟨k,hk,hne⟩ := hx
    obtain ⟨-,hn⟩ | ⟨rng,hl,-,-⟩ := held_of_lastDealing h d k
    · exact absurd hn hne
    · refine ⟨drawn threshold rng,(drawn_length rng).le,fun k' hk' share hs => ?_⟩
      obtain ⟨hn,-⟩ | ⟨rng',hl',hs',hc'⟩ := held_of_lastDealing h d k'
      · rw [hn] at hs
        cases hs
      · have hm := he k k' hk hk'
        rw [hl, hl', Option.some.injEq] at hm
        have hp := distribution_eq_iff.mp hm
        rw [hs', Option.some.injEq] at hs
        subst hs
        exact ⟨by rw [hp],by rw [hc', hp]⟩
  · push Not at hx
    refine ⟨[],Nat.zero_le _,fun k hk share hs => ?_⟩
    obtain ⟨hn,-⟩ | ⟨rng,hl,-,-⟩ := held_of_lastDealing h d k
    · rw [hn] at hs
      cases hs
    · rw [hx k hk] at hl
      cases hl

theorem lastDealing_of_onePolynomial {as : DkgRun G1 total} {net : DkgNet G1 total}
    (h : (honest threshold total).run (outline total.toNat) as = some net) (hq : Delivered net)
    {d : Fin total.toNat} (ho : OnePolynomial threshold net d) {k k' : Fin total.toNat}
    (hk : k ≠ d) (hk' : k' ≠ d) : lastDealing as d k = lastDealing as d k' := by
  obtain ⟨p,-,hp⟩ := ho
  obtain ⟨-,hn⟩ | ⟨rng,hl,hs,hc⟩ := held_of_lastDealing h d k
  · rw [hn, eq_comm, lastDealing_none_iff h hq hk', ← lastDealing_none_iff h hq hk, hn]
  · obtain ⟨-,hn'⟩ | ⟨rng',hl',hs',hc'⟩ := held_of_lastDealing h d k'
    · have hz := (lastDealing_none_iff h hq hk').mp hn'
      rw [(lastDealing_none_iff h hq hk).mpr hz] at hl
      cases hl
    · have h1 := (hp k hk _ hs).2
      have h2 := (hp k' hk' _ hs').2
      rw [hc, Option.some.injEq] at h1
      rw [hc', Option.some.injEq] at h2
      have he := (map_generator_injective h1).trans (map_generator_injective h2).symm
      rw [hl, hl', Option.some.injEq]
      exact distribution_eq_iff.mpr he

/-- A dealer started at most once has one dealing to handle. -/
theorem lastDealing_of_one_start {as : DkgRun G1 total} {net : DkgNet G1 total}
    (h : (honest threshold total).run (outline total.toNat) as = some net) (hq : Delivered net)
    {d : Fin total.toNat} (hone : (commands (history d as)).length ≤ 1) {k k' : Fin total.toNat}
    (hk : k ≠ d) (hk' : k' ≠ d) : lastDealing as d k = lastDealing as d k' := by
  have hsame : ∀ k, k ≠ d → (received d (history k as)).filter isDistribution =
      (commands (history d as)).map
        (distribution (nodes (numbered total.toNat) threshold total d)) := by
    intro k hk
    have hperm := received_distributions h hk.symm (hq d k)
    match hcs : commands (history d as) with
    | [] =>
      rw [hcs] at hperm
      exact hperm.eq_nil
    | [rng] =>
      rw [hcs] at hperm
      exact List.perm_singleton.mp hperm
    | _::_::_ =>
      rw [hcs] at hone
      simp at hone
  rw [lastDealing, lastDealing, hsame k hk, hsame k' hk']

variable [SerdeJson]

/-- Once every dealing is delivered, one polynomial explains a dealer if and
only if all other nodes handled the same one of its dealings last; if the
dealer was started at most once, one does. -/
theorem onePolynomial_iff {as : DkgRun G1 total} {net : DkgNet G1 total}
    (h : (honest threshold total).run (protocol total.toNat) as = some net)
    (hq : Delivered net) (d : Fin total.toNat) :
    (OnePolynomial threshold net d ↔
      ∀ k k', k ≠ d → k' ≠ d → lastDealing as d k = lastDealing as d k') ∧
    ((commands (history d as)).length ≤ 1 → OnePolynomial threshold net d) := by
  rw [protocol_eq_outline] at h
  refine ⟨⟨?_,onePolynomial_of_lastDealing h⟩,?_⟩
  · intro ho k k' hk hk'
    exact lastDealing_of_onePolynomial h hq ho hk hk'
  · intro hone
    apply onePolynomial_of_lastDealing h
    intro k k' hk hk'
    exact lastDealing_of_one_start h hq hone hk hk'

end agreement

section restart
attribute [local instance] compactJson

def one : Fin (3 : Usize).toNat := ⟨0,by decide⟩

def two : Fin (3 : Usize).toNat := ⟨1,by decide⟩

def three : Fin (3 : Usize).toNat := ⟨2,by decide⟩

def dealingOfOne (c : Scalar) : DKGMessage LogPoint := distribution (.new "1" 1 3) (constantRng c)

def voteOn (validator : String) : DKGMessage LogPoint := .shareValidation validator "1" true

/-- Node one is started twice and its dealings cross on the way to node three. -/
def crossedDealings : DkgRun LogPoint 3 :=
  [(one,.command (constantRng 0)),(one,.command (constantRng 1)),
    (two,.message one (dealingOfOne 0)),(two,.message one (dealingOfOne 1)),
    (three,.message one (dealingOfOne 1)),(three,.message one (dealingOfOne 0)),
    (one,.message two (voteOn "2")),(one,.message two (voteOn "2")),
    (three,.message two (voteOn "2")),(three,.message two (voteOn "2")),
    (one,.message three (voteOn "3")),(one,.message three (voteOn "3")),
    (two,.message three (voteOn "3")),(two,.message three (voteOn "3"))]

theorem crossed_quiet :
    ∃ net, (honest 1 3).run (outline _) crossedDealings = some net ∧ net.Quiet :=
  run_found _ (by decide +kernel)

theorem crossed_not_onePolynomial : ¬ ∀ net,
    (honest 1 3).run (protocol _) crossedDealings = some net → net.Quiet →
      ∀ d, OnePolynomial 1 net d := by
  intro hall
  obtain ⟨net,hn,hq⟩ := crossed_quiet
  have ho := hall net (by rw [protocol_eq_outline]; exact hn) hq one
  have hne : lastDealing crossedDealings one two ≠ lastDealing crossedDealings one three := by
    decide +kernel
  exact hne (lastDealing_of_onePolynomial hn (quiet_delivered hq) ho (by decide) (by decide))

theorem crossed_onePolynomial_iff : ∃ net,
    (honest 1 3).run (protocol _) crossedDealings = some net ∧
      ((OnePolynomial 1 net one ↔ ∀ k k', k ≠ one → k' ≠ one →
          lastDealing crossedDealings one k = lastDealing crossedDealings one k') ∧
        ((commands (history one crossedDealings)).length ≤ 1 → OnePolynomial 1 net one)) := by
  obtain ⟨net,hn,hq⟩ := crossed_quiet
  rw [← protocol_eq_outline] at hn
  exact ⟨net,hn,onePolynomial_iff hn (quiet_delivered hq) one⟩

end restart
end MpcNode.Dkg
