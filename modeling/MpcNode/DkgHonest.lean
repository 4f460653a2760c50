import MpcNode.DkgNetwork

/-!
# Honest networks with numbered nodes

Nodes `"1"` to `"n"` evaluate at their own numbers. Once no dealing is in
flight, a node's ledger holds the dealings of every other node that was
started, in the order it received them.
-/

set_option autoImplicit false

namespace MpcNode.Dkg
open MpcNode.Bls MpcNode.Messages MpcNode.Broadcast
open scoped List

variable {G1 : Type}

def numbered (n : ℕ) (i : Fin n) : String := toString (i.val+1)

theorem idParsed_numbered {total : Usize} (i : Fin total.toNat) :
    idParsed (numbered total.toNat i) = UInt64.ofNat (i.val+1) := by
  have hi := i.isLt
  have ht := total.toNat_lt
  rw [idParsed, numbered, parseUsize_repr _ (by omega), Option.getD_some]

theorem numbered_index {total : Usize} (i : Fin total.toNat) :
    (idParsed (numbered total.toNat i)).toNat = i.val+1 := by
  have hi := i.isLt
  have ht := total.toNat_lt
  rw [idParsed_numbered, UInt64.toNat_ofNat', Nat.mod_eq_of_lt (by omega)]

theorem numbered_injective {total : Usize} : Function.Injective (numbered total.toNat) := by
  intro i j h
  have hi := numbered_index i
  rw [h, numbered_index j] at hi
  exact Fin.ext (by omega)

/-- A node of number `own` in a network of `total` evaluates within range. -/
theorem numbered_range {total : Usize} (i : Fin total.toNat) :
    1 ≤ (idParsed (numbered total.toNat i)).toNat ∧
      (idParsed (numbered total.toNat i)).toNat ≤ total.toNat := by
  rw [numbered_index]
  have hi := i.isLt
  omega

variable {threshold total : Usize}

abbrev DkgNet (G1 : Type) (total : Usize) := Net total.toNat (DKGNode G1) (DKGMessage G1)

abbrev DkgRun (G1 : Type) (total : Usize) := List (Action total.toNat Rng (DKGMessage G1))

/-- No dealing is in flight. -/
def Delivered (net : DkgNet G1 total) : Prop :=
  ∀ s r, (net.flight s r).filter isDistribution = []

theorem quiet_delivered {net : DkgNet G1 total} (h : net.Quiet) : Delivered net := by
  intro s r
  rw [h s r, List.filter_nil]

/-- What `r` has taken from the dealings of `s`, in order. -/
def taken (as : DkgRun G1 total) (r s : Fin total.toNat) : List (Dealing G1) :=
  (received s (history r as)).filterMap (dealing (idParsed (numbered total.toNat r)))

def honest [G1Group G1] (threshold total : Usize) : DkgNet G1 total :=
  Broadcast.start (nodes (numbered total.toNat) threshold total)

/-- One start each, then every dealing to every other node, then every vote. -/
def honestSchedule [G1Group G1] (threshold total : Usize) (rng : Fin total.toNat → Rng) :
    DkgRun G1 total :=
  let all := List.finRange total.toNat
  all.map (fun i => (i,.command (rng i))) ++
  all.flatMap (fun s => (all.filter (fun r => r ≠ s)).map (fun r =>
    (r,.message s (distribution (nodes (numbered total.toNat) threshold total s) (rng s))))) ++
  all.flatMap (fun s => (all.filter (fun d => d ≠ s)).flatMap (fun d =>
    (all.filter (fun r => r ≠ s)).map (fun r =>
      (r,.message s (.shareValidation (numbered total.toNat s) (numbered total.toNat d) true)))))

def nodeLedger (as : DkgRun G1 total) (r : Fin total.toNat) : Ledger G1 :=
  ledger (idParsed (numbered total.toNat r)) (handled (history r as))

theorem taken_eq_filterMap (as : DkgRun G1 total) (r s : Fin total.toNat) :
    taken as r s = ((received s (history r as)).filter isDistribution).filterMap
      (dealing (idParsed (numbered total.toNat r))) := by
  rw [taken, List.filterMap_filter]
  apply List.filterMap_congr
  intro m _
  cases m <;> rfl

section run
variable [G1Group G1] {as : DkgRun G1 total} {net : DkgNet G1 total}
  (h : (honest threshold total).run (outline total.toNat) as = some net)
include h

theorem honest_refines (r : Fin total.toNat) : Refines (net.node r) (nodeLedger as r) :=
  network_refines h r

theorem honest_threshold (r : Fin total.toNat) : (net.node r).threshold = threshold := by
  rw [Broadcast.run_node _ h, localState_outline, foldl_threshold]
  rfl

/-- What is taken from a node that was sent is what it dealt. -/
theorem taken_eq_map {r s : Fin total.toNat} :
    ∃ rngs : List Rng, (received s (history r as)).filter isDistribution =
        rngs.map (distribution (nodes (numbered total.toNat) threshold total s)) ∧
      taken as r s = rngs.map (dealt (numbered total.toNat s) threshold
        (idParsed (numbered total.toNat r))) := by
  have hall : ∀ m ∈ (received s (history r as)).filter isDistribution,
      ∃ rng, m = distribution (nodes (numbered total.toNat) threshold total s) rng := by
    intro m hm
    obtain ⟨hm,hd⟩ := List.mem_filter.mp hm
    obtain ⟨-,rng,-,rfl⟩ := handled_distribution h hm hd
    exact ⟨rng,rfl⟩
  rw [taken_eq_filterMap]
  generalize (received s (history r as)).filter isDistribution = ms at hall
  induction ms with
  | nil => exact ⟨[],rfl,rfl⟩
  | cons m ms ih =>
    obtain ⟨rngs,h1,h2⟩ := ih (fun m hm => hall m (List.mem_cons_of_mem _ hm))
    obtain ⟨rng,rfl⟩ := hall m (by simp)
    refine ⟨rng::rngs,by rw [List.map_cons, h1],?_⟩
    rw [List.filterMap_cons, nodes, dealing_distribution, if_pos (numbered_range r), h2]
    rfl

theorem nodeLedger_dealings_from (r s : Fin total.toNat) :
    (nodeLedger as r).dealings.filter (fun d => d.dealer = numbered total.toNat s) =
      taken as r s := by
  apply dealings_from _ numbered_injective
  intro t m d hm hd
  have hdist : isDistribution m = true := by
    cases m with
    | shareDistribution fromId shares commitments => rfl
    | shareValidation fromId toId isValid => cases hd
  obtain ⟨-,rng,-,rfl⟩ := handled_distribution h hm hdist
  rw [nodes, dealing_distribution, if_pos (numbered_range r)] at hd
  obtain rfl := Option.some.inj hd
  rfl

theorem nodeLedger_lastOf (r s : Fin total.toNat) :
    (nodeLedger as r).lastOf (numbered total.toNat s) = (taken as r s).getLast? := by
  rw [Ledger.lastOf, nodeLedger_dealings_from h]

/-- Once nothing is in flight, `r` has taken as many dealings from another
node as that node was started. -/
theorem taken_length (hq : Delivered net) {r s : Fin total.toNat} (hsr : s ≠ r) :
    (taken as r s).length = (commands (history s as)).length := by
  obtain ⟨rngs,h1,h2⟩ := taken_eq_map h (r := r) (s := s)
  have hp := (received_distributions h hsr (hq s r)).length_eq
  rw [h1, List.length_map, List.length_map] at hp
  rw [h2, List.length_map, hp]

theorem taken_self (r : Fin total.toNat) : taken as r r = [] := by
  rw [taken, run_received_self _ h (fun _ => rfl)]
  rfl

/-- From a node started once, every other node takes its one dealing. -/
theorem taken_one_start (hq : Delivered net) {r s : Fin total.toNat} (hsr : s ≠ r) {rng : Rng}
    (hone : commands (history s as) = [rng]) :
    taken as r s =
      [dealt (numbered total.toNat s) threshold (idParsed (numbered total.toNat r)) rng] := by
  have hp := received_distributions h hsr (hq s r)
  rw [hone, List.map_singleton, List.perm_singleton] at hp
  rw [taken_eq_filterMap, hp, List.filterMap_cons, nodes, dealing_distribution,
    if_pos (numbered_range r)]
  rfl

theorem mem_nodeLedger_dealings {r : Fin total.toNat} {d : Dealing G1}
    (hd : d ∈ (nodeLedger as r).dealings) : ∃ s, d.dealer = numbered total.toNat s := by
  obtain ⟨m,hm,hmd⟩ := List.mem_filterMap.mp hd
  obtain ⟨s,hs⟩ := mem_handled.mp hm
  have hdist : isDistribution m = true := by
    cases m with
    | shareDistribution fromId shares commitments => rfl
    | shareValidation fromId toId isValid => cases hmd
  obtain ⟨-,rng,-,rfl⟩ := handled_distribution h hs hdist
  rw [nodes, dealing_distribution, if_pos (numbered_range r)] at hmd
  obtain rfl := Option.some.inj hmd
  exact ⟨s,rfl⟩

/-- The dealers of a ledger are the other nodes that were started. -/
theorem nodeLedger_dealers (hq : Delivered net) (r : Fin total.toNat) :
    (nodeLedger as r).dealers =
      (Finset.univ.filter (fun s => s ≠ r ∧ (commands (history s as)).length ≠ 0)).image
        (numbered total.toNat) := by
  ext dealer
  rw [Finset.mem_image]
  constructor
  · intro hd
    obtain ⟨d,hl⟩ := Ledger.mem_dealers.mp hd
    have hmem := List.mem_filter.mp (List.mem_of_getLast? hl)
    obtain ⟨s,hs⟩ := mem_nodeLedger_dealings h hmem.1
    obtain rfl : d.dealer = dealer := by simpa using hmem.2
    rw [hs, nodeLedger_lastOf h] at hl
    have hsr : s ≠ r := by
      rintro rfl
      rw [taken_self h] at hl
      cases hl
    refine ⟨s,?_,hs.symm⟩
    rw [Finset.mem_filter, ← taken_length h hq hsr]
    refine ⟨Finset.mem_univ s,hsr,fun hz => ?_⟩
    rw [List.length_eq_zero_iff.mp hz] at hl
    cases hl
  · rintro ⟨s,hs,rfl⟩
    obtain ⟨-,hsr,hlen⟩ := Finset.mem_filter.mp hs
    rw [← taken_length h hq hsr] at hlen
    rw [Ledger.mem_dealers, nodeLedger_lastOf h, ← Option.isSome_iff_exists, List.getLast?_isSome]
    exact fun he => hlen (by rw [he]; rfl)

theorem nodeLedger_dealers_once (hq : Delivered net) {rng : Fin total.toNat → Rng}
    (hone : ∀ i, commands (history i as) = [rng i]) (r : Fin total.toNat) :
    (nodeLedger as r).dealers = (Finset.univ.erase r).image (numbered total.toNat) := by
  rw [nodeLedger_dealers h hq]
  congr 1
  ext s
  simp [hone]

end run
end MpcNode.Dkg
