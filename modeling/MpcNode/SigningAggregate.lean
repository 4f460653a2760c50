import MpcNode.Library.Writes
import MpcNode.SigningCalls

/-!
# The order of signature shares

The map of shares holds the last one of each sender, and the aggregate adds
up its values. Neither the interleaving of the senders nor the iteration
order of the map has an influence on the sum.
-/

set_option autoImplicit false

namespace MpcNode.Signing
open MpcNode.Bls MpcNode.Guarded MpcNode.Messages MpcNode.Wire MpcNode.Channels MpcNode.Tables

variable {G1 : Type}

/-- The signature shares a list of calls brings, with their senders. -/
def signedShares (is : List (SigningInput G1)) : List (String × Scalar) :=
  is.filterMap (fun
    | .message (.signatureShare fromId share) => some (fromId,share.scalar)
    | _ => none)

def sharesFrom (sender : String) (is : List (SigningInput G1)) : List Scalar :=
  under sender (signedShares is)

def shareSenders (is : List (SigningInput G1)) : Finset String :=
  ((signedShares is).map Prod.fst).toFinset

/-- The sum over the senders of the last share of each. -/
def lastSharesSum (is : List (SigningInput G1)) : Scalar :=
  ∑ sender ∈ shareSenders is, (sharesFrom sender is).getLast?.getD 0

theorem signedShares_append (is js : List (SigningInput G1)) :
    signedShares (is++js) = signedShares is ++ signedShares js := List.filterMap_append

theorem signing_after_shares (node : SigningNode G1) (i : SigningInput G1) :
    (node.after i).signatureShares = written node.signatureShares (signedShares [i]) := by
  rcases i with ⟨message,rng⟩ | ⟨fromId,commitments⟩ | ⟨fromId,share⟩ <;> rfl

theorem sum_signedShares (is : List (SigningInput G1)) :
    ((values (written ∅ (signedShares is))).map (fun share => share)).sum = lastSharesSum is := by
  rw [sum_written]
  simp only [Option.map_id']
  rfl

/-- A later share of one sender replaces the earlier one. -/
example : lastSharesSum ([.message (.signatureShare "2" ⟨1⟩),.message (.signatureShare "3" ⟨2⟩),
    .message (.signatureShare "2" ⟨4⟩)] : List (SigningInput Unit)) = 6 := by
  decide +kernel

theorem lastSharesSum_reordered {is js : List (SigningInput G1)}
    (h : ∀ sender, sharesFrom sender js = sharesFrom sender is) :
    lastSharesSum js = lastSharesSum is := by
  rw [← sum_signedShares, ← sum_signedShares]
  apply sum_values_congr
  intro sender
  rw [lookup_written, lookup_written]
  exact congrArg (fun shares => shares.getLast?.or none) (h sender)

theorem aggregateSignatureShares_run (policy : Policy) (c : Ctx (SigningNode G1) Scalar) :
    (aggregateSignatureShares (Env.top policy) c).1 = .ok c.node.aggregate := by
  rw [aggregateSignatureShares, Handler.withGuard_free (Handler.top_blocks _ _ _)]
  rfl

section calls
variable [G1Group G1] [SerdeJson] (policy : Policy) (id : String) (threshold : Usize)

theorem signatureShares_run (is : List (SigningInput G1)) :
    (runSigning policy (.new id threshold) is).node.signatureShares =
      written ∅ (signedShares is) := by
  induction is using List.reverseRecOn with
  | nil => rfl
  | append_singleton is i ih =>
    rw [runSigning_snoc, attend_eq, signing_after_shares, ih, signedShares_append, written_append]

theorem iterated_run (is : List (SigningInput G1)) {shares : List Scalar}
    (h : shares.Perm (values (runSigning policy (.new id threshold) is).node.signatureShares)) :
    shares.foldl (fun signature share => signature+share) 0 = lastSharesSum is := by
  rw [foldl_perm (fun share => share) h, signatureShares_run, sum_signedShares]

theorem aggregate_run (is : List (SigningInput G1)) :
    (runSigning policy (.new id threshold) is).node.aggregate = lastSharesSum is :=
  iterated_run policy id threshold is (List.Perm.refl _)

/-- What the aggregate of a signing node that has taken some calls is,
whatever the order of the map, and that it is the same after any calls that
keep the order of each sender's shares. -/
structure Aggregates (is : List (SigningInput G1)) : Prop where
  returned : ∀ c : Ctx (SigningNode G1) Scalar,
    c.node = (runSigning policy (.new id threshold) is).node →
    (aggregateSignatureShares (Env.top policy) c).1 = .ok (lastSharesSum is)
  iterated : ∀ shares : List Scalar,
    shares.Perm (values (runSigning policy (.new id threshold) is).node.signatureShares) →
    shares.foldl (fun signature share => signature+share) 0 = lastSharesSum is
  reordered : ∀ js : List (SigningInput G1),
    (∀ sender, sharesFrom sender js = sharesFrom sender is) →
    ∀ c : Ctx (SigningNode G1) Scalar,
    c.node = (runSigning policy (.new id threshold) js).node →
    (aggregateSignatureShares (Env.top policy) c).1 = .ok (lastSharesSum is)

theorem returned_run (is : List (SigningInput G1)) {c : Ctx (SigningNode G1) Scalar}
    (hc : c.node = (runSigning policy (.new id threshold) is).node) :
    (aggregateSignatureShares (Env.top policy) c).1 = .ok (lastSharesSum is) := by
  rw [aggregateSignatureShares_run, hc, aggregate_run]

/-- The aggregate is a function of the last share of each sender. -/
theorem aggregates (is : List (SigningInput G1)) : Aggregates policy id threshold is where
  returned _ hc := returned_run policy id threshold is hc
  iterated _ h := iterated_run policy id threshold is h
  reordered js h _ hc := by
    rw [returned_run policy id threshold js hc, lastSharesSum_reordered h]

end calls
end MpcNode.Signing
