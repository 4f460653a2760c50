import MpcNode.Library.Fifo
import MpcNode.Messages

/-!
# The signer's nonces

Nonce pairs are drawn at the end of the signer's queue, and every signature
takes the first of them. Commitments are published for the whole queue, so
they come in the order in which later signatures use the pairs up. The
signature itself is a placeholder.
-/

set_option autoImplicit false

namespace MpcNode.Frost
open MpcNode.Bls MpcNode.Messages

structure Commitment (G1 : Type) where
  d : SerializableG1Affine G1
  e : SerializableG1Affine G1
  deriving DecidableEq

structure FrostSigner where
  secretShare : Scalar
  nonces : List (Scalar × Scalar)

def FrostSigner.new (secretShare : Scalar) : FrostSigner where
  secretShare := secretShare
  nonces := []

/-- The loop of `generate_nonces`: two draws for each pair. -/
def drawPairs (count : Usize) (rng : ℕ → Scalar) : List (Scalar × Scalar) :=
  (List.range count.toNat).map (fun k => (rng (2*k),rng (2*k+1)))

def FrostSigner.generateNonces (count : Usize) (rng : ℕ → Scalar) (signer : FrostSigner) :
    FrostSigner := { signer with nonces := signer.nonces ++ drawPairs count rng }

/-- The pair leaves the queue. It goes into no result, and neither does the
commitment of the next one, which is looked up and dropped. -/
def FrostSigner.sign (_message : Bytes) (_participants : List String) (signer : FrostSigner) :
    Option Scalar × FrostSigner :=
  match signer.nonces with
  | [] => (none,signer)
  | _::nonces => (some signer.secretShare,{ signer with nonces := nonces })

def commitmentOf (G1 : Type) [G1Group G1] (pair : Scalar × Scalar) : Commitment G1 :=
  ⟨⟨pair.1•generator⟩,⟨pair.2•generator⟩⟩

def FrostSigner.getCommitments (G1 : Type) [G1Group G1] (signer : FrostSigner) :
    List (Commitment G1) := signer.nonces.map (commitmentOf G1)

inductive FrostCall where
  | generateNonces (count : Usize) (rng : ℕ → Scalar)
  | getCommitments
  | sign (message : Bytes) (participants : List String)

def FrostSigner.after (signer : FrostSigner) : FrostCall → FrostSigner
  | .generateNonces count rng => signer.generateNonces count rng
  | .getCommitments => signer
  | .sign message participants => (signer.sign message participants).2

def FrostSigner.consumed (signer : FrostSigner) : FrostCall → List (Scalar × Scalar)
  | .sign message participants =>
    if (signer.sign message participants).1.isSome then signer.nonces.take 1 else []
  | _ => []

def generated : FrostCall → List (Scalar × Scalar)
  | .generateNonces count rng => drawPairs count rng
  | _ => []

def runSigner (signer : FrostSigner) (calls : List FrostCall) : FrostSigner :=
  calls.foldl FrostSigner.after signer

def consumedIn (signer : FrostSigner) (calls : List FrostCall) : List (Scalar × Scalar) :=
  Fifo.pops FrostSigner.after FrostSigner.consumed signer calls

def generatedIn (calls : List FrostCall) : List (Scalar × Scalar) := calls.flatMap generated

theorem sign_none_iff (message : Bytes) (participants : List String) (signer : FrostSigner) :
    (signer.sign message participants).1 = none ↔ signer.nonces = [] := by
  rw [FrostSigner.sign]
  cases signer.nonces <;> simp

theorem consumed_after (signer : FrostSigner) (call : FrostCall) :
    signer.consumed call ++ (signer.after call).nonces = signer.nonces ++ generated call := by
  cases call with
  | generateNonces count rng => rfl
  | getCommitments => simp [FrostSigner.consumed, FrostSigner.after, generated]
  | sign message participants =>
    obtain ⟨secretShare,nonces⟩ := signer
    cases nonces <;>
      simp [FrostSigner.consumed, FrostSigner.after, generated, FrostSigner.sign]

theorem consumedIn_run (signer : FrostSigner) (calls : List FrostCall) :
    consumedIn signer calls ++ (runSigner signer calls).nonces =
      signer.nonces ++ generatedIn calls :=
  Fifo.pops_run consumed_after signer calls

/-- A signer that began without nonces has none left exactly when it has used
up all it drew. -/
theorem sign_exhausted (secretShare : Scalar) (calls : List FrostCall) (message : Bytes)
    (participants : List String) :
    ((runSigner (.new secretShare) calls).sign message participants).1 = none ↔
      consumedIn (.new secretShare) calls = generatedIn calls := by
  have hrun : consumedIn (.new secretShare) calls ++ (runSigner (.new secretShare) calls).nonces =
      generatedIn calls := consumedIn_run _ calls
  rw [sign_none_iff]
  constructor
  · intro hn
    rw [hn, List.append_nil] at hrun
    exact hrun
  · intro he
    rw [he] at hrun
    exact List.append_right_eq_self.mp hrun

/-- The commitment at a place is that of the pair which the signature at
that place uses up. -/
theorem published_consumed (G1 : Type) [G1Group G1] {signer : FrostSigner}
    {calls : List FrostCall} {j : ℕ} {pair : Scalar × Scalar} (hj : j < signer.nonces.length)
    (hp : (consumedIn signer calls)[j]? = some pair) :
    (signer.getCommitments G1)[j]? = some (commitmentOf G1 pair) := by
  rw [FrostSigner.getCommitments, List.getElem?_map, Fifo.pops_getElem? consumed_after hj hp,
    Option.map_some]

/-- What a signer that starts without nonces has done with those it drew. -/
structure LinesUp (G1 : Type) [G1Group G1] (secretShare : Scalar) (calls : List FrostCall) :
    Prop where
  consumed : consumedIn (.new secretShare) calls ++ (runSigner (.new secretShare) calls).nonces =
    generatedIn calls
  once : (generatedIn calls).Nodup → (consumedIn (.new secretShare) calls).Nodup
  exhausted : ∀ pre message participants post, calls = pre ++ .sign message participants::post →
    (((runSigner (.new secretShare) pre).sign message participants).1 = none ↔
      consumedIn (.new secretShare) pre = generatedIn pre)
  published : ∀ pre post, calls = pre ++ .getCommitments::post →
    (runSigner (.new secretShare) pre).getCommitments G1 =
      (runSigner (.new secretShare) pre).nonces.map (fun pair =>
        ⟨⟨pair.1•generator⟩,⟨pair.2•generator⟩⟩)
  matched : ∀ pre post, calls = pre ++ .getCommitments::post →
    ∀ (j : ℕ) (pair : Scalar × Scalar), j < (runSigner (.new secretShare) pre).nonces.length →
    (consumedIn (runSigner (.new secretShare) pre) post)[j]? = some pair →
    ((runSigner (.new secretShare) pre).getCommitments G1)[j]? =
      some ⟨⟨pair.1•generator⟩,⟨pair.2•generator⟩⟩

/-- Whatever calls a signer takes, its published commitments line up with
the nonces its later signatures use up. -/
theorem linesUp (G1 : Type) [G1Group G1] (secretShare : Scalar) (calls : List FrostCall) :
    LinesUp G1 secretShare calls where
  consumed := consumedIn_run _ calls
  once h := by
    have hrun : consumedIn (.new secretShare) calls ++ (runSigner (.new secretShare) calls).nonces =
        generatedIn calls := consumedIn_run _ calls
    rw [← hrun] at h
    exact h.of_append_left
  exhausted pre message participants _ _ := sign_exhausted secretShare pre message participants
  published _ _ _ := rfl
  matched _ _ _ _ _ hj hp := published_consumed G1 hj hp

/-- Two pairs are published and a third is drawn before they are used up: the
second signature uses the second pair published. -/
theorem drawn_linesUp :
    ((runSigner (.new 7) [.generateNonces 2 (fun k => k)]).getCommitments LogPoint)[1]? =
      some ⟨⟨(2 : Scalar)•generator⟩,⟨(3 : Scalar)•generator⟩⟩ :=
  (linesUp LogPoint 7 [.generateNonces 2 (fun k => k),.getCommitments,
    .generateNonces 1 (fun k => k+5),.sign [] [],.sign [] []]).matched
      [.generateNonces 2 (fun k => k)] _ rfl 1 (2,3) (by decide +kernel) (by decide +kernel)

end MpcNode.Frost
