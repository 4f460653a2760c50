import Mathlib.Data.ZMod.Basic
import Mathlib.NumberTheory.LucasPrimality
import Mathlib.Tactic.NormNum.Prime
import MpcNode.Library.Numerals

/-!
# The scalar field and the commitment group

Scalars are the prime field of the BLS12-381 group order, which is proved
prime here. The group G1 is a parameter: a group of that order with a
generator and a canonical compressed encoding of 48 bytes. Affine and
projective coordinates name the same group element.
-/

set_option autoImplicit false

namespace MpcNode.Bls
open MpcNode.Numerals

def scalarModulus : ℕ := 0x73eda753299d7d483339d80809a1d80553bda402fffe5bfeffffffff00000001

def modulusFactors : List ℕ :=
  [2,3,11,19,10177,125527,859267,906349,2508409,2529403,52437899,254760293]

def powMod (m a : ℕ) : ℕ → ℕ → ℕ
  | 0, _ => 1%m
  | bits+1, n => (powMod m a bits (n/2))^2*a^(n%2)%m

theorem powMod_eq (m a bits n : ℕ) (hn : n < 2^bits) : powMod m a bits n = a^n%m := by
  induction bits generalizing n with
  | zero =>
    obtain rfl : n = 0 := by simpa using hn
    simp [powMod]
  | succ bits ih =>
    have hh : n/2 < 2^bits := by rw [pow_succ] at hn; omega
    rw [powMod, ih _ hh, Nat.mul_mod, ← Nat.pow_mod, ← Nat.mul_mod, ← pow_mul, ← pow_add,
      mul_comm, Nat.div_add_mod]

theorem modulus_factors : scalarModulus-1 =
    2^32*3*11*19*10177*125527*859267*906349^2*2508409*2529403*52437899*254760293^2 := by
  decide +kernel

theorem generator_order : powMod scalarModulus 7 256 (scalarModulus-1) = 1 ∧
    ∀ q ∈ modulusFactors, powMod scalarModulus 7 256 ((scalarModulus-1)/q) ≠ 1 := by
  decide +kernel

theorem pow_eq_one_iff (a n : ℕ) (hn : n ≤ scalarModulus) :
    (a : ZMod scalarModulus)^n = 1 ↔ powMod scalarModulus a 256 n = 1 := by
  rw [powMod_eq _ _ _ _ (hn.trans_lt (by decide +kernel)), ← Nat.cast_pow, ← Nat.cast_one,
    ZMod.natCast_eq_natCast_iff']
  rfl

theorem prime_factor {q : ℕ} (hq : q.Prime) (hd : q ∣ scalarModulus-1) : q ∈ modulusFactors := by
  rw [modulus_factors] at hd
  simp only [hq.dvd_mul] at hd
  rcases hd with (((((((((((h | h) | h) | h) | h) | h) | h) | h) | h) | h) | h) | h)
  all_goals try replace h := hq.dvd_of_dvd_pow h
  all_goals rw [Nat.prime_dvd_prime_iff_eq hq (by norm_num)] at h
  all_goals simp [h, modulusFactors]

/-- Lucas's test with base seven over the factors of the order less one. -/
theorem scalarModulus_prime : scalarModulus.Prime := by
  apply lucas_primality scalarModulus (7:ℕ)
  · rw [pow_eq_one_iff _ _ (Nat.sub_le _ _)]
    exact generator_order.1
  · intro q hq hd
    rw [Ne, pow_eq_one_iff _ _ ((Nat.div_le_self _ _).trans (Nat.sub_le _ _))]
    exact generator_order.2 q (prime_factor hq hd)

abbrev Scalar : Type := ZMod scalarModulus

instance : Fact scalarModulus.Prime := ⟨scalarModulus_prime⟩

theorem u64_lt_modulus : 2^64 < scalarModulus := by decide +kernel

theorem scalar_cast_inj {i j : ℕ} (hi : i < 2^64) (hj : j < 2^64)
    (h : (i : Scalar) = (j : Scalar)) : i = j := by
  have hm := u64_lt_modulus
  rw [ZMod.natCast_eq_natCast_iff', Nat.mod_eq_of_lt (hi.trans hm),
    Nat.mod_eq_of_lt (hj.trans hm)] at h
  exact h

/-- The canonical little-endian encoding of a residue in `k` bytes. -/
def residueToBytes (k : ℕ) (x : Scalar) : List UInt8 := toLE k x.val

def residueFromBytes (k : ℕ) (bs : List UInt8) : Option Scalar :=
  if bs.length = k ∧ ofLE bs < scalarModulus then some (ofLE bs : Scalar) else none

theorem residueFromBytes_iff {k : ℕ} (hk : scalarModulus ≤ 256^k) (bs : List UInt8) (x : Scalar) :
    residueFromBytes k bs = some x ↔ bs = residueToBytes k x := by
  unfold residueFromBytes residueToBytes
  constructor
  · intro h
    split_ifs at h with hc
    obtain rfl := Option.some.inj h
    rw [ZMod.val_natCast, Nat.mod_eq_of_lt hc.2, ← hc.1, toLE_ofLE]
  · rintro rfl
    have hx := ZMod.val_lt x
    rw [ofLE_toLE k _ (hx.trans_le hk), if_pos ⟨length_toLE _ _,hx⟩, ZMod.natCast_zmod_val]

def toBytes (x : Scalar) : List UInt8 := residueToBytes 32 x

def fromBytes (bs : List UInt8) : Option Scalar := residueFromBytes 32 bs

theorem length_toBytes (x : Scalar) : (toBytes x).length = 32 := length_toLE _ _

theorem fromBytes_iff (bs : List UInt8) (x : Scalar) :
    fromBytes bs = some x ↔ bs = toBytes x :=
  residueFromBytes_iff (by decide +kernel) bs x

/-- What the code relies on of the curve library: G1 is a group of the
scalar field's order with a generator, and its compressed encodings are
canonical. -/
class G1Group (G1 : Type) extends AddCommGroup G1, Module Scalar G1 where
  decEq : DecidableEq G1
  generator : G1
  generates : ∀ P : G1, ∃ x : Scalar, x•generator = P
  faithful : ∀ x : Scalar, x•generator = 0 → x = 0
  toCompressed : G1 → List UInt8
  length_toCompressed : ∀ P, (toCompressed P).length = 48
  fromCompressed : List UInt8 → Option G1
  fromCompressed_iff : ∀ bs P, fromCompressed bs = some P ↔ bs = toCompressed P

instance {G1 : Type} [G1Group G1] : DecidableEq G1 := G1Group.decEq

export G1Group (generator)

theorem smul_generator_injective {G1 : Type} [G1Group G1] :
    Function.Injective (fun x : Scalar => x•(generator : G1)) := by
  intro x y h
  have hz : (x-y)•(generator : G1) = 0 := by
    rw [sub_smul]
    exact sub_eq_zero.mpr h
  exact sub_eq_zero.mp (G1Group.faithful _ hz)

/-- A group of the order, each element written as its discrete logarithm. -/
def LogPoint : Type := Scalar

instance : AddCommGroup LogPoint := inferInstanceAs (AddCommGroup Scalar)

instance : Module Scalar LogPoint := inferInstanceAs (Module Scalar Scalar)

instance : G1Group LogPoint where
  decEq := inferInstanceAs (DecidableEq Scalar)
  generator := (1 : Scalar)
  generates P := ⟨P,mul_one (show Scalar from P)⟩
  faithful x h := (mul_one (show Scalar from x)).symm.trans h
  toCompressed := residueToBytes 48
  length_toCompressed P := length_toLE _ _
  fromCompressed := residueFromBytes 48
  fromCompressed_iff := residueFromBytes_iff (by decide +kernel)

end MpcNode.Bls
