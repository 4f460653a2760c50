import Mathlib.Tactic.Ring
import Mathlib.Tactic.Linarith

/-!
# Numerals and texts as bytes

Little-endian byte strings of a fixed width, unsigned decimal texts with an
optional plus sign, the form a fixed-width integer parser accepts, and the
UTF-8 bytes of a text.
-/

set_option autoImplicit false

namespace MpcNode.Numerals

def toLE : ℕ → ℕ → List UInt8
  | 0, _ => []
  | k+1, n => UInt8.ofNat n::toLE k (n/256)

def ofLE : List UInt8 → ℕ
  | [] => 0
  | b::bs => b.toNat+256*ofLE bs

@[simp] theorem length_toLE (k n : ℕ) : (toLE k n).length = k := by
  induction k generalizing n with
  | zero => rfl
  | succ k ih => simp [toLE, ih]

theorem ofLE_toLE (k n : ℕ) (h : n < 256^k) : ofLE (toLE k n) = n := by
  induction k generalizing n with
  | zero => obtain rfl : n = 0 := by simpa using h
            rfl
  | succ k ih =>
    have hk : n/256 < 256^k := by rw [pow_succ] at h; omega
    rw [toLE, ofLE, ih _ hk, UInt8.toNat_ofNat']
    omega

theorem toLE_ofLE (bs : List UInt8) : toLE bs.length (ofLE bs) = bs := by
  induction bs with
  | nil => rfl
  | cons b bs ih =>
    have hb := b.toNat_lt
    have hd : (b.toNat+256*ofLE bs)/256 = ofLE bs := by omega
    rw [List.length_cons, ofLE, toLE, hd, ih]
    congr 1
    apply UInt8.toNat_inj.mp
    rw [UInt8.toNat_ofNat']
    omega

def toUtf8 (s : String) : List UInt8 := s.toUTF8.data.toList

def ofUtf8 (bs : List UInt8) : Option String := String.fromUTF8? ⟨bs.toArray⟩

@[simp] theorem ofUtf8_toUtf8 (s : String) : ofUtf8 (toUtf8 s) = some s := by
  have hv : s.toUTF8.IsValidUTF8 := s.isValidUTF8
  have h : String.fromUTF8? s.toUTF8 = some s := by
    rw [String.fromUTF8?, dif_pos hv]
    rfl
  rw [ofUtf8, toUtf8, Array.toArray_toList]
  exact h

/-- A nonempty run of decimal digits. -/
def readDigits (cs : List Char) : Option ℕ :=
  if cs ≠ [] ∧ cs.all Char.isDigit then some (Nat.ofDigitChars 10 cs 0) else none

def readDecimal : List Char → Option ℕ
  | '+' :: cs => readDigits cs
  | cs => readDigits cs

theorem readDigits_toDigits (n : ℕ) : readDigits (Nat.toDigits 10 n) = some n := by
  have hd : (Nat.toDigits 10 n).all Char.isDigit = true :=
    List.all_eq_true.mpr fun c hc => Nat.isDigit_of_mem_toDigits (by decide) (by decide) hc
  rw [readDigits, if_pos ⟨Nat.toDigits_ne_nil,hd⟩, Nat.ofDigitChars_ten_toDigits]

theorem readDecimal_unsigned {cs : List Char} (h : '+' ∉ cs) : readDecimal cs = readDigits cs := by
  unfold readDecimal
  split
  · simp at h
  · rfl

theorem readDecimal_toDigits (n : ℕ) : readDecimal (Nat.toDigits 10 n) = some n := by
  have hp : '+' ∉ Nat.toDigits 10 n := fun hc =>
    absurd (Nat.isDigit_of_mem_toDigits (by decide) (by decide) hc) (by decide)
  rw [readDecimal_unsigned hp, readDigits_toDigits]

theorem digit_pos {c : Char} (hd : c.isDigit = true) (h0 : c ≠ '0') : 1 ≤ c.toNat - '0'.toNat := by
  have hn : c.toNat ≠ '0'.toNat := fun h => h0 (Char.toNat_inj.mp h)
  have hz : '0'.toNat = 48 := rfl
  simp only [Char.isDigit, Bool.and_eq_true, decide_eq_true_eq, UInt32.le_iff_toNat_le] at hd
  have h1 : 48 ≤ c.toNat := hd.1
  omega

/-- A text of nonzero digits is at least the power of ten below its length. -/
theorem readDigits_lower {cs : List Char} {v k : ℕ} (h0 : '0' ∉ cs) (hl : cs.length = k+1)
    (h : readDigits cs = some v) : 10^k ≤ v := by
  unfold readDigits at h
  split_ifs at h with hc
  obtain rfl := Option.some.inj h
  cases cs with
  | nil => simp at hl
  | cons c cs =>
    have hd : c.isDigit = true := by
      have := hc.2
      rw [List.all_cons, Bool.and_eq_true] at this
      exact this.1
    have hc0 : c ≠ '0' := fun hz => h0 (by simp [hz])
    have hp := digit_pos hd hc0
    have hk : cs.length = k := by simpa using hl
    rw [Nat.ofDigitChars_cons, Nat.ofDigitChars_eq_ofDigitChars_zero, hk]
    have hmul : 10^k*1 ≤ 10^k*(10*0+(c.toNat - '0'.toNat)) :=
      Nat.mul_le_mul_left _ (by omega)
    omega

end MpcNode.Numerals
