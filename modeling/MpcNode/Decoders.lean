import MpcNode.Wire

/-!
# Two decoders of one encoding

A scalar or a point arrives as a slice, whose length is compared, or as a
sequence, from which a loop takes one element after another. Both accept
what the serializer writes and nothing else.
-/

set_option autoImplicit false

namespace MpcNode.Wire
open MpcNode.Bls MpcNode.Messages

variable {α V : Type}

theorem build_toOption (visitor : ByteVisitor α) (bytes : Bytes) :
    (visitor.build bytes).toOption = visitor.fromBytes bytes := by
  rw [ByteVisitor.build]
  cases visitor.fromBytes bytes <;> rfl

theorem visitBytes_toOption (visitor : ByteVisitor α) (v : Bytes) :
    (visitor.visitBytes v).toOption =
      if v.length = visitor.width then visitor.fromBytes v else none := by
  rw [ByteVisitor.visitBytes]
  by_cases h : v.length = visitor.width
  · rw [if_neg (not_not.mpr h), if_pos h, build_toOption]
  · rw [if_pos h, if_neg h]
    rfl

theorem nextElements_eq {element : V → Option UInt8} {seq : List V} {v : Bytes}
    (h : seq.map element = v.map some) (expecting : String) (k i : ℕ) :
    nextElements element expecting k i seq =
      if k ≤ v.length then .ok (v.take k,seq.drop k)
      else .error (.invalidLength (i+v.length) expecting) := by
  induction k generalizing i seq v with
  | zero => simp [nextElements]
  | succ k ih =>
    cases seq with
    | nil =>
      obtain rfl : v = [] := by simpa using h.symm
      simp [nextElements]
    | cons j seq =>
      cases v with
      | nil => simp at h
      | cons b v =>
        rw [List.map_cons, List.map_cons, List.cons.injEq] at h
        rw [nextElements, h.1, List.length_cons, List.take_succ_cons, List.drop_succ_cons]
        simp only [ih h.2, Nat.add_le_add_iff_right]
        split_ifs
        · rfl
        · rw [Nat.add_right_comm, ← Nat.add_assoc]
          rfl

theorem fromSeq_eq (visitor : ByteVisitor α) {element : V → Option UInt8} {seq : List V}
    {v : Bytes} (h : seq.map element = v.map some) :
    visitor.fromSeq element seq = (visitor.visitBytes v).toOption := by
  have hl : seq.length = v.length := by simpa using congrArg List.length h
  rw [ByteVisitor.fromSeq, ByteVisitor.visitSeq, nextElements_eq h, visitBytes_toOption]
  rcases Nat.lt_trichotomy v.length visitor.width with hlt | heq | hgt
  · rw [if_neg (Nat.not_le.mpr hlt), if_neg hlt.ne]
    rfl
  · rw [if_pos heq.ge, if_pos heq, ← heq, List.take_length, ← hl, List.drop_length,
      ← build_toOption]
    simp only [Except.bind]
    cases visitor.build v <;> rfl
  · have hs : visitor.width < seq.length := by rw [hl]; exact hgt
    rw [if_pos hgt.le, if_neg hgt.ne']
    simp only [Except.bind]
    cases visitor.build (v.take visitor.width) <;> simp [Except.map, Except.toOption, hs]

theorem serializeBytes_injective : Function.Injective serializeBytes := by
  intro v w h
  have hv : (fromJson (serializeBytes v) : Option Bytes) = some v := fromJson_toJson v
  rw [h] at hv
  exact (Option.some.inj ((fromJson_toJson w).symm.trans hv)).symm

/-- The slice and every sequence that reads as it are decoded alike, to a
value exactly if they are what the serializer writes for it. -/
structure Canonical [Serde α] (visitor : ByteVisitor α) (v : Bytes) : Prop where
  alike : ∀ (V : Type) (element : V → Option UInt8) (seq : List V),
    seq.map element = v.map some →
    visitor.fromSeq element seq = (visitor.visitBytes v).toOption
  written : ∀ a : α, (visitor.visitBytes v).toOption = some a ↔ toJson a = serializeBytes v

theorem canonical_of_fixed [Serde α] {visitor : ByteVisitor α} {bytesOf : α → Bytes}
    (hb : ∀ v a, visitor.fromBytes v = some a ↔ v = bytesOf a)
    (hs : ∀ a, toJson a = serializeBytes (bytesOf a))
    (hl : ∀ a, (bytesOf a).length = visitor.width) (v : Bytes) :
    Canonical visitor v where
  alike _ _ _ h := fromSeq_eq visitor h
  written a := by
    rw [hs, serializeBytes_injective.eq_iff, visitBytes_toOption]
    by_cases h : v.length = visitor.width
    · rw [if_pos h, hb]
      exact eq_comm
    · rw [if_neg h]
      constructor
      · intro hn
        cases hn
      · rintro rfl
        exact absurd (hl a) h

variable {G1 : Type} [G1Group G1]

/-- Both decoders of scalars are canonical, and so are both of points. -/
theorem decoders_canonical (v : Bytes) :
    Canonical scalarVisitor v ∧
    Canonical (g1AffineVisitor : ByteVisitor (SerializableG1Affine G1)) v := by
  constructor
  · exact canonical_of_fixed scalar_fromBytes (fun _ => rfl) (fun s => length_toBytes s.scalar) v
  · exact canonical_of_fixed point_fromBytes (fun _ => rfl)
      (fun p => G1Group.length_toCompressed p.point) v

end MpcNode.Wire
