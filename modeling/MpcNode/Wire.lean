import MpcNode.Library.Json
import MpcNode.Messages

/-!
# The wire format

Every type carried by gossip has a document form, the one of serde's derived
and hand-written implementations, and a decoder that gives every written
value back. Structs are read from an object, unknown names ignored, or from
an array of their fields; enums are tagged by an object with one entry. The
text of a document is a parameter, with one reading of what it writes.
-/

set_option autoImplicit false

namespace MpcNode.Wire
open MpcNode.Json MpcNode.Bls MpcNode.Messages MpcNode.Numerals

class Serde (α : Type) where
  toJson : α → Value
  fromJson : Value → Option α
  fromJson_toJson : ∀ a, fromJson (toJson a) = some a

export Serde (toJson fromJson fromJson_toJson)

attribute [simp] fromJson_toJson

instance : Serde Bool where
  toJson b := .bool b
  fromJson
    | .bool b => some b
    | _ => none
  fromJson_toJson _ := rfl

instance : Serde String where
  toJson s := .str s
  fromJson
    | .str s => some s
    | _ => none
  fromJson_toJson _ := rfl

instance : Serde UInt8 where
  toJson b := .nat b.toNat
  fromJson
    | .nat n => if n < 2^8 then some (UInt8.ofNat n) else none
    | _ => none
  fromJson_toJson b := by simp [b.toNat_lt]

instance : Serde UInt64 where
  toJson i := .nat i.toNat
  fromJson
    | .nat n => if n < 2^64 then some (UInt64.ofNat n) else none
    | _ => none
  fromJson_toJson i := by simp [i.toNat_lt]

theorem mapM_written {α V : Type} {write : α → V} {read : V → Option α}
    (h : ∀ a, read (write a) = some a) (as : List α) : (as.map write).mapM read = some as := by
  induction as with
  | nil => rfl
  | cons a as ih => simp [ih, h]

instance {α : Type} [Serde α] : Serde (List α) where
  toJson as := .arr (as.map toJson)
  fromJson
    | .arr js => js.mapM fromJson
    | _ => none
  fromJson_toJson := mapM_written fromJson_toJson

section bytes

inductive DecodeError where
  | custom (text : String)
  | invalidLength (position : ℕ) (expecting : String)
  | element (position : ℕ)
  deriving DecidableEq

/-- What the visitors of fixed-width encodings differ in. -/
structure ByteVisitor (α : Type) where
  expecting : String
  width : ℕ
  lengthError : String
  valueError : String
  fromBytes : Bytes → Option α

variable {α : Type}

def ByteVisitor.build (v : ByteVisitor α) (bytes : Bytes) : Except DecodeError α :=
  match v.fromBytes bytes with
  | some a => .ok a
  | none => .error (.custom v.valueError)

def ByteVisitor.visitBytes (v : ByteVisitor α) (bytes : Bytes) : Except DecodeError α :=
  if bytes.length ≠ v.width then .error (.custom v.lengthError) else v.build bytes

/-- The loop over `next_element`: so many bytes, and the elements left. -/
def nextElements {V : Type} (element : V → Option UInt8) (expecting : String) :
    ℕ → ℕ → List V → Except DecodeError (Bytes × List V)
  | 0, _, seq => .ok ([],seq)
  | _+1, i, [] => .error (.invalidLength i expecting)
  | k+1, i, j::seq =>
    match element j with
    | none => .error (.element i)
    | some b => (nextElements element expecting k (i+1) seq).map (fun p => (b::p.1,p.2))

def ByteVisitor.visitSeq {V : Type} (v : ByteVisitor α) (element : V → Option UInt8)
    (seq : List V) : Except DecodeError (α × List V) :=
  (nextElements element v.expecting v.width 0 seq).bind
    (fun p => (v.build p.1).map (fun a => (a,p.2)))

/-- An array is visited as a sequence of which no element may remain. -/
def ByteVisitor.fromSeq {V : Type} (v : ByteVisitor α) (element : V → Option UInt8)
    (seq : List V) : Option α :=
  (v.visitSeq element seq).toOption.bind (fun p => if p.2.isEmpty then some p.1 else none)

def serializeBytes (bytes : Bytes) : Value := toJson bytes

/-- `deserialize_bytes`: a text is visited as bytes, an array as a sequence. -/
def ByteVisitor.deserialize (v : ByteVisitor α) : Value → Option α
  | .str s => (v.visitBytes s.toUTF8.data.toList).toOption
  | .arr seq => v.fromSeq fromJson seq
  | _ => none

theorem nextElements_written {V : Type} {element : V → Option UInt8} {write : UInt8 → V}
    (hw : ∀ b, element (write b) = some b) (expecting : String) (bytes : Bytes) (i : ℕ)
    (rest : List V) :
    nextElements element expecting bytes.length i (bytes.map write ++ rest) =
      .ok (bytes,rest) := by
  induction bytes generalizing i with
  | nil => rfl
  | cons b bytes ih =>
    rw [List.length_cons, List.map_cons, List.cons_append, nextElements, hw]
    simp only [ih, Except.map]

theorem visitSeq_written {V : Type} {element : V → Option UInt8} {write : UInt8 → V}
    (hw : ∀ b, element (write b) = some b) (v : ByteVisitor α) {bytes : Bytes} {a : α}
    (hl : bytes.length = v.width) (ha : v.fromBytes bytes = some a) :
    v.visitSeq element (bytes.map write) = .ok (a,[]) := by
  have hn := nextElements_written hw v.expecting bytes 0 []
  rw [List.append_nil, hl] at hn
  rw [ByteVisitor.visitSeq, hn]
  simp [Except.bind, ByteVisitor.build, ha, Except.map]

theorem deserialize_written (v : ByteVisitor α) {bytes : Bytes} {a : α}
    (hl : bytes.length = v.width) (ha : v.fromBytes bytes = some a) :
    v.deserialize (serializeBytes bytes) = some a := by
  change v.fromSeq fromJson (bytes.map toJson) = some a
  rw [ByteVisitor.fromSeq, visitSeq_written fromJson_toJson v hl ha]
  rfl

def scalarVisitor : ByteVisitor SerializableScalar where
  expecting := "a Scalar value in bytes form or sequence of bytes"
  width := 32
  lengthError := "invalid length for Scalar"
  valueError := "invalid Scalar value"
  fromBytes bytes := (fromBytes bytes).map SerializableScalar.mk

def g1AffineVisitor {G1 : Type} [G1Group G1] : ByteVisitor (SerializableG1Affine G1) where
  expecting := "a G1Affine point in compressed form or sequence of bytes"
  width := 48
  lengthError := "invalid length for G1Affine"
  valueError := "invalid G1Affine point"
  fromBytes bytes := (G1Group.fromCompressed bytes).map SerializableG1Affine.mk

/-- A value that only wraps another is read if the other one is. -/
theorem map_wrap_iff {β : Type} {wrap : α → β} {unwrap : β → α} (hu : ∀ a, unwrap (wrap a) = a)
    (hw : ∀ b, wrap (unwrap b) = b) (o : Option α) (b : β) :
    o.map wrap = some b ↔ o = some (unwrap b) := by
  constructor
  · intro h
    obtain ⟨a,ha,rfl⟩ := Option.map_eq_some_iff.mp h
    rw [ha, hu]
  · intro h
    rw [h, Option.map_some, hw]

theorem scalar_fromBytes (v : Bytes) (s : SerializableScalar) :
    scalarVisitor.fromBytes v = some s ↔ v = toBytes s.scalar := by
  rw [← fromBytes_iff]
  exact map_wrap_iff (fun _ => rfl) (fun _ => rfl) (fromBytes v) s

theorem point_fromBytes {G1 : Type} [G1Group G1] (v : Bytes) (p : SerializableG1Affine G1) :
    g1AffineVisitor.fromBytes v = some p ↔ v = G1Group.toCompressed p.point := by
  rw [← G1Group.fromCompressed_iff]
  exact map_wrap_iff (fun _ => rfl) (fun _ => rfl) (G1Group.fromCompressed v) p

instance : Serde SerializableScalar where
  toJson s := serializeBytes (toBytes s.scalar)
  fromJson := scalarVisitor.deserialize
  fromJson_toJson s := deserialize_written scalarVisitor (length_toBytes s.scalar)
    ((scalar_fromBytes _ s).mpr rfl)

instance {G1 : Type} [G1Group G1] : Serde (SerializableG1Affine G1) where
  toJson p := serializeBytes (G1Group.toCompressed p.point)
  fromJson := g1AffineVisitor.deserialize
  fromJson_toJson p := deserialize_written g1AffineVisitor (G1Group.length_toCompressed p.point)
    ((point_fromBytes _ p).mpr rfl)

instance : Serde Hash where
  toJson h := toJson h.bytes
  fromJson j := (fromJson j).bind
    (fun bytes => if h : bytes.length = 32 then some ⟨bytes,h⟩ else none)
  fromJson_toJson h := by simp [h.length_bytes]

end bytes

section derived
variable {α β γ : Type} [Serde α] [Serde β] [Serde γ]

/-- A named field, which has to occur exactly once. -/
def field {V : Type} (fields : List (String × V)) (name : String) : Option V :=
  match fields.filter (fun f => f.1 = name) with
  | [f] => some f.2
  | _ => none

def struct (names : List String) : Value → Option (List Value)
  | .obj fields => names.mapM (field fields)
  | .arr items => if items.length = names.length then some items else none
  | _ => none

def struct1 (α : Type) [Serde α] (a : String) (j : Value) : Option α :=
  match struct [a] j with
  | some [ja] => fromJson ja
  | _ => none

def struct2 (α β : Type) [Serde α] [Serde β] (a b : String) (j : Value) : Option (α × β) :=
  match struct [a,b] j with
  | some [ja,jb] => (fromJson ja).bind (fun x => (fromJson jb).map (fun y => (x,y)))
  | _ => none

def struct3 (α β γ : Type) [Serde α] [Serde β] [Serde γ] (a b c : String) (j : Value) :
    Option (α × β × γ) :=
  match struct [a,b,c] j with
  | some [ja,jb,jc] => (fromJson ja).bind (fun x => (fromJson jb).bind (fun y =>
      (fromJson jc).map (fun z => (x,y,z))))
  | _ => none

theorem struct1_written (a : String) (x : α) : struct1 α a (.obj [(a,toJson x)]) = some x := by
  simp [struct1, struct, field]

theorem struct2_written {a b : String} (h : a ≠ b) (x : α) (y : β) :
    struct2 α β a b (.obj [(a,toJson x),(b,toJson y)]) = some (x,y) := by
  simp [struct2, struct, field, h, h.symm]

theorem struct3_written {a b c : String} (hab : a ≠ b) (hac : a ≠ c) (hbc : b ≠ c)
    (x : α) (y : β) (z : γ) :
    struct3 α β γ a b c (.obj [(a,toJson x),(b,toJson y),(c,toJson z)]) = some (x,y,z) := by
  simp [struct3, struct, field, hab, hac, hbc, hab.symm, hac.symm, hbc.symm]

def variant (tag : String) (content : Value) : Value := .obj [(tag,content)]

/-- The content under the tag of an externally tagged enum. -/
def untag : Value → Option (String × Value)
  | .obj [f] => some f
  | _ => none

@[simp] theorem untag_variant (tag : String) (content : Value) :
    untag (variant tag content) = some (tag,content) := rfl

end derived

section messages
variable {G1 : Type} [G1Group G1]

instance : Serde KeyShare where
  toJson s := .obj [("index",toJson s.index),("value",toJson s.value)]
  fromJson j := (struct2 Usize SerializableScalar "index" "value" j).map (fun p => ⟨p.1,p.2⟩)
  fromJson_toJson s := by simp [struct2_written]

instance : Serde (FrostCommitment G1) where
  toJson c := .obj [("D",toJson c.d),("E",toJson c.e)]
  fromJson j := (struct2 (SerializableG1Affine G1) (SerializableG1Affine G1) "D" "E" j).map
    (fun p => ⟨p.1,p.2⟩)
  fromJson_toJson c := by simp [struct2_written]

instance : Serde (DKGMessage G1) where
  toJson
    | .shareDistribution fromId shares commitments => variant "ShareDistribution" (.obj
        [("from",toJson fromId),("shares",toJson shares),("commitments",toJson commitments)])
    | .shareValidation fromId toId isValid => variant "ShareValidation" (.obj
        [("from",toJson fromId),("to",toJson toId),("is_valid",toJson isValid)])
  fromJson j := match untag j with
    | some ("ShareDistribution",content) =>
      (struct3 String (List KeyShare) (List (SerializableG1Affine G1))
        "from" "shares" "commitments" content).map (fun p => .shareDistribution p.1 p.2.1 p.2.2)
    | some ("ShareValidation",content) =>
      (struct3 String String Bool "from" "to" "is_valid" content).map
        (fun p => .shareValidation p.1 p.2.1 p.2.2)
    | _ => none
  fromJson_toJson msg := by cases msg <;> simp [struct3_written]

instance : Serde (SigningMessage G1) where
  toJson
    | .commitmentShare fromId commitments => variant "CommitmentShare" (.obj
        [("from",toJson fromId),("commitments",toJson commitments)])
    | .signatureShare fromId share => variant "SignatureShare" (.obj
        [("from",toJson fromId),("share",toJson share)])
  fromJson j := match untag j with
    | some ("CommitmentShare",content) =>
      (struct2 String (List (FrostCommitment G1)) "from" "commitments" content).map
        (fun p => .commitmentShare p.1 p.2)
    | some ("SignatureShare",content) =>
      (struct2 String SerializableScalar "from" "share" content).map
        (fun p => .signatureShare p.1 p.2)
    | _ => none
  fromJson_toJson msg := by cases msg <;> simp [struct2_written]

instance : Serde Command where
  toJson
    | .shareGeneration threshold => variant "ShareGeneration" (.obj
        [("threshold",toJson threshold)])
    | .signMessage message => variant "SignMessage" (.obj [("message",toJson message)])
    | .updateState key value => variant "UpdateState" (.obj
        [("key",toJson key),("value",toJson value)])
    | .consensusProposal round value => variant "ConsensusProposal" (.obj
        [("round",toJson round),("value",toJson value)])
  fromJson j := match untag j with
    | some ("ShareGeneration",content) =>
      (struct1 Usize "threshold" content).map .shareGeneration
    | some ("SignMessage",content) => (struct1 Bytes "message" content).map .signMessage
    | some ("UpdateState",content) =>
      (struct2 String Bytes "key" "value" content).map (fun p => .updateState p.1 p.2)
    | some ("ConsensusProposal",content) =>
      (struct2 UInt64 Bytes "round" "value" content).map (fun p => .consensusProposal p.1 p.2)
    | _ => none
  fromJson_toJson msg := by cases msg <;> simp [struct1_written, struct2_written]

instance : Serde VrfOutput where
  toJson o := .obj [("proof",toJson o.proof),("hash",toJson o.hash)]
  fromJson j := (struct2 Bytes Hash "proof" "hash" j).map (fun p => ⟨p.1,p.2⟩)
  fromJson_toJson o := by simp [struct2_written]

instance : Serde ConsensusMessage where
  toJson
    | .proposal round value vrfProof => variant "Proposal" (.obj
        [("round",toJson round),("value",toJson value),("vrf_proof",toJson vrfProof)])
    | .vote round proposalHash voter => variant "Vote" (.obj
        [("round",toJson round),("proposal_hash",toJson proposalHash),("voter",toJson voter)])
  fromJson j := match untag j with
    | some ("Proposal",content) =>
      (struct3 UInt64 Bytes VrfOutput "round" "value" "vrf_proof" content).map
        (fun p => .proposal p.1 p.2.1 p.2.2)
    | some ("Vote",content) =>
      (struct3 UInt64 Hash String "round" "proposal_hash" "voter" content).map
        (fun p => .vote p.1 p.2.1 p.2.2)
    | _ => none
  fromJson_toJson msg := by cases msg <;> simp [struct3_written]

instance : Serde (GossipsubMessage G1) where
  toJson
    | .dkg msg => variant "DKG" (toJson msg)
    | .signing msg => variant "Signing" (toJson msg)
    | .command msg => variant "Command" (toJson msg)
    | .consensus msg => variant "Consensus" (toJson msg)
  fromJson j := match untag j with
    | some ("DKG",content) => (fromJson content).map .dkg
    | some ("Signing",content) => (fromJson content).map .signing
    | some ("Command",content) => (fromJson content).map .command
    | some ("Consensus",content) => (fromJson content).map .consensus
    | _ => none
  fromJson_toJson msg := by cases msg <;> simp

end messages

/-- What the code relies on of the text format. -/
class SerdeJson where
  toVec : Value → Bytes
  fromSlice : Bytes → Option Value
  fromSlice_toVec : ∀ j, fromSlice (toVec j) = some j

section text
variable {α : Type} [Serde α] [SerdeJson]

def toVec (a : α) : Bytes := SerdeJson.toVec (toJson a)

def fromSlice (α : Type) [Serde α] (data : Bytes) : Option α :=
  (SerdeJson.fromSlice data).bind fromJson

/-- A receiver decodes what the sender encoded. -/
@[simp] theorem fromSlice_toVec (a : α) : fromSlice α (toVec a) = some a := by
  rw [fromSlice, toVec, SerdeJson.fromSlice_toVec, Option.bind_some, fromJson_toJson]

end text

/-- The compact text in UTF-8. -/
@[reducible] def compactJson : SerdeJson where
  toVec j := (String.ofList (write j)).toUTF8.data.toList
  fromSlice data := (String.fromUTF8? ⟨data.toArray⟩).bind (fun s => read s.toList)
  fromSlice_toVec j := by
    change (ofUtf8 (toUtf8 (String.ofList (write j)))).bind _ = _
    rw [ofUtf8_toUtf8, Option.bind_some, String.toList_ofList, read_write]

end MpcNode.Wire
