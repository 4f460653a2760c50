import MpcNode.Library.Cbor
import MpcNode.Wire

/-!
# Remote calls and their wire format

Requests and responses are carried in the binary document form, where
scalars, points and peer ids are byte strings handed to their visitors. The
visitor of peer ids asks for 48 bytes, the width of a point. Peer ids and
addresses are parameters with an encoding that is read back.
-/

set_option autoImplicit false

namespace MpcNode.Rpc
open MpcNode.Bls MpcNode.Cbor MpcNode.Messages MpcNode.Numerals
open MpcNode.Wire (ByteVisitor field mapM_written scalarVisitor g1AffineVisitor scalar_fromBytes
  point_fromBytes)

/-- What the code relies on of the network library's peer ids and addresses. -/
class Encoded (α : Type) where
  toBytes : α → Bytes
  fromBytes : Bytes → Except String α
  fromBytes_toBytes : ∀ a, fromBytes (toBytes a) = .ok a

structure SerializablePeerId (P : Type) where
  peerId : P
  deriving DecidableEq

structure PeerInfo (A : Type) where
  addresses : List A
  connected : Bool
  deriving DecidableEq

inductive RPCRequest (G1 P : Type) where
  | custom (id : String) (data : Bytes)
  | getDKGStatus
  | getPeerInfo
  | ping
  | startDKG
  | startADKG
  | sendAVSSShare (dealerId receiverId : SerializablePeerId P) (share : SerializableScalar)
      (commitments : List (SerializableG1Affine G1))
  | broadcastCommitments (dealerId : SerializablePeerId P)
      (commitments : List (SerializableG1Affine G1))
  | submitComplaint (dealerId fromId : SerializablePeerId P) (reason : String)
  | declareADKGComplete (fromId : SerializablePeerId P) (share : SerializableScalar)

inductive RPCResponse (G1 P A : Type) where
  | custom (id : String) (data : Bytes)
  | dkgStarted (peerId : SerializablePeerId P)
  | dkgError (text : String)
  | dkgStatus (status : DKGStatus)
  | error (text : String)
  | peerInfo (info : PeerInfo A)
  | pong
  | noResponse
  | ack
  | verified
  | shareAccepted
  | complaintAccepted
  | finishedADKG (groupPublicKey : SerializableG1Affine G1)
  | gotAVSSShare (dealerId receiverId : SerializablePeerId P) (share : SerializableScalar)
      (commitments : List (SerializableG1Affine G1))

class CborSerde (α : Type) where
  toCbor : α → Value
  fromCbor : Value → Option α

export CborSerde (toCbor fromCbor)

class LawfulCbor (α : Type) [CborSerde α] : Prop where
  fromCbor_toCbor : ∀ a : α, fromCbor (toCbor a) = some a

export LawfulCbor (fromCbor_toCbor)

attribute [simp] fromCbor_toCbor

section scalars

instance : CborSerde Bool where
  toCbor b := .bool b
  fromCbor
    | .bool b => some b
    | _ => none

instance : LawfulCbor Bool := ⟨fun _ => rfl⟩

instance : CborSerde String where
  toCbor s := .text s
  fromCbor
    | .text s => some s
    | _ => none

instance : LawfulCbor String := ⟨fun _ => rfl⟩

instance : CborSerde UInt8 where
  toCbor b := .nat b.toNat
  fromCbor
    | .nat n => if n < 2^8 then some (UInt8.ofNat n) else none
    | _ => none

instance : LawfulCbor UInt8 := ⟨fun b => by simp [toCbor, fromCbor, b.toNat_lt]⟩

variable {α : Type} [CborSerde α]

instance : CborSerde (List α) where
  toCbor as := .arr (as.map toCbor)
  fromCbor
    | .arr js => js.mapM fromCbor
    | _ => none

instance [LawfulCbor α] : LawfulCbor (List α) := ⟨mapM_written fromCbor_toCbor⟩

end scalars

section visitors
variable {α : Type}

/-- Bytes go to the visitor as they are. -/
def fromCborBytes (v : ByteVisitor α) : Value → Option α
  | .bytes bs => (v.visitBytes bs).toOption
  | _ => none

/-- A visitor that also takes sequences. -/
def fromCborSeq (v : ByteVisitor α) : Value → Option α
  | .arr seq => v.fromSeq fromCbor seq
  | j => fromCborBytes v j

theorem fromCborBytes_written (v : ByteVisitor α) {bs : Bytes} {a : α}
    (ha : v.fromBytes bs = some a) :
    fromCborBytes v (.bytes bs) = if bs.length = v.width then some a else none := by
  by_cases hl : bs.length = v.width <;>
    simp [fromCborBytes, ByteVisitor.visitBytes, ByteVisitor.build, ha, hl, Except.toOption]

theorem fromCborSeq_written (v : ByteVisitor α) {bs : Bytes} {a : α}
    (ha : v.fromBytes bs = some a) :
    fromCborSeq v (.bytes bs) = if bs.length = v.width then some a else none := by
  rw [← fromCborBytes_written v ha]
  simp [fromCborSeq]

instance : CborSerde SerializableScalar where
  toCbor s := .bytes (toBytes s.scalar)
  fromCbor := fromCborSeq scalarVisitor

instance : LawfulCbor SerializableScalar where
  fromCbor_toCbor s := by
    change fromCborSeq scalarVisitor (.bytes (toBytes s.scalar)) = some s
    rw [fromCborSeq_written scalarVisitor ((scalar_fromBytes _ s).mpr rfl)]
    exact if_pos (length_toBytes s.scalar)

instance {G1 : Type} [G1Group G1] : CborSerde (SerializableG1Affine G1) where
  toCbor p := .bytes (G1Group.toCompressed p.point)
  fromCbor := fromCborSeq g1AffineVisitor

instance {G1 : Type} [G1Group G1] : LawfulCbor (SerializableG1Affine G1) where
  fromCbor_toCbor p := by
    change fromCborSeq g1AffineVisitor (.bytes (G1Group.toCompressed p.point)) = some p
    rw [fromCborSeq_written g1AffineVisitor ((point_fromBytes _ p).mpr rfl)]
    exact if_pos (G1Group.length_toCompressed p.point)

variable {P : Type} [Encoded P]

def peerIdVisitor : ByteVisitor (SerializablePeerId P) where
  expecting := "a peerId in bytes form"
  width := 48
  lengthError := "invalid length for peerId"
  valueError := "invalid peerId"
  fromBytes bytes := (Encoded.fromBytes bytes).toOption.map SerializablePeerId.mk

instance : CborSerde (SerializablePeerId P) where
  toCbor p := .bytes (Encoded.toBytes p.peerId)
  fromCbor := fromCborBytes peerIdVisitor

/-- A peer id is read back only if its encoding has the width of a point. -/
theorem fromCbor_peerId (p : SerializablePeerId P) :
    (fromCbor (toCbor p) : Option (SerializablePeerId P)) =
      if (Encoded.toBytes p.peerId).length = 48 then some p else none := by
  refine fromCborBytes_written peerIdVisitor (a := p) ?_
  simp [peerIdVisitor, Encoded.fromBytes_toBytes, Except.toOption]

end visitors

section derived

/-- The fields of a struct: by name from a map, by place from an array. -/
def struct (names : List String) : Value → Option (List Value)
  | .map fields => names.mapM (field fields)
  | .arr items => if items.length = names.length then some items else none
  | _ => none

def variant (tag : String) (fields : List (String × Value)) : Value := .map [(tag,.map fields)]

/-- The tag of an enum, with the content unless it is a text alone. -/
def untag : Value → Option (String × Option Value)
  | .text tag => some (tag,none)
  | .map [f] => some (f.1,some f.2)
  | _ => none

@[simp] theorem untag_text (tag : String) : untag (.text tag) = some (tag,none) := rfl

@[simp] theorem untag_content (tag : String) (content : Value) :
    untag (.map [(tag,content)]) = some (tag,some content) := rfl

@[simp] theorem untag_variant (tag : String) (fields : List (String × Value)) :
    untag (variant tag fields) = some (tag,some (.map fields)) := rfl

instance : CborSerde DKGStatus where
  toCbor
    | .new => .text "New"
    | .error kind => variant "Error" [("kind",toCbor kind)]
    | .started => .text "Started"
    | .completed => .text "Completed"
  fromCbor j := match untag j with
    | some ("New",none) => some .new
    | some ("Error",some content) => do
      let [kind] ← struct ["kind"] content | none
      return .error (← fromCbor kind)
    | some ("Started",none) => some .started
    | some ("Completed",none) => some .completed
    | _ => none

instance : LawfulCbor DKGStatus := ⟨fun status => by
  cases status <;> simp [toCbor, fromCbor, struct, field]⟩

variable {G1 P A : Type} [G1Group G1] [Encoded P] [Encoded A]

def address : Value → Option A
  | .bytes bs => (Encoded.fromBytes bs).toOption
  | _ => none

instance : CborSerde (PeerInfo A) where
  toCbor info := .map [("addresses",.arr (info.addresses.map (fun a => .bytes (Encoded.toBytes a)))),
    ("connected",toCbor info.connected)]
  fromCbor j := do
    let [.arr addresses,connected] ← struct ["addresses","connected"] j | none
    let addresses ← addresses.mapM address
    return ⟨addresses,← fromCbor connected⟩

instance : LawfulCbor (PeerInfo A) where
  fromCbor_toCbor info := by
    have hr : ∀ a : A, address (.bytes (Encoded.toBytes a)) = some a := fun a => by
      rw [address, Encoded.fromBytes_toBytes, Except.toOption]
    have ha := mapM_written hr info.addresses
    simp [toCbor, fromCbor, struct, field, -List.mapM_map, ha]

def RPCRequest.serialize : RPCRequest G1 P → Value
  | .custom id data => variant "Custom" [("id",toCbor id),("data",toCbor data)]
  | .getDKGStatus => .text "GetDKGStatus"
  | .getPeerInfo => .text "GetPeerInfo"
  | .ping => .text "Ping"
  | .startDKG => .text "StartDKG"
  | .startADKG => .text "StartADKG"
  | .sendAVSSShare dealerId receiverId share commitments => variant "SendAVSSShare"
      [("dealer_id",toCbor dealerId),("receiver_id",toCbor receiverId),("share",toCbor share),
        ("commitments",toCbor commitments)]
  | .broadcastCommitments dealerId commitments => variant "BroadcastCommitments"
      [("dealer_id",toCbor dealerId),("commitments",toCbor commitments)]
  | .submitComplaint dealerId fromId reason => variant "SubmitComplaint"
      [("dealer_id",toCbor dealerId),("from",toCbor fromId),("reason",toCbor reason)]
  | .declareADKGComplete fromId share => variant "DeclareADKGComplete"
      [("from",toCbor fromId),("share",toCbor share)]

def RPCRequest.deserialize (j : Value) : Option (RPCRequest G1 P) :=
  match untag j with
  | some ("Custom",some content) => do
    let [id,data] ← struct ["id","data"] content | none
    return .custom (← fromCbor id) (← fromCbor data)
  | some ("GetDKGStatus",none) => some .getDKGStatus
  | some ("GetPeerInfo",none) => some .getPeerInfo
  | some ("Ping",none) => some .ping
  | some ("StartDKG",none) => some .startDKG
  | some ("StartADKG",none) => some .startADKG
  | some ("SendAVSSShare",some content) => do
    let [dealerId,receiverId,share,commitments] ←
      struct ["dealer_id","receiver_id","share","commitments"] content | none
    return .sendAVSSShare (← fromCbor dealerId) (← fromCbor receiverId) (← fromCbor share)
      (← fromCbor commitments)
  | some ("BroadcastCommitments",some content) => do
    let [dealerId,commitments] ← struct ["dealer_id","commitments"] content | none
    return .broadcastCommitments (← fromCbor dealerId) (← fromCbor commitments)
  | some ("SubmitComplaint",some content) => do
    let [dealerId,fromId,reason] ← struct ["dealer_id","from","reason"] content | none
    return .submitComplaint (← fromCbor dealerId) (← fromCbor fromId) (← fromCbor reason)
  | some ("DeclareADKGComplete",some content) => do
    let [fromId,share] ← struct ["from","share"] content | none
    return .declareADKGComplete (← fromCbor fromId) (← fromCbor share)
  | _ => none

def RPCRequest.peerIds : RPCRequest G1 P → List (SerializablePeerId P)
  | .sendAVSSShare dealerId receiverId _ _ => [dealerId,receiverId]
  | .broadcastCommitments dealerId _ => [dealerId]
  | .submitComplaint dealerId fromId _ => [dealerId,fromId]
  | .declareADKGComplete fromId _ => [fromId]
  | _ => []

theorem ite_bind {α β : Type} (c : Prop) [Decidable c] (a : α) (f : α → Option β) :
    (if c then some a else none).bind f = if c then f a else none := by
  split_ifs <;> rfl

theorem deserialize_request (r : RPCRequest G1 P) :
    RPCRequest.deserialize r.serialize =
      if ∀ p ∈ r.peerIds, (Encoded.toBytes p.peerId).length = 48 then some r else none := by
  cases r <;> simp [RPCRequest.serialize, RPCRequest.deserialize, struct, field,
    RPCRequest.peerIds, fromCbor_peerId, ite_bind, ite_and]

def RPCResponse.serialize : RPCResponse G1 P A → Value
  | .custom id data => variant "Custom" [("id",toCbor id),("data",toCbor data)]
  | .dkgStarted peerId => variant "DKGStarted" [("peer_id",toCbor peerId)]
  | .dkgError text => .map [("DKGError",toCbor text)]
  | .dkgStatus status => variant "DKGStatus" [("status",toCbor status)]
  | .error text => .map [("Error",toCbor text)]
  | .peerInfo info => .map [("PeerInfo",toCbor info)]
  | .pong => .text "Pong"
  | .noResponse => .text "NoResponse"
  | .ack => .text "Ack"
  | .verified => .text "Verified"
  | .shareAccepted => .text "ShareAccepted"
  | .complaintAccepted => .text "ComplaintAccepted"
  | .finishedADKG groupPublicKey => variant "FinishedADKG"
      [("group_public_key",toCbor groupPublicKey)]
  | .gotAVSSShare dealerId receiverId share commitments => variant "GotAVSSShare"
      [("dealer_id",toCbor dealerId),("receiver_id",toCbor receiverId),("share",toCbor share),
        ("commitments",toCbor commitments)]

def RPCResponse.deserialize (j : Value) : Option (RPCResponse G1 P A) :=
  match untag j with
  | some ("Custom",some content) => do
    let [id,data] ← struct ["id","data"] content | none
    return .custom (← fromCbor id) (← fromCbor data)
  | some ("DKGStarted",some content) => do
    let [peerId] ← struct ["peer_id"] content | none
    return .dkgStarted (← fromCbor peerId)
  | some ("DKGError",some content) => do return .dkgError (← fromCbor content)
  | some ("DKGStatus",some content) => do
    let [status] ← struct ["status"] content | none
    return .dkgStatus (← fromCbor status)
  | some ("Error",some content) => do return .error (← fromCbor content)
  | some ("PeerInfo",some content) => do return .peerInfo (← fromCbor content)
  | some ("Pong",none) => some .pong
  | some ("NoResponse",none) => some .noResponse
  | some ("Ack",none) => some .ack
  | some ("Verified",none) => some .verified
  | some ("ShareAccepted",none) => some .shareAccepted
  | some ("ComplaintAccepted",none) => some .complaintAccepted
  | some ("FinishedADKG",some content) => do
    let [groupPublicKey] ← struct ["group_public_key"] content | none
    return .finishedADKG (← fromCbor groupPublicKey)
  | some ("GotAVSSShare",some content) => do
    let [dealerId,receiverId,share,commitments] ←
      struct ["dealer_id","receiver_id","share","commitments"] content | none
    return .gotAVSSShare (← fromCbor dealerId) (← fromCbor receiverId) (← fromCbor share)
      (← fromCbor commitments)
  | _ => none

def RPCResponse.peerIds : RPCResponse G1 P A → List (SerializablePeerId P)
  | .dkgStarted peerId => [peerId]
  | .gotAVSSShare dealerId receiverId _ _ => [dealerId,receiverId]
  | _ => []

theorem deserialize_response (r : RPCResponse G1 P A) :
    RPCResponse.deserialize r.serialize =
      if ∀ p ∈ r.peerIds, (Encoded.toBytes p.peerId).length = 48 then some r else none := by
  cases r <;> simp [RPCResponse.serialize, RPCResponse.deserialize, struct, field,
    RPCResponse.peerIds, fromCbor_peerId, ite_bind, ite_and]

end derived

/-- What the code relies on of the binary format. -/
class SerdeCbor where
  toVec : Value → Bytes
  fromSlice : Bytes → Option Value
  fromSlice_toVec : ∀ j, fromSlice (toVec j) = some j

/-- The definite-length binary form. -/
@[reducible] def definiteCbor : SerdeCbor := ⟨write,read,read_write⟩

inductive ErrorKind where
  | invalidData
  deriving DecidableEq

/-- A decoding error is reported as invalid data. -/
def decoded {α : Type} (x : Option α) : Except ErrorKind α :=
  x.elim (.error .invalidData) .ok

theorem decoded_ite {α : Type} (c : Prop) [Decidable c] (a : α) :
    decoded (if c then some a else none) = .ok a ↔ c := by
  split_ifs with h <;> simp [decoded, h]

section codec
variable {G1 P A : Type} [G1Group G1] [Encoded P] [Encoded A] [SerdeCbor]

def readRequest (buf : Bytes) : Except ErrorKind (RPCRequest G1 P) :=
  decoded ((SerdeCbor.fromSlice buf).bind RPCRequest.deserialize)

def readResponse (buf : Bytes) : Except ErrorKind (RPCResponse G1 P A) :=
  decoded ((SerdeCbor.fromSlice buf).bind RPCResponse.deserialize)

def writeRequest (req : RPCRequest G1 P) : Bytes := SerdeCbor.toVec req.serialize

def writeResponse (res : RPCResponse G1 P A) : Bytes := SerdeCbor.toVec res.serialize

theorem readRequest_written (req : RPCRequest G1 P) :
    readRequest (writeRequest req) =
      decoded (if ∀ p ∈ req.peerIds, (Encoded.toBytes p.peerId).length = 48 then some req
        else none) := by
  rw [readRequest, writeRequest, SerdeCbor.fromSlice_toVec, Option.bind_some, deserialize_request]

theorem readResponse_written (res : RPCResponse G1 P A) :
    readResponse (writeResponse res) =
      decoded (if ∀ p ∈ res.peerIds, (Encoded.toBytes p.peerId).length = 48 then some res
        else none) := by
  rw [readResponse, writeResponse, SerdeCbor.fromSlice_toVec, Option.bind_some,
    deserialize_response]

/-- A request or response is read back if and only if every peer id in it
has an encoding of 48 bytes. -/
theorem read_written_iff :
    (∀ req : RPCRequest G1 P, readRequest (writeRequest req) = .ok req ↔
      ∀ p ∈ req.peerIds, (Encoded.toBytes p.peerId).length = 48) ∧
    (∀ res : RPCResponse G1 P A, readResponse (writeResponse res) = .ok res ↔
      ∀ p ∈ res.peerIds, (Encoded.toBytes p.peerId).length = 48) := by
  refine ⟨fun req => ?_,fun res => ?_⟩
  · rw [readRequest_written]
    exact decoded_ite _ _
  · rw [readResponse_written]
    exact decoded_ite _ _

end codec

section multihash

/-- The multihashes that are peer ids: a code, the length of the digest and
the digest, which is a short key itself or a hash. -/
def isPeerId : Bytes → Bool
  | code::length::digest =>
    digest.length = length.toNat &&
      (code = 0x00 && digest.length ≤ 42 || code = 0x12 && digest.length ≤ 64)
  | _ => false

abbrev PeerId := { bs : Bytes // isPeerId bs }

instance : Encoded PeerId where
  toBytes p := p.1
  fromBytes bs := if h : isPeerId bs then .ok ⟨bs,h⟩ else .error "unsupported multihash"
  fromBytes_toBytes p := dif_pos p.2

/-- The id of the key that is the base point: 38 bytes. -/
def ed25519Id : PeerId :=
  ⟨[0x00,36,0x08,0x01,0x12,0x20,0x58] ++ List.replicate 31 0x66,by decide⟩

attribute [local instance] definiteCbor

/-- A dealer's commitments are not read back. -/
theorem commitments_not_read :
    ¬ ∀ req : RPCRequest LogPoint PeerId, readRequest (writeRequest req) = .ok req := by
  intro h
  have hr := h (.broadcastCommitments ⟨ed25519Id⟩ [])
  rw [readRequest_written, decoded_ite] at hr
  have h48 := hr ⟨ed25519Id⟩ (List.mem_singleton_self _)
  exact absurd h48 (by decide)

end multihash
end MpcNode.Rpc
