import MpcNode.EventLoop
import MpcNode.Library.Writes

/-!
# Discovery

A peer is announced under one address at a time, and each address expires by
itself. The table keeps the address announced last and marks the peer as
gone when any of its addresses expires.
-/

set_option autoImplicit false

namespace MpcNode.Network
open MpcNode.Bls MpcNode.Guarded MpcNode.Wire MpcNode.Channels MpcNode.Tables MpcNode.Services
open MpcNode.Rpc (PeerInfo)
open MpcNode.Guarded.Handler (bind_ok)

variable {G1 P A : Type}

inductive MdnsEvent (P A : Type) where
  | discovered (peers : List (P × A))
  | expired (peers : List (P × A))

def MdnsEvent.toSwarm : MdnsEvent P A → SwarmEvent G1 P A
  | .discovered peers => .discovered peers
  | .expired peers => .expired peers

/-- What an event says, address by address: whose it is, and whether it was
discovered or expired. -/
def MdnsEvent.sightings : MdnsEvent P A → List (P × (A × Bool))
  | .discovered peers => peers.map (fun p => (p.1,(p.2,true)))
  | .expired peers => peers.map (fun p => (p.1,(p.2,false)))

def sightingsOf (events : List (MdnsEvent P A)) : List (P × (A × Bool)) :=
  events.flatMap MdnsEvent.sightings

variable [DecidableEq P]

/-- An address that was discovered and has not expired since. -/
def Live [DecidableEq A] (sightings : List (P × (A × Bool))) (peer : P) (address : A) : Prop :=
  (under address (under peer sightings)).getLast? = some true

instance [DecidableEq A] (sightings : List (P × (A × Bool))) (peer : P) (address : A) :
    Decidable (Live sightings peer address) := inferInstanceAs (Decidable (_ = _))

def sight (peers : Table P (PeerInfo A)) (s : P × (A × Bool)) : Table P (PeerInfo A) :=
  if s.2.2 then discover (s.1,s.2.1) peers else expire (s.1,s.2.1) peers

def sighted (sightings : List (P × (A × Bool))) : Table P (PeerInfo A) := sightings.foldl sight ∅

theorem sighted_snoc (sightings : List (P × (A × Bool))) (s : P × (A × Bool)) :
    sighted (sightings++[s]) = sight (sighted sightings) s := by
  rw [sighted, List.foldl_append]
  rfl

theorem sight_ne (peers : Table P (PeerInfo A)) {s : P × (A × Bool)} {peer : P} (h : peer ≠ s.1) :
    (sight peers s).lookup peer = peers.lookup peer := by
  rw [sight]
  split_ifs
  · exact AList.lookup_insert_ne h
  · rw [expire]
    split
    · exact AList.lookup_insert_ne h
    · rfl

theorem expire_connected (peers : Table P (PeerInfo A)) (p : P × A) (addresses : List A) :
    (expire p peers).lookup p.1 ≠ some ⟨addresses,true⟩ := by
  rw [expire]
  split
  · simp
  · rename_i h
    simp [h]

/-- A peer is connected if what was said of it last is a discovery, and then
the table has the one address just discovered. -/
theorem connected_iff (sightings : List (P × (A × Bool))) (peer : P) (addresses : List A) :
    (sighted sightings).lookup peer = some ⟨addresses,true⟩ ↔
      ∃ address, addresses = [address] ∧
        (under peer sightings).getLast? = some (address,true) := by
  induction sightings using List.reverseRecOn with
  | nil => simp [sighted, under]
  | append_singleton sightings s ih =>
    rw [sighted_snoc, under_snoc]
    obtain ⟨other,address,seen⟩ := s
    by_cases h : peer = other
    · subst h
      rw [if_pos rfl, List.getLast?_append]
      cases seen with
      | true => simp [sight, discover, eq_comm]
      | false =>
        have he := expire_connected (sighted sightings) (peer,address) addresses
        simp [sight, he]
    · rw [sight_ne _ h, ih, if_neg (fun he => h he.symm), List.append_nil]

theorem live_of_last [DecidableEq A] {sightings : List (P × (A × Bool))} {peer : P} {address : A}
    {seen : Bool} (h : (under peer sightings).getLast? = some (address,seen)) :
    (under address (under peer sightings)).getLast? = some seen := by
  obtain ⟨said,hs⟩ := List.getLast?_eq_some_iff.mp h
  rw [hs, under_snoc]
  simp

section run
variable [G1Group G1] [SerdeJson] [Blake3] (policy : Policy) (rng : Dkg.Rng)

def runMdns (loop : Loop G1 P A) (events : List (MdnsEvent P A)) : Loop G1 P A :=
  events.foldl (fun loop e => (handleSwarmEvent rng e.toSwarm (Env.top policy) loop).2) loop

theorem mdns_run (e : MdnsEvent P A) (loop : Loop G1 P A) :
    handleSwarmEvent rng e.toSwarm (Env.top policy) loop =
      (.ok (),{ loop with peers := e.sightings.foldl sight loop.peers }) := by
  cases e with
  | discovered peers =>
    rw [MdnsEvent.toSwarm, handleSwarmEvent, bind_ok (forPeers_run policy discover peers loop),
      bind_ok (connectedPeers_run policy _), MdnsEvent.sightings, List.foldl_map]
    rfl
  | expired peers =>
    rw [MdnsEvent.toSwarm, handleSwarmEvent, bind_ok (forPeers_run policy expire peers loop),
      bind_ok (connectedPeers_run policy _), MdnsEvent.sightings, List.foldl_map]
    rfl

theorem runMdns_peers (layer : NetworkLayer G1) (events : List (MdnsEvent P A)) :
    (runMdns policy rng ⟨layer,∅,[]⟩ events).peers = sighted (sightingsOf events) := by
  induction events using List.reverseRecOn with
  | nil => rfl
  | append_singleton events e ih =>
    rw [sightingsOf, List.flatMap_append, sighted, List.foldl_append, ← sightingsOf, ← sighted,
      ← ih, runMdns, List.foldl_append, List.foldl_cons, mdns_run, List.flatMap_singleton]
    rfl

variable [DecidableEq A]

/-- After the events a peer is connected if and only if it has a live
address, and its entry has all of them. -/
def PeersFollow (layer : NetworkLayer G1) (events : List (MdnsEvent P A)) : Prop :=
  ∀ peer : P,
    ((∃ addresses, (runMdns policy rng ⟨layer,∅,[]⟩ events).peers.lookup peer =
        some ⟨addresses,true⟩) ↔ ∃ address, Live (sightingsOf events) peer address) ∧
    ∀ info, (runMdns policy rng ⟨layer,∅,[]⟩ events).peers.lookup peer = some info →
      ∀ address, Live (sightingsOf events) peer address → address ∈ info.addresses

/-- The table follows discovery exactly when each live address is the one
that was named last for its peer. -/
theorem peersFollow_iff (layer : NetworkLayer G1) (events : List (MdnsEvent P A)) :
    PeersFollow policy rng layer events ↔
      ∀ (peer : P) (address : A), Live (sightingsOf events) peer address →
        (under peer (sightingsOf events)).getLast?.map Prod.fst = some address := by
  simp only [PeersFollow, runMdns_peers]
  constructor
  · intro h peer address hlive
    obtain ⟨hconnected,haddresses⟩ := h peer
    obtain ⟨addresses,hl⟩ := hconnected.mpr ⟨address,hlive⟩
    obtain ⟨last,rfl,hlast⟩ := (connected_iff _ peer addresses).mp hl
    have hmem := haddresses _ hl address hlive
    rw [List.mem_singleton.mp hmem, hlast]
    rfl
  · intro h peer
    have hlast : ∀ address, Live (sightingsOf events) peer address →
        (sighted (sightingsOf events)).lookup peer = some ⟨[address],true⟩ := by
      intro address hlive
      obtain ⟨⟨last,seen⟩,hs,rfl⟩ := Option.map_eq_some_iff.mp (h peer address hlive)
      obtain rfl : seen = true := Option.some.inj ((live_of_last hs).symm.trans hlive)
      exact (connected_iff _ peer _).mpr ⟨_,rfl,hs⟩
    constructor
    · constructor
      · rintro ⟨addresses,hl⟩
        obtain ⟨address,-,hs⟩ := (connected_iff _ peer addresses).mp hl
        exact ⟨address,live_of_last hs⟩
      · rintro ⟨address,hlive⟩
        exact ⟨[address],hlast address hlive⟩
    · intro info hinfo address hlive
      obtain rfl : info = ⟨[address],true⟩ := Option.some.inj (hinfo.symm.trans (hlast _ hlive))
      exact List.mem_singleton_self address

end run

section samples
attribute [local instance] compactJson constantBlake3

def twoTransports : List (MdnsEvent String String) :=
  [.discovered [("peer","tcp"),("peer","quic")],.expired [("peer","tcp")]]

/-- The peer is marked as gone while its second address is live. -/
theorem live_peer_gone :
    ¬ PeersFollow .waiting (fun _ => 0) (.new : NetworkLayer LogPoint) twoTransports := by
  intro h
  obtain ⟨addresses,hl⟩ := (h "peer").1.mpr ⟨"quic",by decide⟩
  rw [runMdns_peers, connected_iff] at hl
  obtain ⟨address,-,hlast⟩ := hl
  cases hlast

end samples
end MpcNode.Network
