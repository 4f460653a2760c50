import MpcNode.DkgLedger
import MpcNode.Library.Broadcast

/-!
# Key generation nodes over gossip

Each node handles start requests and gossip messages one at a time, and the
network loop publishes what the call queued. Gossip delivers to every other
node and never to the sender. Guards are granted and the channel is open, so
the protocol is its outline: one dealing per start, one vote per acceptance.
-/

set_option autoImplicit false

namespace MpcNode.Dkg
open MpcNode.Bls MpcNode.Guarded MpcNode.Messages MpcNode.Wire MpcNode.Channels MpcNode.Broadcast
open scoped List

variable {G1 : Type} {n : ℕ}

def toInput : Event n Rng (DKGMessage G1) → Input G1
  | .command rng => .start rng
  | .message _ msg => .message msg

theorem messages_toInput (es : List (Event n Rng (DKGMessage G1))) :
    messages (es.map toInput) = handled es := by
  induction es with
  | nil => rfl
  | cons e es ih =>
    cases e with
    | command rng => exact ih
    | message s m => exact congrArg (List.cons m) ih

theorem dealings_from {ids : Fin n → String} (own : Usize) (hids : Function.Injective ids)
    {es : List (Event n Rng (DKGMessage G1))}
    (hd : ∀ s m d, m ∈ received s es → dealing own m = some d → d.dealer = ids s) (s : Fin n) :
    (ledger own (handled es)).dealings.filter (fun d => d.dealer = ids s) =
      (received s es).filterMap (dealing own) := by
  induction es with
  | nil => rfl
  | cons e es ih =>
    have hi := ih (fun t m d hm => hd t m d (by
      rw [← List.singleton_append, received_append]
      exact List.mem_append_right _ hm))
    cases e with
    | command rng => exact hi
    | message t m =>
      have ht : received s (.message t m::es) =
          if t = s then m::received s es else received s es := by
        by_cases hts : t = s <;> simp [received, hts]
      have hl : (ledger own (handled (.message t m::es))).dealings =
          (m::handled es).filterMap (dealing own) := rfl
      rw [hl, List.filterMap_cons, ht]
      cases hdm : dealing own m with
      | none =>
        split_ifs with hts
        · rw [List.filterMap_cons_none hdm]
          exact hi
        · exact hi
      | some d =>
        have hdt := hd t m d (by simp [received]) hdm
        by_cases hts : t = s
        · subst hts
          rw [List.filter_cons_of_pos (by simpa using hdt), if_pos rfl,
            List.filterMap_cons_some hdm]
          exact congrArg (List.cons d) hi
        · rw [List.filter_cons_of_neg (by simpa [hdt] using fun he => hts (hids he)), if_neg hts]
          exact hi

/-- The topics every node subscribes to. -/
def defaultTopics : List String := [msgTopicDkg,"signing","consensus","commands"]

def nodes (ids : Fin n → String) (threshold totalNodes : Usize) : Fin n → DKGNode G1 :=
  fun i => .new (ids i) threshold totalNodes

variable [G1Group G1]

/-- What the subscribers decode of a node's queue, as far as it is for their
key generation nodes. -/
def gossiped [SerdeJson] (queue : List ChannelMessage) : List (DKGMessage G1) :=
  queue.filterMap (fun
    | .broadcast topic data =>
      if topic ∈ defaultTopics then
        match fromSlice (GossipsubMessage G1) data with
        | some (.dkg msg) => some msg
        | _ => none
      else none
    | .unicast _ _ => none)

def settle [SerdeJson] (call : DKGCall G1 Unit) (node : DKGNode G1) :
    DKGNode G1 × List (DKGMessage G1) :=
  let c := (call (Env.top .granted) (.fresh node .empty)).2
  (c.node,gossiped c.channel.queue)

def protocol (n : ℕ) [SerdeJson] : Protocol n (DKGNode G1) Rng (DKGMessage G1) where
  react _ node e := settle (perform (toInput e)) node

def reply (node : DKGNode G1) (msg : DKGMessage G1) : List (DKGMessage G1) :=
  match dealing (idParsed node.id) msg with
  | some d => [.shareValidation node.id d.dealer true]
  | none => []

def outputs (node : DKGNode G1) : Input G1 → List (DKGMessage G1)
  | .start rng => [distribution node rng]
  | .message msg => reply node msg

def outline (n : ℕ) : Protocol n (DKGNode G1) Rng (DKGMessage G1) where
  react _ node e := (node.after (toInput e),outputs node (toInput e))

theorem gossiped_payload [SerdeJson] (msg : DKGMessage G1) : gossiped [dkgPayload msg] = [msg] := by
  simp [gossiped, dkgPayload, defaultTopics]

theorem settle_sends [SerdeJson] {call : DKGCall G1 Unit} {node node' : DKGNode G1}
    {msg : DKGMessage G1}
    (h : call (Env.top .granted) (.fresh node .empty) =
      send (dkgPayload msg) (Env.top .granted) (.fresh node' .empty)) :
    settle call node = (node',[msg]) := by
  rw [send_room _ _ _ rfl empty_room] at h
  rw [settle, h]
  exact congrArg (Prod.mk node') (gossiped_payload msg)

theorem settle_silent [SerdeJson] {call : DKGCall G1 Unit} {node node' : DKGNode G1}
    {results : List G1}
    (h : call (Env.top .granted) (.fresh node .empty) = (.ok (),⟨node',.empty,results⟩)) :
    settle call node = (node',[]) := by
  rw [settle, h]
  rfl

/-- What one call does to a node and to its subscribers. -/
theorem settle_perform [SerdeJson] (node : DKGNode G1) (i : Input G1) :
    settle (perform i) node = (node.after i,outputs node i) := by
  rcases i with rng | ⟨fromId,shares,commitments⟩ | ⟨fromId,toId,isValid⟩
  · exact settle_sends (startDkg_run rng _ _)
  · cases hd : dealing (idParsed node.id) (.shareDistribution fromId shares commitments) with
    | none =>
      simp only [DKGNode.after, DKGNode.take, outputs, reply, hd]
      exact settle_silent (distribution_ignored hd)
    | some d =>
      simp only [DKGNode.after, DKGNode.take, outputs, reply, hd]
      exact settle_sends (distribution_accepted hd)
  · exact settle_silent (validation_granted _ fromId toId isValid)

/-- The nodes' handlers, the wire format and the loop do what the outline says. -/
theorem protocol_eq_outline [SerdeJson] :
    (protocol n : Protocol n (DKGNode G1) Rng (DKGMessage G1)) = outline n := by
  rw [protocol, outline]
  congr
  funext _ node e
  exact settle_perform node (toInput e)

section history
variable (node : DKGNode G1) (i : Fin n) (es : List (Event n Rng (DKGMessage G1)))

theorem localState_outline :
    localState (outline n) i node es = (es.map toInput).foldl DKGNode.after node := by
  induction es generalizing node with
  | nil => rfl
  | cons e es ih => exact ih _

theorem outputs_after (j k : Input G1) : outputs (node.after j) k = outputs node k := by
  cases k with
  | start rng =>
    simp only [outputs, distribution, DKGNode.generateShares, DKGNode.generatePolynomial, after_id,
      after_threshold, after_totalNodes]
  | message m => simp only [outputs, reply, after_id]

theorem sent_outline : sent (outline n) i node es = (es.map toInput).flatMap (outputs node) := by
  induction es generalizing node with
  | nil => rfl
  | cons e es ih =>
    rw [sent, List.map_cons, List.flatMap_cons]
    congr 1
    have ho : outputs (node.after (toInput e)) = outputs node := funext (outputs_after node _)
    rw [← ho]
    exact ih _

/-- The dealings a node sends: one per start request. -/
theorem sent_distributions :
    (sent (outline n) i node es).filter isDistribution = (commands es).map (distribution node) := by
  rw [sent_outline]
  induction es with
  | nil => rfl
  | cons e es ih =>
    rw [List.map_cons, List.flatMap_cons, List.filter_append, ih]
    cases e with
    | command rng => rfl
    | message s m =>
      simp only [toInput, outputs, reply]
      cases dealing (idParsed node.id) m <;> rfl

/-- The votes a node sends: one per dealing it accepts, always positive. -/
theorem sent_votes :
    (sent (outline n) i node es).filter (fun m => !isDistribution m) =
      ((handled es).filterMap (dealing (idParsed node.id))).map
        (fun d => .shareValidation node.id d.dealer true) := by
  rw [sent_outline]
  induction es with
  | nil => rfl
  | cons e es ih =>
    rw [List.map_cons, List.flatMap_cons, List.filter_append, ih]
    cases e with
    | command rng => rfl
    | message s m =>
      change _ = ((m::handled es).filterMap _).map _
      rw [List.filterMap_cons]
      simp only [toInput, outputs, reply]
      cases dealing (idParsed node.id) m <;> rfl

end history
section honest
variable {ids : Fin n → String} {threshold totalNodes : Usize}

/-- The polynomial a node of this threshold draws. -/
def drawn (threshold : Usize) (rng : Rng) : List Scalar :=
  (List.range (threshold.toNat+1)).map rng

def constantRng (c : Scalar) : Rng := fun k => if k = 0 then c else 0

def dealt (id : String) (threshold : Usize) (own : Usize) (rng : Rng) : Dealing G1 :=
  ⟨id,⟨own,⟨evaluate (drawn threshold rng) (own.toNat : Scalar)⟩⟩,
    (drawn threshold rng).map (fun coeff => coeff•generator)⟩

/-- What a receiver of index `own` takes from an honest dealing. -/
theorem dealing_distribution (id : String) (own : Usize) (rng : Rng) :
    dealing own (distribution (.new id threshold totalNodes : DKGNode G1) rng) =
      if 1 ≤ own.toNat ∧ own.toNat ≤ totalNodes.toNat then some (dealt id threshold own rng)
      else none := by
  have hfind : ∀ i,
      (List.range' 1 totalNodes.toNat).find? (fun i => UInt64.ofNat i = own) = some i →
      i = own.toNat ∧ 1 ≤ i ∧ i ≤ totalNodes.toNat := by
    intro i hi
    have hr := List.mem_range'_1.mp (List.mem_of_find?_eq_some hi)
    have hlt := totalNodes.toNat_lt
    have he : UInt64.ofNat i = own := by simpa using List.find?_some hi
    refine ⟨?_,hr.1,by omega⟩
    rw [← he, UInt64.toNat_ofNat', Nat.mod_eq_of_lt (by omega)]
  simp only [distribution, dealing, DKGNode.generateShares, DKGNode.generatePolynomial,
    generateCommitments, DKGNode.new, List.find?_map, Function.comp_def, List.map_map]
  split_ifs with h
  · cases hf : (List.range' 1 totalNodes.toNat).find? (fun i => UInt64.ofNat i = own) with
    | none =>
      have hn := List.find?_eq_none.mp hf own.toNat (List.mem_range'_1.mpr ⟨h.1,by omega⟩)
      simp at hn
    | some i =>
      obtain ⟨rfl,-⟩ := hfind i hf
      simp [dealt, drawn]
  · cases hf : (List.range' 1 totalNodes.toNat).find? (fun i => UInt64.ofNat i = own) with
    | none => rfl
    | some i =>
      obtain ⟨rfl,hi⟩ := hfind i hf
      exact absurd hi h

variable {as : List (Action n Rng (DKGMessage G1))} {net : Net n (DKGNode G1) (DKGMessage G1)}

theorem network_refines
    (h : (Broadcast.start (nodes ids threshold totalNodes)).run (outline n) as = some net)
    (i : Fin n) : Refines (net.node i) (ledger (idParsed (ids i)) (handled (history i as))) := by
  rw [Broadcast.run_node _ h, localState_outline]
  have hn : Refines (DKGNode.new (ids i) threshold totalNodes : DKGNode G1) ⟨[],[]⟩ :=
    new_refines _ _ _
  have hr := foldl_refines hn ((history i as).map toInput)
  rwa [messages_toInput] at hr

/-- A dealing handled by an honest node was sent by another honest node on a
start request. -/
theorem handled_distribution
    (h : (Broadcast.start (nodes ids threshold totalNodes)).run (outline n) as = some net)
    {r s : Fin n} {m : DKGMessage G1} (hm : m ∈ received s (history r as))
    (hd : isDistribution m = true) :
    s ≠ r ∧ ∃ rng ∈ commands (history s as),
      m = distribution (nodes ids threshold totalNodes s) rng := by
  have hsr : s ≠ r := by
    rintro rfl
    rw [run_received_self _ h (fun _ => rfl)] at hm
    cases hm
  refine ⟨hsr,?_⟩
  have hs := run_received_subset _ h hsr hm
  have hf := List.mem_filter.mpr ⟨hs,hd⟩
  rw [sent_distributions] at hf
  obtain ⟨rng,hr,rfl⟩ := List.mem_map.mp hf
  exact ⟨rng,hr,rfl⟩

theorem received_distributions
    (h : (Broadcast.start (nodes ids threshold totalNodes)).run (outline n) as = some net)
    {r s : Fin n} (hsr : s ≠ r) (hq : (net.flight s r).filter isDistribution = []) :
    (received s (history r as)).filter isDistribution ~
      (commands (history s as)).map (distribution (nodes ids threshold totalNodes s)) := by
  have hp := run_received_perm _ h hsr isDistribution hq
  rwa [sent_distributions] at hp

end honest
end MpcNode.Dkg
