import Mathlib.Algebra.BigOperators.Fin
import Mathlib.Data.List.Perm.Basic
import Mathlib.Tactic.Common

/-!
# Asynchronous broadcast among n parties

A party reacts to a local command or to a message by changing its state and
broadcasting. Every broadcast puts one copy in flight to each other party
and none to the sender. A delivery takes any copy in flight, in any order.
Each party's state is the fold of its own history, and the copies sent,
received and still in flight balance on every ordered pair of parties.
-/

set_option autoImplicit false

namespace MpcNode.Broadcast
open scoped List

variable {n : ℕ} {σ α μ : Type}

inductive Event (n : ℕ) (α μ : Type) where
  | command (c : α)
  | message (sender : Fin n) (m : μ)

structure Protocol (n : ℕ) (σ α μ : Type) where
  react : Fin n → σ → Event n α μ → σ × List μ

/-- An action is a party and the event it handles. -/
abbrev Action (n : ℕ) (α μ : Type) := Fin n × Event n α μ

structure Net (n : ℕ) (σ μ : Type) where
  node : Fin n → σ
  flight : Fin n → Fin n → List μ

def start (node : Fin n → σ) : Net n σ μ := ⟨node,fun _ _ => []⟩

def emit (i : Fin n) (out : List μ) (flight : Fin n → Fin n → List μ) :
    Fin n → Fin n → List μ :=
  fun s r => if s = i ∧ r ≠ i then flight s r ++ out else flight s r

def take [DecidableEq μ] (s r : Fin n) (m : μ) (flight : Fin n → Fin n → List μ) :
    Fin n → Fin n → List μ :=
  fun s' r' => if s' = s ∧ r' = r then (flight s r).erase m else flight s' r'

def Net.apply (P : Protocol n σ α μ) (net : Net n σ μ) (i : Fin n) (e : Event n α μ)
    (flight : Fin n → Fin n → List μ) : Net n σ μ :=
  ⟨Function.update net.node i (P.react i (net.node i) e).1,
    emit i (P.react i (net.node i) e).2 flight⟩

def Net.step [DecidableEq μ] (P : Protocol n σ α μ) (net : Net n σ μ) :
    Action n α μ → Option (Net n σ μ)
  | (i,.command c) => some (net.apply P i (.command c) net.flight)
  | (i,.message s m) =>
    if m ∈ net.flight s i then some (net.apply P i (.message s m) (take s i m net.flight)) else none

def Net.run [DecidableEq μ] (P : Protocol n σ α μ) :
    Net n σ μ → List (Action n α μ) → Option (Net n σ μ)
  | net, [] => some net
  | net, a::as => (net.step P a).bind (fun net' => Net.run P net' as)

def Net.Quiet (net : Net n σ μ) : Prop := ∀ s r, net.flight s r = []

instance [DecidableEq μ] (net : Net n σ μ) : Decidable net.Quiet :=
  inferInstanceAs (Decidable (∀ s r, net.flight s r = []))

def history (i : Fin n) (as : List (Action n α μ)) : List (Event n α μ) :=
  as.filterMap (fun a => if a.1 = i then some a.2 else none)

def localState (P : Protocol n σ α μ) (i : Fin n) : σ → List (Event n α μ) → σ
  | x, [] => x
  | x, e::es => localState P i (P.react i x e).1 es

def sent (P : Protocol n σ α μ) (i : Fin n) : σ → List (Event n α μ) → List μ
  | _, [] => []
  | x, e::es => (P.react i x e).2 ++ sent P i (P.react i x e).1 es

def received (s : Fin n) (es : List (Event n α μ)) : List μ :=
  es.filterMap (fun
    | .command _ => none
    | .message s' m => if s' = s then some m else none)

def handled (es : List (Event n α μ)) : List μ :=
  es.filterMap (fun
    | .command _ => none
    | .message _ m => some m)

def commands (es : List (Event n α μ)) : List α :=
  es.filterMap (fun
    | .command c => some c
    | .message _ _ => none)

theorem history_cons (i : Fin n) (a : Action n α μ) (as : List (Action n α μ)) :
    history i (a::as) = if a.1 = i then a.2::history i as else history i as := by
  unfold history
  rw [List.filterMap_cons]
  split_ifs <;> rfl

theorem history_single (i : Fin n) (a : Action n α μ) :
    history i [a] = if a.1 = i then [a.2] else [] := history_cons i a []

theorem history_append (i : Fin n) (as bs : List (Action n α μ)) :
    history i (as++bs) = history i as ++ history i bs := List.filterMap_append

theorem history_cons_append (i : Fin n) (a : Action n α μ) (as : List (Action n α μ)) :
    history i (a::as) = history i [a] ++ history i as := history_append i [a] as

theorem received_append (s : Fin n) (es fs : List (Event n α μ)) :
    received s (es++fs) = received s es ++ received s fs := List.filterMap_append

theorem handled_append (es fs : List (Event n α μ)) :
    handled (es++fs) = handled es ++ handled fs := List.filterMap_append

theorem sent_append (P : Protocol n σ α μ) (i : Fin n) (x : σ) (es fs : List (Event n α μ)) :
    sent P i x (es++fs) = sent P i x es ++ sent P i (localState P i x es) fs := by
  induction es generalizing x with
  | nil => rfl
  | cons e es ih => simp only [List.cons_append, sent, localState, ih, List.append_assoc]

/-- The messages handled split by sender, whatever is counted. -/
theorem countP_handled (f : μ → Bool) (es : List (Event n α μ)) :
    (handled es).countP f = ∑ s : Fin n, (received s es).countP f := by
  induction es with
  | nil => simp [handled, received]
  | cons e es ih =>
    cases e with
    | command c => simpa [handled, received] using ih
    | message s m =>
      have hs : ∀ t : Fin n, (received t (.message s m::es)).countP f =
          (received t es).countP f + if t = s then (if f m then 1 else 0) else 0 := by
        intro t
        by_cases ht : s = t
        · subst ht
          simp [received, List.countP_cons]
        · simp [received, ht, Ne.symm ht]
      simp only [hs, Finset.sum_add_distrib, Finset.sum_ite_eq', Finset.mem_univ, if_true, ← ih]
      simp [handled, List.countP_cons]

theorem mem_handled {m : μ} {es : List (Event n α μ)} :
    m ∈ handled es ↔ ∃ s, m ∈ received s es := by
  constructor
  · intro h
    obtain ⟨e,he,hm⟩ := List.mem_filterMap.mp h
    cases e with
    | command c => simp at hm
    | message s m' =>
      obtain rfl : m' = m := by simpa using hm
      exact ⟨s,List.mem_filterMap.mpr ⟨_,he,by simp⟩⟩
  · rintro ⟨s,h⟩
    obtain ⟨e,he,hm⟩ := List.mem_filterMap.mp h
    cases e with
    | command c => simp at hm
    | message s' m' =>
      refine List.mem_filterMap.mpr ⟨_,he,?_⟩
      by_cases hs : s' = s <;> simp [hs] at hm
      simp [hm]

theorem mem_history {i : Fin n} {e : Event n α μ} {as : List (Action n α μ)} :
    e ∈ history i as ↔ (i,e) ∈ as := by
  rw [history, List.mem_filterMap]
  constructor
  · rintro ⟨⟨j,e'⟩,ha,he⟩
    by_cases hj : j = i
    · subst hj
      obtain rfl : e' = e := by simpa using he
      exact ha
    · simp [hj] at he
  · exact fun h => ⟨(i,e),h,if_pos rfl⟩

theorem mem_commands {c : α} {es : List (Event n α μ)} :
    c ∈ commands es ↔ .command c ∈ es := by
  rw [commands, List.mem_filterMap]
  constructor
  · rintro ⟨e,he,hc⟩
    cases e with
    | command c' =>
      obtain rfl := Option.some.inj hc
      exact he
    | message s m => cases hc
  · exact fun h => ⟨_,h,rfl⟩

theorem message_handled {s : Fin n} {m : μ} {es : List (Event n α μ)}
    (h : .message s m ∈ es) : m ∈ handled es := List.mem_filterMap.mpr ⟨_,h,rfl⟩

theorem mem_emit {i s r : Fin n} {out : List μ} {flight : Fin n → Fin n → List μ} {m : μ} :
    m ∈ emit i out flight s r ↔ m ∈ flight s r ∨ (s = i ∧ r ≠ i ∧ m ∈ out) := by
  by_cases h : s = i ∧ r ≠ i
  · simp [emit, h]
  · rw [emit, if_neg h]
    exact ⟨Or.inl,fun hm => hm.resolve_right (fun hc => h ⟨hc.1,hc.2.1⟩)⟩

section runs
variable [DecidableEq μ] (P : Protocol n σ α μ)

/-- What one step can do: a command, or the delivery of a copy in flight. -/
theorem step_cases {net net' : Net n σ μ} {a : Action n α μ} (h : net.step P a = some net') :
    (∃ c, a.2 = .command c ∧ net' = net.apply P a.1 a.2 net.flight) ∨
    (∃ s m, a.2 = .message s m ∧ m ∈ net.flight s a.1 ∧
      net' = net.apply P a.1 a.2 (take s a.1 m net.flight)) := by
  obtain ⟨i,e⟩ := a
  cases e with
  | command c => exact Or.inl ⟨c,rfl,by simpa [Net.step] using h.symm⟩
  | message s m =>
    simp only [Net.step] at h
    split at h
    · exact Or.inr ⟨s,m,rfl,‹_›,by simpa using h.symm⟩
    · cases h

theorem step_delivers {net : Net n σ μ} {s i : Fin n} {m : μ} (h : m ∈ net.flight s i) :
    ∃ next, net.step P (i,.message s m) = some next := ⟨_,if_pos h⟩

theorem step_node {net net' : Net n σ μ} {a : Action n α μ} (h : net.step P a = some net') :
    net'.node = Function.update net.node a.1 (P.react a.1 (net.node a.1) a.2).1 := by
  obtain ⟨c,-,rfl⟩ | ⟨s,m,-,-,rfl⟩ := step_cases P h <;> rfl

theorem run_cons {net net' : Net n σ μ} {a : Action n α μ} {as : List (Action n α μ)}
    (h : net.run P (a::as) = some net') :
    ∃ mid, net.step P a = some mid ∧ mid.run P as = some net' :=
  Option.bind_eq_some_iff.mp h

theorem run_append {net mid net' : Net n σ μ} {as bs : List (Action n α μ)}
    (ha : net.run P as = some mid) (hb : mid.run P bs = some net') :
    net.run P (as++bs) = some net' := by
  induction as generalizing net with
  | nil =>
    obtain rfl : net = mid := by simpa [Net.run] using ha
    exact hb
  | cons a as ih =>
    obtain ⟨next,hs,hr⟩ := run_cons P ha
    rw [List.cons_append, Net.run, hs, Option.bind_some]
    exact ih hr

theorem run_split {net net' : Net n σ μ} {as bs : List (Action n α μ)}
    (h : net.run P (as++bs) = some net') :
    ∃ mid, net.run P as = some mid ∧ mid.run P bs = some net' := by
  induction as generalizing net with
  | nil => exact ⟨net,rfl,h⟩
  | cons a as ih =>
    obtain ⟨next,hs,hr⟩ := run_cons P h
    obtain ⟨mid,hm,hb⟩ := ih hr
    exact ⟨mid,by rw [Net.run, hs, Option.bind_some, hm],hb⟩

theorem run_snoc {net mid net' : Net n σ μ} {as : List (Action n α μ)} {a : Action n α μ}
    (h : net.run P as = some mid) (hs : mid.step P a = some net') :
    net.run P (as++[a]) = some net' := by
  refine run_append P h ?_
  rw [Net.run, hs, Option.bind_some, Net.run]

/-- A run that evaluates, and what its last state is found to satisfy. -/
theorem run_found {net : Net n σ μ} {as : List (Action n α μ)} {Q : Net n σ μ → Prop}
    [DecidablePred Q] (h : (net.run P as).any (fun last => decide (Q last)) = true) :
    ∃ last, net.run P as = some last ∧ Q last := by
  obtain ⟨last,hl,hq⟩ := (Option.any_eq_true _ _).mp h
  exact ⟨last,hl,of_decide_eq_true hq⟩

/-- What every step preserves, every run preserves. -/
theorem run_invariant {I : Net n σ μ → Prop}
    (hstep : ∀ net a net', I net → net.step P a = some net' → I net')
    {net net' : Net n σ μ} {as : List (Action n α μ)} (hi : I net)
    (h : net.run P as = some net') : I net' := by
  induction as generalizing net with
  | nil =>
    obtain rfl : net = net' := by simpa [Net.run] using h
    exact hi
  | cons a as ih =>
    obtain ⟨mid,hs,hr⟩ := run_cons P h
    exact ih (hstep net a mid hi hs) hr

/-- A run leaves each party in the state that its own history gives. -/
theorem run_node {net net' : Net n σ μ} {as : List (Action n α μ)}
    (h : net.run P as = some net') (i : Fin n) :
    net'.node i = localState P i (net.node i) (history i as) := by
  induction as generalizing net with
  | nil =>
    obtain rfl : net = net' := by simpa [Net.run] using h
    rfl
  | cons a as ih =>
    obtain ⟨mid,hs,hr⟩ := run_cons P h
    rw [ih hr, step_node P hs, history_cons]
    by_cases hi : a.1 = i
    · subst hi
      simp [localState]
    · rw [if_neg hi, Function.update_of_ne (Ne.symm hi)]

theorem mem_take {s r s' r' : Fin n} {m m' : μ} {flight : Fin n → Fin n → List μ}
    (h : m' ∈ take s r m flight s' r') : m' ∈ flight s' r' := by
  simp only [take] at h
  split_ifs at h with hc
  · obtain ⟨rfl,rfl⟩ := hc
    exact List.mem_of_mem_erase h
  · exact h

theorem step_self {net net' : Net n σ μ} {a : Action n α μ} (h : net.step P a = some net')
    (hf : ∀ s, net.flight s s = []) (s : Fin n) : net'.flight s s = [] := by
  have he : ∀ out flight, (∀ s, flight s s = []) → emit a.1 out flight s s = ([] : List μ) := by
    intro out flight hz
    simp only [emit, hz]
    rw [if_neg (fun hc => hc.2 hc.1)]
  obtain ⟨c,-,rfl⟩ | ⟨t,m,-,hm,rfl⟩ := step_cases P h
  · exact he _ _ hf
  · refine he _ _ (fun t' => ?_)
    simp only [take]
    split_ifs with ht
    · obtain ⟨rfl,hr⟩ := ht
      rw [← hr, hf, List.erase_nil]
    · exact hf t'

/-- No party handles a message of its own. -/
theorem run_received_self {net net' : Net n σ μ} {as : List (Action n α μ)}
    (h : net.run P as = some net') (hf : ∀ s, net.flight s s = []) (i : Fin n) :
    received i (history i as) = [] := by
  induction as generalizing net with
  | nil => rfl
  | cons a as ih =>
    obtain ⟨mid,hs,hr⟩ := run_cons P h
    have hrest := ih hr (step_self P hs hf)
    rw [history_cons]
    split_ifs with hi
    · obtain ⟨c,hc,-⟩ | ⟨s,m,hc,hm,-⟩ := step_cases P hs
      · simpa [received, hc] using hrest
      · have hsi : s ≠ i := by
          rintro rfl
          rw [hi, hf] at hm
          cases hm
        simpa [received, hc, hsi] using hrest
    · exact hrest

/-- What one step does to the copies from `s` to `r`: those taken by the
step and those left balance those there before and those just sent. -/
theorem step_balance {net net' : Net n σ μ} {a : Action n α μ} (h : net.step P a = some net')
    {s r : Fin n} (hsr : s ≠ r) :
    net'.flight s r ++ received s (history r [a]) ~
      net.flight s r ++ sent P s (net.node s) (history s [a]) := by
  obtain ⟨i,e⟩ := a
  simp only [history_single]
  have hemit : ∀ out flight, emit i out flight s r =
      flight s r ++ if i = s then out else ([] : List μ) := by
    intro out flight
    by_cases his : i = s
    · subst his
      simp [emit, hsr.symm]
    · simp [emit, his, Ne.symm his]
  have hsent : sent P s (net.node s) (if i = s then [e] else []) =
      if i = s then (P.react i (net.node i) e).2 else [] := by
    by_cases his : i = s
    · subst his
      simp [sent]
    · simp [his, sent]
  obtain ⟨c,hc,rfl⟩ | ⟨t,m,hc,hm,rfl⟩ := step_cases P h
  · have hrec : received s (if i = r then [e] else []) = ([] : List μ) := by
      obtain rfl : e = .command c := hc
      split_ifs <;> rfl
    simp only [Net.apply]
    rw [hemit, hsent, hrec, List.append_nil]
  · obtain rfl : e = .message t m := hc
    simp only [Net.apply] at hm ⊢
    rw [hemit, hsent]
    by_cases hd : t = s ∧ i = r
    · obtain ⟨rfl,rfl⟩ := hd
      simp only [if_neg (Ne.symm hsr), List.append_nil, take, and_self, if_true, received,
        List.filterMap_cons, List.filterMap_nil]
      exact List.perm_append_singleton m _ |>.trans (List.perm_cons_erase hm).symm
    · have htake : take t i m net.flight s r = net.flight s r := by
        simp only [take]
        rw [if_neg (fun hc => hd ⟨hc.1.symm,hc.2.symm⟩)]
      have hrec : received s (if i = r then [(.message t m : Event n α μ)] else []) = [] := by
        by_cases hi : i = r
        · have ht : t ≠ s := fun ht => hd ⟨ht,hi⟩
          simp [hi, received, ht]
        · simp [hi, received]
      rw [htake, hrec, List.append_nil]

theorem step_localState {net net' : Net n σ μ} {a : Action n α μ}
    (h : net.step P a = some net') (i : Fin n) :
    net'.node i = localState P i (net.node i) (history i [a]) := by
  have hr : net.run P [a] = some net' := by simp [Net.run, h]
  exact run_node P hr i

/-- Over a run, the copies still in flight from `s` to `r` together with
those `r` handled are those there at the start together with those `s` sent. -/
theorem run_balance {net net' : Net n σ μ} {as : List (Action n α μ)}
    (h : net.run P as = some net') {s r : Fin n} (hsr : s ≠ r) :
    net'.flight s r ++ received s (history r as) ~
      net.flight s r ++ sent P s (net.node s) (history s as) := by
  induction as generalizing net with
  | nil =>
    obtain rfl : net = net' := by simpa [Net.run] using h
    simp [history, received, sent]
  | cons a as ih =>
    obtain ⟨mid,hs,hr⟩ := run_cons P h
    have hstep := step_balance P hs hsr
    have hrest := ih hr
    rw [history_cons_append r, history_cons_append s, received_append, sent_append,
      ← step_localState P hs]
    calc net'.flight s r ++ (received s (history r [a]) ++ received s (history r as))
      _ ~ (net'.flight s r ++ received s (history r as)) ++ received s (history r [a]) := by
          rw [List.append_assoc]
          exact List.perm_append_comm.append_left _
      _ ~ (mid.flight s r ++ sent P s (mid.node s) (history s as)) ++
            received s (history r [a]) := hrest.append_right _
      _ ~ (mid.flight s r ++ received s (history r [a])) ++
            sent P s (mid.node s) (history s as) := by
          rw [List.append_assoc, List.append_assoc]
          exact List.perm_append_comm.append_left _
      _ ~ (net.flight s r ++ sent P s (net.node s) (history s [a])) ++
            sent P s (mid.node s) (history s as) := hstep.append_right _
      _ ~ net.flight s r ++ (sent P s (net.node s) (history s [a]) ++
            sent P s (mid.node s) (history s as)) := by rw [List.append_assoc]

/-- In a run from an empty network, what `r` handled from `s` was sent by `s`. -/
theorem run_received_subset {node : Fin n → σ} {net' : Net n σ μ} {as : List (Action n α μ)}
    (h : (start node : Net n σ μ).run P as = some net') {s r : Fin n} (hsr : s ≠ r) :
    received s (history r as) ⊆ sent P s (node s) (history s as) := by
  intro m hm
  have hb := run_balance P h hsr
  have hmem := hb.subset (List.mem_append_right _ hm)
  simpa [start] using hmem

/-- In a run from an empty network that leaves no message of a kind in
flight, the messages of that kind `r` handled from `s` are those `s` sent. -/
theorem run_received_perm {node : Fin n → σ} {net' : Net n σ μ} {as : List (Action n α μ)}
    (h : (start node : Net n σ μ).run P as = some net') {s r : Fin n} (hsr : s ≠ r)
    (f : μ → Bool) (hq : (net'.flight s r).filter f = []) :
    (received s (history r as)).filter f ~ (sent P s (node s) (history s as)).filter f := by
  have hb := (run_balance P h hsr).filter f
  rwa [List.filter_append, hq, List.nil_append, start, List.nil_append] at hb

end runs
end MpcNode.Broadcast
