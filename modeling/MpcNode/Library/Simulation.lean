import MpcNode.Library.Broadcast
import MpcNode.Library.Gossip

/-!
# Simulation between broadcast networks

The parties of one network stand for those of another. A party does what the
party it stands for does at what an event means to it, but it may keep
waiting what that party would send, and it may fall asleep, and then it loses
messages. Such a network refines the other one, and exactly so as long as
nobody sleeps.
-/

set_option autoImplicit false

namespace MpcNode.Broadcast
open scoped List

variable {n : ℕ} {σ τ α β μ ν : Type}

theorem emit_sender {s r : Fin n} (out : List μ) (f : Fin n → Fin n → List μ) (h : s ≠ r) :
    emit s out f s r = f s r ++ out := if_pos ⟨rfl,Ne.symm h⟩

theorem emit_other {s r i : Fin n} (out : List μ) (f : Fin n → Fin n → List μ) (h : s ≠ i) :
    emit i out f s r = f s r := if_neg (fun hc => h hc.1)

theorem emit_nil (i : Fin n) (f : Fin n → Fin n → List μ) : emit i [] f = f := by
  funext s r
  simp [emit]

def Net.put (net : Net n σ μ) (i : Fin n) (r : σ × List μ) (f : Fin n → Fin n → List μ) :
    Net n σ μ := ⟨Function.update net.node i r.1,emit i r.2 f⟩

theorem apply_eq_put (P : Protocol n σ α μ) (net : Net n σ μ) (i : Fin n) (e : Event n α μ)
    (f : Fin n → Fin n → List μ) :
    net.apply P i e f = net.put i (P.react i (net.node i) e) f := rfl

theorem put_same (net : Net n σ μ) (i : Fin n) (f : Fin n → Fin n → List μ) :
    net.put i (net.node i,[]) f = ⟨net.node,f⟩ := by
  rw [Net.put, Function.update_eq_self, emit_nil]

@[simp] theorem put_node_self (net : Net n σ μ) (i : Fin n) (r : σ × List μ)
    (f : Fin n → Fin n → List μ) : (net.put i r f).node i = r.1 := Function.update_self ..

theorem put_node_of_ne (net : Net n σ μ) {i j : Fin n} (r : σ × List μ)
    (f : Fin n → Fin n → List μ) (h : j ≠ i) : (net.put i r f).node j = net.node j :=
  Function.update_of_ne h ..

theorem put_flight_self (net : Net n σ μ) (i : Fin n) (r : σ × List μ)
    {f : Fin n → Fin n → List μ} (h : ∀ j, f j j = []) (j : Fin n) :
    (net.put i r f).flight j j = [] := by
  change emit i r.2 f j j = []
  rw [emit, h, if_neg (fun hc => hc.2 hc.1)]

/-- How the states and the events of a party are read. -/
structure Reading (σ τ α β μ ν : Type) where
  Stands : σ → τ → Prop
  waiting : σ → List ν
  awake : σ → Bool
  command : α → Option β
  message : μ → Option ν

namespace Reading
variable (R : Reading σ τ α β μ ν)

def event : Event n α μ → Option (Event n β ν)
  | .command c => (R.command c).map .command
  | .message s m => (R.message m).map (.message s)

def action (a : Action n α μ) : Option (Action n β ν) := (R.event a.2).map (Prod.mk a.1)

/-- What an event means to a party. -/
def meant (x : σ) (e : Event n α μ) : Option (Event n β ν) :=
  if R.awake x then R.event e else none

/-- What the party in whose state `y` it stands makes of that. -/
def outcome (Q : Protocol n τ β ν) (i : Fin n) (x : σ) (y : τ) (e : Event n α μ) : τ × List ν :=
  match R.meant x e with
  | some e' => Q.react i y e'
  | none => (y,[])

/-- What is sent and what then waits is what waited and what should be sent,
but for what a party loses that falls asleep. -/
structure Matched (P : Protocol n σ α μ) (Q : Protocol n τ β ν) (i : Fin n) (x : σ) (y : τ)
    (e : Event n α μ) : Prop where
  stands : R.Stands (P.react i x e).1 (R.outcome Q i x y e).1
  sent : ∃ lost, (P.react i x e).2.filterMap R.message ++ R.waiting (P.react i x e).1 ++ lost ~
    R.waiting x ++ (R.outcome Q i x y e).2 ∧ (R.awake (P.react i x e).1 = true → lost = [])

/-- What is in flight or waits, and what was lost, is what is in flight. -/
def Carries (waiting : Fin n → List ν) (f : Fin n → Fin n → List μ)
    (g : Fin n → Fin n → List ν) (exact : Prop) : Prop :=
  ∀ s r, s ≠ r → ∃ lost, (f s r).filterMap R.message ++ waiting s ++ lost ~ g s r ∧
    (exact → lost = [])

def AllAwake (net : Net n σ μ) : Prop := ∀ i, R.awake (net.node i) = true

structure Shows (net : Net n σ μ) (abs : Net n τ ν) : Prop where
  stands : ∀ i, R.Stands (net.node i) (abs.node i)
  carries : R.Carries (fun i => R.waiting (net.node i)) net.flight abs.flight (R.AllAwake net)
  self : ∀ i, net.flight i i = []

theorem history_action (i : Fin n) (as : List (Action n α μ)) :
    history i (as.filterMap R.action) = (history i as).filterMap R.event := by
  rw [history, history, List.filterMap_filterMap, List.filterMap_filterMap]
  apply List.filterMap_congr
  rintro ⟨j,e⟩ -
  rw [action]
  cases he : R.event e <;> by_cases hj : j = i <;> simp [hj, he]

theorem handled_event (es : List (Event n α μ)) :
    handled (es.filterMap R.event) = (handled es).filterMap R.message := by
  rw [handled, handled, List.filterMap_filterMap, List.filterMap_filterMap]
  apply List.filterMap_congr
  rintro e -
  cases e with
  | command c => cases hc : R.command c <;> simp [event, hc]
  | message s m => cases hm : R.message m <;> simp [event, hm]

theorem commands_event (es : List (Event n α μ)) :
    commands (es.filterMap R.event) = (commands es).filterMap R.command := by
  rw [commands, commands, List.filterMap_filterMap, List.filterMap_filterMap]
  apply List.filterMap_congr
  rintro e -
  cases e with
  | command c => cases hc : R.command c <;> simp [event, hc]
  | message s m => cases hm : R.message m <;> simp [event, hm]

section carries
variable {R} {waiting : Fin n → List ν} {f : Fin n → Fin n → List μ} {g : Fin n → Fin n → List ν}
variable {now later : Prop} {s i : Fin n} {m : μ}

theorem filterMap_erase [DecidableEq μ] {l : List μ} (h : m ∈ l) :
    l.filterMap R.message ~ (R.message m).toList ++ (l.erase m).filterMap R.message := by
  refine ((List.perm_cons_erase h).filterMap R.message).trans ?_
  rw [List.filterMap_cons]
  cases R.message m <;> rfl

/-- A copy is taken that means nothing, or to a party that sleeps. -/
theorem carries_lost [DecidableEq μ] (h : R.Carries waiting f g now) (hm : m ∈ f s i)
    (hl : later → now) (hn : later → R.message m = none) :
    R.Carries waiting (take s i m f) g later := by
  intro s' r' hne
  obtain ⟨lost,hp,hlost⟩ := h s' r' hne
  by_cases hc : s' = s ∧ r' = i
  · obtain ⟨rfl,rfl⟩ := hc
    refine ⟨(R.message m).toList ++ lost,?_,fun he => by simp [hn he, hlost (hl he)]⟩
    have he := filterMap_erase (R := R) hm
    simp only [take, and_self, if_true]
    calc ((f s' r').erase m).filterMap R.message ++ waiting s' ++ ((R.message m).toList ++ lost)
      _ ~ (R.message m).toList ++ (((f s' r').erase m).filterMap R.message ++ waiting s') ++
          lost := by
          rw [← List.append_assoc]
          exact List.perm_append_comm.append_right lost
      _ ~ (f s' r').filterMap R.message ++ waiting s' ++ lost := by
          rw [← List.append_assoc]
          exact (he.symm.append_right _).append_right lost
      _ ~ g s' r' := hp
  · refine ⟨lost,?_,fun he => hlost (hl he)⟩
    simpa only [take, if_neg hc] using hp

theorem carries_taken [DecidableEq μ] [DecidableEq ν] {v : ν} (h : R.Carries waiting f g now)
    (hm : m ∈ f s i) (hne : s ≠ i) (hv : R.message m = some v) :
    v ∈ g s i ∧ R.Carries waiting (take s i m f) (take s i v g) now := by
  have he := filterMap_erase (R := R) hm
  rw [hv, Option.toList_some, List.singleton_append] at he
  have hmoved : ∀ lost, (f s i).filterMap R.message ++ waiting s ++ lost ~ g s i →
      v::(((f s i).erase m).filterMap R.message ++ waiting s ++ lost) ~ g s i :=
    fun lost hp => ((he.symm.append_right _).append_right lost).trans hp
  obtain ⟨lost,hp,-⟩ := h s i hne
  have hv' : v ∈ g s i := (hmoved lost hp).subset (List.mem_cons_self ..)
  refine ⟨hv',fun s' r' hne' => ?_⟩
  obtain ⟨lost',hp',hlost'⟩ := h s' r' hne'
  refine ⟨lost',?_,hlost'⟩
  by_cases hc : s' = s ∧ r' = i
  · obtain ⟨rfl,rfl⟩ := hc
    simp only [take, and_self, if_true]
    exact (List.cons_perm_iff_perm_erase.mp (hmoved lost' hp')).2
  · simpa only [take, if_neg hc] using hp'

theorem carries_emit {out : List μ} {out' waits lost : List ν} (h : R.Carries waiting f g now)
    (hl : later → now)
    (hp : out.filterMap R.message ++ waits ++ lost ~ waiting i ++ out')
    (hlost : later → lost = []) :
    R.Carries (Function.update waiting i waits) (emit i out f) (emit i out' g) later := by
  intro s r hne
  obtain ⟨before,hb,hbefore⟩ := h s r hne
  by_cases hs : s = i
  · subst hs
    refine ⟨lost ++ before,?_,fun he => by rw [hlost he, hbefore (hl he)]; rfl⟩
    rw [emit_sender out f hne, emit_sender out' g hne, Function.update_self,
      List.filterMap_append]
    calc (f s r).filterMap R.message ++ out.filterMap R.message ++ waits ++ (lost ++ before)
      _ = (f s r).filterMap R.message ++ (out.filterMap R.message ++ waits ++ lost) ++
          before := by simp only [List.append_assoc]
      _ ~ (f s r).filterMap R.message ++ (waiting s ++ out') ++ before :=
          (hp.append_left _).append_right _
      _ = (f s r).filterMap R.message ++ waiting s ++ (out' ++ before) := by
          simp only [List.append_assoc]
      _ ~ (f s r).filterMap R.message ++ waiting s ++ (before ++ out') :=
          List.perm_append_comm.append_left _
      _ = (f s r).filterMap R.message ++ waiting s ++ before ++ out' := by
          simp only [List.append_assoc]
      _ ~ g s r ++ out' := hb.append_right _
  · refine ⟨before,?_,fun he => hbefore (hl he)⟩
    rw [emit_other out f hs, emit_other out' g hs, Function.update_of_ne hs]
    exact hb

end carries

section shows
variable {R} {P : Protocol n σ α μ} {Q : Protocol n τ β ν}

theorem outcome_asleep {i : Fin n} {x : σ} {y : τ} {e : Event n α μ} (h : R.meant x e = none) :
    R.outcome Q i x y e = (y,[]) := by rw [outcome, h]

theorem outcome_meant {i : Fin n} {x : σ} {y : τ} {e : Event n α μ} {e' : Event n β ν}
    (h : R.meant x e = some e') : R.outcome Q i x y e = Q.react i y e' := by rw [outcome, h]

theorem meant_command {x : σ} {c : α} {e' : Event n β ν}
    (h : R.meant x (.command c : Event n α μ) = some e') : ∃ c', e' = .command c' := by
  rw [meant] at h
  split_ifs at h
  obtain ⟨c',-,rfl⟩ := Option.map_eq_some_iff.mp h
  exact ⟨c',rfl⟩

theorem meant_message {x : σ} {s : Fin n} {m : μ} {e' : Event n β ν}
    (h : R.meant x (.message s m : Event n α μ) = some e') :
    ∃ v, R.message m = some v ∧ e' = .message s v := by
  rw [meant] at h
  split_ifs at h
  obtain ⟨v,hv,rfl⟩ := Option.map_eq_some_iff.mp h
  exact ⟨v,hv,rfl⟩

theorem meant_awake {x : σ} (h : R.awake x = true) (e : Event n α μ) : R.meant x e = R.event e :=
  if_pos h

theorem meant_none {x : σ} {s : Fin n} {m : μ}
    (h : R.meant x (.message s m : Event n α μ) = none) (ha : R.awake x = true) :
    R.message m = none := by
  rw [meant_awake ha] at h
  exact Option.map_eq_none_iff.mp h

theorem action_message {m : μ} {v : ν} (h : R.message m = some v) (s i : Fin n) :
    R.action ((i,.message s m) : Action n α μ) = some (i,.message s v) := by
  rw [action, event, h]
  rfl

/-- The parties after both have handled an event, over what is left in flight. -/
theorem shows_put {net : Net n σ μ} {abs : Net n τ ν} {i : Fin n} {e : Event n α μ}
    {f : Fin n → Fin n → List μ} {g : Fin n → Fin n → List ν} {now : Prop}
    (hs : ∀ j, R.Stands (net.node j) (abs.node j))
    (hm : R.Matched P Q i (net.node i) (abs.node i) e)
    (hc : R.Carries (fun j => R.waiting (net.node j)) f g now)
    (hl : R.AllAwake (net.put i (P.react i (net.node i) e) f) → now) (hf : ∀ j, f j j = []) :
    R.Shows (net.put i (P.react i (net.node i) e) f)
      (abs.put i (R.outcome Q i (net.node i) (abs.node i) e) g) := by
  obtain ⟨lost,hp,hlost⟩ := hm.sent
  have hi : R.AllAwake (net.put i (P.react i (net.node i) e) f) → lost = [] := by
    intro h
    have hawake := h i
    rw [put_node_self] at hawake
    exact hlost hawake
  refine ⟨fun j => ?_,?_,put_flight_self net i _ hf⟩
  · by_cases hj : j = i
    · subst hj
      rw [put_node_self, put_node_self]
      exact hm.stands
    · rw [put_node_of_ne net _ f hj, put_node_of_ne abs _ g hj]
      exact hs j
  · have hw : (fun j => R.waiting ((net.put i (P.react i (net.node i) e) f).node j)) =
        Function.update (fun j => R.waiting (net.node j)) i
          (R.waiting (P.react i (net.node i) e).1) := by
      funext j
      by_cases hj : j = i
      · subst hj
        rw [put_node_self, Function.update_self]
      · rw [put_node_of_ne net _ f hj, Function.update_of_ne hj]
    rw [hw]
    exact carries_emit hc hl hp hi

/-- What an action means when it is taken. -/
def heeded (R : Reading σ τ α β μ ν) (net : Net n σ μ) (a : Action n α μ) :
    Option (Action n β ν) := (R.meant (net.node a.1) a.2).map (Prod.mk a.1)

theorem heeded_awake {net : Net n σ μ} {a : Action n α μ} (h : R.awake (net.node a.1) = true) :
    R.heeded net a = R.action a := by rw [heeded, meant_awake h, action]

/-- A party that sleeps does not wake. -/
def Drowsy (R : Reading σ τ α β μ ν) (P : Protocol n σ α μ) : Prop :=
  ∀ i x e, R.awake (P.react i x e).1 = true → R.awake x = true

theorem awake_before (hd : R.Drowsy P) {net : Net n σ μ} {i : Fin n} {e : Event n α μ}
    {f : Fin n → Fin n → List μ}
    (h : R.AllAwake (net.put i (P.react i (net.node i) e) f)) : R.AllAwake net := by
  intro j
  have hj := h j
  by_cases hji : j = i
  · subst hji
    rw [put_node_self] at hj
    exact hd j _ e hj
  · rwa [put_node_of_ne net _ f hji] at hj

theorem heeded_sublist (net : Net n σ μ) (a : Action n α μ) :
    (R.heeded net a).toList <+ (R.action a).toList := by
  rw [heeded, meant, action]
  split_ifs
  · exact List.Sublist.refl _
  · exact List.nil_sublist _

theorem filterMap_action_cons (a : Action n α μ) (as : List (Action n α μ)) :
    (a::as).filterMap R.action = (R.action a).toList ++ as.filterMap R.action := by
  rw [List.filterMap_cons]
  cases R.action a <;> rfl

end shows

section runs
variable {R} [DecidableEq μ] {P : Protocol n σ α μ} {Q : Protocol n τ β ν}

/-- What the actions of a run mean as they are taken. -/
def trace (R : Reading σ τ α β μ ν) (P : Protocol n σ α μ) :
    Net n σ μ → List (Action n α μ) → List (Action n β ν)
  | _, [] => []
  | net, a::as => (R.heeded net a).toList ++
    match net.step P a with
    | some next => R.trace P next as
    | none => []

theorem trace_sublist (net : Net n σ μ) (as : List (Action n α μ)) :
    R.trace P net as <+ as.filterMap R.action := by
  induction as generalizing net with
  | nil => exact List.Sublist.refl _
  | cons a as ih =>
    rw [trace, filterMap_action_cons]
    refine (heeded_sublist net a).append ?_
    cases net.step P a with
    | none => exact List.nil_sublist _
    | some next => exact ih next

theorem step_awake (hd : R.Drowsy P) {net net' : Net n σ μ} {a : Action n α μ}
    (hs : net.step P a = some net') (h : R.AllAwake net') : R.AllAwake net := by
  obtain ⟨c,-,rfl⟩ | ⟨s,m,-,-,rfl⟩ := step_cases P hs
  · exact awake_before hd h
  · exact awake_before hd h

theorem run_awake (hd : R.Drowsy P) {net net' : Net n σ μ} {as : List (Action n α μ)}
    (hr : net.run P as = some net') (h : R.AllAwake net') : R.AllAwake net := by
  induction as generalizing net with
  | nil =>
    obtain rfl : net = net' := by simpa [Net.run] using hr
    exact h
  | cons a as ih =>
    obtain ⟨mid,hs,hrest⟩ := run_cons P hr
    exact step_awake hd hs (ih hrest)

/-- Nothing is slept through in a run after which nobody sleeps. -/
theorem trace_awake (hd : R.Drowsy P) {net net' : Net n σ μ} {as : List (Action n α μ)}
    (hr : net.run P as = some net') (h : R.AllAwake net') :
    R.trace P net as = as.filterMap R.action := by
  induction as generalizing net with
  | nil => rfl
  | cons a as ih =>
    obtain ⟨mid,hs,hrest⟩ := run_cons P hr
    have hawake := run_awake hd hr h a.1
    rw [trace, hs, filterMap_action_cons]
    dsimp only
    rw [ih hrest, heeded_awake hawake]

variable [DecidableEq ν]

/-- A step is matched by the action that it means, if any. -/
theorem step_shows (hd : R.Drowsy P) {net net' : Net n σ μ} {abs : Net n τ ν} {a : Action n α μ}
    (h : R.Shows net abs) (hm : R.Matched P Q a.1 (net.node a.1) (abs.node a.1) a.2)
    (hs : net.step P a = some net') :
    ∃ abs', abs.run Q (R.heeded net a).toList = some abs' ∧ R.Shows net' abs' := by
  obtain ⟨i,e⟩ := a
  obtain ⟨c,he,rfl⟩ | ⟨s,m,he,hf,rfl⟩ := step_cases P hs
  · obtain rfl : e = .command c := he
    have hnext := shows_put h.stands hm h.carries (awake_before hd) h.self
    cases hmeant : R.meant (net.node i) (.command c : Event n α μ) with
    | none =>
      rw [outcome_asleep hmeant, put_same] at hnext
      exact ⟨abs,by simp [heeded, hmeant, Net.run],hnext⟩
    | some e' =>
      rw [outcome_meant hmeant] at hnext
      obtain ⟨c',rfl⟩ := meant_command hmeant
      exact ⟨_,by simp [heeded, hmeant, Net.run, Net.step, apply_eq_put],hnext⟩
  · obtain rfl : e = .message s m := he
    have hne : s ≠ i := by
      rintro rfl
      rw [h.self] at hf
      cases hf
    have hself : ∀ j, take s i m net.flight j j = [] := by
      intro j
      rw [take, h.self, if_neg (fun hc => hne (hc.1.symm.trans hc.2))]
    cases hmeant : R.meant (net.node i) (.message s m : Event n α μ) with
    | none =>
      have hc : R.Carries (fun j => R.waiting (net.node j)) (take s i m net.flight) abs.flight
          (R.AllAwake (net.put i (P.react i (net.node i) (.message s m))
            (take s i m net.flight))) :=
        carries_lost h.carries hf (awake_before hd)
          (fun ha => meant_none hmeant (awake_before hd ha i))
      have hnext := shows_put h.stands hm hc id hself
      rw [outcome_asleep hmeant, put_same] at hnext
      exact ⟨abs,by simp [heeded, hmeant, Net.run],hnext⟩
    | some e' =>
      obtain ⟨v,hv,rfl⟩ := meant_message hmeant
      obtain ⟨hg,hc⟩ := carries_taken h.carries hf hne hv
      have hnext := shows_put h.stands hm hc (awake_before hd) hself
      rw [outcome_meant hmeant] at hnext
      exact ⟨_,by simp [heeded, hmeant, Net.run, Net.step, hg, apply_eq_put],hnext⟩

/-- Every run is matched by the run that it means. -/
theorem run_shows {I : Net n σ μ → Prop} (hd : R.Drowsy P)
    (hstep : ∀ net a net', I net → net.step P a = some net' → I net')
    (hm : ∀ net a net', I net → net.step P a = some net' → ∀ y, R.Stands (net.node a.1) y →
      R.Matched P Q a.1 (net.node a.1) y a.2)
    {net net' : Net n σ μ} {abs : Net n τ ν} {as : List (Action n α μ)} (hi : I net)
    (h : R.Shows net abs) (hr : net.run P as = some net') :
    ∃ abs', abs.run Q (R.trace P net as) = some abs' ∧ R.Shows net' abs' := by
  induction as generalizing net abs with
  | nil =>
    obtain rfl : net = net' := by simpa [Net.run] using hr
    exact ⟨abs,rfl,h⟩
  | cons a as ih =>
    obtain ⟨mid,hs,hrest⟩ := run_cons P hr
    obtain ⟨absMid,hq,hmid⟩ := step_shows hd h (hm net a mid hi hs _ (h.stands a.1)) hs
    obtain ⟨abs',hq',hshows⟩ := ih (hstep net a mid hi hs) hmid hrest
    refine ⟨abs',?_,hshows⟩
    rw [trace, hs]
    exact run_append Q hq hq'

/-- What can be matched action by action the other way is matched by a run. -/
theorem run_realised {I : Net n τ ν → Net n σ μ → Prop} {ok : Action n β ν → Prop}
    (hstep : ∀ abs net a abs', I abs net → ok a → abs.step Q a = some abs' →
      ∃ as net', net.run P as = some net' ∧ as.filterMap R.action = [a] ∧ I abs' net')
    {abs abs' : Net n τ ν} {net : Net n σ μ} {bs : List (Action n β ν)} (hi : I abs net)
    (hok : ∀ a ∈ bs, ok a) (hr : abs.run Q bs = some abs') :
    ∃ as net', net.run P as = some net' ∧ as.filterMap R.action = bs ∧ I abs' net' := by
  induction bs generalizing abs net with
  | nil =>
    obtain rfl : abs = abs' := by simpa [Net.run] using hr
    exact ⟨[],net,rfl,rfl,hi⟩
  | cons b bs ih =>
    obtain ⟨absMid,hs,hrest⟩ := run_cons Q hr
    obtain ⟨as,mid,hp,ha,hmid⟩ := hstep abs net b absMid hi (hok b (by simp)) hs
    obtain ⟨as',net',hp',ha',hnet⟩ := ih hmid (fun a hb => hok a (by simp [hb])) hrest
    refine ⟨as++as',net',run_append P hp hp',?_,hnet⟩
    rw [List.filterMap_append, ha, ha']
    rfl

end runs
end Reading

section commanded

theorem history_commands (c : Fin n → α) {l : List (Fin n)} (hl : l.Nodup) (i : Fin n) :
    history i (l.map (fun j => ((j,.command (c j)) : Action n α μ))) =
      if i ∈ l then [.command (c i)] else [] := by
  induction l with
  | nil => rfl
  | cons j l ih =>
    obtain ⟨hj,hl'⟩ := List.nodup_cons.mp hl
    rw [List.map_cons, history_cons, ih hl']
    by_cases hi : j = i
    · subst hi
      simp [hj]
    · simp [hi, Ne.symm hi]

variable [DecidableEq μ]

theorem run_commands (P : Protocol n σ α μ) (node : Fin n → σ) (c : Fin n → α) {l : List (Fin n)}
    (hl : l.Nodup) : (start node).run P (l.map (fun i => (i,.command (c i)))) =
      some ⟨fun i => if i ∈ l then (P.react i (node i) (.command (c i))).1 else node i,
        fun s r => if s ∈ l ∧ s ≠ r then (P.react s (node s) (.command (c s))).2 else []⟩ := by
  induction l using List.reverseRecOn with
  | nil => simp [Net.run, start]
  | append_singleton l j ih =>
    obtain ⟨hl',-,hj⟩ := List.nodup_append.mp hl
    have hjl : j ∉ l := fun hm => hj j hm j (List.mem_singleton_self j) rfl
    rw [List.map_append]
    refine run_append P (ih hl') ?_
    rw [List.map_singleton, Net.run, Net.step, Option.bind_some, Net.run, apply_eq_put, Net.put]
    dsimp only
    rw [if_neg hjl]
    congr 2
    · funext i
      by_cases hi : i = j
      · subst hi
        simp
      · simp [hi]
    · funext s r
      by_cases hs : s = j
      · subst hs
        by_cases hr : s = r
        · simp [emit, hr]
        · simp [emit, hr, hjl, Ne.symm hr]
      · simp [emit, hs]

end commanded

section published
variable {P : Protocol n σ α μ} {published : σ → List μ}

/-- What a party sends is what is new among what it has published. -/
def Publishes (P : Protocol n σ α μ) (published : σ → List μ) : Prop :=
  ∀ i x e, published (P.react i x e).1 = published x ++ (P.react i x e).2

variable [DecidableEq μ] {E : Type}

/-- A broadcast network is a gossip network that loses and repeats nothing. -/
theorem run_reaches {sys : Gossip.System (Fin n) σ E μ} (hp : Publishes P sys.published)
    {input : Fin n → σ → Event n α μ → E}
    (hreact : ∀ i x e, (P.react i x e).1 = sys.step i x (input i x e))
    (hheard : ∀ i x e m, m ∈ sys.heard (input i x e) → ∃ s, e = .message s m)
    {net net' : Net n σ μ} {as : List (Action n α μ)}
    (hf : ∀ s r m, m ∈ net.flight s r → s ≠ r ∧ m ∈ sys.published (net.node s))
    (h : net.run P as = some net') :
    sys.Reaches net.node net'.node ∧
      ∀ s r m, m ∈ net'.flight s r → s ≠ r ∧ m ∈ sys.published (net'.node s) := by
  refine run_invariant (I := fun net' => sys.Reaches net.node net'.node ∧
    ∀ s r m, m ∈ net'.flight s r → s ≠ r ∧ m ∈ sys.published (net'.node s)) P ?_
    ⟨.init,hf⟩ h
  rintro mid ⟨i,e⟩ next ⟨hreaches,hflight⟩ hs
  have happly : ∀ f, (∀ s r m, m ∈ f s r → m ∈ mid.flight s r) →
      sys.Delivers mid.node i (input i (mid.node i) e) →
      sys.Reaches net.node (mid.apply P i e f).node ∧ ∀ s r m, m ∈ (mid.apply P i e f).flight s r →
        s ≠ r ∧ m ∈ sys.published ((mid.apply P i e f).node s) := by
    intro f hf hdelivers
    rw [apply_eq_put]
    refine ⟨?_,fun s r m hm => ?_⟩
    · have hr := Gossip.System.Reaches.step hreaches hdelivers
      rwa [← hreact] at hr
    · by_cases hsi : s = i
      · subst hsi
        rw [put_node_self, hp, List.mem_append]
        obtain hm | ⟨-,hne,hm⟩ := mem_emit.mp hm
        · obtain ⟨hne,hm⟩ := hflight s r m (hf s r m hm)
          exact ⟨hne,Or.inl hm⟩
        · exact ⟨Ne.symm hne,Or.inr hm⟩
      · rw [put_node_of_ne mid _ f hsi]
        obtain hm | ⟨hc,-,-⟩ := mem_emit.mp hm
        · exact hflight s r m (hf s r m hm)
        · exact absurd hc hsi
  obtain ⟨c,he,rfl⟩ | ⟨s,m,he,hm,rfl⟩ := step_cases P hs
  · refine happly _ (fun s r m hm => hm) (fun m hm => ?_)
    obtain ⟨s,hc⟩ := hheard i (mid.node i) e m hm
    rw [show e = .command c from he] at hc
    cases hc
  · refine happly _ (fun s r m hm => mem_take hm) (fun m' hm' => ?_)
    obtain ⟨s',hc⟩ := hheard i (mid.node i) e m' hm'
    rw [show e = .message s m from he] at hc
    obtain ⟨rfl,rfl⟩ := Event.message.inj hc
    obtain ⟨hne,hm⟩ := hflight s i m hm
    exact ⟨s,hne,hm⟩

end published
end MpcNode.Broadcast
