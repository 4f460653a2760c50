import Mathlib.Data.List.Basic
import Mathlib.Data.List.Induction

/-!
# Runs, and runs that may stop

A system takes one event after another, in some systems until a step fails.
What every step keeps of the state a run keeps. A relation to the states of
a system that never fails holds along a run that may stop when every step
that succeeds preserves it.
-/

set_option autoImplicit false

namespace MpcNode.Runs

variable {S E T : Type}

theorem foldl_kept {K : Type} {after : S → E → S} (f : S → K)
    (h : ∀ s e, f (after s e) = f s) (s : S) (es : List E) : f (es.foldl after s) = f s := by
  have hf : es.foldl (fun k _ => k) (f s) = f (es.foldl after s) :=
    List.foldl_hom f (fun s e => (h s e).symm)
  rw [← hf, List.foldl_fixed]

/-- A property that a step keeps exactly on a condition is kept along a run
exactly when each step meets the condition. -/
theorem foldl_prefix_iff {after : S → E → S} {P : S → Prop} {Q : S → E → Prop}
    (h : ∀ s e, P s → (P (after s e) ↔ Q s e)) {s : S} (hs : P s) (es : List E) :
    (∀ pre, pre <+: es → P (pre.foldl after s)) ↔
      ∀ pre e post, es = pre ++ e::post → Q (pre.foldl after s) e := by
  constructor
  · rintro hp pre e post rfl
    have hnext := hp (pre++[e]) ⟨post,by simp⟩
    rw [List.foldl_append] at hnext
    exact (h _ e (hp pre ⟨e::post,rfl⟩)).mp hnext
  · intro hq pre hpre
    induction pre using List.reverseRecOn with
    | nil => exact hs
    | append_singleton pre e ih =>
      obtain ⟨post,rfl⟩ := hpre
      rw [List.foldl_append]
      exact (h _ e (ih ⟨e::post,by simp⟩)).mpr (hq pre e post (by simp))

def run (step : S → E → Option S) : S → List E → Option S
  | s, [] => some s
  | s, e::es => (step s e).bind (fun t => run step t es)

theorem run_cons {step : S → E → Option S} {s u : S} {e : E} {es : List E} :
    run step s (e::es) = some u ↔ ∃ t, step s e = some t ∧ run step t es = some u :=
  Option.bind_eq_some_iff

theorem run_simulates {step : S → E → Option S} {after : T → E → T} {R : S → T → Prop}
    (h : ∀ s t e u, R s t → step s e = some u → R u (after t e)) {s u : S} {t : T} {es : List E}
    (hs : R s t) (hr : run step s es = some u) : R u (es.foldl after t) := by
  induction es generalizing s t with
  | nil =>
    obtain rfl := Option.some.inj hr
    exact hs
  | cons e es ih =>
    obtain ⟨m,hm,hu⟩ := run_cons.mp hr
    exact ih (h s t e m hs hm) hu

/-- Where the other system says which steps succeed, a run goes through
exactly when it says so of each step. -/
theorem run_isSome_iff {step : S → E → Option S} {after : T → E → T} {R : S → T → Prop}
    {Q : T → E → Prop} (h : ∀ s t e u, R s t → step s e = some u → R u (after t e))
    (hq : ∀ s t e, R s t → ((step s e).isSome ↔ Q t e)) {s : S} {t : T} (hs : R s t)
    (es : List E) :
    (run step s es).isSome ↔ ∀ pre e post, es = pre ++ e::post → Q (pre.foldl after t) e := by
  induction es generalizing s t with
  | nil => simp [run]
  | cons e es ih =>
    have hfirst := hq s t e hs
    constructor
    · intro hr pre d post hes
      obtain ⟨u,hu⟩ := Option.isSome_iff_exists.mp hr
      obtain ⟨m,hm,hmu⟩ := run_cons.mp hu
      cases pre with
      | nil =>
        obtain ⟨rfl,rfl⟩ := List.cons.inj hes
        exact hfirst.mp (by rw [hm]; rfl)
      | cons c pre =>
        obtain ⟨rfl,hrest⟩ := List.cons.inj hes
        exact (ih (h s t e m hs hm)).mp (by rw [hmu]; rfl) pre d post hrest
    · intro hall
      obtain ⟨m,hm⟩ := Option.isSome_iff_exists.mp (hfirst.mpr (hall [] e es rfl))
      rw [run, hm, Option.bind_some]
      refine (ih (h s t e m hs hm)).mpr (fun pre d post hes => ?_)
      exact hall (e::pre) d post (by rw [hes]; rfl)

theorem foldl_snoc (es : List E) : es.foldl (fun past e => past++[e]) [] = es := by
  induction es using List.reverseRecOn with
  | nil => rfl
  | append_singleton es e ih => rw [List.foldl_append, ih, List.foldl_cons, List.foldl_nil]

end MpcNode.Runs
