import Mathlib.Data.List.Basic
import MpcNode.Library.Runs

/-!
# First in, first out

A system with a queue in its state takes one event after another. Each event
puts items in at the end and takes items out at the front. Over a run, what
was taken out followed by what is left is what was there followed by what
was put in.
-/

set_option autoImplicit false

namespace MpcNode.Fifo

variable {S E α : Type}

/-- What a run takes out, in order. -/
def pops (step : S → E → S) (popped : S → E → List α) : S → List E → List α
  | _, [] => []
  | s, e::es => popped s e ++ pops step popped (step s e) es

section queue
variable {step : S → E → S} {contents : S → List α} {pushed : E → List α}
variable {popped : S → E → List α}
variable (h : ∀ s e, popped s e ++ contents (step s e) = contents s ++ pushed e)
include h

theorem pops_run (s : S) (es : List E) :
    pops step popped s es ++ contents (es.foldl step s) = contents s ++ es.flatMap pushed := by
  induction es generalizing s with
  | nil => simp [pops]
  | cons e es ih =>
    rw [pops, List.foldl_cons, List.append_assoc, ih, ← List.append_assoc, h, List.append_assoc,
      List.flatMap_cons]

theorem pops_getElem? {s : S} {es : List E} {j : ℕ} {a : α} (hj : j < (contents s).length)
    (hp : (pops step popped s es)[j]? = some a) : (contents s)[j]? = some a := by
  obtain ⟨hl,-⟩ := List.getElem?_eq_some_iff.mp hp
  have hrun := congrArg (fun l => l[j]?) (pops_run h s es)
  simp only [List.getElem?_append_left hl, List.getElem?_append_left hj] at hrun
  rw [← hrun, hp]

end queue

theorem pops_filter (step : S → E → S) (popped : S → E → List α) (p : α → Bool) (s : S)
    (es : List E) :
    (pops step popped s es).filter p = pops step (fun s e => (popped s e).filter p) s es := by
  induction es generalizing s with
  | nil => rfl
  | cons e es ih => rw [pops, pops, List.filter_append, ih]

theorem pops_part {T : Type} {step : S → E → S} {after : T → E → T} {f : S → T}
    (h : ∀ s e, f (step s e) = after (f s) e) (popped : T → E → List α) (s : S) (es : List E) :
    pops step (fun s e => popped (f s) e) s es = pops after popped (f s) es := by
  induction es generalizing s with
  | nil => rfl
  | cons e es ih => rw [pops, pops, ih, h]

/-- A run that may stop leaves, after what there was, what the other system
takes out step by step. -/
theorem run_outputs {T : Type} {step : S → E → Option S} {after : T → E → T} {R : S → T → Prop}
    {out : S → List α} {outs : T → E → List α}
    (h : ∀ s t e u, R s t → step s e = some u → R u (after t e) ∧ out u = out s ++ outs t e)
    {s u : S} {t : T} {es : List E} (hs : R s t) (hr : Runs.run step s es = some u) :
    R u (es.foldl after t) ∧ out u = out s ++ pops after outs t es := by
  induction es generalizing s t with
  | nil =>
    obtain rfl := Option.some.inj hr
    exact ⟨hs,(List.append_nil _).symm⟩
  | cons e es ih =>
    obtain ⟨m,hm,hu⟩ := Runs.run_cons.mp hr
    obtain ⟨hmid,hout⟩ := h s t e m hs hm
    obtain ⟨hend,hrest⟩ := ih hmid hu
    refine ⟨hend,?_⟩
    rw [hrest, hout, pops, List.append_assoc]

end MpcNode.Fifo
