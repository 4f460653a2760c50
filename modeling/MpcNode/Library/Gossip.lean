import Mathlib.Logic.Function.Basic

/-!
# Gossip networks

Parties take inputs one at a time, in any order. An input may be a message
that another party has published, and such a message may reach a party once,
several times or never. A party that keeps to its own invariant when the
others keep their promises, and whose invariant makes it keep its promise,
does so in every state the network reaches. The invariant may speak of what
the others have published so far.
-/

set_option autoImplicit false

namespace MpcNode.Gossip

structure System (ι S E M : Type) where
  step : ι → S → E → S
  published : S → List M
  heard : E → Option M

variable {ι S E M : Type}

def System.Delivers (sys : System ι S E M) (s : ι → S) (i : ι) (e : E) : Prop :=
  ∀ m ∈ sys.heard e, ∃ j, j ≠ i ∧ m ∈ sys.published (s j)

variable [DecidableEq ι]

inductive System.Reaches (sys : System ι S E M) (init : ι → S) : (ι → S) → Prop where
  | init : sys.Reaches init init
  | step {s : ι → S} {i : ι} {e : E} (hs : sys.Reaches init s) (he : sys.Delivers s i e) :
      sys.Reaches init (Function.update s i (sys.step i (s i) e))

theorem reaches_invariant {sys : System ι S E M} {init : ι → S} {I : ι → S → Prop}
    {G : ι → M → Prop} (hinit : ∀ i, I i (init i))
    (hpublished : ∀ i x, I i x → ∀ m ∈ sys.published x, G i m)
    (hstep : ∀ i x e, I i x → (∀ m ∈ sys.heard e, ∃ j, j ≠ i ∧ G j m) →
      I i (sys.step i x e))
    {s : ι → S} (h : sys.Reaches init s) (i : ι) : I i (s i) := by
  induction h generalizing i with
  | init => exact hinit i
  | @step s k e _ he ih =>
    by_cases hik : i = k
    · subst hik
      rw [Function.update_self]
      refine hstep i (s i) e (ih i) (fun m hm => ?_)
      obtain ⟨j,hj,hp⟩ := he m hm
      exact ⟨j,hj,hpublished j (s j) (ih j) m hp⟩
    · rw [Function.update_of_ne hik]
      exact ih i

/-- An invariant that is given what each party has published is kept too, as
long as no party takes back what it published. -/
theorem reaches_given {sys : System ι S E M} {init : ι → S} {I : (ι → M → Prop) → ι → S → Prop}
    {G : ι → M → Prop} (hinit : ∀ p i, I p i (init i))
    (hmono : ∀ p q i x, (∀ j m, p j m → q j m) → I p i x → I q i x)
    (hpublished : ∀ p i x, I p i x → ∀ m ∈ sys.published x, G i m)
    (hstep : ∀ p i x e, I p i x → (∀ m ∈ sys.heard e, ∃ j, j ≠ i ∧ G j m ∧ p j m) →
      I p i (sys.step i x e) ∧ sys.published x ⊆ sys.published (sys.step i x e))
    {s : ι → S} (h : sys.Reaches init s) (i : ι) :
    I (fun j m => m ∈ sys.published (s j)) i (s i) := by
  induction h generalizing i with
  | init => exact hinit _ i
  | @step s k e _ he ih =>
    obtain ⟨hk,hkept⟩ := hstep _ k (s k) e (ih k) (fun m hm => by
      obtain ⟨j,hj,hp⟩ := he m hm
      exact ⟨j,hj,hpublished _ j (s j) (ih j) m hp,hp⟩)
    have hgrown : ∀ j m, m ∈ sys.published (s j) →
        m ∈ sys.published (Function.update s k (sys.step k (s k) e) j) := by
      intro j m hm
      by_cases hj : j = k
      · subst hj
        rw [Function.update_self]
        exact hkept hm
      · rwa [Function.update_of_ne hj]
    by_cases hik : i = k
    · subst hik
      refine hmono _ _ i _ hgrown ?_
      rw [Function.update_self]
      exact hk
    · refine hmono _ _ i _ hgrown ?_
      rw [Function.update_of_ne hik]
      exact ih i

end MpcNode.Gossip
