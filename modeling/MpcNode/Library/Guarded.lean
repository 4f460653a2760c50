import Mathlib.Tactic.Common

/-!
# Handlers that await reader-writer guards

A handler is one asynchronous call over a state. Its environment lists the
guards the call still holds, so a guard lives to the end of the block that
binds it. Under the waiting policy an await that conflicts with a guard of
the same call never returns; under the granted policy every acquisition is
taken to succeed. A call may also wait for something that is no guard. The
state survives an error return.
-/

set_option autoImplicit false

namespace MpcNode.Guarded

inductive Mode where
  | read
  | write
  deriving DecidableEq, Repr

def Mode.conflicts : Mode → Mode → Bool
  | .read, .read => false
  | _, _ => true

inductive Policy where
  | waiting
  | granted
  deriving DecidableEq, Repr

structure Env (L : Type) where
  policy : Policy
  held : List (L × Mode)

inductive Outcome (L ε α : Type) where
  | ok (value : α)
  | err (error : ε)
  | blocked (lock : L)
  | pending
  | panicked
  deriving DecidableEq, Repr

def Handler (L ε S α : Type) : Type := Env L → S → Outcome L ε α × S

variable {L ε S α β : Type}

def Env.top (policy : Policy) : Env L := ⟨policy,[]⟩

def Env.hold (env : Env L) (l : L) (m : Mode) : Env L := ⟨env.policy,(l,m)::env.held⟩

def Env.blocks [DecidableEq L] (env : Env L) (l : L) (m : Mode) : Bool :=
  env.policy = .waiting && env.held.any (fun g => g.1 = l && g.2.conflicts m)

namespace Handler

protected def pure (a : α) : Handler L ε S α := fun _ s => (.ok a,s)

protected def bind (x : Handler L ε S α) (f : α → Handler L ε S β) : Handler L ε S β :=
  fun env s => match x env s with
    | (.ok a,t) => f a env t
    | (.err e,t) => (.err e,t)
    | (.blocked l,t) => (.blocked l,t)
    | (.pending,t) => (.pending,t)
    | (.panicked,t) => (.panicked,t)

instance : Monad (Handler L ε S) where
  pure := Handler.pure
  bind := Handler.bind

def modify (f : S → S) : Handler L ε S Unit := fun _ s => (.ok (),f s)

/-- Await a guard, run the block that holds it, drop it at the block's end. -/
def withGuard [DecidableEq L] (l : L) (m : Mode) (x : Handler L ε S α) : Handler L ε S α :=
  fun env s => if env.blocks l m then (.blocked l,s) else x (env.hold l m) s

theorem bind_run (x : Handler L ε S α) (f : α → Handler L ε S β) (env : Env L) (s : S) :
    (x >>= f) env s = match x env s with
      | (.ok a,t) => f a env t
      | (.err e,t) => (.err e,t)
      | (.blocked l,t) => (.blocked l,t)
      | (.pending,t) => (.pending,t)
      | (.panicked,t) => (.panicked,t) := rfl

theorem bind_ok {x : Handler L ε S α} {f : α → Handler L ε S β} {env : Env L} {s t : S} {a : α}
    (h : x env s = (.ok a,t)) : (x >>= f) env s = f a env t := by
  rw [bind_run, h]

/-- A sequence returns if its first part does and then the rest. -/
theorem bind_ok_iff {x : Handler L ε S α} {f : α → Handler L ε S β} {env : Env L} {s u : S}
    {b : β} : (x >>= f) env s = (.ok b,u) ↔
      ∃ a t, x env s = (.ok a,t) ∧ f a env t = (.ok b,u) := by
  constructor
  · intro h
    rw [bind_run] at h
    rcases hx : x env s with ⟨a | e | l | _ | _,t⟩
    · rw [hx] at h
      exact ⟨a,t,rfl,h⟩
    all_goals
      rw [hx] at h
      cases h
  · rintro ⟨a,t,hx,hf⟩
    rw [bind_ok hx, hf]

section guards
variable [DecidableEq L]

@[simp] theorem granted_blocks (held : List (L × Mode)) (l : L) (m : Mode) :
    (⟨.granted,held⟩ : Env L).blocks l m = false := by
  simp [Env.blocks]

@[simp] theorem top_blocks (policy : Policy) (l : L) (m : Mode) :
    (Env.top policy).blocks l m = false := by
  simp [Env.blocks, Env.top]

theorem withGuard_free {env : Env L} {l : L} {m : Mode} (h : env.blocks l m = false)
    (x : Handler L ε S α) (s : S) : withGuard l m x env s = x (env.hold l m) s := by
  simp [withGuard, h]

theorem withGuard_blocked {env : Env L} {l : L} {m : Mode} (h : env.blocks l m = true)
    (x : Handler L ε S α) (s : S) : withGuard l m x env s = (.blocked l,s) := by
  simp [withGuard, h]

theorem withGuard_granted (held : List (L × Mode)) (l : L) (m : Mode)
    (x : Handler L ε S α) (s : S) :
    withGuard l m x ⟨.granted,held⟩ s = x ⟨.granted,(l,m)::held⟩ s :=
  withGuard_free (granted_blocks held l m) x s

end guards

end Handler
end MpcNode.Guarded
