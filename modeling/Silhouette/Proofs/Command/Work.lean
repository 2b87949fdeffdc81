import Mathlib.Data.List.Forall2
import Silhouette.Command.Run

/-!
# The steps of a command, one by one

What work over a state comes to, step by step: a step that succeeds hands its state on, and a step
that fails is the last one.
-/

set_option autoImplicit false

namespace Silhouette.Work

variable {σ α β : Type} {s : σ}

/-- What two pieces of work in a row make of a state. -/
theorem run_bind (x : Work (StateM σ) α) (f : α → Work (StateM σ) β) (s : σ) :
    (x >>= f).run s =
      match x.run s with
      | (.ok a, rest) => (f a).run rest
      | (.error e, rest) => (.error e, rest) := by
  show ((ExceptT.bind x f) s) = _
  simp only [ExceptT.bind, ExceptT.mk, bind, StateT.bind, ExceptT.run]
  rcases x s with ⟨_ | _, _⟩ <;> rfl

theorem run_bind_of_ok {x : Work (StateM σ) α} {a : α} {rest : σ} (h : x.run s = (.ok a, rest))
    (f : α → Work (StateM σ) β) : (x >>= f).run s = (f a).run rest := by
  rw [run_bind, h]

/-- An outcome that is known to be good is passed on. -/
theorem run_ofExcept_bind (a : α) (f : α → Work (StateM σ) β) :
    (ofExcept (.ok a) >>= f).run s = (f a).run s :=
  run_bind_of_ok rfl f

theorem run_bind_of_error {x : Work (StateM σ) α} {e : CommandError} {rest : σ}
    (h : x.run s = (.error e, rest)) (f : α → Work (StateM σ) β) :
    (x >>= f).run s = (.error e, rest) := by
  rw [run_bind, h]

/-- A loop that succeeds in every round and changes nothing. -/
theorem run_mapM_of_ok {f : α → Work (StateM σ) β} {l : List α} {bs : List β}
    (h : List.Forall₂ (fun a b ↦ (f a).run s = (.ok b, s)) l bs) :
    (l.mapM f).run s = (.ok bs, s) := by
  induction h with
  | nil => rfl
  | cons hb _ ih => rw [List.mapM_cons, run_bind_of_ok hb, run_bind_of_ok ih]; rfl

/-- Steps that ask nothing of the machine are taken apart from it. -/
theorem ofExcept_bind (x : Except CommandError α) (f : α → Except CommandError β) :
    (ofExcept (x >>= f) : Work (StateM σ) β) = ofExcept x >>= fun a ↦ ofExcept (f a) := by
  cases x <;> rfl

end Silhouette.Work
