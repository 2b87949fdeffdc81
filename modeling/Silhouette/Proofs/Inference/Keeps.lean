import Silhouette.Proofs.Inference.Ensures

/-!
# What a computation keeps

`Inference.Keeps I x r` says that `I` stays true of the registry `r` when `x` is run on it, whether
`x` succeeds or not.  Like `Inference.Ensures`, which says what `x` answers, it has one rule for
each way to put computations together; where a second step depends on the answer of the first, the
rule asks `Ensures` for it.  They are the rules by which a property follows the text of an
inference.

Only interning changes a registry, so an invariant has to be looked at there and nowhere else
(`Keeps.intern`).
-/

set_option autoImplicit false

namespace Silhouette

namespace Inference

/-- The invariant stays true of the registry. -/
def Keeps {α : Type} (I : Registry → Prop) (x : Inference α) (r : Registry) : Prop :=
  I r → I (x.run r).2

namespace Keeps

variable {α β : Type} {I : Registry → Prop} {x : Inference α} {r : Registry}
  {post : Registry → α → Prop} {fail : InferenceError → Prop}

theorem pure (a : α) : (Pure.pure a : Inference α).Keeps I r := id

theorem refuse {e : InferenceError} (hx : x.run r = (.error e, r)) : x.Keeps I r := by
  rw [Keeps, hx]
  exact id

theorem bind (hx : x.Ensures r post fail) (hk : x.Keeps I r) {f : α → Inference β}
    (hf : ∀ a r', r.Grows r' → r'.WellFormed → post r' a → (f a).Keeps I r') :
    (x >>= f).Keeps I r := by
  intro hI
  rw [run_bind]
  have hkeep := hk hI
  rcases hrun : x.run r with ⟨e | a, r'⟩
  · rw [hrun] at hkeep
    exact hkeep
  · rw [hrun] at hkeep
    obtain ⟨hg, hw, hp⟩ := hx.of_ok hrun
    exact hf a r' hg hw hp hkeep

theorem get_bind {f : Registry → Inference β} (h : (f r).Keeps I r) :
    (get >>= f : Inference β).Keeps I r := by
  rw [Keeps, run_get_bind]
  exact h

theorem congr {y : Inference α} (h : x.run r = y.run r) (hx : x.Keeps I r) : y.Keeps I r := by
  rw [Keeps, ← h]
  exact hx

/-- An invariant that survives the entry of a new description survives interning it. -/
theorem intern (hr : r.WellFormed) {d : Descriptor}
    (h : r.get? d.digest = none → I r → I (r.enter d)) : (Inference.intern d).Keeps I r := by
  intro hI
  obtain ⟨-, hi⟩ | ⟨hg, hi⟩ | ⟨-, hi⟩ := hr.toIndexed.intern_cases d
  · rw [Ensures.run_intern_of_ok hi]
    exact hI
  · rw [Ensures.run_intern_of_ok hi]
    exact h hg hI
  · rw [Ensures.run_intern_of_error hi]
    exact hI

end Keeps

end Inference

end Silhouette
