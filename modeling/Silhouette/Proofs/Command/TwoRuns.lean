import Silhouette.Proofs.Command.Work

/-!
# Two runs side by side

`Outcome.Alike rel` says of two outcomes that both are results, related by `rel`, or both are
errors, whatever these are.  `Work.Alike` says this of two pieces of work, whatever state each of
them starts in.  There is one rule for each way to put work together, so a proof about two runs of a
command follows its text.
-/

set_option autoImplicit false

namespace Silhouette

variable {α α' β β' : Type}

/-! ## Results without their errors -/

namespace Outcome

variable {ε ε' : Type}

theorem toOption_bind (x : Except ε α) (f : α → Except ε β) :
    (x >>= f).toOption = x.toOption >>= fun a ↦ (f a).toOption := by
  cases x <;> rfl

theorem toOption_mapM (f : α → Except ε β) (l : List α) :
    (l.mapM f).toOption = l.mapM fun a ↦ (f a).toOption := by
  induction l with
  | nil => rfl
  | cons a l ih =>
    rw [List.mapM_cons, List.mapM_cons, toOption_bind]
    refine congrArg _ (funext fun b ↦ ?_)
    rw [toOption_bind, ih]
    rfl

theorem toOption_mapError (error : ε' → ε) (x : Except ε' α) :
    (x.mapError error).toOption = x.toOption := by
  cases x <;> rfl

/-- Both are results that `rel` relates, or both are errors. -/
def Alike (rel : α → α' → Prop) : Except ε α → Except ε α' → Prop
  | .ok a, .ok a' => rel a a'
  | .error _, .error _ => True
  | _, _ => False

namespace Alike

variable {rel : α → α' → Prop} {x : Except ε α} {x' : Except ε α'}

theorem refl (x : Except ε α) : Alike Eq x x := by
  cases x with
  | error _ => exact trivial
  | ok _ => exact rfl

/-- The results are related if two views of them are equal. -/
theorem iff_toOption {f : α → β} {f' : α' → β} :
    Alike (fun a a' ↦ f a = f' a') x x' ↔ x.toOption.map f = x'.toOption.map f' := by
  cases x with
  | error _ =>
    cases x' with
    | error _ => exact ⟨fun _ ↦ rfl, fun _ ↦ trivial⟩
    | ok _ => exact ⟨False.elim, nofun⟩
  | ok a =>
    cases x' with
    | error _ => exact ⟨False.elim, nofun⟩
    | ok a' => exact ⟨congrArg some, Option.some.inj⟩

theorem toOption_eq {x x' : Except ε α} (h : Alike Eq x x') : x.toOption = x'.toOption := by
  simpa using iff_toOption.1 (h : Alike (fun a a' ↦ id a = id a') x x')

end Alike

end Outcome

/-! ## Work -/

/-- Whatever states they start in, two pieces of work have outcomes that are alike. -/
def Work.Alike {σ : Type} (rel : α → α' → Prop) (x : Work (StateM σ) α)
    (x' : Work (StateM σ) α') : Prop :=
  ∀ s s', Outcome.Alike rel (x.run s).1 (x'.run s').1

namespace Work.Alike

variable {σ : Type} {rel : α → α' → Prop} {rel' : β → β' → Prop}

theorem pure {a : α} {a' : α'} (h : rel a a') :
    Alike (σ := σ) rel (Pure.pure a) (Pure.pure a') := fun _ _ ↦ h

theorem ofExcept {outcome : Except CommandError α} {outcome' : Except CommandError α'}
    (h : Outcome.Alike rel outcome outcome') :
    Alike (σ := σ) rel (Work.ofExcept outcome) (Work.ofExcept outcome') := fun _ _ ↦ h

theorem bind {x : Work (StateM σ) α} {x' : Work (StateM σ) α'} {f : α → Work (StateM σ) β}
    {f' : α' → Work (StateM σ) β'} (h : Alike rel x x')
    (hf : ∀ a a', rel a a' → Alike rel' (f a) (f' a')) : Alike rel' (x >>= f) (x' >>= f') := by
  intro s s'
  have hx := h s s'
  rw [run_bind, run_bind]
  rcases hrun : x.run s with ⟨_ | a, rest⟩ <;> rcases hrun' : x'.run s' with ⟨_ | a', rest'⟩
  all_goals rw [hrun, hrun'] at hx
  · exact trivial
  · exact hx.elim
  · exact hx.elim
  · exact hf a a' hx rest rest'

/-- What is made of the same result. -/
theorem bind_same {x x' : Work (StateM σ) α} {f : α → Work (StateM σ) β}
    {f' : α → Work (StateM σ) β'} (h : Alike Eq x x') (hf : ∀ a, Alike rel' (f a) (f' a)) :
    Alike rel' (x >>= f) (x' >>= f') :=
  h.bind fun a _ ha ↦ ha ▸ hf a

theorem ofExcept_same (outcome : Except CommandError α) :
    Alike (σ := σ) Eq (Work.ofExcept outcome) (Work.ofExcept outcome) :=
  ofExcept (.refl outcome)

theorem mapM {f f' : α → Work (StateM σ) β} (hf : ∀ a, Alike Eq (f a) (f' a)) (l : List α) :
    Alike Eq (l.mapM f) (l.mapM f') := by
  induction l with
  | nil => exact pure rfl
  | cons a l ih =>
    rw [List.mapM_cons, List.mapM_cons]
    exact (hf a).bind_same fun b ↦ ih.bind_same fun bs ↦ pure rfl

end Work.Alike

end Silhouette
