import Silhouette.Proofs.Command.Work

/-!
# How the work of a command ends

`Outcome.Meets p fail` says how something that may fail ends: with a result that meets `p`, or
with an error that meets `fail`.  `Work.Meets` says this of a piece of work, whatever it reads.
There is one rule for each way to put work together, so a proof about a stage of a command follows
its text.

With these rules: reading the settings, reading the documents and delivering the text end without an
error that comes from declarations (`Request.settings_undeclared`, `Selection.documents_undeclared`,
`Request.deliver_undeclared`).
-/

set_option autoImplicit false

namespace Silhouette

variable {α β : Type}

/-! ## Outcomes -/

/-- A result meets `p` and an error meets `fail`. -/
def Outcome.Meets {ε : Type} (p : α → Prop) (fail : ε → Prop) : Except ε α → Prop
  | .ok a => p a
  | .error e => fail e

namespace Outcome.Meets

variable {ε ε' : Type} {p : α → Prop} {fail : ε → Prop}

theorem bind {x : Except ε α} {f : α → Except ε β} {q : β → Prop} (h : Meets p fail x)
    (hf : ∀ a, p a → Meets q fail (f a)) : Meets q fail (x >>= f) := by
  cases x with
  | error e => exact h
  | ok a => exact hf a h

theorem mapM {f : α → Except ε β} {l : List α} {q : β → Prop}
    (h : ∀ a ∈ l, Meets q fail (f a)) :
    Meets (fun bs ↦ ∀ b ∈ bs, q b) fail (l.mapM f) := by
  induction l with
  | nil => exact fun b hb ↦ absurd hb List.not_mem_nil
  | cons a l ih =>
    obtain ⟨ha, hl⟩ := List.forall_mem_cons.1 h
    rw [List.mapM_cons]
    exact ha.bind fun b hb ↦ (ih hl).bind fun bs hbs ↦ List.forall_mem_cons.2 ⟨hb, hbs⟩

theorem mono {x : Except ε α} {q : α → Prop} (h : Meets p fail x)
    (hpq : ∀ a, p a → q a) : Meets q fail x := by
  cases x with
  | error e => exact h
  | ok a => exact hpq a h

/-- An error that is made of any other one. -/
theorem mapError {x : Except ε' α} {error : ε' → ε} (hok : ∀ a, x = .ok a → p a)
    (hfail : ∀ e, fail (error e)) : Meets p fail (x.mapError error) := by
  cases x with
  | error e => exact hfail e
  | ok a => exact hok a rfl

end Outcome.Meets

/-! ## Work -/

/-- Whatever a piece of work reads, its outcome is as given. -/
def Work.Meets {σ : Type} (p : α → Prop) (fail : CommandError → Prop)
    (x : Work (StateM σ) α) : Prop :=
  ∀ input, Outcome.Meets p fail (x.run.run input).1

namespace Work.Meets

variable {σ : Type} {p q : α → Prop} {fail : CommandError → Prop}

theorem pure {a : α} (h : p a) : Meets (σ := σ) p fail (Pure.pure a) := fun _ ↦ h

theorem throw {e : CommandError} (h : fail e) :
    Meets (σ := σ) p fail (MonadExcept.throw e) := fun _ ↦ h

theorem lift (action : StateM σ α) : Meets (fun _ ↦ True) fail (Work.lift action) :=
  fun _ ↦ trivial

theorem ofExcept {outcome : Except CommandError α} (h : Outcome.Meets p fail outcome) :
    Meets (σ := σ) p fail (Work.ofExcept outcome) := fun _ ↦ h

theorem ofAction {φ : Type} {error : φ → CommandError} (h : ∀ fault, fail (error fault))
    (action : StateM σ (Except φ α)) :
    Meets (fun _ ↦ True) fail (Work.ofAction error action) :=
  fun _ ↦ .mapError (fun _ _ ↦ trivial) h

theorem bind {x : Work (StateM σ) α} {f : α → Work (StateM σ) β} {q : β → Prop}
    (h : Meets p fail x) (hf : ∀ a, p a → Meets q fail (f a)) :
    Meets q fail (x >>= f) := by
  intro input
  have hx : Outcome.Meets p fail (x.run input).1 := h input
  show Outcome.Meets q fail ((x >>= f).run input).1
  rw [run_bind]
  rcases hrun : x.run input with ⟨e | a, rest⟩
  all_goals rw [hrun] at hx
  · exact hx
  · exact hf a hx rest

theorem mono {x : Work (StateM σ) α} (h : Meets p fail x) (hpq : ∀ a, p a → q a) :
    Meets q fail x :=
  fun input ↦ (h input).mono hpq

theorem mapM {f : α → Work (StateM σ) β} {l : List α} {q : β → Prop}
    (h : ∀ a ∈ l, Meets q fail (f a)) :
    Meets (fun bs ↦ ∀ b ∈ bs, q b) fail (l.mapM f) := by
  induction l with
  | nil => exact pure fun b hb ↦ absurd hb List.not_mem_nil
  | cons a l ih =>
    obtain ⟨ha, hl⟩ := List.forall_mem_cons.1 h
    rw [List.mapM_cons]
    exact ha.bind fun b hb ↦ (ih hl).bind fun bs hbs ↦
      pure (List.forall_mem_cons.2 ⟨hb, hbs⟩)

end Work.Meets

/-! ## Stages without declarations -/

/-- An error comes from declarations. -/
def CommandError.IsEmission : CommandError → Prop
  | emission _ _ => True
  | _ => False

/-- An outcome is no error that comes from declarations. -/
def Outcome.Undeclared : Except CommandError α → Prop :=
  Outcome.Meets (fun _ ↦ True) fun e ↦ ¬ e.IsEmission

/-- A piece of work makes no error that comes from declarations. -/
def Work.Undeclared {σ : Type} : Work (StateM σ) α → Prop :=
  Work.Meets (fun _ ↦ True) fun e ↦ ¬ e.IsEmission

theorem Source.document_undeclared (s : Source) (selection : Selection) :
    Outcome.Undeclared (s.document selection) := by
  have hsamples : Outcome.Undeclared (s.samples selection.ndjson) := by
    rw [samples]
    split
    · refine (Outcome.Meets.mapM (q := fun _ ↦ True) fun row _ ↦ ?_).mono fun _ _ ↦ trivial
      exact .mapError (fun _ _ ↦ trivial) fun _ ↦ id
    · exact .bind (p := fun _ ↦ True) (.mapError (fun _ _ ↦ trivial) fun _ ↦ id) fun _ _ ↦ trivial
  have hpart : ∀ v, Outcome.Undeclared (s.part selection.jsonPointer v) := fun v ↦ by
    unfold part
    split
    · exact trivial
    · split
      · exact trivial
      · exact id
  exact hsamples.bind fun found _ ↦
    (Outcome.Meets.mapM (q := fun _ ↦ True) fun v _ ↦ hpart v).bind fun _ _ ↦ trivial

section Reading

variable {σ : Type} (host : Host (StateM σ))

theorem Selection.paths_undeclared (input : String) : Work.Undeclared (paths host input) := by
  rw [paths]
  split
  · refine .bind (p := fun _ ↦ True) (.ofExcept (.mapError (fun _ _ ↦ trivial) fun _ ↦ id))
      fun glob _ ↦ .bind (.ofAction (fun _ ↦ id) _) fun found _ ↦ ?_
    split
    · exact .bind (.throw (p := fun _ ↦ True) id) fun _ _ ↦ .pure trivial
    · exact .pure trivial
  · exact .pure trivial

theorem Selection.sources_undeclared (input : String) : Work.Undeclared (sources host input) := by
  rw [sources]
  split
  · exact .bind (.ofAction (fun _ ↦ id) _) fun _ _ ↦ .pure trivial
  · refine (paths_undeclared host input).bind fun found _ ↦ ?_
    refine (Work.Meets.mapM (q := fun _ ↦ True) fun path _ ↦ ?_).mono fun _ _ ↦ trivial
    exact .bind (.ofAction (fun _ ↦ id) _) fun _ _ ↦ .pure trivial

/-- **Reading documents is no declaring.** -/
theorem Selection.documents_undeclared (s : Selection) : Work.Undeclared (s.documents host) := by
  rw [documents]
  refine (Work.Meets.mapM (q := fun _ ↦ True) fun input _ ↦ ?_).bind fun _ _ ↦ .pure trivial
  refine (sources_undeclared host input).bind fun found _ ↦ ?_
  refine (Work.Meets.mapM (q := fun _ ↦ True) fun source _ ↦ ?_).mono fun _ _ ↦ trivial
  exact .ofExcept (source.document_undeclared s)

end Reading

end Silhouette
