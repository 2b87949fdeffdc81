import Silhouette.Proofs.Registry.Views

/-!
# What a computation ensures

`Inference.Ensures x r post fail` says what there is to say about a computation `x` that is started
on the registry `r`, whether it succeeds or not: the registry grows and stays well-formed, an answer
meets `post`, and an error meets `fail`.  There is one rule for each way to put computations
together, so a proof about a computation follows its text.
-/

set_option autoImplicit false

namespace Silhouette

theorem exists_ok_of_isOk {ε α : Type} {x : Except ε α} (h : x.isOk) : ∃ a, x = .ok a := by
  cases x with
  | error e => cases h
  | ok a => exact ⟨a, rfl⟩

/-- The digest of a new description is taken. -/
def InferenceError.IsClash : InferenceError → Prop
  | idCollision _ => True
  | _ => False

/-- An outcome is no clash of digests. -/
def NoClash {α : Type} (outcome : Except InferenceError α) : Prop :=
  ∀ id, outcome ≠ .error (.idCollision id)

namespace Inference

variable {α β : Type} {r : Registry}

theorem run_get_bind (f : Registry → Inference β) (r : Registry) :
    (get >>= f : Inference β).run r = (f r).run r := by
  rw [run_bind]
  rfl

theorem exists_run_of_isOk {x : Inference α} (h : (x.run r).1.isOk) :
    ∃ a r', x.run r = (.ok a, r') := by
  obtain ⟨a, ha⟩ := exists_ok_of_isOk h
  exact ⟨a, (x.run r).2, Prod.ext ha rfl⟩

/-- The registry grows and stays well-formed; an answer meets `post` and an error meets `fail`. -/
def Ensures (x : Inference α) (r : Registry) (post : Registry → α → Prop)
    (fail : InferenceError → Prop) : Prop :=
  match x.run r with
  | (.ok a, r') => r.Grows r' ∧ r'.WellFormed ∧ post r' a
  | (.error e, r') => r.Grows r' ∧ r'.WellFormed ∧ fail e

namespace Ensures

variable {x : Inference α} {post post' : Registry → α → Prop} {fail fail' : InferenceError → Prop}

/-! ## Reading off -/

theorem of_ok (h : x.Ensures r post fail) {a : α} {r' : Registry} (hx : x.run r = (.ok a, r')) :
    r.Grows r' ∧ r'.WellFormed ∧ post r' a := by
  rw [Ensures, hx] at h
  exact h

theorem of_error (h : x.Ensures r post fail) {e : InferenceError} {r' : Registry}
    (hx : x.run r = (.error e, r')) : r.Grows r' ∧ r'.WellFormed ∧ fail e := by
  rw [Ensures, hx] at h
  exact h

/-- Whatever comes of it, the registry grows. -/
theorem grows (h : x.Ensures r post fail) : r.Grows (x.run r).2 := by
  rcases hx : x.run r with ⟨_ | a, r'⟩
  · exact (h.of_error hx).1
  · exact (h.of_ok hx).1

theorem wellFormed (h : x.Ensures r post fail) : (x.run r).2.WellFormed := by
  rcases hx : x.run r with ⟨_ | a, r'⟩
  · exact (h.of_error hx).2.1
  · exact (h.of_ok hx).2.1

/-- What can fail for a clash only succeeds without one. -/
theorem exists_ok_of_noClash (h : x.Ensures r post InferenceError.IsClash)
    (hno : NoClash (x.run r).1) :
    ∃ a r', x.run r = (.ok a, r') ∧ r.Grows r' ∧ r'.WellFormed ∧ post r' a := by
  rcases hrun : x.run r with ⟨e | a, r'⟩
  · obtain ⟨-, -, hclash⟩ := h.of_error hrun
    cases e with
    | idCollision id => exact absurd (congrArg Prod.fst hrun) (hno id)
    | _ => exact hclash.elim
  · exact ⟨a, r', rfl, h.of_ok hrun⟩

theorem imp (h : x.Ensures r post fail)
    (hpost : ∀ a r', r.Grows r' → r'.WellFormed → post r' a → post' r' a)
    (hfail : ∀ e, fail e → fail' e) : x.Ensures r post' fail' := by
  rw [Ensures] at h ⊢
  split at h
  · exact ⟨h.1, h.2.1, hpost _ _ h.1 h.2.1 h.2.2⟩
  · exact ⟨h.1, h.2.1, hfail _ h.2.2⟩

/-- Two things can be said at once. -/
theorem and (h : x.Ensures r post fail) (h' : x.Ensures r post' fail') :
    x.Ensures r (fun r' a ↦ post r' a ∧ post' r' a) fun e ↦ fail e ∧ fail' e := by
  rw [Ensures]
  rcases hrun : x.run r with ⟨e | a, r'⟩
  · obtain ⟨hg, hw, he⟩ := h.of_error hrun
    exact ⟨hg, hw, he, (h'.of_error hrun).2.2⟩
  · obtain ⟨hg, hw, ha⟩ := h.of_ok hrun
    exact ⟨hg, hw, ha, (h'.of_ok hrun).2.2⟩

/-- Leave open what the answer is. -/
theorem forget (h : x.Ensures r post fail) : x.Ensures r (fun _ _ ↦ True) fail :=
  h.imp (fun _ _ _ _ _ ↦ trivial) fun _ h ↦ h

/-! ## Rules -/

theorem pure (hr : r.WellFormed) {a : α} (h : post r a) :
    (Pure.pure a : Inference α).Ensures r post fail :=
  ⟨.refl r, hr, h⟩

theorem throw (hr : r.WellFormed) {e : InferenceError} (h : fail e) :
    (MonadExcept.throw e : Inference α).Ensures r post fail :=
  ⟨.refl r, hr, h⟩

theorem bind (hx : x.Ensures r post fail) {f : α → Inference β} {post' : Registry → β → Prop}
    (hf : ∀ a r', r.Grows r' → r'.WellFormed → post r' a → (f a).Ensures r' post' fail) :
    (x >>= f).Ensures r post' fail := by
  rw [Ensures, run_bind]
  rcases hrun : x.run r with ⟨e | a, r'⟩
  · exact hx.of_error hrun
  · obtain ⟨hg, hw, hp⟩ := hx.of_ok hrun
    have h := hf a r' hg hw hp
    rw [Ensures] at h
    dsimp only
    split at h
    · next b r'' hb => rw [hb]; exact ⟨hg.trans h.1, h.2⟩
    · next e r'' he => rw [he]; exact ⟨hg.trans h.1, h.2⟩

/-- Looking at the registry changes nothing. -/
theorem get_bind {f : Registry → Inference β} {post' : Registry → β → Prop}
    (h : (f r).Ensures r post' fail) : (get >>= f : Inference β).Ensures r post' fail := by
  rw [Ensures, run_get_bind]
  exact h

/-- A loop over a list, in which later rounds leave alone what earlier ones have reached. -/
theorem mapM {f : α → Inference β} {post : Registry → α → β → Prop}
    (hkeep : ∀ {r r' a b}, Registry.Grows r r' → post r a b → post r' a b) {l : List α}
    (hr : r.WellFormed)
    (hf : ∀ a ∈ l, ∀ r', r.Grows r' → r'.WellFormed →
      (f a).Ensures r' (fun r'' ↦ post r'' a) fail) :
    (l.mapM f).Ensures r (fun r' bs ↦ List.Forall₂ (post r') l bs) fail := by
  induction l generalizing r with
  | nil =>
    rw [List.mapM_nil]
    exact .pure hr .nil
  | cons a l ih =>
    rw [List.mapM_cons]
    refine .bind (hf a List.mem_cons_self r (.refl r) hr) fun b r₁ hg₁ hw₁ hb ↦ ?_
    refine .bind (ih hw₁ fun c hc r' hg ↦ hf c (List.mem_cons_of_mem _ hc) r' (hg₁.trans hg))
      fun bs r₂ hg₂ hw₂ hbs ↦ ?_
    exact .pure hw₂ (.cons (hkeep hg₂ hb) hbs)

theorem run_intern_of_ok {d : Descriptor} {id : TypeId} {r' : Registry}
    (h : r.intern d = .ok (id, r')) : (Inference.intern d).run r = (.ok id, r') := by
  simp only [Inference.intern, ExceptT.run, ExceptT.mk, h]

theorem run_intern_of_error {d : Descriptor} {clash : Collision} (h : r.intern d = .error clash) :
    (Inference.intern d).run r = (.error (.idCollision clash.id), r) := by
  simp only [Inference.intern, ExceptT.run, ExceptT.mk, h]

/-- A description that is registered is found. -/
theorem run_intern_of_get? (hr : r.Indexed) {d : Descriptor} (h : r.get? d.digest = some d) :
    (Inference.intern d).run r = (.ok (.node d.digest), r) :=
  run_intern_of_ok (Registry.intern_of_find? (hr.find?_eq_some_iff.2 h))

/-- A description that is registered later on has its digest free until then. -/
theorem run_intern_of_grows (hr : r.Indexed) {r' : Registry} (hg : r.Grows r') {d : Descriptor}
    (h : r'.get? d.digest = some d) : ((Inference.intern d).run r).1 = .ok (.node d.digest) := by
  obtain ⟨-, hi⟩ | ⟨-, hi⟩ | ⟨⟨d', hne, htaken⟩, -⟩ := hr.intern_cases d
  · rw [run_intern_of_ok hi]
  · rw [run_intern_of_ok hi]
  · exact absurd (Option.some.inj ((hg.get? htaken).symm.trans h)) hne

/-- Interning a description of known parts registers it, unless its digest is taken. -/
theorem intern_describes (hr : r.WellFormed) {d : Descriptor} (hd : ∀ c ∈ d.children, r.Knows c) :
    (Inference.intern d).Ensures r (fun r' id ↦ r'.describe? id = some d)
      InferenceError.IsClash := by
  rw [Ensures]
  obtain ⟨hg, hi⟩ | ⟨hg, hi⟩ | ⟨-, hi⟩ := hr.toIndexed.intern_cases d
  · rw [run_intern_of_ok hi]
    exact ⟨.refl r, hr, hg⟩
  · have hw := hr.enter hg hd
    have hmem : (d.digest, d) ∈ (r.enter d).nodes.toList := by simp
    rw [run_intern_of_ok hi]
    exact ⟨.enter r d, hw, hw.toIndexed.get?_eq_some_iff.2 hmem⟩
  · rw [run_intern_of_error hi]
    exact ⟨.refl r, hr, trivial⟩

/-- What is interned has the tree of its description. -/
theorem intern (hr : r.WellFormed) {d : Descriptor} (hd : ∀ c ∈ d.children, r.Knows c) :
    (Inference.intern d).Ensures r (fun r' id ↦ r'.Unfolds id (d.toTree r.tree))
      InferenceError.IsClash := by
  refine (intern_describes hr hd).imp (fun id r' hg _ h ↦ ?_) fun _ h ↦ h
  obtain ⟨n, rfl, hn⟩ := Registry.describe?_eq_some_iff.1 h
  exact .node r.tree hn fun c hc ↦ (hr.unfolds_tree (hd c hc)).grows hg

end Ensures

end Inference

end Silhouette
