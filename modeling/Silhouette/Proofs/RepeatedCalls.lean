import Silhouette.Proofs.Inference.Compositional

/-!
# To ask again changes nothing

A call that has succeeded can be made again at any later time: it answers the same id, and the
registry stays exactly as it is, whatever was asked in between (`Inference.answer_again`).

Neither is clear from the answer alone.  On its way to the answer a call registers types that the
answer may not need, and it looks at the registry, which has grown.  But it looks only at what it
knows, and that is described as before; so it asks for the same descriptions in the same order, and
finds all of them.  This is said of a computation, `Inference.Repeats`, and passes from the pieces
to the whole (`compositional_repeats`).
-/

set_option autoImplicit false

namespace Silhouette

namespace Inference

open Registry

/-- Once the computation has succeeded, to run it again later gives the same and registers
nothing. -/
def Repeats {α : Type} (x : Inference α) (r : Registry) : Prop :=
  ∀ a r', x.run r = (.ok a, r') →
    r.Grows r' ∧ ∀ r'', r'.Grows r'' → r''.WellFormed → x.run r'' = (.ok a, r'')

namespace Repeats

variable {α β : Type} {x : Inference α} {r : Registry}

theorem bind {f : α → Inference β} (hx : x.Repeats r)
    (hf : ∀ a r', x.run r = (.ok a, r') → (f a).Repeats r') : (x >>= f).Repeats r := by
  intro b r₂ h
  rw [run_bind] at h
  rcases hrun : x.run r with ⟨e | a, r₁⟩
  · rw [hrun] at h
    cases h
  · rw [hrun] at h
    obtain ⟨hg₁, hagain₁⟩ := hx a r₁ hrun
    obtain ⟨hg₂, hagain₂⟩ := hf a r₁ hrun b r₂ h
    refine ⟨hg₁.trans hg₂, fun r'' hg hw ↦ ?_⟩
    rw [run_bind, hagain₁ r'' (hg₂.trans hg) hw]
    exact hagain₂ r'' hg hw

theorem get_bind {f : Registry → Inference β} (hf : ∀ r', r.Grows r' → f r' = f r)
    (h : (f r).Repeats r) : (get >>= f : Inference β).Repeats r := by
  intro b r' hrun
  rw [run_get_bind] at hrun
  obtain ⟨hg, hagain⟩ := h b r' hrun
  refine ⟨hg, fun r'' hg' hw ↦ ?_⟩
  rw [run_get_bind, hf r'' (hg.trans hg')]
  exact hagain r'' hg' hw

/-- A description that has been interned is found from then on. -/
theorem intern (hr : r.WellFormed) (d : Descriptor) : (Inference.intern d).Repeats r := by
  have hfound : ∀ {r' : Registry}, r'.get? d.digest = some d → ∀ r'', r'.Grows r'' →
      r''.WellFormed → (Inference.intern d).run r'' = (.ok (.node d.digest), r'') :=
    fun hd r'' hg hw ↦ Ensures.run_intern_of_get? hw.toIndexed (hg.get? hd)
  intro id r' h
  obtain ⟨hd, hi⟩ | ⟨hfree, hi⟩ | ⟨-, hi⟩ := hr.toIndexed.intern_cases d
  · rw [Ensures.run_intern_of_ok hi] at h
    cases h
    exact ⟨.refl r, hfound hd⟩
  · rw [Ensures.run_intern_of_ok hi] at h
    cases h
    have hmem : (d.digest, d) ∈ (r.enter d).nodes.toList := by simp
    exact ⟨.enter r d, hfound ((hr.toIndexed.enter hfree).get?_eq_some_iff.2 hmem)⟩
  · rw [Ensures.run_intern_of_error hi] at h
    cases h

end Repeats

/-- **Whatever an inference does, it can do again.** -/
theorem compositional_repeats : Compositional fun x r ↦ x.Repeats r where
  pure a r b r' h := by
    cases h
    exact ⟨.refl r, fun _ _ _ ↦ rfl⟩
  refuse hx a r' h := by
    rw [hx] at h
    cases h
  bind hx h hf := h.bind fun a r' hrun ↦
    have ⟨hg, hw, hp⟩ := hx.of_ok hrun
    hf a r' hg hw hp
  get_bind hf h := .get_bind hf h
  intern hr _ _ := .intern hr _
  congr {_ x y r} hr hxy hx a r' h := by
    rw [← hxy r (.refl r) hr] at h
    obtain ⟨hg, hagain⟩ := hx a r' h
    refine ⟨hg, fun r'' hg' hw ↦ ?_⟩
    rw [← hxy r'' (hg.trans hg') hw]
    exact hagain r'' hg' hw

/-- **To ask again changes nothing.**  A call that has succeeded after any calls answers the same id
whenever it is made again, after any further calls, succeeded or failed, and leaves the registry
exactly as it is. -/
theorem answer_again {r r' : Registry} {c : Call} {id : TypeId} (hr : Reached r)
    (h : c.answer.run r = (.ok id, r')) (calls : List Call) :
    c.answer.run (after calls r') = (.ok id, after calls r') := by
  obtain ⟨hg, hw⟩ := grows_answer hr.wellFormed c
  rw [h] at hg hw
  obtain ⟨hg', hw'⟩ := grows_after hw calls
  exact (compositional_repeats.answer hr.wellFormed c id r' h).2 _ hg' hw'

/-- The rows of the example, observed after they have failed for a malformed marker behind them, and
again after a fold, a sample that lies too deep and a sample of another type. -/
theorem answer_again_unevenRows :
    ∃ (r r' : Registry) (id : TypeId) (calls : List Call), Reached r ∧ r.size = 5 ∧
      (Call.samples 256 Json.unevenRows).answer.run r = (.ok id, r') ∧ r'.size = 9 ∧
      (after calls r').size = 11 ∧
      (Call.samples 256 Json.unevenRows).answer.run (after calls r') =
        (.ok id, after calls r') := by
  obtain ⟨r, hr⟩ : ∃ r, r = ((Call.value 256 (.array (Json.unevenRows ++
    [.object [("$undefined", .bool false)]]))).answer.run ∅).2 := ⟨_, rfl⟩
  have hreached : Reached r := hr ▸ .call .start _
  obtain ⟨id, r', hrun⟩ := exists_run_of_isOk
    (hr ▸ by decide +kernel : ((Call.samples 256 Json.unevenRows).answer.run r).1.isOk)
  have hr' : r' = ((Call.samples 256 Json.unevenRows).answer.run r).2 := by rw [hrun]
  obtain ⟨calls, hcalls⟩ : ∃ calls, calls = [Call.fold (.ofList [.scalar .null, .scalar .string]),
    .value 1 (.array [.array [.bool true]]), .value 256 (.array [.bool true])] := ⟨_, rfl⟩
  have hsize : r'.size = 9 := by
    rw [hr', hr]
    decide +kernel
  have hafter : (after calls r').size = 11 := by
    rw [hcalls, hr', hr]
    decide +kernel
  exact ⟨r, r', id, calls, hreached, hr ▸ by decide +kernel, hrun, hsize, hafter,
    answer_again hreached hrun calls⟩

end Inference

end Silhouette
