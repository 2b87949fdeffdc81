import Silhouette.Proofs.Inference.Observe
import Silhouette.Proofs.Json.Distinct

/-!
# Any number of calls

An inference is asked one thing after another (`Inference.Call`), and it goes on after a call that
has failed.  `Inference.Reached` says which registries come about in this way.  All of them are
well-formed (`Reached.wellFormed`), so in each of them a call that succeeds answers an id that
unfolds to what the rules for trees say (`Call.Means`), and nothing of what happened before shows.

What was registered stays (`grows_answer`), also after many further calls (`Inference.after`).
-/

set_option autoImplicit false

namespace Silhouette

namespace Inference

open Registry

/-- What an inference can be asked. -/
inductive Call where
  /-- The type of a sample. -/
  | value (limit : Nat) (v : Json)
  /-- The type of a list of samples. -/
  | samples (limit : Nat) (vs : List Json)
  /-- The type that summarises a set of types. -/
  | fold (members : TypeSet)

namespace Call

/-- The computation that answers a call. -/
def answer : Call → Inference TypeId
  | value limit v => observe limit v
  | samples limit vs => observeSamples limit vs
  | fold members => Inference.fold members

/-- The tree that a call is about, by the rules for trees; the members of a fold are looked up where
the call is made. -/
inductive Means (r : Registry) : Call → TypeTree → Prop
  | value {limit : Nat} {v : Json} {t : TypeTree} (h : TypeTree.ofJson? v = some t) :
      Means r (.value limit v) t
  | samples {limit : Nat} {vs : List Json} {t : TypeTree}
      (h : TypeTree.ofJson? (.array vs) = some t) : Means r (.samples limit vs) t
  | fold {members : TypeSet} (tree : TypeId → TypeTree) (h : ∀ m ∈ members, r.Unfolds m (tree m)) :
      Means r (.fold members) (TypeTree.fold (members.image tree))

theorem Means.unique {r : Registry} {c : Call} {t u : TypeTree} (ht : c.Means r t)
    (hu : c.Means r u) : t = u := by
  cases ht with
  | value h =>
    cases hu with
    | value h' => exact Option.some.inj (h.symm.trans h')
  | samples h =>
    cases hu with
    | samples h' => exact Option.some.inj (h.symm.trans h')
  | fold tree h =>
    cases hu with
    | fold tree' h' => rw [Ordered.image_congr fun m hm ↦ (h m hm).unique (h' m hm)]

end Call

variable {r r' : Registry} {id : TypeId}

theorem answer_samples (limit : Nat) (vs : List Json) :
    (Call.samples limit vs).answer = (Call.value limit (.array vs)).answer :=
  (observe_array limit vs).symm

/-! ## One call -/

/-- Whatever comes of a call, the registry grows and stays well-formed. -/
theorem grows_answer (hr : r.WellFormed) (c : Call) :
    r.Grows (c.answer.run r).2 ∧ (c.answer.run r).2.WellFormed := by
  cases c with
  | value limit v => exact ⟨(observe_ensures hr v).grows, (observe_ensures hr v).wellFormed⟩
  | samples limit vs =>
    rw [answer_samples]
    exact ⟨(observe_ensures hr _).grows, (observe_ensures hr _).wellFormed⟩
  | fold members =>
    cases hf : r.firstForeign? members with
    | some id =>
      rw [Call.answer, fold_foreign hf]
      exact ⟨.refl r, hr⟩
    | none =>
      have h := fold_ensures hr (knows_of_firstForeign?_eq_none hf)
      exact ⟨h.grows, h.wellFormed⟩

/-- An answer unfolds to what the call is about. -/
theorem unfolds_answer (hr : r.WellFormed) {c : Call} (h : c.answer.run r = (.ok id, r')) :
    r'.WellFormed ∧ ∃ t, c.Means r t ∧ r'.Unfolds id t := by
  cases c with
  | value limit v =>
    obtain ⟨-, hw, t, ht, -, hu⟩ := (observe_ensures hr v).of_ok h
    exact ⟨hw, t, .value ht, hu⟩
  | samples limit vs =>
    rw [answer_samples] at h
    obtain ⟨-, hw, t, ht, -, hu⟩ := (observe_ensures hr (.array vs)).of_ok h
    exact ⟨hw, t, .samples ht, hu⟩
  | fold members =>
    cases hf : r.firstForeign? members with
    | some id =>
      rw [Call.answer, fold_foreign hf] at h
      cases h
    | none =>
      have hM := knows_of_firstForeign?_eq_none hf
      obtain ⟨-, hw, hu⟩ := (fold_ensures hr hM).of_ok h
      exact ⟨hw, _, .fold r.tree fun m hm ↦ hr.unfolds_tree (hM m hm), hu⟩

/-! ## Many calls -/

/-- The registries that calls lead to, whether they succeed or fail. -/
inductive Reached : Registry → Prop
  | start : Reached ∅
  | call {r : Registry} (h : Reached r) (c : Call) : Reached (c.answer.run r).2

theorem Reached.wellFormed (h : Reached r) : r.WellFormed := by
  induction h with
  | start => exact wellFormed_empty
  | call _ c ih => exact (grows_answer ih c).2

/-- The registry after some more calls, whether they succeed or fail. -/
def after (calls : List Call) (r : Registry) : Registry :=
  calls.foldl (fun r c ↦ (c.answer.run r).2) r

theorem grows_after (hr : r.WellFormed) (calls : List Call) :
    r.Grows (after calls r) ∧ (after calls r).WellFormed := by
  induction calls generalizing r with
  | nil => exact ⟨.refl r, hr⟩
  | cons c calls ih =>
    obtain ⟨hg, hw⟩ := grows_answer hr c
    obtain ⟨hg', hw'⟩ := ih hw
    exact ⟨hg.trans hg', hw'⟩

/-- **Ids stand for trees and for nothing else.**  After any calls, the id that a call answers
unfolds to the tree that the call is about and to no other; and two calls about one tree, in two
inferences with any two histories, answer one id. -/
theorem answer_transparent (hr : Reached r) {c : Call} (h : c.answer.run r = (.ok id, r')) :
    (∃ t, c.Means r t ∧ ∀ u, r'.Unfolds id u ↔ u = t) ∧
      ∀ (s s' : Registry) (c' : Call) (id' : TypeId), Reached s →
        c'.answer.run s = (.ok id', s') → ∀ t, c.Means r t → c'.Means s t → id' = id := by
  obtain ⟨hw, t, ht, hu⟩ := unfolds_answer hr.wellFormed h
  refine ⟨⟨t, ht, fun u ↦ ⟨fun hu' ↦ hu'.unique hu, fun e ↦ e ▸ hu⟩⟩, ?_⟩
  intro s s' c' id' hs h' u hu₁ hu₂
  obtain ⟨hw', t', ht', hu'⟩ := unfolds_answer hs.wellFormed h'
  rw [ht'.unique hu₂, ← ht.unique hu₁] at hu'
  exact hu'.id_unique hw'.toIndexed hw.toIndexed hu

/-- A call that follows a failed one answers what it answers at the start: the rows of the example
come after the same rows with a malformed marker behind them, which have left five types behind. -/
theorem answer_transparent_after_failure :
    ∃ (r r' s' : Registry) (id id' : TypeId), Reached r ∧ r.size = 5 ∧
      (Call.value 256 (.array Json.unevenRows)).answer.run r = (.ok id, r') ∧
      (Call.samples 256 Json.unevenRows).answer.run ∅ = (.ok id', s') ∧
      (∃ t, (Call.value 256 (.array Json.unevenRows)).Means r t ∧ ∀ u, r'.Unfolds id u ↔ u = t) ∧
      id' = id := by
  obtain ⟨r, hr⟩ : ∃ r, r = ((Call.value 256 (.array (Json.unevenRows ++
    [.object [("$undefined", .bool false)]]))).answer.run ∅).2 := ⟨_, rfl⟩
  have hreached : Reached r := hr ▸ .call .start _
  have hsize : r.size = 5 := hr ▸ by decide +kernel
  obtain ⟨id, r', hrun⟩ := exists_run_of_isOk
    (hr ▸ by decide +kernel : ((Call.value 256 (.array Json.unevenRows)).answer.run r).1.isOk)
  obtain ⟨id', s', hrun'⟩ := exists_run_of_isOk
    (by decide +kernel : ((Call.samples 256 Json.unevenRows).answer.run ∅).1.isOk)
  obtain ⟨⟨t, ht, hu⟩, hsame⟩ := answer_transparent hreached hrun
  refine ⟨r, r', s', id, id', hreached, hsize, hrun, hrun', ⟨t, ht, hu⟩,
    hsame ∅ s' _ id' .start hrun' t ht ?_⟩
  cases ht with
  | value h => exact .samples h

end Inference

end Silhouette
