import Mathlib.Data.Prod.Basic
import Silhouette.Proofs.Inference.Ensures
import Silhouette.Proofs.Registry.Prune

/-!
# The two indexes of a registry

A registry looks nodes up by id and by description.  Registering adds to both indexes and pruning
drops from both, one with the help of the other, and nothing in the types keeps them in step.

* `Registry.Built` — the registries that come of registering and pruning alone.  Descriptions may
  refer to anything here, so that less is known of these registries than of those of an inference:
  parts may be missing, and may stand behind what they are part of.
* `Registry.Bijective` — what holds all the same: both indexes are one bijection, between
  descriptions and their digests.

From this follows what registering does (`Registry.indexes_bijective`).  In particular a description
that was pruned leaves no trace: it is new when it comes again, and has the id that it had before.
-/

set_option autoImplicit false

namespace Silhouette

namespace Registry

/-- The registries that come of registering descriptions and of pruning, in any order.  Nothing is
asked of the descriptions, so they may refer to what is not registered, and nothing of the roots. -/
inductive Built : Registry → Prop
  | start : Built ∅
  | intern {r : Registry} (h : Built r) (d : Descriptor) : Built ((Inference.intern d).run r).2
  | prune {r : Registry} (h : Built r) (root : TypeId) : Built (Structure.prune ⟨root, r⟩).types

/-- The indexes are one bijection between descriptions and their digests. -/
structure Bijective (r : Registry) : Prop where
  /-- A description has an id exactly when the id has the description. -/
  find?_iff : ∀ d id, r.find? d = some id ↔ r.get? id = some d
  /-- The indexes hold the same pairs, and one as often as the other. -/
  shapes_perm : r.shapes.Perm (r.nodes.toList.map Prod.swap)
  /-- An id is the digest of its description. -/
  digest_eq : ∀ e ∈ r.nodes.toList, e.1 = e.2.digest
  nodup_ids : (r.nodes.toList.map Prod.fst).Nodup
  nodup_descriptions : (r.nodes.toList.map Prod.snd).Nodup

variable {r : Registry} {d : Descriptor}

/-! ## Each index has nothing twice -/

/-- What is found under no id was not taken down. -/
theorem Indexed.not_mem_shapes (h : r.Indexed) (hd : r.get? d.digest = none) (id : NodeId) :
    (d, id) ∉ r.shapes := fun hmem ↦ by
  have hget : r.get? id = some d := h.get?_eq_some_iff.2 (h.shapes_iff.1 hmem)
  rw [h.digest_of_get? hget, hd] at hget
  cases hget

theorem nodup_shapes_enter (h : r.Indexed) (hr : r.shapes.Nodup) (hd : r.get? d.digest = none) :
    (r.enter d).shapes.Nodup :=
  List.nodup_cons.2 ⟨h.not_mem_shapes hd _, hr⟩

/-- What registering a description makes of a registry: nothing, or one entry more. -/
theorem Indexed.run_intern_cases (h : r.Indexed) (d : Descriptor) :
    (r.get? d.digest = some d ∧ (Inference.intern d).run r = (.ok (.node d.digest), r)) ∨
    (r.get? d.digest = none ∧ (Inference.intern d).run r = (.ok (.node d.digest), r.enter d)) ∨
    ((∃ d', d' ≠ d ∧ r.get? d.digest = some d') ∧
      (Inference.intern d).run r = (.error (.idCollision d.digest), r)) := by
  obtain ⟨hg, hi⟩ | ⟨hg, hi⟩ | ⟨hg, hi⟩ := h.intern_cases d
  · exact .inl ⟨hg, Inference.Ensures.run_intern_of_ok hi⟩
  · exact .inr (.inl ⟨hg, Inference.Ensures.run_intern_of_ok hi⟩)
  · exact .inr (.inr ⟨hg, Inference.Ensures.run_intern_of_error hi⟩)

theorem Built.indexed_and_nodup_shapes (h : r.Built) : r.Indexed ∧ r.shapes.Nodup := by
  induction h with
  | start => exact ⟨wellFormed_empty.toIndexed, List.nodup_nil⟩
  | intern _ d ih =>
    obtain ⟨hr, hshapes⟩ := ih
    obtain ⟨-, hi⟩ | ⟨hg, hi⟩ | ⟨-, hi⟩ := hr.run_intern_cases d
    · rw [hi]
      exact ⟨hr, hshapes⟩
    · rw [hi]
      exact ⟨hr.enter hg, nodup_shapes_enter hr hshapes hg⟩
    · rw [hi]
      exact ⟨hr, hshapes⟩
  | prune _ root ih => exact ⟨ih.1.retain _, ih.2.filter _⟩

/-- One id to a description, so descriptions are as different as their ids. -/
theorem Indexed.nodup_descriptions (h : r.Indexed) : (r.nodes.toList.map Prod.snd).Nodup := by
  refine List.Nodup.of_map Descriptor.digest ?_
  have hids : (r.nodes.toList.map Prod.snd).map Descriptor.digest = r.ids := by
    rw [List.map_map, ids]
    exact List.map_congr_left fun e he ↦ (h.digest_eq he).symm
  rw [hids]
  exact h.nodup

theorem Built.bijective (h : r.Built) : r.Bijective := by
  obtain ⟨hr, hshapes⟩ := h.indexed_and_nodup_shapes
  have hnodes : (r.nodes.toList.map Prod.swap).Nodup :=
    (List.Nodup.of_map Prod.fst hr.nodup).map Prod.swap_injective
  refine ⟨fun d id ↦ hr.find?_eq_some_iff, (List.perm_ext_iff_of_nodup hshapes hnodes).2 ?_,
    fun e he ↦ hr.digest_eq he, hr.nodup, hr.nodup_descriptions⟩
  rintro ⟨d, id⟩
  rw [hr.shapes_iff, List.mem_map]
  refine ⟨fun he ↦ ⟨_, he, rfl⟩, ?_⟩
  rintro ⟨⟨id', d'⟩, he, heq⟩
  cases heq
  exact he

/-- **The two indexes stay one bijection**, whatever was registered and pruned before.  Hence
registering a description does one of three things:

* one that is registered is answered with its id, and nothing changes;
* a new one whose digest is free is put behind all others, which stay as they are;
* a new one whose digest is taken is refused as a collision, and nothing changes.

A description that some other registry has — the registry before it was pruned, say — comes out
under the id that it has there. -/
theorem indexes_bijective (h : r.Built) :
    r.Bijective ∧
      (∀ d id, r.find? d = some id → (Inference.intern d).run r = (.ok (.node id), r)) ∧
      (∀ d, r.find? d = none → r.get? d.digest = none →
        ∃ r', (Inference.intern d).run r = (.ok (.node d.digest), r') ∧
          r'.nodes.toList = r.nodes.toList ++ [(d.digest, d)]) ∧
      (∀ d, r.find? d = none → r.contains d.digest →
        (Inference.intern d).run r = (.error (.idCollision d.digest), r)) ∧
      ∀ before : Registry, before.Built → ∀ id d, before.get? id = some d → r.get? id = none →
        ∃ r', (Inference.intern d).run r = (.ok (.node id), r') ∧
          r'.nodes.toList = r.nodes.toList ++ [(id, d)] := by
  obtain ⟨hr, -⟩ := h.indexed_and_nodup_shapes
  have hnew : ∀ d, r.get? d.digest = none →
      ∃ r', (Inference.intern d).run r = (.ok (.node d.digest), r') ∧
        r'.nodes.toList = r.nodes.toList ++ [(d.digest, d)] := fun d hd ↦ by
    obtain ⟨hg, -⟩ | ⟨-, hi⟩ | ⟨⟨d', -, hg⟩, -⟩ := hr.run_intern_cases d
    · rw [hd] at hg
      cases hg
    · exact ⟨r.enter d, hi, toList_enter r d⟩
    · rw [hd] at hg
      cases hg
  refine ⟨h.bijective, fun d id hd ↦ ?_, fun d _ ↦ hnew d, fun d hd htaken ↦ ?_,
    fun before hbefore id d hid hpruned ↦ ?_⟩
  · exact Inference.Ensures.run_intern_of_ok (intern_of_find? hd)
  · obtain ⟨hg, -⟩ | ⟨hg, -⟩ | ⟨-, hi⟩ := hr.run_intern_cases d
    · rw [hr.find?_eq_some_iff.2 hg] at hd
      cases hd
    · rw [contains, hg] at htaken
      cases htaken
    · exact hi
  · obtain rfl := hbefore.indexed_and_nodup_shapes.1.digest_of_get? hid
    exact hnew d hpruned

/-- Lists of numbers and lists of texts are registered, and an object that refers to a type that is
nowhere.  Pruned to the texts the registry has lost the numbers; they come again behind the texts
and have the id that they had. -/
theorem indexes_bijective_pruned :
    ∃ before r : Registry, before.Built ∧ r.Built ∧ before.size = 3 ∧ r.size = 1 ∧ r.Bijective ∧
      ∃ id r', before.get? id = some (.array (.scalar .number)) ∧
        (Inference.intern (.array (.scalar .number))).run r = (.ok (.node id), r') ∧
        r'.ids = [Descriptor.digest (.array (.scalar .string)), id] := by
  obtain ⟨before, hbefore⟩ : ∃ b, b = ((Inference.intern (.object (.ofList
    [("a", ⟨.required, .node ⟨7⟩⟩)]))).run ((Inference.intern (.array (.scalar .string))).run
      ((Inference.intern (.array (.scalar .number))).run ∅).2).2).2 := ⟨_, rfl⟩
  obtain ⟨texts, htexts⟩ : ∃ id, id = Descriptor.digest (.array (.scalar .string)) := ⟨_, rfl⟩
  have hbuilt : before.Built := hbefore ▸ .intern (.intern (.intern .start _) _) _
  have hget : before.get? (Descriptor.digest (.array (.scalar .number))) =
      some (.array (.scalar .number)) := hbefore ▸ by decide +kernel
  have hreachable : (⟨.node texts, before⟩ : Structure).reachable = [texts] := by
    have hroot : before.get? texts = some (.array (.scalar .string)) :=
      hbefore ▸ htexts ▸ by decide +kernel
    exact (reach_of_some List.not_mem_nil hroot).trans reach_nil
  have hids : (Structure.prune ⟨.node texts, before⟩).types.ids = [texts] := by
    rw [Structure.prune, ids_retain, hreachable, hbefore, htexts]
    decide +kernel
  have hpruned : (Structure.prune ⟨.node texts, before⟩).types.get?
      (Descriptor.digest (.array (.scalar .number))) = none := by
    rw [Structure.get?_prune, hreachable, if_neg]
    rw [htexts]
    decide +kernel
  obtain ⟨hbijective, -, -, -, hagain⟩ := indexes_bijective (hbuilt.prune (.node texts))
  obtain ⟨r', hrun, hnodes⟩ := hagain before hbuilt _ _ hget hpruned
  refine ⟨before, _, hbuilt, hbuilt.prune (.node texts), hbefore ▸ by decide +kernel, ?_,
    hbijective, _, r', hget, hrun, ?_⟩
  · rw [size, Table.size_eq_length, ← List.length_map Prod.fst]
    exact congrArg List.length hids
  · rw [ids, hnodes, List.map_append, ← htexts]
    exact congrArg (· ++ _) hids

end Registry

end Silhouette
