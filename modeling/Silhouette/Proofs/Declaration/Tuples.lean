import Silhouette.Proofs.CompleteDeclarations
import Silhouette.Proofs.Declaration.NaturalOrder
import Silhouette.Proofs.Text.Rows

/-!
# Roots that are declared as tuples

If tuples are asked for, an object at the root is declared as one.  It is the first declaration of
its structure, under the fresh name, and its elements are the types of the fields in natural order
(`Emitter.exists_tuple_of_emit`).

The text has a line for every element (`Emitter.exists_lines_of_emit`), as long as no literal is
broken into lines.  So whatever is known of the order of the elements is known of the order of these
lines: the type of the field number `k` in natural order is on line number `k` behind the one that
the tuple starts with (`Emitter.exists_line_of_field`).
-/

set_option autoImplicit false

namespace Silhouette

open Registry Text

variable {options : EmitOptions} {s : Structure} {names : Names} {rootName : String}
  {fields : Fields}

theorem exists_elements_of_tupleOf {d : Declaration}
    (h : tupleOf options s.types names rootName fields = .ok d) :
    ∃ elements, d = .tuple rootName elements ∧
      List.Forall₂ (fun f x ↦ typeExpr options.literals s.types names f.2.type = .ok x)
        (naturalOrder fields) elements := by
  rw [tupleOf] at h
  obtain ⟨elements, helements, h⟩ := exists_of_bind_eq_ok h
  cases h
  exact ⟨elements, rfl, forall₂_of_mapM_eq_ok helements⟩

theorem declare_root_of_rootAsTuple (htuple : options.rootAsTuple) {id : NodeId}
    (hid : s.root = .node id) (hg : s.types.get? id = some (.object fields)) :
    declare options s names (id, rootName) = do
      return [← tupleOf options s.types names rootName fields] := by
  rw [declare, hg]
  exact if_pos ⟨htuple, hid⟩

/-- The declaration of the root comes first. -/
theorem exists_tuple_of_declarationsOf (htuple : options.rootAsTuple) {id : NodeId}
    (hid : s.root = .node id) (hg : s.types.get? id = some (.object fields)) {rest : Names}
    {added : List Declaration}
    (h : declarationsOf options s rootName ((id, rootName) :: rest) = .ok added) :
    ∃ elements more, added = .tuple rootName elements :: more ∧
      List.Forall₂ (fun f x ↦
          typeExpr options.literals s.types ((id, rootName) :: rest) f.2.type = .ok x)
        (naturalOrder fields) elements := by
  have hobj : s.hasObjectRoot := hasObjectRoot_iff.2 ⟨id, hid, fields, hg⟩
  rw [declarationsOf, declareRoot, if_pos hobj] at h
  obtain ⟨root, hroot, h⟩ := exists_of_bind_eq_ok h
  obtain ⟨dss, hdss, h⟩ := exists_of_bind_eq_ok h
  cases hroot
  cases h
  rw [List.mapM_cons, declare_root_of_rootAsTuple htuple hid hg] at hdss
  obtain ⟨ds, hds, hdss⟩ := exists_of_bind_eq_ok hdss
  obtain ⟨more, -, hdss⟩ := exists_of_bind_eq_ok hdss
  obtain ⟨d, hd, hds⟩ := exists_of_bind_eq_ok hds
  cases hds
  cases hdss
  obtain ⟨elements, rfl, helements⟩ := exists_elements_of_tupleOf hd
  exact ⟨elements, more.flatten, rfl, helements⟩

/-- **A tuple lists the types of the fields in natural order**, and is declared before all else of
its structure. -/
theorem Emitter.exists_tuple_of_emit {e e' : Emitter} {name : String}
    (htuple : e.options.rootAsTuple) (hroot : s.types.describe? s.root = some (.object fields))
    (h : e.emit s name = (.ok (), e')) :
    ∃ names elements more,
      e'.declarations = e.declarations ++ .tuple (freshName e.taken name) elements :: more ∧
      Adds e.options s (freshName e.taken name) names
        (.tuple (freshName e.taken name) elements :: more) ∧
      List.Forall₂ (fun f x ↦ typeExpr e.options.literals s.types names f.2.type = .ok x)
        (naturalOrder fields) elements := by
  obtain ⟨error, failed, hemit, -⟩ | ⟨hname, names, taken, added, hassign, hadded, hemit⟩ :=
    e.emit_cases s name
  · rw [hemit] at h
    cases h
  · rw [hemit] at h
    cases h
    have hadds := adds_of_declarationsOf (isIdentifier_freshName e.taken hname) hassign hadded
    obtain ⟨id, hid, hg⟩ := describe?_eq_some_iff.1 hroot
    obtain ⟨rest, rfl⟩ := List.head?_eq_some_iff.1 (hadds.head_eq id hid ⟨fields, hg⟩)
    obtain ⟨elements, more, rfl, helements⟩ :=
      exists_tuple_of_declarationsOf htuple hid hg hadded
    exact ⟨_, elements, more, rfl, hadds, helements⟩

/-! ## The lines of a tuple -/

theorem isLine_of_isIdentifier {s : String} (h : isIdentifier s) : IsLine s := fun c hc ↦ by
  have hrest := forall_isIdentifierRest h c hc
  constructor
  · rintro rfl
    exact absurd hrest (by decide)
  · rintro rfl
    exact absurd hrest (by decide)

theorem isLine_intercalate {separator : String} (hsep : IsLine separator) {ls : List String}
    (h : ∀ l ∈ ls, IsLine l) : IsLine (separator.intercalate ls) := by
  induction ls with
  | nil => rw [String.intercalate_nil]; decide
  | cons l ls ih =>
    obtain ⟨hl, hls⟩ := List.forall_mem_cons.1 h
    cases ls with
    | nil => rwa [String.intercalate_singleton]
    | cons next ls =>
      rw [String.intercalate_cons_cons]
      exact (hl.append hsep).append (ih hls)

/-- If names and literals are not broken into lines, no type is. -/
theorem Expresses.isLine_text {literals : Literals} {r : Registry} {id : TypeId} {e : TypeExpr}
    (hliterals : ∀ l ∈ literals.all, IsLine l) (hnames : ∀ entry ∈ names, isIdentifier entry.2)
    (h : Expresses literals r names id e) : IsLine e.text := by
  induction h with
  | scalar kind => exact hliterals _ (literals.scalar_mem_all kind)
  | object _ hname => exact isLine_of_isIdentifier (hnames _ hname)
  | array _ _ ih =>
    rw [TypeExpr.text]
    split
    · exact (IsLine.append (by decide) ih).append (by decide)
    · exact ih.append (by decide)
  | bottom => exact hliterals _ literals.bottom_mem_all
  | union expr _ _ _ ih =>
    rw [TypeExpr.text, TypeExpr.texts_eq_map]
    refine isLine_intercalate (by decide) fun l hl ↦ ?_
    rw [List.map_map] at hl
    obtain ⟨m, hm, rfl⟩ := List.mem_map.1 hl
    exact ih m ((writtenOrder_perm _).mem_iff.1 hm)

theorem isLine_of_mem_tupleLines {elements : List TypeExpr} (hname : isIdentifier rootName)
    (helements : ∀ e ∈ elements, IsLine e.text) :
    ∀ l ∈ Declaration.tupleLines rootName elements, IsLine l := by
  have hstart : IsLine ("export type " ++ rootName) :=
    IsLine.append (by decide) (isLine_of_isIdentifier hname)
  rw [Declaration.tupleLines]
  split
  · exact List.forall_mem_singleton.2 (hstart.append (by decide))
  · refine List.forall_mem_cons.2 ⟨hstart.append (by decide), ?_⟩
    refine List.forall_mem_append.2 ⟨fun l hl ↦ ?_, by decide⟩
    obtain ⟨k, hk⟩ := List.mem_iff_getElem?.1 hl
    rw [Declaration.getElem?_elementLines, Option.map_eq_some_iff] at hk
    obtain ⟨e, he, rfl⟩ := hk
    refine (IsLine.append (by decide) (helements e (List.mem_of_getElem? he))).append ?_
    split
    · decide
    · decide

namespace Emitter

/-- A declaration stands in the text where a line starts. -/
theorem exists_text_eq {e : Emitter} {before after : List Declaration} {d : Declaration}
    (h : e.declarations = before ++ d :: after) :
    ∃ a b, e.text = a ++ (d.text ++ b) ∧ IsClosed a := by
  rw [text, h, List.map_append, List.map_cons]
  generalize before.map Declaration.text = texts
  induction texts with
  | nil =>
    cases after with
    | nil => exact ⟨"", "", by simp, by decide⟩
    | cons next after =>
      refine ⟨"", "\n" ++ "\n".intercalate (next.text :: after.map Declaration.text), ?_, by decide⟩
      rw [List.nil_append, List.map_cons, String.intercalate_cons_cons, String.empty_append,
        String.append_assoc]
  | cons text texts ih =>
    obtain ⟨a, b, htext, ha⟩ := ih
    refine ⟨text ++ "\n" ++ a, b, ?_, ?_⟩
    · rw [List.cons_append, String.intercalate_cons_of_ne_nil (by simp), htext,
        String.append_assoc, String.append_assoc, String.append_assoc]
    · exact (isClosed_line text).append ha

section Lines

variable {e e' : Emitter} {name : String}

/-- **The lines of a tuple are lines of the text**, one after another. -/
theorem exists_lines_of_emit (hliterals : ∀ l ∈ e.options.literals.all, IsLine l)
    (h : e.emit s name = (.ok (), e')) {elements : List TypeExpr} {more : List Declaration}
    (hadds : Adds e.options s rootName names (.tuple rootName elements :: more))
    (hdeclarations : e'.declarations = e.declarations ++ .tuple rootName elements :: more) :
    ∃ before after,
      lines e'.text = before ++ (Declaration.tupleLines rootName elements ++ after) := by
  have hident : ∀ d ∈ Declaration.tuple rootName elements :: more, isIdentifier d.name := by
    obtain ⟨added, hadded, hnames⟩ := exists_handsOut_of_emit e s name
    rw [h, hdeclarations] at hadded
    obtain rfl := List.append_cancel_left hadded
    exact List.forall_mem_map.1 hnames.isIdentifier
  have hobjects : List.Forall₂ (DeclaredAs e.options s names) names
      (.tuple rootName elements :: more) := by
    obtain ⟨root, objects, hadded, hroot, hobjects⟩ := hadds.declared
    split at hroot
    · subst hroot
      rwa [hadded]
    · obtain ⟨x, rfl, -⟩ := hroot
      cases hadded
  have hnames : ∀ entry ∈ names, isIdentifier entry.2 := fun entry hentry ↦ by
    have hmem : entry.2 ∈ names.map Prod.snd := List.mem_map_of_mem hentry
    rw [← names_of_forall₂_declaredAs hobjects] at hmem
    obtain ⟨d, hd, heq⟩ := List.mem_map.1 hmem
    rw [← heq]
    exact hident d hd
  have helements : ∀ x ∈ elements, IsLine x.text := by
    obtain ⟨entry, -, hroot⟩ := exists_mem_of_forall₂ hobjects _ List.mem_cons_self
    cases hroot with
    | tuple _ _ hes =>
      intro x hx
      obtain ⟨f, -, hexp⟩ := exists_mem_of_forall₂ hes x hx
      exact hexp.isLine_text hliterals hnames
  have hlines : ∀ l ∈ Declaration.tupleLines rootName elements, IsLine l :=
    isLine_of_mem_tupleLines (hident _ List.mem_cons_self) helements
  obtain ⟨a, b, htext, ha⟩ := exists_text_eq hdeclarations
  have hclosed : IsClosed (Declaration.tuple rootName elements).text := by
    rw [Declaration.text_tuple]
    exact isClosed_join _
  refine ⟨lines a, lines b, ?_⟩
  rw [htext, lines_append ha, lines_append hclosed, Declaration.text_tuple, lines_join hlines]

/-- **The types of the fields are written in natural order.**  Where an object at the root is
declared as a tuple, there is a line that opens the tuple, and behind it a line for each field with
its type and a comma, which the last one lacks. -/
theorem exists_line_of_field (htuple : e.options.rootAsTuple)
    (hroot : s.types.describe? s.root = some (.object fields))
    (hliterals : ∀ l ∈ e.options.literals.all, IsLine l) (h : e.emit s name = (.ok (), e')) :
    ∃ names start, ∀ (k : Nat) (key : String) (f : Field),
      (naturalOrder fields)[k]? = some (key, f) →
        (lines e'.text)[start]? = some ("export type " ++ freshName e.taken name ++ " = [") ∧
        ∃ x, typeExpr e.options.literals s.types names f.type = .ok x ∧
          (lines e'.text)[start + 1 + k]? =
            some ("  " ++ x.text ++ if k + 1 < fields.toList.length then "," else "") := by
  obtain ⟨names, elements, more, hdeclarations, hadds, helements⟩ :=
    exists_tuple_of_emit htuple hroot h
  obtain ⟨before, after, hlines⟩ := exists_lines_of_emit hliterals h hadds hdeclarations
  refine ⟨names, before.length, fun k key f hf ↦ ?_⟩
  obtain ⟨hk, hf⟩ := List.getElem?_eq_some_iff.1 hf
  have hk' : k < elements.length := helements.length_eq ▸ hk
  have hne : ¬ elements.isEmpty := by
    rw [List.isEmpty_iff]
    exact List.ne_nil_of_length_pos (Nat.zero_lt_of_lt hk')
  have hline : (Declaration.elementLines elements)[k]? = some ("  " ++ elements[k].text ++
      if k + 1 < fields.toList.length then "," else "") := by
    rw [Declaration.getElem?_elementLines, List.getElem?_eq_getElem hk', ← helements.length_eq,
      (naturalOrder_perm fields).length_eq]
    rfl
  rw [Declaration.tupleLines, if_neg hne] at hlines
  have helement := helements.get hk hk'
  refine ⟨?_, elements[k], ?_, ?_⟩
  · rw [hlines, List.getElem?_append_right (Nat.le_refl _), Nat.sub_self]
    rfl
  · simpa [hf] using helement
  · rw [hlines, List.getElem?_append_right (by omega), Nat.add_assoc, Nat.add_sub_cancel_left,
      Nat.add_comm 1 k, List.cons_append, List.getElem?_cons_succ, List.append_assoc]
    exact (List.getElem?_append_left (List.getElem?_eq_some_iff.1 hline).1).trans hline

end Lines

end Emitter

end Silhouette
