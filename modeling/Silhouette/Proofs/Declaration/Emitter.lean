import Silhouette.Command.Run
import Silhouette.Proofs.Declaration.Expression
import Silhouette.Proofs.Declaration.OneByOne
import Silhouette.Proofs.Inference.Inferred

/-!
# The declarations of an emitter

Declaring one structure adds a declaration for every name of it, and they say what the structure is
(`Declares`, `exists_declarationsOf_eq`).

An emitter that has declared some structures is `Sound`: its declarations can be read back, no name
is declared twice, and every name is taken, those of the literals too.  Declaring one more structure
succeeds and keeps this (`Sound.exists_emit_eq`); so do any number of them
(`Sound.exists_emitAll_eq`), and in the end the name of every root stands for the type that the root
unfolds to.

Nothing is said here about roots that are declared as tuples.
-/

set_option autoImplicit false

namespace Silhouette

open Registry Text

/-! ## One structure -/

theorem DeclaresAll.mono {literals : Literals} {r : Registry} {names : Names}
    {ds ds' : List Declaration} (h : DeclaresAll literals r names ds) (hds : ∀ d ∈ ds, d ∈ ds') :
    DeclaresAll literals r names ds' := by
  intro id fields name hg hname
  obtain ⟨asAlias, expr, hd, hexpr⟩ := h id fields name hg hname
  exact ⟨asAlias, expr, hds _ hd, hexpr⟩

/-- The declarations say what a structure is. -/
structure Declares (literals : Literals) (s : Structure) (rootName : String) (names : Names)
    (added : List Declaration) : Prop where
  names_eq : added.map Declaration.name = declaredNames s rootName names
  readable : ∀ d ∈ added, d.Readable literals.all
  objects : DeclaresAll literals s.types names added
  /-- A root that is no object has a declaration of its own. -/
  root : ¬ s.hasObjectRoot → ∃ e, .synonym rootName e ∈ added ∧
    Expresses literals s.types names s.root e

/-- **The name of the root stands for the type of the root**, also where more is declared. -/
theorem Declares.denotes {literals : Literals} {s : Structure} {rootName : String} {names : Names}
    {added ds : List Declaration} (h : Declares literals s rootName names added)
    (hroot : ∀ id, s.root = .node id → s.types.IsObject id → (id, rootName) ∈ names)
    (hliterals : literals.all.Nodup) (hds : (ds.map Declaration.name).Nodup)
    (hadded : ∀ d ∈ added, d ∈ ds) {t : TypeTree} (hu : s.types.Unfolds s.root t) :
    Denotes literals ds (.name rootName) t := by
  have hobjects := h.objects.mono hadded
  by_cases hobj : s.hasObjectRoot
  · obtain ⟨id, hid, fields, hg⟩ := hasObjectRoot_iff.1 hobj
    have hexp : Expresses literals s.types names s.root (.name rootName) := by
      rw [hid]
      exact .object hg (hroot id hid ⟨fields, hg⟩)
    exact hexp.denotes hliterals hds hobjects hu
  · obtain ⟨e, he, hexp⟩ := h.root hobj
    exact .synonym (hadded _ he) (hexp.denotes hliterals hds hobjects hu)

section Structures

variable {options : EmitOptions} {s : Structure} {rootName : String} {names : Names}
  {before taken : TakenNames} {expr : TypeId → TypeExpr} {entry : NodeId × String}

/-- The fields of a node that is registered as an object. -/
def Registry.fieldsOf (r : Registry) (id : NodeId) : Fields := (r.fields? (.node id)).getD ∅

theorem get?_fieldsOf {r : Registry} {id : NodeId} (h : r.IsObject id) :
    r.get? id = some (.object (r.fieldsOf id)) := by
  obtain ⟨fields, hg⟩ := h
  have hfields : r.fields? (.node id) = some fields :=
    fields?_eq_some_iff.2 (describe?_eq_some_iff.2 ⟨id, rfl, hg⟩)
  rw [fieldsOf, hfields, hg]
  rfl

/-- The record that a named object is declared as. -/
def recordFor (options : EmitOptions) (r : Registry) (expr : TypeId → TypeExpr)
    (entry : NodeId × String) : Declaration :=
  .record entry.2 options.useTypeAlias (propertiesOf expr (r.fieldsOf entry.1))

theorem Writes.field (hw : Writes options.literals s.types names expr) (hr : s.types.WellFormed)
    {id : NodeId} (hobj : s.types.IsObject id) {f : String × Field} (hf : f ∈ s.types.fieldsOf id) :
    typeExpr options.literals s.types names f.2.type = .ok (expr f.2.type) ∧
      Expresses options.literals s.types names f.2.type (expr f.2.type) :=
  hw _ (hr.knows_child (get?_fieldsOf hobj) (Descriptor.mem_children_object hf))

/-- An object is declared as a record of its fields, unless it is a tuple. -/
theorem declare_eq (htuple : options.rootAsTuple = false)
    (hw : Writes options.literals s.types names expr) (hr : s.types.WellFormed)
    (hobj : s.types.IsObject entry.1) :
    declare options s names entry = .ok [recordFor options s.types expr entry] := by
  have hnot : ¬ (options.rootAsTuple = true ∧ s.root = .node entry.1) := fun ⟨ht, _⟩ ↦ by
    rw [htuple] at ht
    cases ht
  have hproperties : ((s.types.fieldsOf entry.1).toList.mapM fun e : String × Field ↦ do
      return Property.mk e.1 e.2.isOptional (← typeExpr options.literals s.types names e.2.type)) =
        Except.ok (propertiesOf expr (s.types.fieldsOf entry.1)) :=
    mapM_eq_ok fun f hf ↦ by
      rw [(hw.field hr hobj hf).1]
      rfl
  rw [declare, get?_fieldsOf hobj]
  dsimp only
  rw [if_neg hnot, recordOf]
  dsimp only
  rw [hproperties]
  rfl

theorem readable_recordFor (hw : Writes options.literals s.types names expr) (hs : s.Proper)
    (hident : ∀ l ∈ options.literals.all, isIdentifier l)
    (hnames : ∀ e ∈ names, isIdentifier e.2 ∧ e.2 ∉ options.literals.all) (hentry : entry ∈ names)
    (hobj : s.types.IsObject entry.1) :
    (recordFor options s.types expr entry).Readable options.literals.all := by
  refine ⟨(hnames entry hentry).1, fun p hp ↦ ?_⟩
  obtain ⟨f, hf, rfl⟩ := List.mem_map.1 hp
  exact (hw.field hs.wellFormed hobj hf).2.readable hs.flatUnions hident hnames

theorem declaresAll_records (hw : Writes options.literals s.types names expr)
    (hr : s.types.WellFormed) :
    DeclaresAll options.literals s.types names (names.map (recordFor options s.types expr)) := by
  intro id fields name hg hname
  have hobj : s.types.IsObject id := ⟨fields, hg⟩
  have hfields : s.types.fieldsOf id = fields :=
    Descriptor.object.inj (Option.some.inj ((get?_fieldsOf hobj).symm.trans hg))
  refine ⟨options.useTypeAlias, expr, ?_, fun f hf ↦ (hw.field hr hobj (hfields ▸ hf)).2⟩
  rw [← hfields]
  exact List.mem_map_of_mem (f := recordFor options s.types expr) hname

/-- **All that a structure needs is declared.** -/
theorem exists_declarationsOf_eq (htuple : options.rootAsTuple = false)
    (hident : ∀ l ∈ options.literals.all, isIdentifier l) (hs : s.Proper)
    (hn : NamesAll s before rootName names taken)
    (hbefore : ∀ l ∈ options.literals.all, l ∈ before) :
    ∃ added, declarationsOf options s rootName names = .ok added ∧
      Declares options.literals s rootName names added := by
  have hnames : ∀ e ∈ names, isIdentifier e.2 ∧ e.2 ∉ options.literals.all := by
    intro e he
    have hmem : e.2 ∈ declaredNames s rootName names :=
      List.mem_append_right _ (List.mem_map_of_mem he)
    exact ⟨hn.isIdentifier _ hmem, fun hl ↦ hn.not_mem_before _ hmem (hbefore _ hl)⟩
  have hobj : ∀ e ∈ names, s.types.IsObject e.1 := fun e he ↦
    (hn.mem_ids_iff e.1).1 (List.mem_map_of_mem he)
  obtain ⟨expr, hw⟩ :=
    exists_writes options.literals hs.wellFormed fun id ↦ (hn.mem_ids_iff id).2
  have hrecords : names.mapM (declare options s names) =
      .ok (names.map fun e ↦ [recordFor options s.types expr e]) :=
    mapM_eq_ok fun e he ↦ declare_eq htuple hw hs.wellFormed (hobj e he)
  have hflatten : (names.map fun e ↦ [recordFor options s.types expr e]).flatten =
      names.map (recordFor options s.types expr) := by
    rw [← List.flatMap_def]
    exact List.flatMap_pure_eq_map (recordFor options s.types expr) names
  have hreadable : ∀ d ∈ names.map (recordFor options s.types expr),
      d.Readable options.literals.all :=
    List.forall_mem_map.2 fun e he ↦ readable_recordFor hw hs hident hnames he (hobj e he)
  have hnamesEq : (names.map (recordFor options s.types expr)).map Declaration.name =
      names.map Prod.snd := List.map_map
  have hobjects := declaresAll_records hw hs.wellFormed
  by_cases hroot : s.hasObjectRoot
  · refine ⟨_, ?_, ?_, hreadable, hobjects, fun h ↦ absurd hroot h⟩
    · rw [declarationsOf, declareRoot, if_pos hroot, hrecords, ← hflatten]
      rfl
    · rw [hnamesEq, declaredNames, if_pos hroot, List.nil_append]
  · obtain ⟨htype, hexp⟩ := hw s.root hs.knows_root
    have hrootName : isIdentifier rootName :=
      hn.isIdentifier _ (by rw [declaredNames, if_neg hroot]; exact List.mem_cons_self)
    refine ⟨.synonym rootName (expr s.root) :: names.map (recordFor options s.types expr),
      ?_, ?_, ?_, ?_, fun _ ↦ ⟨expr s.root, List.mem_cons_self, hexp⟩⟩
    · rw [declarationsOf, declareRoot, if_neg hroot, htype, hrecords, ← hflatten]
      rfl
    · rw [List.map_cons, hnamesEq, declaredNames, if_neg hroot]
      rfl
    · exact List.forall_mem_cons.2
        ⟨⟨hrootName, hexp.readable hs.flatUnions hident hnames⟩, hreadable⟩
    · exact hobjects.mono fun d hd ↦ List.mem_cons_of_mem _ hd

end Structures

/-! ## Any number of structures -/

namespace Emitter

/-- The names that the roots of some structures are given, one after another. -/
def rootNames (e : Emitter) : List Named → List String
  | [] => []
  | (name, s) :: rest => freshName e.taken name :: (e.emit s name).2.rootNames rest

/-- The options are those of an emitter whose text can be read back. -/
structure Legible (options : EmitOptions) : Prop where
  noTuple : options.rootAsTuple = false
  isIdentifier : ∀ l ∈ options.literals.all, Text.isIdentifier l
  nodup : options.literals.all.Nodup

/-- The declarations can be read back, and every name is taken that is declared or is a literal. -/
structure Sound (options : EmitOptions) (e : Emitter) : Prop where
  options_eq : e.options = options
  literal_taken : ∀ l ∈ options.literals.all, l ∈ e.taken
  readable : ∀ d ∈ e.declarations, d.Readable options.literals.all
  nodup : (e.declarations.map Declaration.name).Nodup
  name_taken : ∀ name ∈ e.declarations.map Declaration.name, name ∈ e.taken

namespace Sound

variable {options : EmitOptions} {e : Emitter}

theorem new (options : EmitOptions) : Sound options (Emitter.new options) where
  options_eq := rfl
  literal_taken l hl := by
    have hmem : l ∈ globalTypes ++ options.literals.all := List.mem_append_right _ hl
    rw [Emitter.new, Std.TreeSet.mem_ofList]
    simpa using hmem
  readable d hd := absurd hd List.not_mem_nil
  nodup := List.nodup_nil
  name_taken name hname := absurd hname List.not_mem_nil

/-- The declarations of one more structure go with those that are there. -/
theorem add (h : Sound options e) {s : Structure} {rootName : String} {names : Names}
    {taken : TakenNames} {added : List Declaration} (hn : NamesAll s e.taken rootName names taken)
    (hd : Declares options.literals s rootName names added) :
    Sound options { e with taken, declarations := e.declarations ++ added } where
  options_eq := h.options_eq
  literal_taken l hl := hn.taken_of_before l (h.literal_taken l hl)
  readable d hmem := by
    rcases List.mem_append.1 hmem with hmem | hmem
    · exact h.readable d hmem
    · exact hd.readable d hmem
  nodup := by
    rw [List.map_append, hd.names_eq]
    exact h.nodup.append hn.nodup fun name hold hnew ↦
      hn.not_mem_before name hnew (h.name_taken name hold)
  name_taken name hmem := by
    rw [List.map_append, hd.names_eq] at hmem
    rcases List.mem_append.1 hmem with hmem | hmem
    · exact hn.taken_of_before name (h.name_taken name hmem)
    · exact hn.mem_taken name hmem

/-- **One more structure is declared**, and its name stands for its type, whatever is declared
later. -/
theorem exists_emit_eq (h : Sound options e) (hoptions : Legible options) {s : Structure}
    (hs : s.Proper) {name : String} (hname : Text.isIdentifier name) :
    ∃ e', e.emit s name = (.ok (), e') ∧ Sound options e' ∧
      (∀ d ∈ e.declarations, d ∈ e'.declarations) ∧
        ∀ ds : List Declaration, (∀ d ∈ e'.declarations, d ∈ ds) →
          (ds.map Declaration.name).Nodup → ∀ t, s.types.Unfolds s.root t →
            Denotes options.literals ds (.name (freshName e.taken name)) t := by
  obtain ⟨names, taken, hassign, hn⟩ := exists_assignRoot_eq hs.wellFormed hs.knows_root
    hs.mem_reachable (isIdentifier_freshName e.taken hname) (freshName_not_mem e.taken name)
  obtain ⟨added, hadded, hd⟩ := exists_declarationsOf_eq hoptions.noTuple hoptions.isIdentifier hs
    hn h.literal_taken
  refine ⟨{ e with taken, declarations := e.declarations ++ added }, ?_, h.add hn hd,
    fun d hmem ↦ List.mem_append_left _ hmem, fun ds hds hnodup t hu ↦ ?_⟩
  · rw [← h.options_eq] at hadded
    rw [emit_of_isIdentifier e s hname, hassign]
    exact declareNamed_of_ok hadded
  · exact hd.denotes hn.mem_root hoptions.nodup hnodup
      (fun d hmem ↦ hds d (List.mem_append_right _ hmem)) hu

/-- **Any number of structures are declared**, and in the end every name stands for its type. -/
theorem exists_emitAll_eq (h : Sound options e) (hoptions : Legible options) {named : List Named}
    (hnamed : ∀ n ∈ named, Text.isIdentifier n.1 ∧ n.2.Proper) :
    ∃ e', e.emitAll named = .ok e' ∧ Sound options e' ∧
      (∀ d ∈ e.declarations, d ∈ e'.declarations) ∧
        List.Forall₂ (fun n name ↦ ∃ t, n.2.types.Unfolds n.2.root t ∧
          Denotes options.literals e'.declarations (.name name) t) named (e.rootNames named) := by
  induction named generalizing e with
  | nil => exact ⟨e, rfl, h, fun _ hd ↦ hd, .nil⟩
  | cons n rest ih =>
    obtain ⟨name, s⟩ := n
    obtain ⟨⟨hname, hs⟩, hrest⟩ := List.forall_mem_cons.1 hnamed
    obtain ⟨e₁, hemit, hsound, hkept, hroot⟩ := h.exists_emit_eq hoptions hs hname
    obtain ⟨e₂, hemitAll, hsound₂, hkept₂, hroots⟩ := ih hsound hrest
    refine ⟨e₂, ?_, hsound₂, fun d hd ↦ hkept₂ d (hkept d hd), ?_⟩
    · rw [emitAll, hemit]
      exact hemitAll
    · obtain ⟨t, ht⟩ := hs.wellFormed.exists_unfolds hs.knows_root
      rw [rootNames, hemit]
      exact .cons ⟨t, ht, hroot e₂.declarations hkept₂ hsound₂.nodup t ht⟩ hroots

end Sound

end Emitter

end Silhouette
