import Silhouette.Proofs.Declaration.Expression
import Silhouette.Proofs.Declaration.HandsOut
import Silhouette.Proofs.Declaration.OneByOne

/-!
# What one structure adds to the declarations

Declaring a structure walks through it twice: once to name its objects, and once more for every type
that is written out.  `Adds` says how the outcomes fit together, for any structure that is declared
without an error: there is one declaration for every object that the root leads to, in the order in
which they are found, each with its fields written out; and one before them for a root that is no
object.

A name in a type that is written out is the name that an object has been given (`Expresses`), so
there is a declaration of that object (`Adds.closed`).  All names of declarations are handed out in
one go (`handsOut_of_assignRoot`).
-/

set_option autoImplicit false

namespace Silhouette

open Registry Text

/-! ## Steps that succeed -/

section Steps

variable {ε α β : Type}

theorem exists_of_bind_eq_ok {x : Except ε α} {f : α → Except ε β} {b : β}
    (h : x >>= f = .ok b) : ∃ a, x = .ok a ∧ f a = .ok b := by
  cases x with
  | error e => cases h
  | ok a => exact ⟨a, rfl, h⟩

theorem forall₂_of_mapM_eq_ok {f : α → Except ε β} {l : List α} {bs : List β}
    (h : l.mapM f = .ok bs) : List.Forall₂ (fun a b ↦ f a = .ok b) l bs := by
  induction l generalizing bs with
  | nil =>
    cases h
    exact .nil
  | cons a l ih =>
    rw [List.mapM_cons] at h
    obtain ⟨b, hb, h⟩ := exists_of_bind_eq_ok h
    obtain ⟨rest, hrest, h⟩ := exists_of_bind_eq_ok h
    cases h
    exact .cons hb (ih hrest)

theorem exists_of_mapM_eq_ok {f : α → Except ε β} {l : List α} {bs : List β}
    (h : l.mapM f = .ok bs) : ∀ a ∈ l, ∃ b, f a = .ok b := by
  intro a ha
  obtain ⟨b, -, hb⟩ := exists_mem_of_forall₂ (forall₂_of_mapM_eq_ok h).flip a ha
  exact ⟨b, hb⟩

end Steps

/-! ## Types that are written out -/

section Types

variable {literals : Literals} {r : Registry} {names : Names} {id : TypeId} {e : TypeExpr}

/-- **What is written out is written as it should be.** -/
theorem expresses_of_typeExprWithin {height : Nat}
    (h : typeExprWithin literals r names height id = .ok e) : Expresses literals r names id e := by
  induction height generalizing id e with
  | zero =>
    cases id with
    | scalar kind =>
      rw [typeExprWithin] at h
      cases h
      exact .scalar kind
    | node id =>
      rw [typeExprWithin] at h
      cases h
  | succ height ih =>
    cases id with
    | scalar kind =>
      rw [typeExprWithin] at h
      cases h
      exact .scalar kind
    | node id =>
      rw [typeExprWithin] at h
      split at h
      · cases h
      · next fields hg =>
        split at h
        · next name hname =>
          cases h
          exact .object hg (mem_of_lookup_eq_some hname)
        · cases h
      · next item hg =>
        obtain ⟨e, he, h⟩ := exists_of_bind_eq_ok h
        cases h
        exact .array hg (ih he)
      · next members hg =>
        split at h
        · next hempty =>
          cases h
          exact .bottom hg (List.isEmpty_iff.1 hempty)
        · next hne =>
          obtain ⟨arms, harms, h⟩ := exists_of_bind_eq_ok h
          cases h
          have hparts := exists_of_mapM_eq_ok harms
          choose! expr hexpr using hparts
          obtain rfl := Except.ok.inj (harms.symm.trans (mapM_eq_ok hexpr))
          exact .union expr hg (mt List.isEmpty_iff.2 hne) fun m hm ↦
            ih (hexpr m ((writtenOrder_perm _).mem_iff.2 hm))

theorem expresses_of_typeExpr (h : typeExpr literals r names id = .ok e) :
    Expresses literals r names id e :=
  expresses_of_typeExprWithin h

end Types

/-! ## Objects -/

/-- A named object is declared, with the types of its fields written out: as a record, or as a tuple
if it is the root and tuples are asked for. -/
inductive DeclaredAs (options : EmitOptions) (s : Structure) (names : Names)
    (entry : NodeId × String) : Declaration → Prop
  | record {fields : Fields} {properties : List Property}
      (hg : s.types.get? entry.1 = some (.object fields))
      (hno : ¬ (options.rootAsTuple ∧ s.root = .node entry.1))
      (h : List.Forall₂ (fun f p ↦ p.key = f.1 ∧ p.optional = f.2.isOptional ∧
        Expresses options.literals s.types names f.2.type p.type) fields.toList properties) :
      DeclaredAs options s names entry (.record entry.2 options.useTypeAlias properties)
  | tuple {fields : Fields} {elements : List TypeExpr}
      (hg : s.types.get? entry.1 = some (.object fields))
      (hroot : options.rootAsTuple ∧ s.root = .node entry.1)
      (h : List.Forall₂ (fun f e ↦ Expresses options.literals s.types names f.2.type e)
        (naturalOrder fields) elements) :
      DeclaredAs options s names entry (.tuple entry.2 elements)

section Objects

variable {options : EmitOptions} {s : Structure} {names : Names} {entry : NodeId × String}
  {ds : List Declaration}

theorem DeclaredAs.name_eq {d : Declaration} (h : DeclaredAs options s names entry d) :
    d.name = entry.2 := by
  cases h <;> rfl

theorem declaredAs_of_recordOf {fields : Fields} {d : Declaration}
    (hg : s.types.get? entry.1 = some (.object fields))
    (hno : ¬ (options.rootAsTuple ∧ s.root = .node entry.1))
    (h : recordOf options s.types names entry.2 fields = .ok d) :
    DeclaredAs options s names entry d := by
  rw [recordOf] at h
  obtain ⟨properties, hproperties, h⟩ := exists_of_bind_eq_ok h
  cases h
  refine .record hg hno ((forall₂_of_mapM_eq_ok hproperties).imp fun f p hp ↦ ?_)
  obtain ⟨e, he, hp⟩ := exists_of_bind_eq_ok hp
  cases hp
  exact ⟨rfl, rfl, expresses_of_typeExpr he⟩

theorem declaredAs_of_tupleOf {fields : Fields} {d : Declaration}
    (hg : s.types.get? entry.1 = some (.object fields))
    (hroot : options.rootAsTuple ∧ s.root = .node entry.1)
    (h : tupleOf options s.types names entry.2 fields = .ok d) :
    DeclaredAs options s names entry d := by
  rw [tupleOf] at h
  obtain ⟨elements, helements, h⟩ := exists_of_bind_eq_ok h
  cases h
  exact .tuple hg hroot ((forall₂_of_mapM_eq_ok helements).imp fun f e ↦ expresses_of_typeExpr)

/-- **A named object is declared once.** -/
theorem exists_declaredAs_of_declare (hobj : s.types.IsObject entry.1)
    (h : declare options s names entry = .ok ds) :
    ∃ d, ds = [d] ∧ DeclaredAs options s names entry d := by
  obtain ⟨fields, hg⟩ := hobj
  rw [declare, hg] at h
  dsimp only at h
  split at h
  · next hroot =>
    obtain ⟨d, hd, h⟩ := exists_of_bind_eq_ok h
    cases h
    exact ⟨d, rfl, declaredAs_of_tupleOf hg hroot hd⟩
  · next hno =>
    obtain ⟨d, hd, h⟩ := exists_of_bind_eq_ok h
    cases h
    exact ⟨d, rfl, declaredAs_of_recordOf hg hno hd⟩

theorem forall₂_declaredAs_of_mapM {dss : List (List Declaration)} {entries : Names}
    (hobj : ∀ entry ∈ entries, s.types.IsObject entry.1)
    (h : List.Forall₂ (fun entry ds ↦ declare options s names entry = .ok ds) entries dss) :
    List.Forall₂ (DeclaredAs options s names) entries dss.flatten := by
  induction h with
  | nil => exact .nil
  | cons hds _ ih =>
    obtain ⟨hentry, hrest⟩ := List.forall_mem_cons.1 hobj
    obtain ⟨d, rfl, hd⟩ := exists_declaredAs_of_declare hentry hds
    exact .cons hd (ih hrest)

end Objects

/-! ## All declarations of a structure -/

/-- The declarations that are there for a structure whose objects have names: one for each of them,
after one for the root if that is no object. -/
structure Adds (options : EmitOptions) (s : Structure) (rootName : String) (names : Names)
    (added : List Declaration) : Prop where
  /-- Objects are named in the order in which they are found, level by level from the root. -/
  ids_eq : names.map Prod.fst = s.discovery.filter s.types.isObject
  /-- Just the objects that the root leads to are named. -/
  mem_ids_iff : ∀ id, id ∈ names.map Prod.fst ↔
    s.types.IsObject id ∧ ∃ root, s.root = .node root ∧ s.types.Leads root id
  nodup_ids : (names.map Prod.fst).Nodup
  /-- An object at the root comes first and has the name of the root. -/
  head_eq : ∀ id, s.root = .node id → s.types.IsObject id → names.head? = some (id, rootName)
  declared : ∃ root objects, added = root ++ objects ∧
    (if s.hasObjectRoot then root = []
      else ∃ e, root = [.synonym rootName e] ∧ Expresses options.literals s.types names s.root e) ∧
    List.Forall₂ (DeclaredAs options s names) names objects

section Adds

variable {options : EmitOptions} {s : Structure} {before taken : TakenNames} {rootName : String}
  {names : Names} {added : List Declaration}

theorem isObject_of_mem_names {found : List NodeId}
    (hids : names.map Prod.fst = found.filter s.types.isObject) {entry : NodeId × String}
    (h : entry ∈ names) : s.types.IsObject entry.1 := by
  have hmem : entry.1 ∈ found.filter s.types.isObject := hids ▸ List.mem_map_of_mem h
  exact isObject_iff.1 (List.mem_filter.1 hmem).2

/-- A root that is no object is declared as what it is written as. -/
theorem root_of_declareRoot {root : List Declaration}
    (h : declareRoot options s rootName names = .ok root) :
    if s.hasObjectRoot then root = []
    else ∃ e, root = [.synonym rootName e] ∧
      Expresses options.literals s.types names s.root e := by
  rw [declareRoot] at h
  by_cases hobj : s.hasObjectRoot
  · rw [if_pos hobj] at h ⊢
    exact (Except.ok.inj h).symm
  · rw [if_neg hobj] at h ⊢
    obtain ⟨e, he, h⟩ := exists_of_bind_eq_ok h
    exact ⟨e, (Except.ok.inj h).symm, expresses_of_typeExpr he⟩

theorem exists_parts_of_declarationsOf (hobj : ∀ entry ∈ names, s.types.IsObject entry.1)
    (h : declarationsOf options s rootName names = .ok added) :
    ∃ root objects, added = root ++ objects ∧
      (if s.hasObjectRoot then root = []
        else ∃ e, root = [.synonym rootName e] ∧
          Expresses options.literals s.types names s.root e) ∧
      List.Forall₂ (DeclaredAs options s names) names objects := by
  rw [declarationsOf] at h
  obtain ⟨root, hroot, h⟩ := exists_of_bind_eq_ok h
  obtain ⟨dss, hdss, h⟩ := exists_of_bind_eq_ok h
  cases h
  exact ⟨root, dss.flatten, rfl, root_of_declareRoot hroot,
    forall₂_declaredAs_of_mapM hobj (forall₂_of_mapM_eq_ok hdss)⟩

/-- **A structure that is named and declared without an error has all its declarations.** -/
theorem adds_of_declarationsOf (hname : isIdentifier rootName)
    (hassign : assignRoot s before rootName = (.ok names, taken))
    (h : declarationsOf options s rootName names = .ok added) :
    Adds options s rootName names added := by
  obtain ⟨found, more, hfound, hmore, hids, -⟩ := exists_discovers_of_assignRoot hassign hname
  refine ⟨?_, fun id ↦ ?_, ?_, fun id hroot hobj ↦ ?_,
    exists_parts_of_declarationsOf (fun entry ↦ isObject_of_mem_names hids) h⟩
  · rw [hids, Structure.eq_discovery hfound]
  · rw [hids, List.mem_filter, isObject_iff, Structure.eq_discovery hfound,
      Structure.mem_discovery_iff hfound, and_comm]
  · rw [hids]
    exact hfound.nodup.filter _
  · rw [hmore, rootEntry_of_object hroot hobj]
    rfl

theorem names_of_forall₂_declaredAs {objects : List Declaration} {entries : Names}
    (h : List.Forall₂ (DeclaredAs options s names) entries objects) :
    objects.map Declaration.name = entries.map Prod.snd := by
  induction h with
  | nil => rfl
  | cons hd _ ih => rw [List.map_cons, List.map_cons, hd.name_eq, ih]

theorem names_of_root {root : List Declaration}
    (h : if s.hasObjectRoot then root = []
      else ∃ e, root = [.synonym rootName e] ∧
        Expresses options.literals s.types names s.root e) :
    root.map Declaration.name = if s.hasObjectRoot then [] else [rootName] := by
  split at h
  · next hyes => rw [h, if_pos hyes]; rfl
  · next hno =>
    obtain ⟨e, rfl, -⟩ := h
    rw [if_neg hno]
    rfl

theorem Adds.names_eq (h : Adds options s rootName names added) :
    added.map Declaration.name = declaredNames s rootName names := by
  obtain ⟨root, objects, rfl, hroot, hobjects⟩ := h.declared
  rw [List.map_append, names_of_forall₂_declaredAs hobjects, declaredNames, names_of_root hroot]

/-! ## Names in types -/

/-- A declared type is referred to by its name, somewhere in an expression. -/
inductive TypeExpr.Mentions (name : String) : TypeExpr → Prop
  | name : Mentions name (.name name)
  | array {item : TypeExpr} (h : Mentions name item) : Mentions name (.array item)
  | union {arms : List TypeExpr} {arm : TypeExpr} (harm : arm ∈ arms) (h : Mentions name arm) :
      Mentions name (.union arms)

/-- The types that are written out in a declaration. -/
def Declaration.types : Declaration → List TypeExpr
  | synonym _ type => [type]
  | record _ _ properties => properties.map Property.type
  | tuple _ elements => elements

theorem Expresses.exists_mem_names {literals : Literals} {r : Registry} {id : TypeId}
    {e : TypeExpr} (h : Expresses literals r names id e) {name : String} (hname : e.Mentions name) :
    ∃ id, (id, name) ∈ names := by
  induction h with
  | scalar | bottom => cases hname
  | object _ hmem =>
    cases hname
    exact ⟨_, hmem⟩
  | array _ _ ih =>
    cases hname with
    | array hname => exact ih hname
  | union expr _ _ _ ih =>
    cases hname with
    | union harm hname =>
      obtain ⟨m, hm, rfl⟩ := List.mem_map.1 harm
      exact ih m ((writtenOrder_perm _).mem_iff.1 hm) hname

theorem DeclaredAs.exists_mem_names {entry : NodeId × String} {d : Declaration}
    (h : DeclaredAs options s names entry d) {e : TypeExpr} (he : e ∈ d.types) {name : String}
    (hname : e.Mentions name) : ∃ id, (id, name) ∈ names := by
  cases h with
  | record _ _ hps =>
    obtain ⟨p, hp, rfl⟩ := List.mem_map.1 he
    obtain ⟨f, -, -, -, hexp⟩ := exists_mem_of_forall₂ hps p hp
    exact hexp.exists_mem_names hname
  | tuple _ _ hes =>
    obtain ⟨f, -, hexp⟩ := exists_mem_of_forall₂ hes e he
    exact hexp.exists_mem_names hname

/-- **Declarations are closed**: whatever is mentioned in a type that is written out is the name of
an object, and that object is declared with it. -/
theorem Adds.closed (h : Adds options s rootName names added) :
    ∀ d ∈ added, ∀ e ∈ d.types, ∀ name, e.Mentions name →
      ∃ id, (id, name) ∈ names ∧ ∃ d' ∈ added, DeclaredAs options s names (id, name) d' := by
  intro d hd e he name hname
  obtain ⟨root, objects, rfl, hroot, hobjects⟩ := h.declared
  have hmem : ∃ id, (id, name) ∈ names := by
    rcases List.mem_append.1 hd with hd | hd
    · split at hroot
      · rw [hroot] at hd
        cases hd
      · obtain ⟨type, rfl, hexp⟩ := hroot
        rw [List.mem_singleton.1 hd, Declaration.types, List.mem_singleton] at he
        exact hexp.exists_mem_names (he ▸ hname)
    · obtain ⟨entry, -, hdeclared⟩ := exists_mem_of_forall₂ hobjects d hd
      exact hdeclared.exists_mem_names he hname
  obtain ⟨id, hid⟩ := hmem
  obtain ⟨d', hd', hdeclared⟩ := exists_mem_of_forall₂ hobjects.flip _ hid
  exact ⟨id, hid, d', List.mem_append_right _ hd', hdeclared⟩

/-! ## Names of declarations -/

/-- Whether or not the root is an object, its name is the first of those that are declared. -/
theorem declaredNames_rootEntry_append (s : Structure) (rootName : String) (more : Names) :
    declaredNames s rootName (s.rootEntry rootName ++ more) = rootName :: more.map Prod.snd := by
  by_cases h : s.hasObjectRoot
  · obtain ⟨root, hroot, hobj⟩ := hasObjectRoot_iff.1 h
    rw [declaredNames, if_pos h, rootEntry_of_object hroot hobj]
    rfl
  · rw [declaredNames, if_neg h, rootEntry_of_not_object h]
    rfl

/-- **The names for declarations are handed out in one go**, before anything is declared. -/
theorem handsOut_of_assignRoot (hname : isIdentifier rootName) (hfree : rootName ∉ before)
    (hassign : assignRoot s before rootName = (.ok names, taken)) :
    HandsOut before taken (declaredNames s rootName names) := by
  obtain ⟨-, more, -, rfl, -, hmore⟩ := exists_discovers_of_assignRoot hassign hname
  rw [declaredNames_rootEntry_append]
  exact (HandsOut.one hname hfree).append hmore

/-- All of them are used if nothing goes wrong. -/
theorem handsOut_of_declarationsOf (hname : isIdentifier rootName) (hfree : rootName ∉ before)
    (hassign : assignRoot s before rootName = (.ok names, taken))
    (h : declarationsOf options s rootName names = .ok added) :
    HandsOut before taken (added.map Declaration.name) := by
  rw [(adds_of_declarationsOf hname hassign h).names_eq]
  exact handsOut_of_assignRoot hname hfree hassign

/-- If something goes wrong, the first of them may have been used. -/
theorem handsOut_of_prefix (hname : isIdentifier rootName) (hfree : rootName ∉ before)
    (hassign : assignRoot s before rootName = (.ok names, taken)) {root : List Declaration}
    {done : Names} {dss : List (List Declaration)}
    (hroot : declareRoot options s rootName names = .ok root) (hdone : done <+: names)
    (hdss : done.mapM (declare options s names) = .ok dss) :
    HandsOut before taken ((root ++ dss.flatten).map Declaration.name) := by
  obtain ⟨found, -, -, -, hids, -⟩ := exists_discovers_of_assignRoot hassign hname
  have hobj : ∀ entry ∈ done, s.types.IsObject entry.1 := fun entry hentry ↦
    isObject_of_mem_names hids (hdone.subset hentry)
  have hobjects := forall₂_declaredAs_of_mapM hobj (forall₂_of_mapM_eq_ok hdss)
  refine (handsOut_of_assignRoot hname hfree hassign).sublist ?_
  rw [List.map_append, names_of_forall₂_declaredAs hobjects, declaredNames,
    names_of_root (root_of_declareRoot hroot)]
  exact (List.Sublist.refl _).append (hdone.sublist.map Prod.snd)

end Adds

end Silhouette
