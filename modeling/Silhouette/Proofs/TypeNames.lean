import Silhouette.Proofs.Declaration.TypeName
import Silhouette.Proofs.EmissionFaults
import Silhouette.Proofs.FreshNames

/-!
# All names are type names

A key may be any string, and so may the name of a file.  Names are made of both, and nobody looks at
them again before they are declared: what `pascalCase` makes of a key is a capital letter with
letters and digits behind it, whatever the key.

An emitter makes longer names of that.  What it declares for a structure is named after the root or
after a key, with `Item`s and numbers behind it (`Registry.NameFor`), and this goes through its walk
visit by visit: the hints of the next visits are such names if the hint of this one is
(`Visit.nameFor_of_mem_next`), and a name that is handed out is a hint or has a number behind it.
So it holds of all that is ever taken (`nameFor_of_mem_taken`), whether or not the structure can be
declared, and for structures of any kind (`Emitter.exists_nameFor_of_emit`).

Only what is named after the root can have a name of another kind, since that of the root is given.
A request for types one by one makes the names of the roots too, out of those of files; so all that
it declares has type names (`Request.AsksForTypes.exists_emitAll_eq`).
-/

set_option autoImplicit false

namespace Silhouette

open Registry Text

/-! ## What is named after what -/

/-- Some registered object has a field with this key. -/
def Registry.HasKey (r : Registry) (key : String) : Prop :=
  ∃ id fields, r.get? id = some (.object fields) ∧ key ∈ fields.keys

/-- The name of the root or of a key, with `Item`s and numbers behind it. -/
def Registry.NameFor (r : Registry) (rootName name : String) : Prop :=
  Suffixed rootName name ∨ ∃ key, r.HasKey key ∧ Suffixed (pascalCase key) name

section Walk

variable {r : Registry} {rootName hint name : String}

theorem Registry.NameFor.trans (h : r.NameFor rootName hint) (hname : Suffixed hint name) :
    r.NameFor rootName name :=
  h.imp (·.trans hname) fun ⟨key, hkey, hhint⟩ ↦ ⟨key, hkey, hhint.trans hname⟩

theorem Registry.NameFor.of_root (h : r.NameFor hint name) (hroot : Suffixed rootName hint) :
    r.NameFor rootName name :=
  h.imp_left hroot.trans

theorem Registry.NameFor.isTypeName (h : r.NameFor rootName name)
    (hroot : Text.isTypeName rootName) : Text.isTypeName name := by
  obtain hname | ⟨key, -, hname⟩ := h
  · exact hname.isTypeName hroot
  · exact hname.isTypeName (isTypeName_pascalCase key)

/-- A field is named after its key, a list's items and a union's members after what they are in. -/
theorem Visit.nameFor_of_mem_next {id : NodeId} {d : Descriptor} (hg : r.get? id = some d)
    (hhint : r.NameFor rootName hint) {v : Visit} (hv : v ∈ Visit.next hint d) :
    r.NameFor rootName v.hint := by
  obtain ⟨-, -, ⟨fields, key, rfl, hkey, hname⟩ | hitem | hsame⟩ := mem_next_cases hv
  · exact hname ▸ .inr ⟨key, ⟨id, fields, hg, hkey⟩, .base⟩
  · exact hitem ▸ hhint.trans (.item .base)
  · exact hsame ▸ hhint

/-- When a node has been visited, what is to be visited still has such hints. -/
theorem Visit.nameFor_visited {id : NodeId} {d : Descriptor} {isName : Bool} {queue : List Visit}
    (hg : r.get? id = some d)
    (hqueue : ∀ v ∈ (⟨.node id, hint, isName⟩ :: queue : List Visit), r.NameFor rootName v.hint) :
    ∀ v ∈ queue ++ Visit.next hint d, r.NameFor rootName v.hint := by
  obtain ⟨hhint, hrest⟩ := List.forall_mem_cons.1 hqueue
  exact List.forall_mem_append.2 ⟨hrest, fun _ hv ↦ nameFor_of_mem_next hg hhint hv⟩

/-- **All names that a walk takes are made of the root's name and of keys.** -/
theorem nameFor_of_mem_taken {seen : List NodeId} {taken : TakenNames} {names : Names}
    {queue : List Visit} (hqueue : ∀ v ∈ queue, r.NameFor rootName v.hint)
    (hname : name ∈ (assignNames freshName r seen taken names queue).2) :
    name ∈ taken ∨ r.NameFor rootName name := by
  induction seen, taken, names, queue using assignNames_induction freshName r with
  | nil seen taken names =>
    rw [assignNames_nil] at hname
    exact .inl hname
  | scalar seen taken names kind hint isName queue ih =>
    rw [assignNames_scalar] at hname
    exact ih (List.forall_mem_cons.1 hqueue).2 hname
  | again seen taken names id hint isName queue hs ih =>
    rw [assignNames_of_mem hs] at hname
    exact ih (List.forall_mem_cons.1 hqueue).2 hname
  | missing seen taken names id hint isName queue hs hg =>
    rw [assignNames_of_none hs hg] at hname
    exact .inl hname
  | given seen taken names id hint queue fields hs hg ih =>
    rw [assignNames_of_object hs hg, if_pos rfl] at hname
    exact ih (Visit.nameFor_visited hg hqueue) hname
  | object seen taken names id hint queue fields hs hg ih =>
    rw [assignNames_of_object hs hg, if_neg Bool.false_ne_true] at hname
    rcases ih (Visit.nameFor_visited hg hqueue) hname with hmem | hname
    · rcases mem_insert_taken.1 hmem with rfl | hmem
      · exact .inr ((List.forall_mem_cons.1 hqueue).1.trans (suffixed_freshName taken hint))
      · exact .inl hmem
    · exact .inr hname
  | other seen taken names id hint isName queue d hs hg hno ih =>
    rw [assignNames_of_not_isObject hs hg hno] at hname
    exact ih (Visit.nameFor_visited hg hqueue) hname

end Walk

namespace Emitter

theorem nameFor_of_mem_taken_emit {e : Emitter} {s : Structure} {rootName name : String}
    (h : name ∈ (e.emit s rootName).2.taken) : name ∈ e.taken ∨ s.types.NameFor rootName name := by
  by_cases hroot : isIdentifier rootName
  · have hfresh := suffixed_freshName e.taken rootName
    rw [emit, taken_emitWith freshName e s hroot] at h
    rcases nameFor_of_mem_taken (List.forall_mem_singleton.2 (.inl .base)) h with hmem | hname
    · rcases mem_insert_taken.1 hmem with rfl | hmem
      · exact .inr (.inl hfresh)
      · exact .inl hmem
    · exact .inr (hname.of_root hfresh)
  · rw [emit_of_not_isIdentifier e s hroot] at h
    exact .inl h

/-- **What is declared for a structure is named after its root or after a key of it**, and this
holds even of what is declared before a fault. -/
theorem exists_nameFor_of_emit (e : Emitter) (s : Structure) (rootName : String) :
    ∃ added, (e.emit s rootName).2.declarations = e.declarations ++ added ∧
      ∀ d ∈ added, s.types.NameFor rootName d.name := by
  obtain ⟨added, hadded, hnames⟩ := exists_handsOut_of_emit e s rootName
  refine ⟨added, hadded, fun d hd ↦ ?_⟩
  have hmem : d.name ∈ added.map Declaration.name := List.mem_map_of_mem hd
  exact (nameFor_of_mem_taken_emit (hnames.mem d.name hmem)).resolve_left
    (hnames.not_mem d.name hmem)

/-- All declarations have type names. -/
def HasTypeNames (e : Emitter) : Prop := ∀ d ∈ e.declarations, isTypeName d.name

theorem HasTypeNames.emit {e : Emitter} (h : e.HasTypeNames) (s : Structure) {name : String}
    (hname : isTypeName name) : (e.emit s name).2.HasTypeNames := by
  obtain ⟨added, hadded, hnames⟩ := exists_nameFor_of_emit e s name
  rw [HasTypeNames, hadded]
  exact List.forall_mem_append.2 ⟨h, fun d hd ↦ (hnames d hd).isTypeName hname⟩

/-- Type names for the roots make type names for all. -/
theorem HasTypeNames.emitAll {e e' : Emitter} (h : e.HasTypeNames) {named : List Named}
    (hnamed : ∀ n ∈ named, isTypeName n.1) (hok : e.emitAll named = .ok e') : e'.HasTypeNames := by
  induction named generalizing e with
  | nil =>
    cases hok
    exact h
  | cons n named ih =>
    obtain ⟨hn, hrest⟩ := List.forall_mem_cons.1 hnamed
    have hnext := h.emit n.2 hn
    rw [Emitter.emitAll] at hok
    rcases hemit : e.emit n.2 n.1 with ⟨error | _, next⟩
    · rw [hemit] at hok
      cases hok
    · rw [hemit] at hok hnext
      exact ih hnext hrest hok

end Emitter

/-! ## Types of several documents -/

namespace Request

/-- A request asks for the types of some documents one by one, and from all of them a structure is
inferred. -/
structure AsksForTypes (r : Request) (tree : FileTree) (input : Input) (options : EmitOptions)
    (named : List Named) : Prop where
  perFile : r.selection.perFile = true
  inferred : ∃ settings rootName typeAlias tupleRoot input',
    r.product = .types rootName typeAlias tupleRoot ∧
      (Request.settings tree.host r.selection.config).run input = (.ok settings, input') ∧
        emitOptions settings typeAlias tupleRoot = .ok options ∧
          ((structures tree.host r.selection settings
            ((rootName <|> settings.rootName <|> r.selection.queryId).getD "Root")).run input').1 =
              .ok named

/-- **Types that are asked for one by one are declared**, and all their names are type names. -/
theorem AsksForTypes.exists_emitAll_eq {r : Request} {tree : FileTree} {input : Input}
    {options : EmitOptions} {named : List Named} (h : r.AsksForTypes tree input options named) :
    ∃ e, (Emitter.new options).emitAll named = .ok e ∧
      ((r.produce tree.host).run.run input).1 = .ok e.text ∧ e.HasTypeNames := by
  obtain ⟨settings, rootName, typeAlias, tupleRoot, input', hproduct, hsettings, hoptions,
    hnamed⟩ := h.inferred
  have hmeets := structures_meets tree.host h.perFile settings
    ((rootName <|> settings.rootName <|> r.selection.queryId).getD "Root") input'
  rw [StateT.run, hnamed] at hmeets
  obtain ⟨e, he⟩ :=
    (Emitter.new options).exists_emitAll_eq fun n hn ↦ .of_isTypeName (hmeets n hn)
  have hnew : (Emitter.new options).HasTypeNames := fun d hd ↦ by cases hd
  refine ⟨e, he, ?_, hnew.emitAll (fun n hn ↦ (hmeets n hn).1) he⟩
  rw [StateT.run, produce, Work.run_bind_of_ok hsettings, hproduct]
  dsimp only
  rw [hoptions, Work.run_ofExcept_bind, Work.run_bind_of_ok (Prod.ext hnamed rfl), he,
    Work.run_ofExcept_bind]
  rfl

end Request

/-- **A name made of a key is always a type name.**

* It is a capital letter with letters and digits behind it.  So it is an identifier, and it stays
  both when `Item`s and numbers are put behind it.
* Without letters and digits in the key it is `Type`.  Otherwise they are all in the name, and
  nothing else is but a `T` in front just if the first of them is a digit: up to capitals the texts
  are the same, and the capitals are at the starts of the runs.
* A name made of it is that name again.  The keys that are their own names are just the type names.
* What an emitter declares for a structure has the name of the root or of a key, with `Item`s and
  numbers behind it.
* If types are asked for one by one, all that is declared has type names. -/
theorem keys_make_type_names :
    (∀ key : String,
      (∃ c cs, (pascalCase key).toList = c :: cs ∧ c.isUpper ∧ ∀ d ∈ cs, d.isAlphanum) ∧
      (∀ name, Suffixed (pascalCase key) name → isTypeName name ∧ isIdentifier name) ∧
      (lettersAndDigits key = [] → pascalCase key = "Type") ∧
      (∀ c cs, lettersAndDigits key = c :: cs →
        ∃ text, (pascalCase key).toList = (if c.isDigit then ['T'] else []) ++ text ∧
          text.map Char.toLower = (c :: cs).map Char.toLower ∧
          text = (runs key.toList).flatMap capitalize) ∧
      pascalCase (pascalCase key) = pascalCase key) ∧
    (∀ name, pascalCase name = name ↔ isTypeName name) ∧
    (∀ (e : Emitter) (s : Structure) (rootName : String),
      ∃ added, (e.emit s rootName).2.declarations = e.declarations ++ added ∧
        ∀ d ∈ added, s.types.NameFor rootName d.name) ∧
    ∀ (r : Request) (tree : FileTree) (input : Input) (options : EmitOptions) (named : List Named),
      r.AsksForTypes tree input options named →
        ∃ e, (Emitter.new options).emitAll named = .ok e ∧
          ((r.produce tree.host).run.run input).1 = .ok e.text ∧ e.HasTypeNames := by
  refine ⟨fun key ↦ ⟨isTypeName_iff.1 (isTypeName_pascalCase key), fun name hname ↦ ?_,
    pascalCase_of_lettersAndDigits_eq_nil, fun c cs h ↦ ⟨_, toList_pascalCase h, ?_, rfl⟩,
    pascalCase_pascalCase key⟩, fun _ ↦ pascalCase_eq_self_iff, Emitter.exists_nameFor_of_emit,
    fun r tree input options named h ↦ h.exists_emitAll_eq⟩
  · have htype := hname.isTypeName (isTypeName_pascalCase key)
    exact ⟨htype, isIdentifier_of_isTypeName htype⟩
  · rw [← capitalizeRuns_eq, map_toLower_capitalizeRuns, ← lettersAndDigits, h]

/-- A list in a file whose name starts with a digit.  Of the two keys in it, one is without letters
and digits. -/
def oddFiles : FileTree :=
  .ofList [("data/2nd-row.json", "[\x7b\"--\": \x7b\"9 lives\": \x7b\x7d\x7d\x7d]")]

/-- A request for the types of that file. -/
def oddTypes : Request :=
  ⟨⟨["data/2nd-row.json"], false, none, none, true, none⟩, .types none false false, none, .info⟩

/-- A key with letters of other alphabets in it, and a file whose types are all declared under type
names. -/
theorem keys_make_type_names_odd :
    pascalCase "2nd-größe_x" = "T2ndGrEX" ∧ pascalCase "T2ndGrEX" = "T2ndGrEX" ∧
    isIdentifier "T2ndGrEXItem3" ∧
    (∃ text, "T2ndGrEX".toList = 'T' :: text ∧
      text.map Char.toLower = "2ndgrex".toList.map Char.toLower) ∧
    ∃ (named : List Named) (e : Emitter), oddTypes.AsksForTypes oddFiles "" {} named ∧
      named.map Prod.fst = ["T2ndRow"] ∧
      ((oddTypes.produce oddFiles.host).run.run "").1 = .ok e.text ∧ e.HasTypeNames := by
  obtain ⟨hkeys, -, -, htypes⟩ := keys_make_type_names
  have hname : pascalCase "2nd-größe_x" = "T2ndGrEX" := by decide +kernel
  obtain ⟨-, hlonger, -, hkept, hagain⟩ := hkeys "2nd-größe_x"
  rw [hname] at hlonger hkept hagain
  obtain ⟨text, htext, hlower, -⟩ := hkept '2' "ndgrex".toList (by decide +kernel)
  have hitem := (hlonger _ (.number (.item .base) 3)).2
  obtain ⟨named, hnamed⟩ := exists_ok_of_isOk (by decide +kernel :
    ((Request.structures oddFiles.host oddTypes.selection {} "Root").run "").1.isOk)
  have hroots : ((Request.structures oddFiles.host oddTypes.selection {} "Root").run
      "").1.toOption.map (List.map Prod.fst) = some ["T2ndRow"] := by decide +kernel
  rw [hnamed] at hroots
  have hasks : oddTypes.AsksForTypes oddFiles "" {} named :=
    ⟨rfl, {}, none, false, false, "", rfl, rfl, rfl, hnamed⟩
  obtain ⟨e, -, hproduce, he⟩ := htypes _ _ _ _ _ hasks
  exact ⟨hname, hagain, hitem, ⟨text, htext, hlower⟩, named, e, hasks,
    Option.some.inj hroots, hproduce, he⟩

end Silhouette
