import Mathlib
import Silhouette.Proofs.Declaration.Adds
import Silhouette.Proofs.Declaration.Search
import Silhouette.Proofs.FaithfulDeclarations

/-!
# Declarations are complete, unique and closed

An emitter declares one structure after another, and some of them may fail.  After any of them, each
structure that is declared without an error adds what it should (`Adds`): one declaration for every
object that its root leads to, in breadth-first order and after that of the root, and what is
mentioned in them is declared among them.  Over the whole run no name is declared twice, and all
names can be declared: they are identifiers, and neither a global type nor a literal
(`Emitter.declarations_complete`).

This takes no assumption on structures: they may be cyclic, or refer to types that are missing, as
long as they are declared without an error.  The names go through the set of taken names, which
grows from one structure to the next, failed ones included (`Emitter.emit_cases`,
`Emitter.Reached.handsOut`).

It does take fewer than `nameLimit` taken names, since names are numbered in 32 bits.  One
structure, declared again and again under one name, gets any number of names to be taken
(`Emitter.again`), and in the end there is no name left or one that cannot be declared.  And
literals are text here: what they mention need not be declared with them
(`Emitter.declarations_incomplete`).
-/

set_option autoImplicit false

namespace Silhouette

namespace Emitter

open Text

variable {wraps : Bool} {find : NameFinder} {options : EmitOptions} {e : Emitter}

/-- An emitter with which some structures have been declared, whether or not that succeeded. -/
inductive Reached (find : NameFinder) (options : EmitOptions) : Emitter → Prop
  | new : Reached find options (.new options)
  | emit {e : Emitter} (h : Reached find options e) (s : Structure) (name : String) :
      Reached find options (e.emitWith find s name).2

/-- **Declaring a structure does one of two things**: it fails and takes some names, those of what
was declared before the fault among them; or it names the structure and adds its declarations. -/
theorem emit_cases (e : Emitter) (s : Structure) (name : String) :
    (∃ error failed, e.emit s name = (.error error, failed) ∧ failed.options = e.options ∧
      ∃ added, failed.declarations = e.declarations ++ added ∧
        HandsOut e.taken failed.taken (added.map Declaration.name)) ∨
    isIdentifier name ∧ ∃ names taken added,
      assignRoot s e.taken (freshName e.taken name) = (.ok names, taken) ∧
      declarationsOf e.options s (freshName e.taken name) names = .ok added ∧
      e.emit s name = (.ok (), { e with taken, declarations := e.declarations ++ added }) := by
  by_cases hname : isIdentifier name
  · have hident := isIdentifier_freshName e.taken hname
    have hfree := freshName_not_mem e.taken name
    have hstays : ∀ taken' ∈ e.taken,
        taken' ∈ (assignRoot s e.taken (freshName e.taken name)).2 := fun _ ht ↦
      mem_taken_assignNames (Std.TreeSet.mem_insert.2 (.inr ht))
    rcases hassign : assignRoot s e.taken (freshName e.taken name) with ⟨error | names, taken⟩
    · rw [hassign] at hstays
      rw [emit_of_isIdentifier e s hname, hassign]
      exact .inl ⟨error, _, rfl, rfl, [], (List.append_nil _).symm, .none hstays⟩
    · rw [emit_of_isIdentifier e s hname, hassign]
      dsimp only
      cases hadded : declarationsOf e.options s (freshName e.taken name) names with
      | error error =>
        obtain ⟨added, hnamed, hparts⟩ :=
          exists_declareNamed_of_error (e := { e with taken }) hadded
        refine .inl ⟨error, _, hnamed, rfl, added, rfl, ?_⟩
        obtain rfl | ⟨root, done, dss, hroot, hdone, hdss, rfl⟩ := hparts
        · exact .none (handsOut_of_assignRoot hident hfree hassign).stays
        · exact handsOut_of_prefix hident hfree hassign hroot hdone hdss
      | ok added =>
        exact .inr ⟨hname, names, taken, added, rfl, hadded,
          declareNamed_of_ok (e := { e with taken }) hadded⟩
  · exact .inl ⟨.invalidName name, e, emit_of_not_isIdentifier e s hname, rfl, [],
      (List.append_nil _).symm, .none fun _ h ↦ h⟩

/-- Whether or not a structure can be declared, the names of what is declared are handed out. -/
theorem exists_handsOut_of_emit (e : Emitter) (s : Structure) (name : String) :
    ∃ added, (e.emit s name).2.declarations = e.declarations ++ added ∧
      HandsOut e.taken (e.emit s name).2.taken (added.map Declaration.name) := by
  obtain ⟨error, failed, hemit, -, added, hadded, hnames⟩ |
      ⟨hname, names, taken, added, hassign, hadded, hemit⟩ := emit_cases e s name
  · rw [hemit]
    exact ⟨added, hadded, hnames⟩
  · rw [hemit]
    exact ⟨added, rfl, handsOut_of_declarationsOf (isIdentifier_freshName e.taken hname)
      (freshName_not_mem e.taken name) hassign hadded⟩

namespace Reached

theorem options_eq (h : Reached freshName options e) : e.options = options := by
  induction h with
  | new => rfl
  | @emit e _ s name ih =>
    obtain ⟨error, failed, hemit, hoptions, -⟩ | ⟨-, names, taken, added, -, -, hemit⟩ :=
      emit_cases e s name
    · rw [← Emitter.emit, hemit]
      exact hoptions.trans ih
    · rw [← Emitter.emit, hemit]
      exact ih

/-- **All names that are declared are handed out along the run.** -/
theorem handsOut (h : Reached freshName options e) :
    HandsOut (Emitter.new options).taken e.taken (e.declarations.map Declaration.name) := by
  induction h with
  | new => exact .none fun _ h ↦ h
  | @emit e _ s name ih =>
    obtain ⟨added, hadded, hnames⟩ := exists_handsOut_of_emit e s name
    rw [← Emitter.emit, hadded, List.map_append]
    exact ih.append hnames

/-- A run that takes few names is one in which all of them are fresh. -/
theorem fresh (h : Reached find options e) (hfind : Follows wraps find)
    (hroom : e.taken.size < nameLimit) : Reached freshName options e := by
  induction h with
  | new => exact .new
  | @emit e _ s name ih =>
    rw [emitWith_eq_emit hfind hroom]
    exact (ih (room_of_emitWith hroom)).emit s name

end Reached

/-- **Declarations are complete, unique and closed**, whatever the search for a name does when the
numbers run out.  After any structures have been declared, and whether or not that succeeded, as
long as fewer than `nameLimit` names are taken:

* a structure that is declared without an error adds what it should: one declaration for every
  object that its root leads to, in the order of a search by levels, after that of the root;
* what is mentioned in a declaration that is added, the text of literals apart, is an object that
  is declared there;
* no name is declared twice, and each is an identifier that is neither a global type nor a
  literal. -/
theorem declarations_complete (hfind : Follows wraps find) (he : Reached find options e)
    (hroom : e.taken.size < nameLimit) :
    (∀ (s : Structure) (name : String) (e' : Emitter), e.emitWith find s name = (.ok (), e') →
      e'.taken.size < nameLimit →
      ∃ names added, e'.declarations = e.declarations ++ added ∧
        Adds options s (find e.taken name) names added ∧
        ∀ d ∈ added, ∀ type ∈ d.types, ∀ mentioned, type.Mentions mentioned →
          ∃ id, (id, mentioned) ∈ names ∧
            ∃ d' ∈ added, DeclaredAs options s names (id, mentioned) d') ∧
    (e.declarations.map Declaration.name).Nodup ∧
    ∀ d ∈ e.declarations,
      (∃ c cs, d.name.toList = c :: cs ∧ isIdentifierStart c ∧ ∀ x ∈ cs, isIdentifierRest x) ∧
        d.name ∉ globalTypes ∧ d.name ∉ options.literals.all := by
  have hfresh := he.fresh hfind hroom
  refine ⟨fun s name e' h hroom' ↦ ?_, hfresh.handsOut.nodup, fun d hd ↦ ?_⟩
  · have heq : e.emitWith find s name = e.emit s name :=
      emitWith_eq_emit hfind (by rwa [h])
    rw [heq] at h
    rw [hfind.eq_freshName name hroom]
    obtain ⟨error, failed, hemit, -⟩ | ⟨hname, names, taken, added, hassign, hadded, hemit⟩ :=
      emit_cases e s name
    · rw [hemit] at h
      cases h
    · rw [hemit] at h
      cases h
      rw [hfresh.options_eq] at hadded
      have hadds := adds_of_declarationsOf (isIdentifier_freshName e.taken hname) hassign hadded
      exact ⟨names, added, rfl, hadds, hadds.closed⟩
  · have hmem : d.name ∈ e.declarations.map Declaration.name := List.mem_map_of_mem hd
    have hfree := hfresh.handsOut.not_mem d.name hmem
    rw [Emitter.new, Std.TreeSet.mem_ofList, List.contains_iff_mem, List.mem_append, not_or]
      at hfree
    exact ⟨isIdentifier_iff.1 (hfresh.handsOut.isIdentifier d.name hmem), hfree⟩

/-- An object with a key that is the name of a row of another one. -/
def rowsWithItem : Json :=
  .object [("rows", .array [.object [("at", .null)]]), ("rows_item", .object [])]

/-- How many objects the root of a structure reaches. -/
def objectCount (s : Structure) : Nat := (s.discovery.filter s.types.isObject).length

/-- One structure is declared twice under one name: the second time three objects are added once
more, and all names are different. -/
theorem declarations_complete_twice :
    ∃ (s : Structure) (e₁ e₂ : Emitter) (names : Names) (added : List Declaration),
      inferValue 256 rowsWithItem = .ok s ∧
      (new {}).emit s "Rows" = (.ok (), e₁) ∧ e₁.emit s "Rows" = (.ok (), e₂) ∧
      e₂.taken.size < nameLimit ∧ e₂.declarations = e₁.declarations ++ added ∧
      Adds {} s (freshName e₁.taken "Rows") names added ∧ names.length = 3 ∧
      (e₂.declarations.map Declaration.name).Nodup ∧
      ∀ d ∈ e₂.declarations, d.name ∉ globalTypes ∧ d.name ∉ Literals.all {} := by
  have hlegible := legible_default false
  have hrows : isIdentifier "Rows" := by decide
  obtain ⟨s, hs⟩ := exists_ok_of_isOk (by decide +kernel : (inferValue 256 rowsWithItem).isOk)
  have hproper := (Structure.Inferred.value hs).proper
  obtain ⟨e₁, he₁, hsound, -⟩ := (Sound.new {}).exists_emit_eq hlegible hproper hrows
  obtain ⟨e₂, he₂, -⟩ := hsound.exists_emit_eq hlegible hproper hrows
  have hreached₁ : Reached freshName {} e₁ := by
    have h : Reached freshName {} ((new {}).emit s "Rows").2 := .emit .new s "Rows"
    rwa [he₁] at h
  have hreached₂ : Reached freshName {} e₂ := by
    have h : Reached freshName {} (e₁.emit s "Rows").2 := hreached₁.emit s "Rows"
    rwa [he₂] at h
  have hcounts : (inferValue 256 rowsWithItem).toOption.map
      (fun s ↦ (objectCount s, s.types.size)) = some (3, 4) := by cbv
  rw [hs] at hcounts
  obtain ⟨hobjects, htypes⟩ := Prod.mk.inj (Option.some.inj hcounts)
  -- the limit is far away: each time takes a few names
  have hnew : (new {}).taken.size = 34 := by decide +kernel
  have hsize₁ := size_taken_emitWith_le freshName (new {}) s "Rows"
  have hsize₂ := size_taken_emitWith_le freshName e₁ s "Rows"
  rw [← Emitter.emit, he₁, hnew, htypes] at hsize₁
  rw [← Emitter.emit, he₂, htypes] at hsize₂
  have hroom₁ : e₁.taken.size < nameLimit := Nat.lt_of_le_of_lt hsize₁ (by decide)
  have hroom₂ : e₂.taken.size < nameLimit :=
    Nat.lt_of_le_of_lt (hsize₂.trans (Nat.add_le_add_right hsize₁ 5)) (by decide)
  obtain ⟨hadds, -⟩ := declarations_complete follows_freshName hreached₁ hroom₁
  obtain ⟨-, hnodup, hnames⟩ := declarations_complete follows_freshName hreached₂ hroom₂
  obtain ⟨names, added, hdeclarations, hadded, -⟩ := hadds s "Rows" e₂ he₂ hroom₂
  have hlength : names.length = 3 := by
    rw [← List.length_map Prod.fst, hadded.ids_eq]
    exact hobjects
  exact ⟨s, e₁, e₂, names, added, hs, he₁, he₂, hroom₂, hdeclarations, hadded, hlength, hnodup,
    fun d hd ↦ (hnames d hd).2⟩

/-! ## What is not complete -/

/-- A scalar and nothing else. -/
def scalarAlone (kind : Scalar) : Structure := ⟨.scalar kind, ∅⟩

/-- A scalar takes a name and no more. -/
theorem emitWith_scalarAlone (find : NameFinder) (e : Emitter) (kind : Scalar) {name : String}
    (hname : isIdentifier name) :
    e.emitWith find (scalarAlone kind) name =
      (.ok (), { e with
        taken := e.taken.insert (find e.taken name)
        declarations := e.declarations ++
          [.synonym (find e.taken name) (.literal (e.options.literals.scalar kind))] }) := by
  rw [emitWith_of_isIdentifier find e _ hname, scalarAlone, assignNames_scalar, assignNames_nil]
  rfl

/-- An object without fields takes a name and no more, too. -/
theorem emitWith_emptyObject (find : NameFinder) (e : Emitter) {s : Structure}
    (hroot : s.types.describe? s.root = some (.object ∅)) (htuple : e.options.rootAsTuple = false)
    {name : String} (hname : isIdentifier name) :
    e.emitWith find s name =
      (.ok (), { e with
        taken := e.taken.insert (find e.taken name)
        declarations := e.declarations ++
          [.record (find e.taken name) e.options.useTypeAlias []] }) := by
  obtain ⟨id, hid, hg⟩ := Registry.describe?_eq_some_iff.1 hroot
  have hobj : s.hasObjectRoot := hasObjectRoot_iff.2 ⟨id, hid, ∅, hg⟩
  rw [emitWith_of_isIdentifier find e s hname, hid, assignNames_of_object List.not_mem_nil hg,
    if_pos rfl, show Visit.next _ (.object ∅) = [] from rfl, List.append_nil, assignNames_nil]
  dsimp only
  rw [declareNamed, declareRoot, if_pos hobj]
  dsimp only [push]
  rw [List.nil_append, List.append_nil, declareEach, declare, hg]
  dsimp only
  rw [htuple, if_neg (by simp)]
  rfl

/-- One structure declared so many times, always to be called `X`. -/
def again (find : NameFinder) : (times : Nat) → Emitter
  | 0 => .new {}
  | times + 1 => ((again find times).emitWith find (scalarAlone .string) "X").2

theorem reached_again (find : NameFinder) (times : Nat) : Reached find {} (again find times) := by
  induction times with
  | zero => exact .new
  | succ times ih => exact ih.emit (scalarAlone .string) "X"

theorem again_succ (find : NameFinder) (times : Nat) :
    again find (times + 1) =
      { again find times with
        taken := (again find times).taken.insert (find (again find times).taken "X")
        declarations := (again find times).declarations ++
          [.synonym (find (again find times).taken "X")
            (.literal ((again find times).options.literals.scalar .string))] } := by
  rw [again, emitWith_scalarAlone find _ _ (by decide)]

/-- No literal and no global type starts like the name that is asked for. -/
theorem nameCandidate_not_mem_new (n : Nat) : nameCandidate "X" n ∉ (Emitter.new {}).taken := by
  have hstart : (nameCandidate "X" n).toList.head? = some 'X' := by
    cases n with
    | zero => rfl
    | succ n => rw [nameCandidate, String.toList_append]; rfl
  have hothers : ∀ name ∈ globalTypes ++ Literals.all {}, name.toList.head? ≠ some 'X' := by decide
  rw [Emitter.new, Std.TreeSet.mem_ofList, List.contains_iff_mem]
  exact fun hmem ↦ hothers _ hmem hstart

/-- Each time takes the next candidate, as long as there are numbers. -/
theorem mem_taken_again (hfind : Follows wraps find) {times : Nat} (hlimit : times ≤ nameLimit + 1)
    (hcount : wraps ∨ times ≤ nameLimit) (name : String) :
    name ∈ (again find times).taken ↔
      (∃ n < times, name = nameCandidate "X" n) ∨ name ∈ (Emitter.new {}).taken := by
  induction times generalizing name with
  | zero => simp [again]
  | succ times ih =>
    have ih := ih (by omega) (hcount.imp_right (by omega))
    have hfree : nameCandidate "X" times ∉ (again find times).taken := by
      rw [ih]
      rintro (⟨n, hn, heq⟩ | hmem)
      · exact absurd (nameCandidate_injective heq) (by omega)
      · exact nameCandidate_not_mem_new times hmem
    have hfound : find (again find times).taken "X" = nameCandidate "X" times :=
      hfind _ _ _ _ (.of_first_free (by omega) (hcount.imp_right (by omega))
        (fun n hn ↦ (ih _).2 (.inl ⟨n, hn, rfl⟩)) hfree)
    rw [again_succ, hfound]
    dsimp only
    rw [mem_insert_taken, ih, ← or_assoc, Nat.exists_lt_succ_right, or_comm (a := name = _)]

/-- What is declared last is called by the name that is found. -/
theorem exists_declared_again (find : NameFinder) (times : Nat) :
    ∃ d ∈ (again find (times + 1)).declarations, d.name = find (again find times).taken "X" := by
  rw [again_succ]
  exact ⟨_, List.mem_append_right _ (List.mem_singleton_self _), rfl⟩

/-- Options with a literal for uuids. -/
def withUuid (literal : String) : EmitOptions := { literals := Literals.set {} .uuid literal }

/-- **Declarations are not complete without a limit, and literals are not looked into.**

* If a search goes on at the least number behind the largest, then in the end a name is declared
  that is no identifier.
* If it breaks off there, then it finds no name in the end.
* If a literal is a list of `Row`, then an object may be declared as `Row` all the same, and the
  literal mentions it in the declarations of another structure. -/
theorem declarations_incomplete :
    (∃ find e, Follows true find ∧ Reached find {} e ∧
      ∃ d ∈ e.declarations, d.name = "X-2147483648" ∧ ¬ isIdentifier d.name) ∧
    (∃ find e, Follows false find ∧ Reached find {} e ∧
      ∀ probes name, ¬ Search false e.taken "X" "X" 2 probes name) ∧
    ∃ s e₁ e₂ d, inferValue 256 (.object []) = .ok s ∧
      (new (withUuid "Row[]")).emit s "Row" = (.ok (), e₁) ∧
      e₁.declarations = [.record "Row" false []] ∧
      e₁.emit (scalarAlone .uuid) "Ids" = (.ok (), e₂) ∧
      e₂.declarations = e₁.declarations ++ [d] ∧ d.text = "export type Ids = Row[];\n" := by
  refine ⟨?_, ?_, ?_⟩
  · obtain ⟨find, hfind⟩ := exists_follows true
    obtain ⟨d, hd, hname⟩ := exists_declared_again find (nameLimit + 1)
    have hmem := mem_taken_again hfind (Nat.le_refl _) (.inl rfl)
    have hfree : "X" ++ "-2147483648" ∉ (again find (nameLimit + 1)).taken := by
      rw [hmem]
      rintro (⟨n, -, heq⟩ | hnew)
      · exact append_least_ne_nameCandidate "X" n heq
      · revert hnew
        decide +kernel
    have hwrapped := hfind _ _ _ _ (search_wrapped
      (fun n hn ↦ (hmem _).2 (.inl ⟨n, Nat.lt_succ_of_le hn, rfl⟩)) hfree)
    rw [hwrapped] at hname
    exact ⟨find, _, hfind, reached_again find _, d, hd, hname, by rw [hname]; decide⟩
  · obtain ⟨find, hfind⟩ := exists_follows false
    have hmem := mem_taken_again hfind (Nat.le_succ _) (.inr (Nat.le_refl _))
    exact ⟨find, _, hfind, reached_again find nameLimit,
      not_search fun n hn ↦ (hmem _).2 (.inl ⟨n, hn, rfl⟩)⟩
  · obtain ⟨s, hs⟩ := exists_ok_of_isOk (by decide +kernel : (inferValue 256 (.object [])).isOk)
    have hroot : (inferValue 256 (.object [])).toOption.map (fun s ↦ s.types.describe? s.root) =
        some (some (.object ∅)) := by cbv
    rw [hs] at hroot
    have hrow : freshName (new (withUuid "Row[]")).taken "Row" = "Row" := by decide +kernel
    have hids : freshName ((new (withUuid "Row[]")).taken.insert "Row") "Ids" = "Ids" := by
      decide +kernel
    refine ⟨s, _, _, .synonym "Ids" (.literal "Row[]"), hs,
      emitWith_emptyObject freshName _ (Option.some.inj hroot) rfl (by decide), ?_,
      emitWith_scalarAlone freshName _ .uuid (by decide), ?_, by decide⟩
    · rw [hrow]
      rfl
    · dsimp only
      rw [hrow, hids]
      rfl

end Emitter

end Silhouette
