import Silhouette.Proofs.CompleteDeclarations
import Silhouette.Proofs.Declaration.LiteralLists
import Silhouette.Proofs.EmissionFaults

/-!
# Literals are text

A literal may be any type expression, and it is put into declarations as text.  Whatever the
literals are, the declarations can be read (`Emitter.exists_written`).  Whether they say what they
should is another question, and `Emitter.Respects` is what one would ask for: the name of a root
stands for the type of the root, with what the literals spell in the place of scalars and of the
type without values; and no name is declared that occurs in a literal.

Two things can go wrong.  Brackets are put behind a literal without parentheses, also if it is a
union; and a name is kept free only if it is all of a literal, not if it occurs in one.  So literals
are respected in all declarations just if none of them is a union and all names in them are literals
or global types (`Emitter.literals_respected_iff`).
-/

set_option autoImplicit false

namespace Silhouette

namespace Emitter

open Registry Text

variable {options : EmitOptions} {spell : String → Arms} {e : Emitter} {named : List Named}
  {ds : List DeclarationSyntax}

/-- All literals are type expressions, and roots are not declared as tuples. -/
structure Spelled (options : EmitOptions) (spell : String → Arms) : Prop where
  noTuple : options.rootAsTuple = false
  spells : ∀ l ∈ options.literals.all, Spells (tokens l) (.arms (spell l))

/-- **Declarations respect the literals.**  The text of the declarations of some structures is read,
and there the name of every root has, whatever names and constructors stand for, the value of its
type in which scalars and the type without values are what their literals spell; and no name is
declared that occurs in a literal. -/
def Respects (options : EmitOptions) (spell : String → Arms) (named : List Named) : Prop :=
  ∃ e ds, (new options).emitAll named = .ok e ∧ readModule e.text = some ds ∧
    List.Forall₂ (fun n root ↦ ∃ t, n.2.types.Unfolds n.2.root t ∧
      ∀ (A : Type) [SemilatticeSup A] (I : Interpretation A) (a : A),
        Means I ds (.reference root []) a ↔ a = options.literals.valueOf I spell t)
      named ((new options).rootNames named) ∧
    ∀ d ∈ e.declarations, ∀ l ∈ options.literals.all, TypeToken.word d.name ∉ tokens l

/-! ## Declarations of an inference are read -/

/-- All that a structure needs is among the declarations, its root under some name. -/
def Contains (options : EmitOptions) (e : Emitter) (s : Structure) (root : String) : Prop :=
  isIdentifier root ∧
    ∃ names added, Adds options s root names added ∧ ∀ d ∈ added, d ∈ e.declarations

/-- **One more structure is declared**, and literals can be put into its declarations. -/
theorem Reached.exists_emit_eq (he : Reached freshName options e) (hoptions : Spelled options spell)
    {s : Structure} (hs : s.Inferred) {name : String} (hname : isIdentifier name) :
    ∃ e' added, e.emit s name = (.ok (), e') ∧ e'.declarations = e.declarations ++ added ∧
      (∀ d ∈ added, ∃ d', d.SplicedAs d') ∧ Contains options e' s (freshName e.taken name) := by
  obtain ⟨error, failed, hemit, -⟩ | ⟨-, names, taken, added, hassign, hadded, hemit⟩ :=
    emit_cases e s name
  · obtain ⟨e', he'⟩ := hs.exists_emit_eq e hname
    rw [hemit] at he'
    cases he'
  · have hroot := isIdentifier_freshName e.taken hname
    have hfree := freshName_not_mem e.taken name
    rw [he.options_eq] at hadded
    have hadds := adds_of_declarationsOf hroot hassign hadded
    have hident := (handsOut_of_declarationsOf hroot hfree hassign hadded).isIdentifier
    refine ⟨_, added, hemit, rfl, ?_, hroot, names, added, hadds, ?_⟩
    · exact hadds.exists_splicedAs hoptions.spells hoptions.noTuple (List.forall_mem_map.1 hident)
    · exact fun d hd ↦ List.mem_append_right _ hd

/-- Any number of structures are declared. -/
theorem Reached.exists_emitAll_eq (he : Reached freshName options e)
    (hoptions : Spelled options spell) (hsplice : ∀ d ∈ e.declarations, ∃ d', d.SplicedAs d')
    (hnamed : ∀ n ∈ named, n.Declarable) :
    ∃ e', e.emitAll named = .ok e' ∧ Reached freshName options e' ∧
      (∀ d ∈ e.declarations, d ∈ e'.declarations) ∧
      (∀ d ∈ e'.declarations, ∃ d', d.SplicedAs d') ∧
      List.Forall₂ (fun n root ↦ Contains options e' n.2 root) named (e.rootNames named) := by
  induction named generalizing e with
  | nil => exact ⟨e, rfl, he, fun _ hd ↦ hd, hsplice, .nil⟩
  | cons n named ih =>
    obtain ⟨name, s⟩ := n
    obtain ⟨⟨hname, hs⟩, hnamed⟩ := List.forall_mem_cons.1 hnamed
    obtain ⟨e₁, added, hemit, hdeclarations, hadded, hident, names, more, hadds, hmore⟩ :=
      he.exists_emit_eq hoptions hs hname
    have he₁ : Reached freshName options (e.emit s name).2 := he.emit s name
    rw [hemit] at he₁
    have hsplice₁ : ∀ d ∈ e₁.declarations, ∃ d', d.SplicedAs d' := by
      rw [hdeclarations]
      exact List.forall_mem_append.2 ⟨hsplice, hadded⟩
    obtain ⟨e₂, hemitAll, he₂, hkept, hsplice₂, hroots⟩ := ih he₁ hsplice₁ hnamed
    refine ⟨e₂, ?_, he₂, fun d hd ↦ hkept d ?_, hsplice₂, ?_⟩
    · rw [emitAll, hemit]
      exact hemitAll
    · rw [hdeclarations]
      exact List.mem_append_left _ hd
    · rw [rootNames, hemit]
      exact .cons ⟨hident, names, more, hadds, fun d hd ↦ hkept d (hmore d hd)⟩ hroots

/-- Structures are declared one after another, and what is read in the end are their declarations
with the literals put in. -/
structure Written (options : EmitOptions) (named : List Named) (e : Emitter)
    (ds : List DeclarationSyntax) : Prop where
  run : (new options).emitAll named = .ok e
  reached : Reached freshName options e
  spliced : List.Forall₂ Declaration.SplicedAs e.declarations ds
  roots : List.Forall₂ (fun n root ↦ Contains options e n.2 root) named
    ((new options).rootNames named)

theorem exists_written (hoptions : Spelled options spell) (hnamed : ∀ n ∈ named, n.Declarable) :
    ∃ e ds, Written options named e ds := by
  obtain ⟨e, hrun, he, -, hsplice, hroots⟩ :=
    Reached.new.exists_emitAll_eq hoptions (fun _ hd ↦ absurd hd List.not_mem_nil) hnamed
  obtain ⟨ds, hds⟩ := exists_forall₂ hsplice
  exact ⟨e, ds, hrun, he, hds, hroots⟩

theorem exists_written_one (hoptions : Spelled options spell) {name : String}
    (hname : isIdentifier name) {s : Structure} (hs : s.Inferred) :
    ∃ e ds, Written options [(name, s)] e ds :=
  exists_written hoptions (List.forall_mem_singleton.2 ⟨hname, hs⟩)

namespace Written

variable (h : Written options named e ds)

include h

theorem readModule_text : readModule e.text = some ds := Silhouette.readModule_text h.spliced

theorem nodup : (ds.map DeclarationSyntax.name).Nodup := by
  rw [names_of_forall₂_splicedAs h.spliced]
  exact h.reached.handsOut.nodup

/-- What is read has no other names than what is declared. -/
theorem exists_name_eq : ∀ d' ∈ ds, ∃ d ∈ e.declarations, d'.name = d.name := fun d' hd' ↦ by
  obtain ⟨d, hd, hspliced⟩ := exists_mem_of_forall₂ h.spliced d' hd'
  exact ⟨d, hd, hspliced.name_eq⟩

/-! ## Literals that are respected -/

/-- **Single types that are made of literals and global types are respected.** -/
theorem respects (hoptions : Spelled options spell) (hnamed : ∀ n ∈ named, n.Declarable)
    (hsingle : ∀ l ∈ options.literals.all, (spell l).before = [])
    (hwords : ∀ l ∈ options.literals.all, ∀ x, TypeToken.word x ∈ tokens l →
      x ∈ globalTypes ∨ x ∈ options.literals.all) :
    Respects options spell named := by
  have hfree : ∀ d ∈ e.declarations, ∀ l ∈ options.literals.all,
      TypeToken.word d.name ∉ tokens l := by
    intro d hd l hl hword
    refine h.reached.handsOut.not_mem d.name (List.mem_map_of_mem hd) ?_
    rw [Emitter.new, Std.TreeSet.mem_ofList, List.contains_iff_mem, List.mem_append]
    exact hwords l hl d.name hword
  have hundisturbed : Undisturbed options.literals spell ds := by
    refine ⟨hoptions.spells, hsingle, fun l hl d' hd' ↦ ?_⟩
    obtain ⟨d, hd, hname⟩ := h.exists_name_eq d' hd'
    rw [hname]
    exact hfree d hd l hl
  refine ⟨e, ds, h.run, h.readModule_text, ?_, hfree⟩
  refine ((List.forall₂_and_left _ _).2 ⟨hnamed, h.roots⟩).imp ?_
  rintro n root ⟨⟨-, hn⟩, hroot, names, added, hadds, hadded⟩
  obtain ⟨t, ht⟩ := hn.proper.wellFormed.exists_unfolds hn.proper.knows_root
  refine ⟨t, ht, fun A _ I a ↦ ?_⟩
  have hmeans : Means I ds (.reference root []) (options.literals.valueOf I spell t) :=
    hadds.means_root hroot hoptions.noTuple hadded h.spliced hn.proper.flatUnions hundisturbed
      h.nodup ht
  refine ⟨fun ha ↦ ha.unique h.nodup hmeans, ?_⟩
  rintro rfl
  exact hmeans

end Written

/-! ## Literals that are not -/

section List

variable {name l : String} {s : Structure} {t : TypeTree}

/-- A list of what is written as a literal is declared with brackets behind the literal. -/
theorem Written.synonym_mem (h : Written options [(name, s)] e ds)
    (hl : options.literals.WrittenAs t l) (ht : s.types.Unfolds s.root (.array t)) :
    .synonym (freshName (new options).taken name) (.array (.literal l)) ∈ e.declarations := by
  obtain ⟨⟨-, names, added, hadds, hadded⟩, -⟩ := List.forall₂_cons.1 h.roots
  obtain ⟨root, objects, rfl, hroot, -⟩ := hadds.declared
  have hno : ¬ s.hasObjectRoot := by
    obtain ⟨item, hitem, -⟩ := ht.exists_item
    rw [Structure.hasObjectRoot, hitem]
    exact Bool.false_ne_true
  rw [if_neg hno] at hroot
  obtain ⟨type, rfl, hexp⟩ := hroot
  rw [← hl.expresses_list_eq ht hexp]
  exact hadded _ List.mem_cons_self

/-- It is read as what the literal spells, with brackets behind it. -/
theorem Written.synonym_mem_read (h : Written options [(name, s)] e ds)
    (hoptions : Spelled options spell) (hl : options.literals.WrittenAs t l)
    (ht : s.types.Unfolds s.root (.array t)) :
    .synonym (freshName (new options).taken name) (spell l).bracket.type ∈ ds := by
  have hmem := h.synonym_mem hl ht
  generalize freshName (new options).taken name = root at hmem ⊢
  obtain ⟨d', hd', hspliced⟩ := exists_mem_of_forall₂ h.spliced.flip _ hmem
  cases hspliced with
  | synonym _ ha =>
    cases ha with
    | enclosed hparens => cases hparens
    | array _ hb =>
      cases hb with
      | literal hb =>
        obtain rfl := hb.arms_unique (hoptions.spells l hl.mem_all)
        exact hd'

/-- **A literal that is respected in a list is a single type.** -/
theorem before_eq_nil_of_respects (hoptions : Spelled options spell) (hname : isIdentifier name)
    (hs : s.Inferred) (hl : options.literals.WrittenAs t l)
    (ht : s.types.Unfolds s.root (.array t)) (h : Respects options spell [(name, s)]) :
    (spell l).before = [] := by
  obtain ⟨e, ds, hw⟩ := exists_written_one hoptions hname hs
  obtain ⟨e', ds', hrun, hread, hroots, hfree⟩ := h
  cases hw.run.symm.trans hrun
  cases hw.readModule_text.symm.trans hread
  obtain ⟨⟨u, hu, hmeans⟩, -⟩ := List.forall₂_cons.1 hroots
  obtain rfl := ht.unique hu
  have hspells := (hoptions.spells l hl.mem_all).bracket
  have hlist : Means .depths ds _ _ :=
    .synonym (hw.synonym_mem_read hoptions hl ht) (hspells.means fun d' hd' hmem ↦ ?_)
  · refine Arms.before_eq_nil_of_value (((hmeans _ .depths _).1 hlist).trans ?_)
    rw [← hl.valueOf_eq]
    rfl
  · obtain ⟨d, hd, hname⟩ := hw.exists_name_eq d' hd'
    rw [hname] at hmem
    rcases List.mem_append.1 hmem with hmem | hmem
    · exact hfree d hd l hl.mem_all hmem
    · simp at hmem

/-- A name that is not kept free is declared if it is asked for. -/
theorem mem_of_respects (hoptions : Spelled options spell) (hs : s.Inferred)
    (hl : options.literals.WrittenAs t l) (ht : s.types.Unfolds s.root (.array t)) {l' : String}
    (hl' : l' ∈ options.literals.all) (hword : TypeToken.word name ∈ tokens l')
    (h : Respects options spell [(name, s)]) :
    name ∈ globalTypes ∨ name ∈ options.literals.all := by
  have hname : isIdentifier name := (hoptions.spells l' hl').fits _ hword
  obtain ⟨e, ds, hw⟩ := exists_written_one hoptions hname hs
  obtain ⟨e', ds', hrun, -, -, hfree⟩ := h
  cases hw.run.symm.trans hrun
  by_contra hno
  have hnew : name ∉ (new options).taken := by
    rwa [Emitter.new, Std.TreeSet.mem_ofList, List.contains_iff_mem, List.mem_append]
  have hmem := hw.synonym_mem hl ht
  rw [freshName_of_not_mem hnew] at hmem
  exact hfree _ hmem l' hl' hword

end List

/-- **Literals are put in as text, and not all are respected.**  If all literals are type
expressions and roots are not declared as tuples:

* structures that come from inferences are declared under any names that can be declared, and what
  is read from the text are their declarations with the literals put in;
* all such declarations respect the literals just if no literal is a union, and every name in a
  literal is a global type or all of a literal. -/
theorem literals_respected_iff (hoptions : Spelled options spell) :
    (∀ named : List Named, (∀ n ∈ named, n.Declarable) →
      ∃ e ds, (new options).emitAll named = .ok e ∧ readModule e.text = some ds ∧
        List.Forall₂ Declaration.SplicedAs e.declarations ds) ∧
    ((∀ named : List Named, (∀ n ∈ named, n.Declarable) → Respects options spell named) ↔
      (∀ l ∈ options.literals.all, (spell l).before = []) ∧
      ∀ l ∈ options.literals.all, ∀ x, TypeToken.word x ∈ tokens l →
        x ∈ globalTypes ∨ x ∈ options.literals.all) := by
  refine ⟨fun named hnamed ↦ ?_, fun h ↦ ⟨fun l hl ↦ ?_, fun l hl x hx ↦ ?_⟩, ?_⟩
  · obtain ⟨e, ds, hw⟩ := exists_written hoptions hnamed
    exact ⟨e, ds, hw.run, hw.readModule_text, hw.spliced⟩
  · obtain ⟨t, s, hl, hs, ht⟩ := Literals.exists_list hl
    have hname : isIdentifier "Root" := by decide
    exact before_eq_nil_of_respects hoptions hname hs hl ht
      (h _ (List.forall_mem_singleton.2 ⟨hname, hs⟩))
  · obtain ⟨t, s, hwritten, hs, ht⟩ := Literals.exists_list hl
    have hname : isIdentifier x := (hoptions.spells l hl).fits _ hx
    exact mem_of_respects hoptions hs hwritten ht hl hx
      (h _ (List.forall_mem_singleton.2 ⟨hname, hs⟩))
  · rintro ⟨hsingle, hwords⟩ named hnamed
    obtain ⟨e, ds, hw⟩ := exists_written hoptions hnamed
    exact hw.respects hoptions hnamed hsingle hwords

/-- What literals spell if they are names, except for one. -/
def spellOne (literal : String) (a : Arms) (l : String) : Arms :=
  if l = literal then a else .single (.reference l [])

theorem spelled_one {literal : String} {a : Arms} (htuple : options.rootAsTuple = false)
    (h : Spells (tokens literal) (.arms a))
    (hnames : ∀ l ∈ options.literals.all, l = literal ∨ isIdentifier l) :
    Spelled options (spellOne literal a) := by
  refine ⟨htuple, fun l hl ↦ ?_⟩
  rw [spellOne]
  split
  · next he => rwa [he]
  · next hne =>
    have hl := (hnames l hl).resolve_left hne
    rw [tokens_of_isIdentifier hl]
    exact .single (.name hl)

theorem spells_stringOrDate : Spells (tokens "string | Date")
    (.arms ⟨[.reference "string" []], .reference "Date" []⟩) :=
  .bar (.single (.name (by decide))) (.single (.name (by decide)))

/-- A map whose values are lists of a union is respected, also if it is the item of a list. -/
theorem literals_respected_iff_map :
    ∃ (a : Arms) (s : Structure),
      Spelled (withUuid "Map<string, (string | Date)[]>")
        (spellOne "Map<string, (string | Date)[]>" a) ∧
      inferSamples 1 [Scalar.uuid.sample] = .ok s ∧
      Respects (withUuid "Map<string, (string | Date)[]>")
        (spellOne "Map<string, (string | Date)[]>" a) [("Ids", s)] := by
  obtain ⟨s, hs⟩ := exists_ok_of_isOk Scalar.uuid.isOk_inferSamples
  have hstring : Spells [.word "string"] (.arm (.reference "string" [])) := .name (by decide)
  have harguments := Spells.comma (.argument (.single hstring))
    (.argument (.single (.list (.parenthesis spells_stringOrDate))))
  have hmap : Spells (tokens "Map<string, (string | Date)[]>") (.arm (.reference "Map" _)) :=
    .apply (by decide) harguments
  have hnames : ∀ l ∈ (withUuid "Map<string, (string | Date)[]>").literals.all,
      l = "Map<string, (string | Date)[]>" ∨ isIdentifier l := by decide
  have hspelled := spelled_one rfl (.single hmap) hnames
  have hids : isIdentifier "Ids" := by decide
  refine ⟨_, s, hspelled, hs, (literals_respected_iff hspelled).2.2 ⟨fun l _ ↦ ?_, ?_⟩ _
    (List.forall_mem_singleton.2 ⟨hids, .samples hs⟩)⟩
  · rw [spellOne]
    split <;> rfl
  · intro l hl x hx
    rcases hnames l hl with rfl | hident
    · have htokens : tokens "Map<string, (string | Date)[]>" =
          [.word "Map", .mark '<', .word "string", .mark ',', .mark '(', .word "string", .mark '|',
            .word "Date", .mark ')', .mark '[', .mark ']', .mark '>'] := by decide
      have hwords : x = "Map" ∨ x = "string" ∨ x = "Date" := by
        simpa [htokens, or_left_comm] using hx
      rcases hwords with rfl | rfl | rfl
      · exact .inl (by decide)
      · exact .inr (by decide)
      · exact .inl (by decide)
    · rw [tokens_of_isIdentifier hident, List.mem_singleton, TypeToken.word.injEq] at hx
      exact .inr (hx ▸ hl)

/-- Brackets are put behind a union as they are, and a name is declared that occurs in a literal. -/
theorem literals_not_respected :
    (∃ (spell : String → Arms) (s : Structure) (e : Emitter) (ds : List DeclarationSyntax),
      Spelled (withUuid "string | Date") spell ∧ inferSamples 1 [Scalar.uuid.sample] = .ok s ∧
      (new (withUuid "string | Date")).emitAll [("Root", s)] = .ok e ∧
      readModule e.text = some ds ∧
      .synonym "Root" (.union (.reference "string" []) (.list (.reference "Date" []))) ∈ ds ∧
      ¬ Respects (withUuid "string | Date") spell [("Root", s)]) ∧
    ∃ (spell : String → Arms) (s : Structure), Spelled (withUuid "Token[]") spell ∧
      inferSamples 1 [Scalar.uuid.sample] = .ok s ∧
      ¬ Respects (withUuid "Token[]") spell [("Token", s)] := by
  obtain ⟨s, hs⟩ := exists_ok_of_isOk Scalar.uuid.isOk_inferSamples
  have hlist := Scalar.unfolds_list hs
  refine ⟨?_, ?_⟩
  · have hspelled : Spelled (withUuid "string | Date") _ :=
      spelled_one rfl spells_stringOrDate (by decide)
    have hroot : isIdentifier "Root" := by decide
    have hl : (withUuid "string | Date").literals.WrittenAs (.scalar .uuid) _ := .scalar .uuid
    obtain ⟨e, ds, hw⟩ := exists_written_one hspelled hroot (.samples hs)
    have hmem := hw.synonym_mem_read hspelled hl hlist
    have hnew : "Root" ∉ (new (withUuid "string | Date")).taken := by
      rw [Emitter.new, Std.TreeSet.mem_ofList]
      decide
    rw [freshName_of_not_mem hnew] at hmem
    refine ⟨_, s, e, ds, hspelled, hs, hw.run, hw.readModule_text, hmem, fun h ↦ ?_⟩
    have hnil := before_eq_nil_of_respects hspelled hroot (.samples hs) hl hlist h
    exact absurd hnil (List.cons_ne_nil _ _)
  · have hspelled : Spelled (withUuid "Token[]") (spellOne "Token[]" (.single _)) :=
      spelled_one rfl (.single (.list (.name (by decide)))) (by decide)
    refine ⟨_, s, hspelled, hs, fun h ↦ ?_⟩
    have hl : (withUuid "Token[]").literals.WrittenAs (.scalar .uuid) _ := .scalar .uuid
    have hkept := mem_of_respects hspelled (.samples hs) hl hlist hl.mem_all (by decide) h
    exact absurd hkept (by decide)

end Emitter

end Silhouette
