import Silhouette.Proofs.Command.TwoRuns
import Silhouette.Proofs.Text.Rows

/-!
# Rows in many files or in one

If every row of the input is a sample, it does not matter which file a row is in, or how many blank
lines there are around it: over many files a request makes the same as over the one file that holds
all of their texts, or it fails over both (`Request.rows_joined`).  That takes a request for one
type for all files, and files that end where a line ends.

All rows of a document become values before the pointer goes to a part of each.  As far as the
results go, this is the same as taking every row to its sample at once (`Selection.sample?`), so the
samples of the documents one after another are those of all their rows
(`Selection.toOption_documents`).  The inference is told nothing else about the documents.  Which
error comes up, and what it says of files and lines, may be different.
-/

set_option autoImplicit false

namespace Silhouette

variable {tree tree' : FileTree}

/-! ## The samples in a row of documents -/

/-- The sample in a row, if there is one. -/
def Selection.sample? (s : Selection) (row : String) : Option Json := do
  let v ← (Json.parse row).toOption
  match s.jsonPointer with
  | none => v
  | some pointer => v.pointer? pointer

namespace Source

variable {s : Selection}

theorem map_fst_rows (source : Source) : source.rows.map Prod.fst = Text.rows source.text := by
  rw [rows, Text.rows]
  conv_rhs => rw [← List.zipIdx_map_fst 1 (Text.lines source.text), List.filter_map]
  rfl

theorem toOption_part (source : Source) (pointer? : Option String) (v : Json) :
    (source.part pointer? v).toOption =
      match pointer? with
      | none => some v
      | some pointer => v.pointer? pointer := by
  cases pointer? with
  | none => rfl
  | some pointer =>
    rw [part]
    dsimp only
    cases v.pointer? pointer <;> rfl

/-- Parsing all and then selecting in all is parsing and selecting one by one. -/
theorem mapM_bind_mapM {α β γ : Type} (f : α → Option β) (g : β → Option γ) (l : List α) :
    (l.mapM f >>= fun bs ↦ bs.mapM g) = l.mapM fun a ↦ f a >>= g := by
  induction l with
  | nil => rfl
  | cons a l ih =>
    rw [List.mapM_cons, List.mapM_cons, ← ih]
    cases f a with
    | none => rfl
    | some b =>
      cases l.mapM f with
      | none =>
        show none = g b >>= fun _ ↦ none
        cases g b <;> rfl
      | some bs => exact (List.mapM_cons (f := g) : (b :: bs).mapM g = _)

theorem toOption_samples (source : Source) :
    (source.samples true).toOption =
      (Text.rows source.text).mapM fun row ↦ (Json.parse row).toOption := by
  rw [samples, if_pos rfl, Outcome.toOption_mapM, ← source.map_fst_rows, List.mapM_map]
  exact congrArg (source.rows.mapM ·) (funext fun row ↦ Outcome.toOption_mapError _ _)

/-- **The samples of a document** are those of its rows. -/
theorem toOption_document (hrows : s.ndjson = true) (source : Source) :
    (source.document s).toOption.map Document.samples = (Text.rows source.text).mapM s.sample? := by
  have hmap : (source.document s).toOption.map Document.samples =
      (source.samples s.ndjson).toOption >>= fun found ↦
        found.mapM fun v ↦ (source.part s.jsonPointer v).toOption := by
    rw [document, Outcome.toOption_bind]
    cases (source.samples s.ndjson).toOption with
    | none => rfl
    | some found =>
      show Option.map _ (Except.toOption _) = found.mapM _
      rw [Outcome.toOption_bind, Outcome.toOption_mapM]
      cases found.mapM fun v ↦ (source.part s.jsonPointer v).toOption <;> rfl
  rw [hmap, hrows, toOption_samples, mapM_bind_mapM]
  refine congrArg (List.mapM · _) (funext fun row ↦ ?_)
  rw [Selection.sample?]
  simp only [toOption_part]

end Source

namespace Selection

variable {s : Selection}

/-- **The samples of documents, one after another,** are those of all their rows. -/
theorem toOption_documents (hrows : s.ndjson = true) (sources : List Source) :
    (sources.mapM (Source.document · s)).toOption.map (List.flatMap Document.samples) =
      (sources.flatMap fun source ↦ Text.rows source.text).mapM s.sample? := by
  induction sources with
  | nil => rfl
  | cons source sources ih =>
    rw [List.flatMap_cons, List.mapM_append, ← ih, ← source.toOption_document hrows,
      List.mapM_cons, Outcome.toOption_bind]
    cases (source.document s).toOption with
    | none => rfl
    | some d =>
      show Option.map _ (Except.toOption _) = _
      rw [Outcome.toOption_bind]
      cases (sources.mapM (Source.document · s)).toOption <;> rfl

/-! ## Files under literal paths -/

/-- An input that is just a path. -/
def IsLiteral (input : String) : Prop := input ≠ "-" ∧ Glob.isPattern input = false

end Selection

/-- The name of a source is a path, and its text is what that path leads to. -/
structure FileTree.Holds (t : FileTree) (source : Source) : Prop where
  literal : Selection.IsLiteral source.name
  read : t.read source.name = .ok source.text

namespace Selection

variable {s : Selection}

theorem sources_of_holds {source : Source} (h : tree.Holds source) :
    sources tree.host source.name = pure [source] := by
  obtain ⟨⟨hdash, hpattern⟩, hread⟩ := h
  have hpaths : paths tree.host source.name = pure [source.name] := by
    rw [paths, hpattern]
    rfl
  have hfile : Work.ofAction (.unreadable source.name) (tree.host.readFile source.name) =
      (pure source.text : Work (StateM Input) String) := by
    show Work.ofAction _ (pure (tree.read source.name)) = _
    rw [hread]
    rfl
  rw [sources, if_neg hdash, hpaths, pure_bind, List.mapM_cons, hfile]
  rfl

/-- What is read from files is not read from the input. -/
theorem documents_of_holds {sources : List Source} (hinputs : s.inputs = sources.map Source.name)
    (h : ∀ source ∈ sources, tree.Holds source) :
    s.documents tree.host = Work.ofExcept (sources.mapM (Source.document · s)) := by
  rw [documents, hinputs]
  clear hinputs
  induction sources with
  | nil => rfl
  | cons source sources ih =>
    obtain ⟨hsource, hsources⟩ := List.forall_mem_cons.1 h
    rw [List.map_cons, List.mapM_cons, List.mapM_cons, sources_of_holds hsource, Work.ofExcept_bind]
    simp only [pure_bind, bind_assoc, List.mapM_cons, List.mapM_nil]
    refine congrArg _ (funext fun d ↦ ?_)
    rw [Work.ofExcept_bind, ← ih hsources, bind_assoc]
    rfl

end Selection

/-! ## The same request over other files -/

namespace Request

/-- The same request over the files that some sources come from. -/
def onFiles (r : Request) (sources : List Source) : Request :=
  { r with selection := { r.selection with inputs := sources.map Source.name } }

section SameRows

variable {r : Request} {sources sources' : List Source}
  (hrows : r.selection.ndjson = true) (hper : r.selection.perFile = false)
  (hread : ∀ source ∈ sources, tree.Holds source)
  (hread' : ∀ source ∈ sources', tree'.Holds source)
  (hsame : (sources.flatMap fun source ↦ Text.rows source.text) =
    sources'.flatMap fun source ↦ Text.rows source.text)

include hrows hread hread' hsame

theorem documents_alike :
    Work.Alike (fun ds ds' ↦ ds.flatMap Document.samples = ds'.flatMap Document.samples)
      ((r.onFiles sources).selection.documents tree.host)
      ((r.onFiles sources').selection.documents tree'.host) := by
  rw [Selection.documents_of_holds rfl hread, Selection.documents_of_holds rfl hread']
  refine .ofExcept (Outcome.Alike.iff_toOption.2 ?_)
  have hsamples : ∀ files : List Source,
      (files.mapM (Source.document · (r.onFiles files).selection)).toOption.map
          (List.flatMap Document.samples) =
        (files.flatMap fun source ↦ Text.rows source.text).mapM r.selection.sample? :=
    fun files ↦ Selection.toOption_documents (s := (r.onFiles files).selection) hrows files
  rw [hsamples, hsamples, hsame]

include hper

theorem structures_alike (settings : Settings) (name : String) :
    Work.Alike Eq (structures tree.host (r.onFiles sources).selection settings name)
      (structures tree'.host (r.onFiles sources').selection settings name) := by
  refine (documents_alike hrows hread hread' hsame).bind fun ds ds' hds ↦ ?_
  have hjobs : ∀ ds, Job.ofDocuments r.selection.perFile name ds =
      [⟨name, ds.flatMap Document.samples⟩] := fun ds ↦ by
    rw [Job.ofDocuments, hper]
    rfl
  show Work.Alike Eq (List.mapM _ (Job.ofDocuments r.selection.perFile name ds))
    (List.mapM _ (Job.ofDocuments r.selection.perFile name ds'))
  rw [hjobs, hjobs, hds]
  exact .mapM (fun job ↦ .bind_same (.ofExcept_same _) fun s ↦ .pure rfl) _

omit hrows hper hread hread' hsame in
theorem settings_alike (config? : Option String)
    (h : ∀ file, config? = some file → tree'.read file = tree.read file) :
    Work.Alike Eq (settings tree.host config?) (settings tree'.host config?) := by
  unfold settings
  cases config? with
  | none => exact .pure rfl
  | some file =>
    have hfile : tree'.host.readFile file = tree.host.readFile file :=
      congrArg (pure (f := StateM Input)) (h file rfl)
    dsimp only
    rw [hfile]
    exact .bind_same (.ofExcept_same _) fun text ↦ .ofExcept_same _

/-- **The same rows make the same product.** -/
theorem produce_alike
    (hconfig : ∀ file, r.selection.config = some file → tree'.read file = tree.read file) :
    Work.Alike Eq ((r.onFiles sources).produce tree.host)
      ((r.onFiles sources').produce tree'.host) := by
  have hnamed := structures_alike hrows hper hread hread' hsame
  have hproduct : ∀ sources, (r.onFiles sources).product = r.product := fun _ ↦ rfl
  unfold produce
  refine (settings_alike r.selection.config hconfig).bind_same fun settings ↦ ?_
  rw [hproduct, hproduct]
  cases r.product with
  | types rootName typeAlias tupleRoot =>
    exact .bind_same (.ofExcept_same _) fun options ↦ (hnamed settings _).bind_same fun named ↦
      .bind_same (.ofExcept_same _) fun emitter ↦ .pure rfl
  | graph => exact (hnamed settings _).bind_same fun named ↦ .pure rfl

end SameRows

/-- Two requests that make the same, or fail both, leave the same behind or fail both. -/
theorem run_of_produce_alike {r r' : Request} {input input' : Input} (hout : r'.out = r.out)
    (h : Work.Alike Eq (r.produce tree.host) (r'.produce tree.host)) :
    ((r.run tree input).error? = none ↔ (r'.run tree input').error? = none) ∧
      ((r.run tree input).error? = none → r.run tree input = r'.run tree input') := by
  have hmade : Outcome.Alike Eq ((r.produce tree.host).run.run input).1
    ((r'.produce tree.host).run.run input').1 := h input input'
  rw [run, run, hout]
  revert hmade
  rcases ((r.produce tree.host).run.run input).1 with e | text <;>
    rcases ((r'.produce tree.host).run.run input').1 with e' | text' <;> intro hmade
  · exact ⟨⟨nofun, nofun⟩, nofun⟩
  · exact hmade.elim
  · exact hmade.elim
  · obtain rfl : text = text' := hmade
    exact ⟨.rfl, fun _ ↦ rfl⟩

/-- **Rows in many files or in one.**  A request takes every row for a sample and makes one type for
all files.  There are some files, each empty or up to the end of a line, and one that holds their
texts one after another; blank lines may have been put wherever a line starts in any of these.  Then
over the many files the request makes the same text as over the one, or it makes none over both.  If
all of them are there together, then it fails over both or leaves behind the same. -/
theorem rows_joined {r : Request} {sources : List Source} {texts : List String} {whole : Source}
    (hrows : r.selection.ndjson = true) (hper : r.selection.perFile = false)
    (hread : ∀ source ∈ sources, tree.Holds source) (hread' : tree'.Holds whole)
    (hclosed : ∀ text ∈ texts, Text.IsClosed text)
    (htexts : List.Forall₂ Text.Padded texts (sources.map Source.text))
    (hwhole : Text.Padded (String.join texts) whole.text)
    (hconfig : ∀ file, r.selection.config = some file → tree'.read file = tree.read file)
    (input input' : Input) :
    (((r.onFiles sources).produce tree.host).run input).1.toOption =
        (((r.onFiles [whole]).produce tree'.host).run input').1.toOption ∧
      (tree' = tree →
        (((r.onFiles sources).run tree input).error? = none ↔
          ((r.onFiles [whole]).run tree input').error? = none) ∧
        (((r.onFiles sources).run tree input).error? = none →
          (r.onFiles sources).run tree input = (r.onFiles [whole]).run tree input')) := by
  have hsame : (sources.flatMap fun source ↦ Text.rows source.text) =
      [whole].flatMap fun source ↦ Text.rows source.text := by
    rw [List.flatMap_singleton, hwhole.rows_eq, Text.rows_join hclosed,
      ← Text.flatMap_rows_eq htexts, List.flatMap_map]
  have halike := produce_alike hrows hper hread (List.forall_mem_singleton.2 hread') hsame hconfig
  refine ⟨(halike input input').toOption_eq, fun htree ↦ ?_⟩
  subst htree
  exact run_of_produce_alike rfl halike

/-- A number and a text, each in a row of a file, with an empty file between; and both in one file,
with a blank line between. -/
def rowFiles : FileTree :=
  .ofList [("a", "1\n"), ("b", ""), ("c", "\"s\"\r\n"), ("all", "1\n \t\n\"s\"\r\n")]

/-- The two rows make the same list type, out of three files and out of one. -/
theorem rows_joined_two :
    ∃ r r', parse ["structure", "-i", "a", "b", "c", "--ndjson"] = .ok r ∧
      parse ["structure", "-i", "all", "--ndjson"] = .ok r' ∧
      (r.run rowFiles "").error? = none ∧ r.run rowFiles "" = r'.run rowFiles "" := by
  let r : Request := ⟨⟨[], true, none, none, false, none⟩, .graph, none, .info⟩
  let sources : List Source := [⟨"a", "1\n"⟩, ⟨"b", ""⟩, ⟨"c", "\"s\"\r\n"⟩]
  have hread : ∀ source ∈ sources, rowFiles.Holds source := by
    refine List.forall_mem_cons.2 ⟨?_, List.forall_mem_cons.2 ⟨?_, List.forall_mem_singleton.2 ?_⟩⟩
    all_goals exact ⟨⟨by decide, rfl⟩, rfl⟩
  have hread' : rowFiles.Holds ⟨"all", "1\n \t\n\"s\"\r\n"⟩ := ⟨⟨by decide, rfl⟩, rfl⟩
  have hclosed : ∀ text ∈ sources.map Source.text, Text.IsClosed text := by decide
  have hblank : Text.Inserts ("1\n" ++ "\"s\"\r\n") ("1\n" ++ (" \t" ++ "\n" ++ "\"s\"\r\n")) :=
    .line (by decide) (by decide)
  have hok : ((r.onFiles sources).run rowFiles "").error?.isNone := by decide +kernel
  have hnone := Option.isNone_iff_eq_none.1 hok
  obtain ⟨-, hrun⟩ := rows_joined (r := r) rfl rfl hread hread' hclosed
    (List.forall₂_same.2 fun _ _ ↦ .refl) (.single hblank) nofun "" ""
  exact ⟨r.onFiles sources, r.onFiles [⟨"all", _⟩], rfl, rfl, hnone, (hrun rfl).2 hnone⟩

end Request

end Silhouette
