import Silhouette.Proofs.Command.Work
import Silhouette.Proofs.Json.Put

/-!
# Graphs of several documents

A request can ask for the graphs of its documents one by one.  They are printed as one object whose
keys are the names of the documents as types, and different documents may have one name: only the
last word of a path counts, and of that only letters and digits.

The entry of a name is the graph of the last document that goes by it, at the place of the first
one.  So every document has its entry, with its own graph and in the order of the documents, just if
all names are different (`Request.perFile_graphs_complete_iff`).  Nothing provides for that: of two
files with one name in two directories, one is lost (`Request.perFile_graphs_namesakes`).
-/

set_option autoImplicit false

namespace Silhouette

/-! ## Documents and their graphs -/

/-- The name of a document as a type. -/
def Document.typeName (d : Document) : String := pascalCase (PathText.stem d.source)

/-- A document as an entry: its name and its graph. -/
def Document.entry (d : Document) (s : Structure) : String × Json := (d.typeName, s.toJson)

namespace Request

variable {r : Request} {tree : FileTree} {input : Input} {documents : List Document}
  {graphs : List Structure}

/-- A request asks for the graphs of some documents one by one, and from all of them one is
inferred. -/
structure AsksFor (r : Request) (tree : FileTree) (input : Input) (documents : List Document)
    (graphs : List Structure) : Prop where
  product : r.product = .graph
  perFile : r.selection.perFile = true
  inferred : ∃ settings input' rest,
    (Request.settings tree.host r.selection.config).run input = (.ok settings, input') ∧
      (r.selection.documents tree.host).run input' = (.ok documents, rest) ∧
        List.Forall₂
          (fun d s ↦ Job.infer r.selection settings.depthLimit ⟨d.typeName, d.samples⟩ = .ok s)
          documents graphs

theorem run_structures (selection : Selection) (settings : Settings) (name : String)
    (hper : selection.perFile = true) {rest : Input}
    (hread : (selection.documents tree.host).run input = (.ok documents, rest))
    (hinfer : List.Forall₂
      (fun d s ↦ Job.infer selection settings.depthLimit ⟨d.typeName, d.samples⟩ = .ok s)
      documents graphs) :
    (structures tree.host selection settings name).run input =
      (.ok (List.zipWith (fun d s ↦ (d.typeName, s)) documents graphs), rest) := by
  rw [structures, Work.run_bind_of_ok hread, Job.ofDocuments, if_pos hper]
  clear hread
  refine Work.run_mapM_of_ok ?_
  induction hinfer with
  | nil => exact .nil
  | @cons d s _ _ hs _ ih =>
    have hjob : ((Job.infer selection settings.depthLimit ⟨d.typeName, d.samples⟩).mapError
        (CommandError.inference d.typeName)) = .ok s := by rw [hs]; rfl
    exact .cons (Work.run_bind_of_ok (congrArg (·, rest) hjob) _) ih

theorem byName_zipWith (documents : List Document) (graphs : List Structure) :
    byName (List.zipWith (fun d s ↦ (d.typeName, s)) documents graphs) =
      .object (Json.putAll (List.zipWith Document.entry documents graphs)) := by
  have hentries : List.zipWith Document.entry documents graphs =
      (List.zipWith (fun d s ↦ (d.typeName, s)) documents graphs).map
        fun n ↦ (n.1, n.2.toJson) := by
    rw [List.map_zipWith]
    rfl
  rw [byName, Json.putAll, hentries, List.foldl_map]

theorem run_produce (h : r.AsksFor tree input documents graphs) :
    ((r.produce tree.host).run input).1 =
      .ok (Json.object (Json.putAll (List.zipWith Document.entry documents graphs))).pretty := by
  obtain ⟨settings, input', rest, hsettings, hread, hinfer⟩ := h.inferred
  rw [produce, Work.run_bind_of_ok hsettings, h.product]
  dsimp only
  rw [Work.run_bind_of_ok (run_structures _ settings _ h.perFile hread hinfer), graphText,
    if_pos h.perFile, byName_zipWith]
  rfl

theorem keys_entries (h : r.AsksFor tree input documents graphs) :
    (List.zipWith Document.entry documents graphs).map Prod.fst =
      documents.map Document.typeName := by
  obtain ⟨settings, -, -, -, -, hinfer⟩ := h.inferred
  clear h
  induction hinfer with
  | nil => rfl
  | cons _ _ ih => exact congrArg (_ :: ·) ih

/-- **Every document has its graph printed just if all documents have different names.**  A request
that asks for the graphs of some documents one by one prints one object.  Its keys are the names of
the documents, each at its first place, and its values the graphs, each of the last document that
has the name. -/
theorem perFile_graphs_complete_iff (h : r.AsksFor tree input documents graphs) :
    ∃ members,
      ((r.produce tree.host).run input).1 = .ok (Json.object members).pretty ∧
      (r.out = none → r.run tree input = ⟨none, (Json.object members).pretty ++ "\n", tree⟩) ∧
      members.map Prod.fst = (documents.map Document.typeName).eraseDups ∧
      (∀ name, Json.member? name members =
        (((List.zipWith Document.entry documents graphs).filter fun e ↦ e.1 = name).getLast?).map
          Prod.snd) ∧
      (members = List.zipWith Document.entry documents graphs ↔
        (documents.map Document.typeName).Nodup) := by
  refine ⟨_, run_produce h, fun hout ↦ ?_, ?_, Json.member?_putAll _, ?_⟩
  · have htext : ((r.produce tree.host).run.run input).1 = _ := run_produce h
    rw [run, htext, hout]
    rfl
  · rw [Json.keys_putAll, keys_entries h]
  · rw [Json.putAll_eq_self_iff, keys_entries h]

/-! ## Three inputs, and two files with one name -/

/-- The graph of a scalar. -/
def scalarGraph (k : Scalar) : Structure := ⟨.scalar k, ∅⟩

/-- A request for the graphs of some inputs. -/
def graphsOf (inputs : List String) : Request :=
  ⟨⟨inputs, false, none, none, true, none⟩, .graph, none, .info⟩

/-- A number and a text, in files with one name and with two. -/
def scalarFiles : FileTree :=
  .ofList [("a/x.json", "1"), ("b/x.json", "\"s\""), ("b/y.json", "\"s\"")]

/-- Two files and the input have three names, and all graphs are printed. -/
theorem perFile_graphs_complete_iff_scalars :
    (graphsOf ["a/x.json", "b/y.json", "-"]).run scalarFiles "true" =
      ⟨none, (Json.object [("X", (scalarGraph .number).toJson), ("Y", (scalarGraph .string).toJson),
        ("Stdin", (scalarGraph .boolean).toJson)]).pretty ++ "\n", scalarFiles⟩ := by
  have hasks : (graphsOf ["a/x.json", "b/y.json", "-"]).AsksFor scalarFiles "true"
      [⟨"a/x.json", [.number (.whole 1)]⟩, ⟨"b/y.json", [.string "s"]⟩, ⟨"<stdin>", [.bool true]⟩]
      [scalarGraph .number, scalarGraph .string, scalarGraph .boolean] :=
    ⟨rfl, rfl, {}, "true", "", rfl, rfl, .cons rfl (.cons rfl (.cons rfl .nil))⟩
  obtain ⟨members, -, hrun, -, -, hcomplete⟩ := perFile_graphs_complete_iff hasks
  rw [hrun rfl, hcomplete.2 (by decide +kernel)]
  rfl

theorem length_pretty_pair (a b : String) (v w : Json) :
    (v.prettyAt 1).length + (w.prettyAt 1).length <
      (Json.object [(a, v), (b, w)]).pretty.length := by
  have htext : (Json.object [(a, v), (b, w)]).pretty =
      "\x7b" ++ Json.indent 1 ++ (Json.quote a ++ ": " ++ v.prettyAt 1 ++ ("," ++ Json.indent 1) ++
        (Json.quote b ++ ": " ++ w.prettyAt 1)) ++ Json.indent 0 ++ "\x7d" := rfl
  have hbracket : "\x7b".length = 1 := rfl
  simp only [htext, String.length_append]
  omega

/-- **A graph is lost.**  Of two files with one name only the later one is printed, so there are no
two entries in what is printed, whatever their keys. -/
theorem perFile_graphs_namesakes :
    ∃ r documents,
      parse ["structure", "-i", "a/x.json", "b/x.json", "--per-file"] = .ok r ∧
      r.AsksFor scalarFiles "" documents [scalarGraph .number, scalarGraph .string] ∧
      (r.run scalarFiles "").printed =
        (Json.object [("X", (scalarGraph .string).toJson)]).pretty ++ "\n" ∧
      ∀ a b, (r.run scalarFiles "").printed ≠
        (Json.object [(a, (scalarGraph .number).toJson), (b, (scalarGraph .string).toJson)]).pretty
          ++ "\n" := by
  have hparse : parse ["structure", "-i", "a/x.json", "b/x.json", "--per-file"] =
      .ok (graphsOf ["a/x.json", "b/x.json"]) := rfl
  have hasks : (graphsOf ["a/x.json", "b/x.json"]).AsksFor scalarFiles ""
      [⟨"a/x.json", [.number (.whole 1)]⟩, ⟨"b/x.json", [.string "s"]⟩]
      [scalarGraph .number, scalarGraph .string] :=
    ⟨rfl, rfl, {}, "", "", rfl, rfl, .cons rfl (.cons rfl .nil)⟩
  have hprinted : ((graphsOf ["a/x.json", "b/x.json"]).run scalarFiles "").printed =
      (Json.object [("X", (scalarGraph .string).toJson)]).pretty ++ "\n" := by decide +kernel
  refine ⟨_, _, hparse, hasks, hprinted, fun a b htwo ↦ ?_⟩
  have hlength := congrArg String.length (hprinted.symm.trans htwo)
  have hpair := length_pretty_pair a b (scalarGraph .number).toJson (scalarGraph .string).toJson
  have hshort : (Json.object [("X", (scalarGraph .string).toJson)]).pretty.length ≤
      ((scalarGraph .number).toJson.prettyAt 1).length +
        ((scalarGraph .string).toJson.prettyAt 1).length := by decide +kernel
  rw [String.length_append, String.length_append] at hlength
  omega

end Request

end Silhouette
