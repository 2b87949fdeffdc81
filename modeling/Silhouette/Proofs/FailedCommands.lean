import Silhouette.Proofs.Command.Machine
import Silhouette.Proofs.Command.Work
import Silhouette.Proofs.Files.Directories

/-!
# A command that fails writes nothing

A command reads all that it needs before it writes, and then it writes one text in one go.  If it
fails, nothing was printed and every file is as it was, whatever the fault was and wherever it came
up: if a file, a directory or the input cannot be read, if several structures had been declared
already, and also if the file to be written is one of those that were read
(`Request.failure_writes_nothing`).

A file that cannot be written may leave directories behind that were made for it.  No file is hidden
by them, since they are only made where nothing was.
-/

set_option autoImplicit false

namespace Silhouette

/-- An error about the place where the product should go. -/
def CommandError.IsDelivery : CommandError → Prop
  | uncreatable _ _ => True
  | unwritable _ _ => True
  | _ => False

namespace Request

/-! ## Delivering -/

theorem run_makeDirectories (desk : Desk) (directory : String) :
    (Work.ofAction (.uncreatable directory) (Desk.sink.makeDirectories directory)).run desk =
      ((desk.tree.makeDirectories directory).1.mapError (.uncreatable directory),
        { desk with tree := (desk.tree.makeDirectories directory).2 }) := rfl

theorem run_writeFile (desk : Desk) (out text : String) :
    (Work.ofAction (.unwritable out) (Desk.sink.writeFile out text)).run desk =
      match desk.tree.write out text with
      | .ok tree => (.ok (), { desk with tree })
      | .error fault => (.error (.unwritable out fault), desk) := by
  have hrun : (Desk.sink.writeFile out text).run desk =
      match desk.tree.write out text with
      | .ok tree => (.ok (), { desk with tree })
      | .error fault => (.error fault, desk) := rfl
  show (fun p ↦ (Except.mapError _ p.1, p.2)) ((Desk.sink.writeFile out text).run desk) = _
  rw [hrun]
  cases desk.tree.write out text <;> rfl

/-- A file that cannot be written is the last thing that is tried. -/
theorem run_writeFile_of_error {desk desk' : Desk} {out text : String} {e : CommandError}
    (h : (Work.ofAction (.unwritable out) (Desk.sink.writeFile out text)).run desk =
      (.error e, desk')) : desk' = desk ∧ e.IsDelivery := by
  rw [run_writeFile] at h
  split at h
  · cases h
  · cases h
    exact ⟨rfl, trivial⟩

/-- Delivering that fails has printed nothing, and has done no more to the files than to make
directories. -/
theorem run_deliver_of_error {desk desk' : Desk} {out? : Option String} {text : String}
    {e : CommandError} (h : (deliver Desk.sink out? text).run desk = (.error e, desk')) :
    desk'.printed = desk.printed ∧ desk.tree.Widens desk'.tree ∧ e.IsDelivery := by
  unfold deliver at h
  cases out? with
  | none => cases h
  | some out =>
    dsimp only at h
    cases hparent : PathText.parent? out with
    | none =>
      rw [hparent] at h
      obtain ⟨rfl, he⟩ := run_writeFile_of_error h
      exact ⟨rfl, .refl _, he⟩
    | some directory =>
      rw [hparent] at h
      have hmade := desk.tree.makeDirectories_widens directory
      have hrun := run_makeDirectories desk directory
      cases hok : (desk.tree.makeDirectories directory).1 with
      | ok _ =>
        rw [hok] at hrun
        obtain ⟨rfl, he⟩ := run_writeFile_of_error ((Work.run_bind_of_ok hrun _).symm.trans h)
        exact ⟨rfl, hmade, he⟩
      | error fault =>
        rw [hok] at hrun
        cases (Work.run_bind_of_error hrun _).symm.trans h
        exact ⟨rfl, hmade, trivial⟩

theorem deliverIn_of_error {tree : FileTree} {out? : Option String} {text : String}
    {e : CommandError} (h : (deliverIn tree out? text).error? = some e) :
    (deliverIn tree out? text).printed = "" ∧ tree.Widens (deliverIn tree out? text).tree ∧
      e.IsDelivery := by
  unfold deliverIn at h ⊢
  rcases hrun : (deliver Desk.sink out? text).run ⟨tree, ""⟩ with ⟨_ | e', desk⟩
  · rw [hrun] at h
    cases h
    exact run_deliver_of_error hrun
  · rw [hrun] at h
    cases h

/-- A product that is to be printed is printed, be it empty: its line has an end. -/
theorem printed_eq_empty_iff {r : Request} {tree : FileTree} {input : Input} (hout : r.out = none) :
    (r.run tree input).printed = "" ↔ (r.run tree input).error? ≠ none := by
  rw [run, hout]
  cases ((r.produce tree.host).run.run input).1 with
  | error e => exact ⟨fun _ ↦ Option.some_ne_none e, fun _ ↦ rfl⟩
  | ok text =>
    have hline : ("" ++ (text ++ "\n")).length = text.length + 1 := by
      rw [String.empty_append, String.length_append]
      rfl
    refine ⟨fun hprinted ↦ ?_, fun hnone ↦ absurd rfl hnone⟩
    have hlength : ("" ++ (text ++ "\n")).length = 0 := congrArg String.length hprinted
    omega

/-- **A command that fails writes nothing.**  Carried out on a machine, where every step could
write, a request comes to what `Request.run` says.  If that is a failure, then nothing is printed,
the files are the same and hold the same, and every path that led to a text still does.  There is
nothing new at all, unless the fault is that the product cannot be written: then directories may be
there that were made for it.  A request that names no file prints nothing just if it fails. -/
theorem failure_writes_nothing (r : Request) (tree : FileTree) (input : Input) :
    Machine.outcome ((r.carryOut Machine.host Machine.sink).run.run ⟨tree, input, ""⟩) =
      r.run tree input ∧
    (∀ e, (r.run tree input).error? = some e →
      (r.run tree input).printed = "" ∧
      (r.run tree input).tree.files = tree.files ∧
      (r.run tree input).tree.closed = tree.closed ∧
      (∀ path text, tree.read path = .ok text → (r.run tree input).tree.read path = .ok text) ∧
      ((r.run tree input).tree = tree ∨ e.IsDelivery)) ∧
    (r.out = none → ((r.run tree input).printed = "" ↔ (r.run tree input).error? ≠ none)) := by
  refine ⟨r.outcome_carryOut tree input, fun e he ↦ ?_, printed_eq_empty_iff⟩
  unfold run at he ⊢
  cases hproduce : ((r.produce tree.host).run.run input).1 with
  | error e' => exact ⟨rfl, rfl, rfl, fun _ _ hread ↦ hread, .inl rfl⟩
  | ok text =>
    rw [hproduce] at he
    obtain ⟨hprinted, hwidens, hdelivery⟩ := deliverIn_of_error he
    exact ⟨hprinted, hwidens.files_eq, hwidens.closed_eq, fun _ _ ↦ hwidens.read_eq_ok,
      .inr hdelivery⟩

/-- A number in a file, and another one in a directory that may not be read. -/
def numberFiles : FileTree where
  files := [(["a.json"], .text "1"), (["shut", "b.json"], .text "2")]
  closed := [["shut"]]

/-- A request for types that would write over the first number. -/
def typesOver (inputs : List String) (name? : Option String) : Request :=
  ⟨⟨inputs, false, none, none, false, none⟩, .types name? false false, some "a.json", .info⟩

/-- A request for a graph. -/
def graphFrom (inputs : List String) (out? : Option String) : Request :=
  ⟨⟨inputs, false, none, none, false, none⟩, .graph, out?, .info⟩

/-- Four commands that fail and leave the numbers as they were.  Two of them would write over the
file that they have read, but the name for the root is no name, and it cannot be found out which
other files there are.  One has an input that is no text.  And one has made a directory for its
product when it turns out that the product is to be a directory itself. -/
theorem failure_writes_nothing_number :
    ∃ name pattern stdin place,
      parse ["types", "-i", "a.json", "-o", "a.json", "--root-name", "1 2"] = .ok name ∧
      (name.run numberFiles "").error? = some (.emission "1 2" (.invalidName "1 2")) ∧
      (name.run numberFiles "").tree = numberFiles ∧
      parse ["types", "-i", "a.json", "shut/*.json", "-o", "a.json"] = .ok pattern ∧
      (pattern.run numberFiles "").error? = some (.unlisted "shut" .permissionDenied) ∧
      (pattern.run numberFiles "").tree.read "a.json" = .ok "1" ∧
      parse ["structure", "-i", "-"] = .ok stdin ∧
      (stdin.run numberFiles (.error .notText)).error? = some (.unreadableInput .notText) ∧
      (stdin.run numberFiles (.error .notText)).printed = "" ∧
      parse ["structure", "-i", "a.json", "-o", "new/a.json/"] = .ok place ∧
      (place.run numberFiles "").error? = some (.unwritable "new/a.json/" .isDirectory) ∧
      (place.run numberFiles "").tree.files = numberFiles.files ∧
      (place.run numberFiles "").tree.made = [["new"]] := by
  have hname : ((typesOver ["a.json"] "1 2").run numberFiles "").error? =
      some (.emission "1 2" (.invalidName "1 2")) := by rfl
  have hpattern : ((typesOver ["a.json", "shut/*.json"] none).run numberFiles "").error? =
      some (.unlisted "shut" .permissionDenied) := by rfl
  have hstdin : ((graphFrom ["-"] none).run numberFiles (.error .notText)).error? =
      some (.unreadableInput .notText) := by rfl
  have hplace : ((graphFrom ["a.json"] "new/a.json/").run numberFiles "").error? =
      some (.unwritable "new/a.json/" .isDirectory) := by rfl
  obtain ⟨-, hfail, -⟩ := failure_writes_nothing (typesOver _ _) numberFiles ""
  obtain ⟨-, -, -, -, htree⟩ := hfail _ hname
  obtain ⟨-, hfail, -⟩ := failure_writes_nothing (typesOver _ _) numberFiles ""
  obtain ⟨-, -, -, hread, -⟩ := hfail _ hpattern
  obtain ⟨-, hfail, -⟩ := failure_writes_nothing (graphFrom _ _) numberFiles (.error .notText)
  obtain ⟨hprinted, -⟩ := hfail _ hstdin
  obtain ⟨-, hfail, -⟩ := failure_writes_nothing (graphFrom _ _) numberFiles ""
  obtain ⟨-, hfiles, -⟩ := hfail _ hplace
  exact ⟨_, _, _, _, rfl, hname, htree.resolve_right id, rfl, hpattern,
    hread _ _ (by decide +kernel), rfl, hstdin, hprinted, rfl, hplace, hfiles, by decide +kernel⟩

end Request

end Silhouette
