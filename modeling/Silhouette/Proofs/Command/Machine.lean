import Silhouette.Proofs.Command.Work

/-!
# A command on a machine

`Request.run` reads from a tree of files and writes to one, and it starts to write when it has read
everything.  On a real machine nothing holds a command to that: there is one tree, and every action
may change it.  A `Machine` is such a tree together with the input and with what was printed, and a
command is carried out on it by the same function that carries it out for real
(`Request.carryOut`).

Making a product only reads (`Request.produce_onlyReads`): it is what the same function does with
the tree that is there at the start, and neither the tree nor what was printed changes.  The proof
follows the text of the function, with one rule for each way to put work together.  So carrying a
request out on a machine comes to what `Request.run` says (`Request.outcome_carryOut`).
-/

set_option autoImplicit false

namespace Silhouette

variable {α β ε : Type}

/-- A tree of files, what is left of the input, and what was printed. -/
structure Machine where
  tree : FileTree
  input : Input
  printed : String

namespace Machine

/-- Read from the files that are there, and from the input. -/
def reading (action : FileTree → StateM Input α) : StateM Machine α := fun m ↦
  let (a, input) := (action m.tree).run m.input
  (a, { m with input })

/-- Change the files, or print. -/
def writing (action : StateM Desk α) : StateM Machine α := fun m ↦
  let (a, desk) := action.run ⟨m.tree, m.printed⟩
  (a, { m with tree := desk.tree, printed := desk.printed })

def host : Host (StateM Machine) where
  readInput := reading fun t ↦ t.host.readInput
  readFile path := reading fun t ↦ t.host.readFile path
  isDirectory path := reading fun t ↦ t.host.isDirectory path
  isPresent path := reading fun t ↦ t.host.isPresent path
  names path := reading fun t ↦ t.host.names path

def sink : Sink (StateM Machine) where
  makeDirectories path := writing (Desk.sink.makeDirectories path)
  writeFile path text := writing (Desk.sink.writeFile path text)
  print text := writing (Desk.sink.print text)

/-- What there is to see at the end. -/
def outcome : Except CommandError Unit × Machine → Request.Outcome
  | (.ok (), m) => ⟨none, m.printed, m.tree⟩
  | (.error e, m) => ⟨some e, m.printed, m.tree⟩

/-! ## Actions that only read -/

/-- What is done on a machine is some reading, of the files as they are when it starts. -/
def OnlyReads (x : StateM Machine α) (y : FileTree → StateM Input α) : Prop := x = reading y

namespace OnlyReads

variable {x : StateM Machine α} {y : FileTree → StateM Input α}

theorem pure (a : α) : OnlyReads (Pure.pure a) fun _ ↦ Pure.pure a := rfl

theorem bind {f : α → StateM Machine β} {g : α → FileTree → StateM Input β} (hx : OnlyReads x y)
    (hf : ∀ a, OnlyReads (f a) (g a)) : OnlyReads (x >>= f) fun t ↦ y t >>= fun a ↦ g a t := by
  obtain rfl := hx
  obtain rfl : f = fun a ↦ reading (g a) := funext hf
  rfl

end OnlyReads

theorem readInput_onlyReads : OnlyReads host.readInput fun t ↦ t.host.readInput := rfl

theorem readFile_onlyReads (path : String) :
    OnlyReads (host.readFile path) fun t ↦ t.host.readFile path := rfl

theorem isDirectory_onlyReads (path : String) :
    OnlyReads (host.isDirectory path) fun t ↦ t.host.isDirectory path := rfl

theorem isPresent_onlyReads (path : String) :
    OnlyReads (host.isPresent path) fun t ↦ t.host.isPresent path := rfl

end Machine

open Machine

/-- The same for work that may fail, with whatever errors. -/
def Work.OnlyReads (x : ExceptT ε (StateM Machine) α)
    (y : FileTree → ExceptT ε (StateM Input) α) : Prop :=
  Machine.OnlyReads x.run fun t ↦ (y t).run

namespace Work.OnlyReads

theorem pure (a : α) : Work.OnlyReads (ε := ε) (Pure.pure a) fun _ ↦ Pure.pure a := rfl

theorem throw (e : CommandError) :
    Work.OnlyReads (ε := CommandError) (α := α) (MonadExcept.throw e) fun _ ↦
      MonadExcept.throw e := rfl

theorem lift {x : StateM Machine α} {y : FileTree → StateM Input α} (h : Machine.OnlyReads x y) :
    Work.OnlyReads (ε := ε) (ExceptT.lift x) fun t ↦ ExceptT.lift (y t) := by
  obtain rfl := h
  rfl

theorem ofExcept (outcome : Except CommandError α) :
    Work.OnlyReads (Work.ofExcept outcome) fun _ ↦ Work.ofExcept outcome := rfl

theorem ofAction (error : ε → CommandError) {x : StateM Machine (Except ε α)}
    {y : FileTree → StateM Input (Except ε α)} (h : Machine.OnlyReads x y) :
    Work.OnlyReads (Work.ofAction error x) fun t ↦ Work.ofAction error (y t) := by
  obtain rfl := h
  rfl

theorem bind {x : ExceptT ε (StateM Machine) α} {y : FileTree → ExceptT ε (StateM Input) α}
    {f : α → ExceptT ε (StateM Machine) β} {g : α → FileTree → ExceptT ε (StateM Input) β}
    (hx : Work.OnlyReads x y) (hf : ∀ a, Work.OnlyReads (f a) (g a)) :
    Work.OnlyReads (x >>= f) fun t ↦ y t >>= fun a ↦ g a t := by
  unfold Work.OnlyReads
  simp only [ExceptT.run_bind]
  refine Machine.OnlyReads.bind hx fun outcome ↦ ?_
  cases outcome with
  | ok a => exact hf a
  | error e => exact .pure _

theorem ite {c : Prop} [Decidable c] {x x' : ExceptT ε (StateM Machine) α}
    {y y' : FileTree → ExceptT ε (StateM Input) α} (hx : Work.OnlyReads x y)
    (hx' : Work.OnlyReads x' y') :
    Work.OnlyReads (if c then x else x') fun t ↦ if c then y t else y' t := by
  split
  · exact hx
  · exact hx'

theorem mapM {f : α → ExceptT ε (StateM Machine) β}
    {g : α → FileTree → ExceptT ε (StateM Input) β} (hf : ∀ a, Work.OnlyReads (f a) (g a))
    (l : List α) : Work.OnlyReads (l.mapM f) fun t ↦ l.mapM fun a ↦ g a t := by
  induction l with
  | nil => exact pure _
  | cons a l ih =>
    simp only [List.mapM_cons]
    exact (hf a).bind fun b ↦ ih.bind fun bs ↦ pure _

end Work.OnlyReads

/-! ## Making a product -/

theorem Glob.list_onlyReads (path : String) :
    Work.OnlyReads (list Machine.host path) fun t ↦ list t.host path := rfl

theorem Glob.expand_onlyReads (directoriesOnly : Bool) (steps : Nat) (path : String)
    (pattern : List Component) :
    Work.OnlyReads (expand Machine.host directoriesOnly steps path pattern) fun t ↦
      expand t.host directoriesOnly steps path pattern := by
  induction steps generalizing path pattern with
  | zero => exact .pure _
  | succ steps ih =>
    have hdeeper : ∀ (isDirectory : Bool) (path : String) (pattern : List Component),
        Work.OnlyReads
          (if isDirectory then expand Machine.host directoriesOnly steps path pattern
            else Pure.pure []) fun t ↦
          if isDirectory then expand t.host directoriesOnly steps path pattern
            else Pure.pure [] := fun isDirectory path pattern ↦ .ite (ih path pattern) (.pure _)
    unfold expand
    refine .bind (.lift (isDirectory_onlyReads path)) fun isDirectory ↦ ?_
    cases pattern with
    | nil => exact .pure _
    | cons c rest =>
      dsimp only
      cases c.literal? with
      | some name =>
        refine .ite (.bind (.pure _) fun isThere ↦ ?_)
          (.bind (.lift (isPresent_onlyReads _)) fun isThere ↦ ?_)
        all_goals exact .ite (ih _ _) (.pure _)
      | none =>
        refine .ite (.pure _) (.bind (list_onlyReads path) fun names ↦
          .bind (.mapM (fun name ↦ ih _ _) _) fun dots ↦
            .bind (.mapM (fun name ↦ ?_) _) fun found ↦ .pure _)
        refine .ite (.ite (ih _ _) (.pure _))
          (.bind (.lift (isDirectory_onlyReads _)) fun isDirectory ↦ ?_)
        cases rest.dropWhile Component.isDirectories with
        | nil => exact .bind (hdeeper _ _ _) fun _ ↦ .pure _
        | cons d later =>
          refine .ite (.bind (ih _ _) fun here ↦ ?_) (.bind (.pure _) fun here ↦ ?_)
          all_goals exact .bind (hdeeper _ _ _) fun _ ↦ .pure _

theorem Glob.paths_onlyReads (g : Glob) :
    Work.OnlyReads (g.paths Machine.host) fun t ↦ g.paths t.host :=
  expand_onlyReads _ _ _ _

theorem Selection.paths_onlyReads (input : String) :
    Work.OnlyReads (paths Machine.host input) fun t ↦ paths t.host input := by
  unfold paths
  split
  · refine .bind (.ofExcept _) fun glob ↦
      .bind (.ofAction _ glob.paths_onlyReads) fun found ↦ ?_
    split
    · exact .bind (.throw _) fun _ ↦ .pure _
    · exact .pure _
  · exact .pure _

theorem Selection.sources_onlyReads (input : String) :
    Work.OnlyReads (sources Machine.host input) fun t ↦ sources t.host input := by
  unfold sources
  split
  · exact .bind (.ofAction _ readInput_onlyReads) fun _ ↦ .pure _
  · exact .bind (paths_onlyReads input) fun _ ↦
      .mapM (fun path ↦ .bind (.ofAction _ (readFile_onlyReads path)) fun _ ↦ .pure _) _

theorem Selection.documents_onlyReads (s : Selection) :
    Work.OnlyReads (s.documents Machine.host) fun t ↦ s.documents t.host :=
  .bind (.mapM (fun input ↦ .bind (sources_onlyReads input) fun _ ↦
    .mapM (fun _ ↦ .ofExcept _) _) _) fun _ ↦ .pure _

namespace Request

theorem settings_onlyReads (config? : Option String) :
    Work.OnlyReads (settings Machine.host config?) fun t ↦ settings t.host config? := by
  unfold settings
  cases config? with
  | none => exact .pure _
  | some file => exact .bind (.ofAction _ (readFile_onlyReads file)) fun _ ↦ .ofExcept _

theorem structures_onlyReads (selection : Selection) (settings : Settings) (name : String) :
    Work.OnlyReads (structures Machine.host selection settings name) fun t ↦
      structures t.host selection settings name :=
  .bind selection.documents_onlyReads fun _ ↦
    .mapM (fun _ ↦ .bind (.ofExcept _) fun _ ↦ .pure _) _

/-- **Making a product only reads.** -/
theorem produce_onlyReads (r : Request) :
    Work.OnlyReads (r.produce Machine.host) fun t ↦ r.produce t.host := by
  unfold produce
  refine .bind (settings_onlyReads _) fun settings ↦ ?_
  cases r.product with
  | types rootName typeAlias tupleRoot =>
    exact .bind (.ofExcept _) fun _ ↦ .bind (structures_onlyReads _ _ _) fun _ ↦
      .bind (.ofExcept _) fun _ ↦ .pure _
  | graph => exact .bind (structures_onlyReads _ _ _) fun _ ↦ .pure _

/-! ## Delivering -/

theorem writing_bind (x : StateM Desk α) (f : α → StateM Desk β) :
    writing (x >>= f) = writing x >>= fun a ↦ writing (f a) := rfl

/-- Delivering on a machine is delivering to its files. -/
theorem run_deliver (out? : Option String) (text : String) :
    (deliver Machine.sink out? text).run = writing (deliver Desk.sink out? text).run := by
  unfold deliver
  cases out? with
  | none => rfl
  | some out =>
    dsimp only
    cases PathText.parent? out with
    | none => rfl
    | some directory =>
      dsimp only
      rw [ExceptT.run_bind, ExceptT.run_bind, writing_bind]
      refine congrArg _ (funext fun outcome ↦ ?_)
      cases outcome <;> rfl

/-- **Carrying a request out on a machine** shows what `Request.run` says. -/
theorem outcome_carryOut (r : Request) (tree : FileTree) (input : Input) :
    Machine.outcome ((r.carryOut Machine.host Machine.sink).run.run ⟨tree, input, ""⟩) =
      r.run tree input := by
  have hread : (r.produce Machine.host).run ⟨tree, input, ""⟩ =
      (((r.produce tree.host).run.run input).1,
        ⟨tree, ((r.produce tree.host).run.run input).2, ""⟩) :=
    congrFun r.produce_onlyReads ⟨tree, input, ""⟩
  rw [run]
  cases hmade : ((r.produce tree.host).run.run input).1 with
  | error e =>
    rw [hmade] at hread
    exact congrArg Machine.outcome (Work.run_bind_of_error hread _)
  | ok text =>
    rw [hmade] at hread
    have hwrite : ∀ rest, (writing (deliver Desk.sink r.out text).run).run ⟨tree, rest, ""⟩ =
        (((deliver Desk.sink r.out text).run ⟨tree, ""⟩).1,
          ⟨((deliver Desk.sink r.out text).run ⟨tree, ""⟩).2.tree, rest,
            ((deliver Desk.sink r.out text).run ⟨tree, ""⟩).2.printed⟩) := fun _ ↦ rfl
    rw [carryOut, StateT.run, Work.run_bind_of_ok hread, run_deliver]
    show Machine.outcome ((writing (deliver Desk.sink r.out text).run).run ⟨tree, _, ""⟩) =
      deliverIn tree r.out text
    rw [hwrite, deliverIn]
    rcases (deliver Desk.sink r.out text).run ⟨tree, ""⟩ with ⟨_ | _, desk⟩ <;> rfl

end Request

end Silhouette
