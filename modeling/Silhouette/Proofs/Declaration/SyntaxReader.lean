import Mathlib.Data.List.Forall2
import Silhouette.Proofs.Declaration.Grammar
import Silhouette.Text.Pieces

/-!
# A reader for any types

The reader for declarations in `Silhouette.Reader` tells literals and names apart by a list of
identifiers.  Where literals may be any type expressions nothing can be told apart: a type is read
as its grammar says, and what a name stands for is a matter of scoping.

* `readType` reads a type expression, token by token and with a stack of the brackets that are open
  (`ReadState.step`).  What the grammar spells it reads (`Spells.readArms_eq`), so no text spells
  two things (`Spells.arms_unique`).
* `readModule` reads a text line by line: an alias, a member of an object type, or one of the lines
  around members.  A line ends in a semicolon, and whatever is in front of it is a type.
-/

set_option autoImplicit false

namespace Silhouette

open Text

/-! ## Type expressions -/

/-- What stands behind the last bar, comma or opening bracket. -/
inductive Operand where
  | missing
  /-- A name that type arguments may follow. -/
  | name (n : String)
  | type (t : TypeSyntax)
  /-- A type with an opening square bracket behind it. -/
  | bracket (t : TypeSyntax)

/-- The type of an operand behind which nothing has to come. -/
def Operand.type? : Operand → Option TypeSyntax
  | name n => some (.reference n [])
  | type t => some t
  | _ => none

/-- An open bracket, with the arms in front of it. -/
inductive Frame where
  | parenthesis (before : List TypeSyntax)
  /-- The bracket of type arguments, with those that are complete. -/
  | arguments (before : List TypeSyntax) (name : String) (done : List TypeSyntax)

/-- The open brackets from the inside out, and the arms inside the last one. -/
structure ReadState where
  frames : List Frame
  before : List TypeSyntax
  operand : Operand

namespace ReadState

/-- A mark behind a complete operand. -/
def close (frames : List Frame) (a : Arms) : Char → Option ReadState
  | '[' => some ⟨frames, a.before, .bracket a.last⟩
  | '|' => some ⟨frames, a.before ++ [a.last], .missing⟩
  | ')' =>
    match frames with
    | .parenthesis outer :: frames => some ⟨frames, outer, .type a.type⟩
    | _ => none
  | ',' =>
    match frames with
    | .arguments outer n done :: frames =>
      some ⟨.arguments outer n (done ++ [a.type]) :: frames, [], .missing⟩
    | _ => none
  | '>' =>
    match frames with
    | .arguments outer n done :: frames =>
      some ⟨frames, outer, .type (.reference n (done ++ [a.type]))⟩
    | _ => none
  | _ => none

/-- Read one more token. -/
def step : ReadState → TypeToken → Option ReadState
  | ⟨frames, before, .missing⟩, .word n =>
    if isIdentifier n then some ⟨frames, before, .name n⟩ else none
  | ⟨frames, before, .missing⟩, .mark '(' => some ⟨.parenthesis before :: frames, [], .missing⟩
  | ⟨frames, before, .name n⟩, .mark '<' => some ⟨.arguments before n [] :: frames, [], .missing⟩
  | ⟨frames, before, .bracket t⟩, .mark ']' => some ⟨frames, before, .type (.list t)⟩
  | ⟨frames, before, operand⟩, .mark c =>
    operand.type?.bind fun t ↦ close frames ⟨before, t⟩ c
  | _, _ => none

def run (s : ReadState) (ts : List TypeToken) : Option ReadState := ts.foldlM step s

end ReadState

/-- The arms that a text spells. -/
def readArms (text : String) : Option Arms := do
  match ← ReadState.run ⟨[], [], .missing⟩ (tokens text) with
  | ⟨[], before, operand⟩ => operand.type?.map (Arms.mk before)
  | _ => none

/-- The type that a text spells. -/
def readType (text : String) : Option TypeSyntax := (readArms text).map Arms.type

/-- What is read of a phrase, wherever it stands. -/
def Phrase.ReadFrom (ts : List TypeToken) : Phrase → Prop
  | .arm t => ∀ frames before, ∃ operand, operand.type? = some t ∧
      ReadState.run ⟨frames, before, .missing⟩ ts = some ⟨frames, before, operand⟩
  | .arms a => ∀ frames before, ∃ operand, operand.type? = some a.last ∧
      ReadState.run ⟨frames, before, .missing⟩ ts = some ⟨frames, before ++ a.before, operand⟩
  | .arguments args => ∀ frames outer n done, ∃ more before operand t,
      operand.type? = some t ∧ args = more ++ [Arms.type ⟨before, t⟩] ∧
        ReadState.run ⟨.arguments outer n done :: frames, [], .missing⟩ ts =
          some ⟨.arguments outer n (done ++ more) :: frames, before, operand⟩

namespace Spells

open ReadState

theorem run_append (s : ReadState) (ts ts' : List TypeToken) :
    run s (ts ++ ts') = (run s ts).bind fun s' ↦ run s' ts' := List.foldlM_append

theorem run_cons_of_step {s s' : ReadState} {token : TypeToken} (h : s.step token = some s')
    (ts : List TypeToken) : run s (token :: ts) = run s' ts := by
  rw [run, List.foldlM_cons, h]
  rfl

/-- A mark behind an operand that is complete. -/
theorem step_mark {operand : Operand} {t : TypeSyntax} (h : operand.type? = some t) {c : Char}
    (hc : c ∈ ['[', '|', ')', ',', '>']) (frames : List Frame) (before : List TypeSyntax) :
    step ⟨frames, before, operand⟩ (.mark c) = close frames ⟨before, t⟩ c := by
  cases operand with
  | missing | bracket => cases h
  | name | type =>
    cases h
    simp only [List.mem_cons, List.not_mem_nil, or_false] at hc
    rcases hc with rfl | rfl | rfl | rfl | rfl <;> rfl

/-- **What the grammar spells is read**, wherever it stands. -/
theorem readFrom {ts : List TypeToken} {p : Phrase} (h : Spells ts p) : p.ReadFrom ts := by
  induction h with
  | name hn =>
    intro frames before
    have hstep : step ⟨frames, before, .missing⟩ (.word _) = some _ := if_pos hn
    exact ⟨_, rfl, run_cons_of_step hstep []⟩
  | @apply n ts args hn _ ih =>
    intro frames before
    obtain ⟨more, inner, operand, t, ht, rfl, hrun⟩ := ih frames before n []
    have hstep : step ⟨frames, before, .missing⟩ (.word n) = some _ := if_pos hn
    refine ⟨.type (.reference n (more ++ [Arms.type ⟨inner, t⟩])), rfl, ?_⟩
    rw [run_cons_of_step hstep, run_cons_of_step rfl, run_append, hrun, Option.bind_some,
      run_cons_of_step (step_mark ht (by decide) _ _)]
    rfl
  | @parenthesis ts a _ ih =>
    intro frames before
    obtain ⟨operand, ht, hrun⟩ := ih (.parenthesis before :: frames) []
    refine ⟨.type a.type, rfl, ?_⟩
    rw [run_cons_of_step rfl, run_append, hrun, Option.bind_some,
      run_cons_of_step (step_mark ht (by decide) _ _)]
    rfl
  | @list ts t _ ih =>
    intro frames before
    obtain ⟨operand, ht, hrun⟩ := ih frames before
    refine ⟨.type (.list t), rfl, ?_⟩
    rw [run_append, hrun, Option.bind_some, run_cons_of_step (step_mark ht (by decide) _ _)]
    rfl
  | @single ts t _ ih =>
    intro frames before
    obtain ⟨operand, ht, hrun⟩ := ih frames before
    exact ⟨operand, ht, by rw [hrun, Arms.single, List.append_nil]⟩
  | @bar ts ts' a b _ _ ih ih' =>
    intro frames before
    obtain ⟨operand, ht, hrun⟩ := ih frames before
    obtain ⟨operand', ht', hrun'⟩ := ih' frames (before ++ a.before ++ [a.last])
    refine ⟨operand', ht', ?_⟩
    rw [run_append, hrun, Option.bind_some, run_cons_of_step (step_mark ht (by decide) _ _), hrun',
      Arms.append, List.append_assoc, List.append_assoc, List.singleton_append]
  | @argument ts a _ ih =>
    intro frames outer n done
    obtain ⟨operand, ht, hrun⟩ := ih (.arguments outer n done :: frames) []
    exact ⟨[], a.before, operand, a.last, ht, rfl, by rw [hrun, List.append_nil, List.nil_append]⟩
  | @comma ts ts' as bs _ _ ih ih' =>
    intro frames outer n done
    obtain ⟨more, before, operand, t, ht, rfl, hrun⟩ := ih frames outer n done
    obtain ⟨more', before', operand', t', ht', rfl, hrun'⟩ :=
      ih' frames outer n (done ++ more ++ [Arms.type ⟨before, t⟩])
    refine ⟨more ++ [Arms.type ⟨before, t⟩] ++ more', before', operand', t', ht', ?_, ?_⟩
    · simp only [List.append_assoc]
    · rw [run_append, hrun, Option.bind_some, run_cons_of_step (step_mark ht (by decide) _ _),
        hrun']
      simp only [List.append_assoc]

/-- **The arms that a text spells are read.** -/
theorem readArms_eq {s : String} {a : Arms} (h : Spells (tokens s) (.arms a)) :
    readArms s = some a := by
  obtain ⟨operand, ht, hrun⟩ := h.readFrom [] []
  rw [readArms, hrun]
  dsimp only [Option.bind_eq_bind, Option.bind_some]
  rw [ht]
  rfl

theorem readType_eq {s : String} {a : Arms} (h : Spells (tokens s) (.arms a)) :
    readType s = some a.type := by
  rw [readType, h.readArms_eq]
  rfl

/-- **No text spells two things.** -/
theorem arms_unique {s : String} {a b : Arms} (h : Spells (tokens s) (.arms a))
    (h' : Spells (tokens s) (.arms b)) : a = b :=
  Option.some.inj (h.readArms_eq.symm.trans h'.readArms_eq)

end Spells

/-! ## Declarations -/

/-- A member of an object type. -/
structure Member where
  key : String
  optional : Bool
  type : TypeSyntax

/-- A declaration as it is read; an interface and an alias for an object type say the same. -/
inductive DeclarationSyntax where
  | synonym (name : String) (type : TypeSyntax)
  | object (name : String) (members : List Member)

def DeclarationSyntax.name : DeclarationSyntax → String
  | synonym name _ => name
  | object name _ => name

/-- A line of a text. -/
inductive Line where
  | blank
  /-- An alias for a type expression. -/
  | synonym (name : String) (type : TypeSyntax)
  /-- An object type without members. -/
  | hollow (name : String)
  /-- The line before the members of an object type. -/
  | opening (name : String)
  | member (m : Member)
  /-- The line behind members. -/
  | closing

/-- A type with a semicolon behind it. -/
def readEnd (cs : List Char) : Option TypeSyntax :=
  if cs.getLast? = some ';' then readType (String.ofList cs.dropLast) else none

/-- A member on a line of its own. -/
def readMember (cs : List Char) : Option Member := do
  let cs ← Reader.expect "  ".toList cs
  let (key, cs) ← Reader.readKey cs
  let (optional, cs) := Reader.readMark cs
  let cs ← Reader.expect ": ".toList cs
  return ⟨key, optional, ← readEnd cs⟩

/-- What a name is an alias for: an object type or a type expression. -/
def readAlias (name : String) : List Char → Option Line
  | ['\x7b'] => some (.opening name)
  | ['\x7b', '\x7d', ';'] => some (.hollow name)
  | cs => (readEnd cs).map (.synonym name)

/-- What follows the name of an interface. -/
def readInterface (name : String) : List Char → Option Line
  | [' ', '\x7b'] => some (.opening name)
  | [' ', '\x7b', '\x7d'] => some (.hollow name)
  | _ => none

/-- The beginning of a declaration. -/
def readHead (cs : List Char) : Option Line :=
  match Reader.expect "export interface ".toList cs with
  | some cs => do
    let (name, cs) ← Reader.readName cs
    readInterface name cs
  | none => do
    let cs ← Reader.expect "export type ".toList cs
    let (name, cs) ← Reader.readName cs
    let cs ← Reader.expect " = ".toList cs
    readAlias name cs

def readLine : List Char → Option Line
  | [] => some .blank
  | ['\x7d'] => some .closing
  | ['\x7d', ';'] => some .closing
  | ' ' :: cs => (readMember (' ' :: cs)).map .member
  | cs => readHead cs

/-- An object type whose members are being read. -/
structure Draft where
  name : String
  members : List Member

/-- What a line adds: declarations that are complete, and an object type that is not. -/
def Line.add : Option Draft → Line → Option (List DeclarationSyntax × Option Draft)
  | none, .blank => some ([], none)
  | none, .synonym name type => some ([.synonym name type], none)
  | none, .hollow name => some ([.object name []], none)
  | none, .opening name => some ([], some ⟨name, []⟩)
  | some draft, .member m => some ([], some { draft with members := draft.members ++ [m] })
  | some draft, .closing => some ([.object draft.name draft.members], none)
  | _, _ => none

/-- The declarations in some lines. -/
def readLines : Option Draft → List (List Char) → Option (List DeclarationSyntax)
  | none, [] => some []
  | some _, [] => none
  | draft, cs :: lines => do
    let (ds, draft) ← Line.add draft (← readLine cs)
    return ds ++ (← readLines draft lines)

/-- The declarations that make up a text. -/
def readModule (text : String) : Option (List DeclarationSyntax) :=
  readLines none (piecesFrom '\n' [] text.toList)

/-! ## What is read of declarations -/

/-- A property as a member, its literals put in. -/
def Property.SplicedAs (p : Property) (m : Member) : Prop :=
  p.key = m.key ∧ p.optional = m.optional ∧ ∃ a, p.type.SplicedAs a ∧ m.type = a.type

/-- A declaration as it is read, its literals put in. -/
inductive Declaration.SplicedAs : Declaration → DeclarationSyntax → Prop
  | synonym {name : String} {e : TypeExpr} {a : Arms} (hname : isIdentifier name)
      (h : e.SplicedAs a) : SplicedAs (.synonym name e) (.synonym name a.type)
  | object {name : String} {asAlias : Bool} {ps : List Property} {ms : List Member}
      (hname : isIdentifier name) (h : List.Forall₂ Property.SplicedAs ps ms) :
      SplicedAs (.record name asAlias ps) (.object name ms)

theorem Declaration.SplicedAs.name_eq {d : Declaration} {d' : DeclarationSyntax}
    (h : d.SplicedAs d') : d'.name = d.name := by
  cases h <;> rfl

/-! ## Lines -/

/-- A line is cut off at its end. -/
theorem piecesFrom_line {line : List Char} (h : '\n' ∉ line) (rest : List Char) :
    piecesFrom '\n' [] (line ++ '\n' :: rest) = line :: piecesFrom '\n' [] rest := by
  suffices hpiece : ∀ piece : List Char, piecesFrom '\n' piece (line ++ '\n' :: rest) =
      (piece.reverse ++ line) :: piecesFrom '\n' [] rest from hpiece []
  induction line with
  | nil =>
    intro piece
    rw [List.nil_append, piecesFrom, if_pos rfl, List.append_nil]
  | cons c line ih =>
    rw [List.mem_cons, not_or] at h
    intro piece
    rw [List.cons_append, piecesFrom, if_neg (Ne.symm h.1), ih h.2, List.reverse_cons,
      List.append_assoc]
    rfl

theorem readLines_cons {draft draft' : Option Draft} {cs : List Char} {line : Line}
    {ds : List DeclarationSyntax} (hline : readLine cs = some line)
    (hadd : Line.add draft line = some (ds, draft')) (lines : List (List Char)) :
    readLines draft (cs :: lines) = (readLines draft' lines).map (ds ++ ·) := by
  rw [readLines, hline, Option.bind_eq_bind, Option.bind_some, hadd]
  dsimp only [Option.bind_eq_bind, Option.bind_some]
  cases readLines draft' lines <;> rfl

/-- One line of a text, and the text behind it. -/
theorem readLines_line {draft draft' : Option Draft} {cs : List Char} {line : Line}
    {ds : List DeclarationSyntax} (hcs : '\n' ∉ cs) (hline : readLine cs = some line)
    (hadd : Line.add draft line = some (ds, draft')) (rest : List Char) :
    readLines draft (piecesFrom '\n' [] (cs ++ '\n' :: rest)) =
      (readLines draft' (piecesFrom '\n' [] rest)).map (ds ++ ·) := by
  rw [piecesFrom_line hcs, readLines_cons hline hadd]

theorem not_mem_of_isIdentifier {name : String} (h : isIdentifier name) {c : Char}
    (hc : isIdentifierRest c = false) : c ∉ name.toList := fun hmem ↦ by
  have := forall_isIdentifierRest h c hmem
  rw [hc] at this
  cases this

/-- No control character is left of a character in a quoted string. -/
theorem not_control_of_mem_escapeChar {c x : Char} (h : x ∈ Json.escapeChar c) :
    ¬ x.toNat < 0x20 := by
  have hhex : ∀ n < 16, ¬ (Json.hexDigit n).toNat < 0x20 := by decide
  have hpair : ∀ {y : Char}, ¬ y.toNat < 0x20 → x ∈ ['\\', y] → ¬ x.toNat < 0x20 := by
    intro y hy hx
    rcases List.mem_cons.1 hx with rfl | hx
    · decide
    · rwa [List.mem_singleton.1 hx]
  rw [Json.escapeChar] at h
  repeat' split at h
  all_goals first | exact hpair (by decide) h | skip
  · next hcontrol =>
    simp only [List.mem_cons, List.not_mem_nil, or_false] at h
    rcases h with rfl | rfl | rfl | rfl | rfl | rfl
    all_goals first | decide | exact hhex _ (by omega)
  · next hcontrol => rwa [List.mem_singleton.1 h]

/-- **No control character is left of a key.** -/
theorem not_control_of_mem_propertyKey {key : String} {c : Char}
    (h : c ∈ (propertyKey key).toList) : ¬ c.toNat < 0x20 := by
  rw [propertyKey] at h
  split at h
  · next hkey =>
    have hall : ∀ n < 0x20, isIdentifierRest (Char.ofNat n) = false := by decide
    intro hc
    have hrest := hall c.toNat hc
    rw [Char.ofNat_toNat] at hrest
    exact not_mem_of_isIdentifier hkey hrest h
  · rw [Json.toList_quote, List.mem_cons, List.mem_append, List.mem_singleton] at h
    rcases h with rfl | h | rfl
    · decide
    · obtain ⟨d, -, hd⟩ := List.mem_flatMap.1 h
      exact not_control_of_mem_escapeChar hd
    · decide

theorem newline_not_mem_propertyKey (key : String) : '\n' ∉ (propertyKey key).toList := fun hmem ↦
  not_control_of_mem_propertyKey hmem (by decide)

section Types

variable {e : TypeExpr} {a : Arms}

theorem TypeExpr.SplicedAs.newline_not_mem (h : e.SplicedAs a) : '\n' ∉ e.text.toList :=
  h.spells_text.not_mem_toList (by decide) (by decide) (by decide)

theorem readEnd_text (h : e.SplicedAs a) : readEnd (e.text.toList ++ [';']) = some a.type := by
  rw [readEnd, if_pos List.getLast?_concat, List.dropLast_concat, String.ofList_toList,
    h.spells_text.readType_eq]

/-- A type is not mistaken for an object type, since there is no brace in it. -/
theorem readAlias_text (h : e.SplicedAs a) (name : String) :
    readAlias name (e.text.toList ++ [';']) = some (.synonym name a.type) := by
  have hbrace : '\x7b' ∉ e.text.toList :=
    h.spells_text.not_mem_toList (by decide) (by decide) (by decide)
  have hread := readEnd_text h
  unfold readAlias
  split
  · next he =>
    have hlast := congrArg List.getLast? he
    rw [List.getLast?_concat] at hlast
    exact absurd hlast (by decide)
  · next he =>
    have hinit := congrArg List.dropLast he
    rw [List.dropLast_concat] at hinit
    rw [hinit] at hbrace
    exact absurd List.mem_cons_self hbrace
  · rw [hread]
    rfl

end Types

/-- The line of a property. -/
def Property.line (p : Property) : List Char :=
  "  ".toList ++ ((propertyKey p.key).toList ++ ((if p.optional then "?" else "").toList ++
    (": ".toList ++ (p.type.text.toList ++ [';']))))

theorem Property.toList_text (p : Property) : p.text.toList = p.line ++ ['\n'] := by
  have hend : ";\n".toList = [';'] ++ ['\n'] := rfl
  simp only [Property.text, Property.line, String.toList_append, List.append_assoc, hend]

theorem newline_not_mem_line {p : Property} {m : Member} (h : p.SplicedAs m) : '\n' ∉ p.line := by
  obtain ⟨-, -, a, ha, -⟩ := h
  have hmark : '\n' ∉ (if p.optional then "?" else "").toList := by split <;> decide
  have hindent : '\n' ∉ "  ".toList := by decide
  have hcolon : '\n' ∉ ": ".toList := by decide
  have hend : '\n' ∉ [';'] := by decide
  simp only [Property.line, List.mem_append, not_or]
  exact ⟨hindent, newline_not_mem_propertyKey _, hmark, hcolon, ha.newline_not_mem, hend⟩

/-- **A property is read as a member**, with its literals put in. -/
theorem readLine_property {p : Property} {m : Member} (h : p.SplicedAs m) :
    readLine p.line = some (.member m) := by
  obtain ⟨key, optional, type⟩ := p
  obtain ⟨key', optional', type'⟩ := m
  obtain ⟨rfl, rfl, a, ha, rfl⟩ := h
  have hstops : Reader.Stops ((if optional then "?" else "").toList ++
      (": ".toList ++ (type.text.toList ++ [';']))) := by
    cases optional
    · exact Reader.stops_cons (by decide)
    · exact Reader.stops_cons (by decide)
  have hmark : Reader.readMark ((if optional then "?" else "").toList ++
      (": ".toList ++ (type.text.toList ++ [';']))) =
        (optional, ": ".toList ++ (type.text.toList ++ [';'])) := by
    cases optional
    · rfl
    · rfl
  have hline : readLine (Property.line ⟨key, optional, type⟩) =
      (readMember (Property.line ⟨key, optional, type⟩)).map .member := rfl
  rw [hline, readMember, Property.line, Reader.expect_append]
  simp only [Option.bind_eq_bind, Option.bind_some, Reader.readKey_append key hstops, hmark,
    Reader.expect_append, readEnd_text ha]
  rfl

/-- The first line of an object type. -/
def openingLine (name : String) (asAlias : Bool) : List Char :=
  if asAlias then "export type ".toList ++ (name.toList ++ (" = ".toList ++ ['\x7b']))
  else "export interface ".toList ++ (name.toList ++ [' ', '\x7b'])

/-- The last line of an object type. -/
def closingLine (asAlias : Bool) : List Char := if asAlias then ['\x7d', ';'] else ['\x7d']

section Heads

variable {name : String} (hname : isIdentifier name)

include hname

theorem readLine_type (cs : List Char) :
    readLine ("export type ".toList ++ (name.toList ++ (" = ".toList ++ cs))) =
      readAlias name cs := by
  have hline : readLine ("export type ".toList ++ (name.toList ++ (" = ".toList ++ cs))) =
      readHead ("export type ".toList ++ (name.toList ++ (" = ".toList ++ cs))) := rfl
  have hkind : Reader.expect "export interface ".toList
      ("export type ".toList ++ (name.toList ++ (" = ".toList ++ cs))) = none := rfl
  have hstops : Reader.Stops (" = ".toList ++ cs) := Reader.stops_cons (by decide)
  rw [hline, readHead, hkind]
  simp only [Reader.expect_append, Reader.readName_append hname hstops, Option.bind_eq_bind,
    Option.bind_some]

theorem readLine_interface {cs : List Char} (hcs : Reader.Stops cs) :
    readLine ("export interface ".toList ++ (name.toList ++ cs)) = readInterface name cs := by
  have hline : readLine ("export interface ".toList ++ (name.toList ++ cs)) =
      readHead ("export interface ".toList ++ (name.toList ++ cs)) := rfl
  rw [hline, readHead, Reader.expect_append]
  simp only [Reader.readName_append hname hcs, Option.bind_eq_bind, Option.bind_some]

/-- The line in front of the members of an object type. -/
theorem readLine_opening (asAlias : Bool) :
    readLine (openingLine name asAlias) = some (.opening name) := by
  cases asAlias with
  | true => exact readLine_type hname _
  | false => exact readLine_interface hname (Reader.stops_cons (by decide))

/-- Without members an object type has one line. -/
theorem readLine_hollow (asAlias : Bool) :
    readLine (openingLine name asAlias ++ closingLine asAlias) = some (.hollow name) := by
  cases asAlias with
  | true =>
    have hline : openingLine name true ++ closingLine true =
        "export type ".toList ++ (name.toList ++ (" = ".toList ++ ['\x7b', '\x7d', ';'])) := by
      simp [openingLine, closingLine]
    rw [hline]
    exact readLine_type hname _
  | false =>
    have hline : openingLine name false ++ closingLine false =
        "export interface ".toList ++ (name.toList ++ [' ', '\x7b', '\x7d']) := by
      simp [openingLine, closingLine]
    rw [hline]
    exact readLine_interface hname (Reader.stops_cons (by decide))

theorem newline_not_mem_openingLine (asAlias : Bool) : '\n' ∉ openingLine name asAlias := by
  have hident := not_mem_of_isIdentifier hname (by decide : isIdentifierRest '\n' = false)
  cases asAlias with
  | true => simp [openingLine, hident]
  | false => simp [openingLine, hident]

end Heads

theorem newline_not_mem_closingLine (asAlias : Bool) : '\n' ∉ closingLine asAlias := by
  cases asAlias <;> decide

theorem readLine_closingLine (asAlias : Bool) : readLine (closingLine asAlias) = some .closing := by
  cases asAlias <;> rfl

/-! ## A whole text -/

/-- The members of an object type are read one after another. -/
theorem readLines_properties {ps : List Property} {ms : List Member}
    (h : List.Forall₂ Property.SplicedAs ps ms) (draft : Draft) (rest : List Char) :
    readLines (some draft)
        (piecesFrom '\n' [] ((String.join (ps.map Property.text)).toList ++ rest)) =
      readLines (some { draft with members := draft.members ++ ms })
        (piecesFrom '\n' [] rest) := by
  induction h generalizing draft with
  | nil => rw [List.append_nil]; rfl
  | @cons p m ps ms hp _ ih =>
    have htext : (String.join ((p :: ps).map Property.text)).toList ++ rest =
        p.line ++ '\n' :: ((String.join (ps.map Property.text)).toList ++ rest) := by
      rw [String.toList_join, String.toList_join, List.map_cons, List.flatMap_cons,
        Property.toList_text, List.append_assoc, List.append_assoc]
      rfl
    rw [htext, readLines_line (newline_not_mem_line hp) (readLine_property hp) rfl, ih,
      List.append_assoc]
    exact Option.map_id'

/-- **A declaration is read**, whatever follows it. -/
theorem readLines_declaration {d : Declaration} {d' : DeclarationSyntax} (h : d.SplicedAs d')
    (rest : List Char) :
    readLines none (piecesFrom '\n' [] (d.text.toList ++ rest)) =
      (readLines none (piecesFrom '\n' [] rest)).map (d' :: ·) := by
  cases h with
  | @synonym name e a hname h =>
    have htext : (Declaration.synonym name e).text.toList ++ rest =
        ("export type ".toList ++ (name.toList ++ (" = ".toList ++ (e.text.toList ++ [';'])))) ++
          '\n' :: rest := by
      simp [Declaration.text]
    have hident := not_mem_of_isIdentifier hname (by decide : isIdentifierRest '\n' = false)
    have hline : '\n' ∉
        "export type ".toList ++ (name.toList ++ (" = ".toList ++ (e.text.toList ++ [';']))) := by
      simp [hident, h.newline_not_mem]
    have hread := readLine_type hname (e.text.toList ++ [';'])
    rw [readAlias_text h] at hread
    rw [htext, readLines_line hline hread rfl]
    rfl
  | @object name asAlias ps ms hname h =>
    have hopening := newline_not_mem_openingLine hname asAlias
    have hclosing := newline_not_mem_closingLine asAlias
    cases h with
    | nil =>
      have htext : (Declaration.record name asAlias []).text.toList ++ rest =
          (openingLine name asAlias ++ closingLine asAlias) ++ '\n' :: rest := by
        cases asAlias <;> simp [Declaration.text, openingLine, closingLine]
      have hline : '\n' ∉ openingLine name asAlias ++ closingLine asAlias := by
        rw [List.mem_append, not_or]
        exact ⟨hopening, hclosing⟩
      rw [htext, readLines_line hline (readLine_hollow hname asAlias) rfl]
      rfl
    | @cons p m ps ms hp hps =>
      have htext : (Declaration.record name asAlias (p :: ps)).text.toList ++ rest =
          openingLine name asAlias ++ '\n' :: ((String.join ((p :: ps).map Property.text)).toList ++
            (closingLine asAlias ++ '\n' :: rest)) := by
        cases asAlias <;> simp [Declaration.text, openingLine, closingLine]
      rw [htext, readLines_line hopening (readLine_opening hname asAlias) rfl,
        readLines_properties (.cons hp hps),
        readLines_line hclosing (readLine_closingLine asAlias) rfl]
      exact Option.map_id'

/-- **A text is read as its declarations**, with all literals put in. -/
theorem readModule_text {ds : List Declaration} {ds' : List DeclarationSyntax}
    (h : List.Forall₂ Declaration.SplicedAs ds ds') :
    readModule ("\n".intercalate (ds.map Declaration.text)) = some ds' := by
  induction h with
  | nil => rfl
  | @cons d d' ds ds' hd hds ih =>
    cases hds with
    | nil =>
      have hread := readLines_declaration hd []
      rw [List.append_nil] at hread
      rw [List.map_cons, List.map_nil, String.intercalate_singleton, readModule, hread]
      rfl
    | @cons f f' fs fs' hf hfs =>
      have htext : ("\n".intercalate ((d :: f :: fs).map Declaration.text)).toList =
          d.text.toList ++
            ([] ++ '\n' :: ("\n".intercalate ((f :: fs).map Declaration.text)).toList) := by
        rw [List.map_cons, List.map_cons, String.intercalate_cons_cons, String.toList_append,
          String.toList_append, List.append_assoc]
        rfl
      rw [readModule] at ih
      rw [readModule, htext, readLines_declaration hd, readLines_line List.not_mem_nil rfl rfl, ih]
      rfl

end Silhouette
