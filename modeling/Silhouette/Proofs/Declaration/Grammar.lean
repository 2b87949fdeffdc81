import Silhouette.Proofs.Declaration.ReadBack

/-!
# The grammar of type expressions

A literal may be any type expression of the target language, so what a text with literals in it says
is a matter of the grammar of that language and not of how the text came about.  A text is cut into
`tokens`, and `Spells` says what tokens spell:

* an arm: an identifier, with type arguments in angle brackets or without; arms in parentheses; or
  an arm with a pair of square brackets behind it;
* `Arms`, with bars between them.

So square brackets bind tighter than bars: behind arms they belong to the last one only
(`Spells.bracket`).

Literals are put into types as text.  `TypeExpr.SplicedAs` says which arms come out of an expression
if its literals are replaced by the arms that they spell, and those are the arms that its text
spells (`TypeExpr.SplicedAs.spells_text`).
-/

set_option autoImplicit false

namespace Silhouette

open Text

/-! ## Types as they are read -/

/-- A type as it is read. -/
inductive TypeSyntax where
  /-- A name, with type arguments. -/
  | reference (name : String) (arguments : List TypeSyntax)
  | list (item : TypeSyntax)
  | union (left right : TypeSyntax)

/-- What stands between bars; a single arm is no union. -/
structure Arms where
  before : List TypeSyntax
  last : TypeSyntax

namespace Arms

def single (t : TypeSyntax) : Arms := ⟨[], t⟩

/-- The type that the arms make up. -/
def type (a : Arms) : TypeSyntax := a.before.foldr .union a.last

/-- Arms behind one more bar. -/
def append (a b : Arms) : Arms := ⟨a.before ++ a.last :: b.before, b.last⟩

/-- Brackets behind arms belong to the last one. -/
def bracket (a : Arms) : Arms := ⟨a.before, .list a.last⟩

theorem bracket_append (a b : Arms) : (a.append b).bracket = a.append b.bracket := rfl

end Arms

/-! ## Tokens -/

/-- A run of letters, digits, `_` and `$`, or any other character but a blank. -/
inductive TypeToken where
  | word (s : String)
  | mark (c : Char)
deriving DecidableEq

def wordOf (cs : List Char) : List TypeToken := if cs = [] then [] else [.word (String.ofList cs)]

def markOf (c : Char) : List TypeToken := if c = ' ' then [] else [.mark c]

/-- The tokens of a text that a run of word characters stands in front of. -/
def tokensFrom (run : List Char) : List Char → List TypeToken
  | [] => wordOf run
  | c :: cs =>
    if isIdentifierRest c then tokensFrom (run ++ [c]) cs
    else wordOf run ++ (markOf c ++ tokensFrom [] cs)

def tokens (s : String) : List TypeToken := tokensFrom [] s.toList

theorem tokensFrom_of_forall {run cs : List Char} (h : ∀ c ∈ cs, isIdentifierRest c) :
    tokensFrom run cs = wordOf (run ++ cs) := by
  induction cs generalizing run with
  | nil => rw [tokensFrom, List.append_nil]
  | cons c cs ih =>
    obtain ⟨hc, hcs⟩ := List.forall_mem_cons.1 h
    rw [tokensFrom, if_pos hc, ih hcs, List.append_assoc]
    rfl

/-- Where no word goes on, what follows has tokens of its own. -/
theorem tokensFrom_append {run a b : List Char} (h : Reader.Stops b) :
    tokensFrom run (a ++ b) = tokensFrom run a ++ tokensFrom [] b := by
  induction a generalizing run with
  | nil =>
    cases b with
    | nil => exact (List.append_nil _).symm
    | cons c b =>
      have hc : ¬ isIdentifierRest c := by
        rw [h c rfl]
        exact Bool.false_ne_true
      rw [List.nil_append, tokensFrom, tokensFrom, tokensFrom, if_neg hc, if_neg hc]
      rfl
  | cons c a ih =>
    rw [List.cons_append, tokensFrom, tokensFrom]
    by_cases hc : isIdentifierRest c
    · rw [if_pos hc, if_pos hc, ih]
    · rw [if_neg hc, if_neg hc, ih, List.append_assoc, List.append_assoc]

theorem tokensFrom_mark {c : Char} (hc : isIdentifierRest c = false) (hblank : c ≠ ' ')
    (cs : List Char) : tokensFrom [] (c :: cs) = .mark c :: tokensFrom [] cs := by
  rw [tokensFrom, if_neg (by rw [hc]; exact Bool.false_ne_true), markOf, if_neg hblank]
  rfl

theorem tokensFrom_blank (cs : List Char) : tokensFrom [] (' ' :: cs) = tokensFrom [] cs := rfl

theorem tokens_of_isIdentifier {name : String} (h : isIdentifier name) :
    tokens name = [.word name] := by
  obtain ⟨c, cs, hname, -⟩ := isIdentifier_iff.1 h
  have hne : name.toList ≠ [] := by
    rw [hname]
    exact List.cons_ne_nil c cs
  rw [tokens, tokensFrom_of_forall (forall_isIdentifierRest h), List.nil_append, wordOf,
    if_neg hne, String.ofList_toList]

/-- Every character but a blank is in some token. -/
theorem mem_tokensFrom {c : Char} (hc : isIdentifierRest c = false) (hblank : c ≠ ' ')
    {run cs : List Char} (h : c ∈ cs) : TypeToken.mark c ∈ tokensFrom run cs := by
  induction cs generalizing run with
  | nil => cases h
  | cons d cs ih =>
    rw [tokensFrom]
    rcases List.mem_cons.1 h with rfl | h
    · rw [if_neg (by rw [hc]; exact Bool.false_ne_true), markOf, if_neg hblank]
      exact List.mem_append_right _ List.mem_cons_self
    · split
      · exact ih h
      · exact List.mem_append_right _ (List.mem_append_right _ (ih h))

/-! ## What tokens spell -/

/-- The marks that occur in type expressions. -/
def typeMarks : List Char := ['|', ',', '<', '>', '(', ')', '[', ']']

/-- A token may occur in a type expression. -/
def TypeToken.Fits : TypeToken → Prop
  | word s => isIdentifier s
  | mark c => c ∈ typeMarks

instance : (token : TypeToken) → Decidable token.Fits
  | .word s => inferInstanceAs (Decidable (isIdentifier s = true))
  | .mark c => inferInstanceAs (Decidable (c ∈ typeMarks))

/-- What is spelled: one arm, arms with bars between them, or type arguments. -/
inductive Phrase where
  | arm (t : TypeSyntax)
  | arms (a : Arms)
  | arguments (ts : List TypeSyntax)

/-- Tokens spell a phrase. -/
inductive Spells : List TypeToken → Phrase → Prop
  | name {n : String} (hn : isIdentifier n) : Spells [.word n] (.arm (.reference n []))
  | apply {n : String} {ts : List TypeToken} {args : List TypeSyntax} (hn : isIdentifier n)
      (h : Spells ts (.arguments args)) :
      Spells (.word n :: .mark '<' :: (ts ++ [.mark '>'])) (.arm (.reference n args))
  | parenthesis {ts : List TypeToken} {a : Arms} (h : Spells ts (.arms a)) :
      Spells (.mark '(' :: (ts ++ [.mark ')'])) (.arm a.type)
  | list {ts : List TypeToken} {t : TypeSyntax} (h : Spells ts (.arm t)) :
      Spells (ts ++ [.mark '[', .mark ']']) (.arm (.list t))
  | single {ts : List TypeToken} {t : TypeSyntax} (h : Spells ts (.arm t)) :
      Spells ts (.arms (.single t))
  | bar {ts ts' : List TypeToken} {a b : Arms} (h : Spells ts (.arms a))
      (h' : Spells ts' (.arms b)) :
      Spells (ts ++ .mark '|' :: ts') (.arms (a.append b))
  | argument {ts : List TypeToken} {a : Arms} (h : Spells ts (.arms a)) :
      Spells ts (.arguments [a.type])
  | comma {ts ts' : List TypeToken} {as bs : List TypeSyntax} (h : Spells ts (.arguments as))
      (h' : Spells ts' (.arguments bs)) : Spells (ts ++ .mark ',' :: ts') (.arguments (as ++ bs))

namespace Spells

/-- **Brackets behind arms belong to the last one.** -/
theorem bracket {ts : List TypeToken} {a : Arms} (h : Spells ts (.arms a)) :
    Spells (ts ++ [.mark '[', .mark ']']) (.arms a.bracket) := by
  generalize hp : Phrase.arms a = p at h
  induction h generalizing a with
  | single h =>
    cases hp
    exact .single (.list h)
  | @bar ts ts' b c h _ _ ih =>
    cases hp
    rw [Arms.bracket_append, List.append_assoc]
    exact .bar h (ih rfl)
  | _ => cases hp

/-- Words in type expressions are identifiers, and there are only some marks. -/
theorem fits {ts : List TypeToken} {p : Phrase} (h : Spells ts p) : ∀ token ∈ ts, token.Fits := by
  induction h with
  | name hn => exact List.forall_mem_singleton.2 hn
  | apply hn _ ih =>
    refine List.forall_mem_cons.2 ⟨hn, List.forall_mem_cons.2 ⟨by decide, ?_⟩⟩
    exact List.forall_mem_append.2 ⟨ih, List.forall_mem_singleton.2 (by decide)⟩
  | parenthesis _ ih =>
    refine List.forall_mem_cons.2 ⟨by decide, ?_⟩
    exact List.forall_mem_append.2 ⟨ih, List.forall_mem_singleton.2 (by decide)⟩
  | list _ ih => exact List.forall_mem_append.2 ⟨ih, by decide⟩
  | single _ ih | argument _ ih => exact ih
  | bar _ _ ih ih' | comma _ _ ih ih' =>
    exact List.forall_mem_append.2 ⟨ih, List.forall_mem_cons.2 ⟨by decide, ih'⟩⟩

/-- A character that occurs in no type expression is not in its text. -/
theorem not_mem_toList {s : String} {a : Arms} (h : Spells (tokens s) (.arms a)) {c : Char}
    (hc : isIdentifierRest c = false) (hblank : c ≠ ' ') (hmark : c ∉ typeMarks) : c ∉ s.toList :=
  fun hmem ↦ hmark (h.fits _ (mem_tokensFrom hc hblank hmem))

end Spells

/-! ## Literals put into expressions -/

namespace TypeExpr

/-- The arms of an expression in whose text literals are put as they are. -/
inductive SplicedAs : TypeExpr → Arms → Prop
  | literal {s : String} {a : Arms} (h : Spells (tokens s) (.arms a)) : SplicedAs (.literal s) a
  | name {n : String} (hn : isIdentifier n) : SplicedAs (.name n) (.single (.reference n []))
  | enclosed {item : TypeExpr} {a : Arms} (hparens : item.needsParens = true)
      (h : SplicedAs item a) : SplicedAs (.array item) (.single (.list a.type))
  | array {item : TypeExpr} {a : Arms} (hparens : item.needsParens = false)
      (h : SplicedAs item a) : SplicedAs (.array item) a.bracket
  | only {e : TypeExpr} {a : Arms} (h : SplicedAs e a) : SplicedAs (.union [e]) a
  | union {e : TypeExpr} {es : List TypeExpr} {a b : Arms} (h : SplicedAs e a)
      (hes : SplicedAs (.union es) b) : SplicedAs (.union (e :: es)) (a.append b)

theorem tokens_bracketed (s : String) :
    tokens (s ++ "[]") = tokens s ++ [.mark '[', .mark ']'] := by
  have hstops : Reader.Stops "[]".toList := Reader.stops_cons (by decide)
  rw [tokens, String.toList_append, tokensFrom_append hstops]
  rfl

theorem tokens_enclosed (s : String) :
    tokens ("(" ++ s ++ ")[]") =
      (.mark '(' :: (tokens s ++ [.mark ')'])) ++ [.mark '[', .mark ']'] := by
  have hstops : Reader.Stops ")[]".toList := Reader.stops_cons (by decide)
  have htext : ("(" ++ s ++ ")[]").toList = '(' :: (s.toList ++ ")[]".toList) := by simp
  rw [tokens, htext, tokensFrom_mark (by decide) (by decide), tokensFrom_append hstops,
    List.cons_append, List.append_assoc]
  rfl

theorem tokens_barred (s s' : String) :
    tokens (s ++ " | " ++ s') = tokens s ++ .mark '|' :: tokens s' := by
  have hstops : Reader.Stops (' ' :: '|' :: ' ' :: s'.toList) := Reader.stops_cons (by decide)
  have htext : (s ++ " | " ++ s').toList = s.toList ++ ' ' :: '|' :: ' ' :: s'.toList := by simp
  rw [tokens, htext, tokensFrom_append hstops, tokensFrom_blank,
    tokensFrom_mark (by decide) (by decide), tokensFrom_blank]
  rfl

/-- **The text of an expression spells the arms that come out if literals are put in.** -/
theorem SplicedAs.spells_text {e : TypeExpr} {a : Arms} (h : e.SplicedAs a) :
    Spells (tokens e.text) (.arms a) := by
  induction h with
  | literal h => rwa [text]
  | name hn =>
    rw [text, tokens_of_isIdentifier hn]
    exact .single (.name hn)
  | enclosed hparens _ ih =>
    rw [text, if_pos hparens, tokens_enclosed]
    exact .single (.list (.parenthesis ih))
  | array hparens _ ih =>
    rw [text, if_neg (by rw [hparens]; exact Bool.false_ne_true), tokens_bracketed]
    exact ih.bracket
  | @only e a _ ih =>
    have htext : (TypeExpr.union [e]).text = e.text := by simp [text, texts]
    rwa [htext]
  | @union e es a b _ hes ih ihes =>
    cases es with
    | nil => cases hes
    | cons f es =>
      have htext : (TypeExpr.union (e :: f :: es)).text =
          e.text ++ " | " ++ (TypeExpr.union (f :: es)).text := by
        simp [text, texts, String.intercalate_cons_cons]
      rw [htext, tokens_barred]
      exact .bar ih ihes

end TypeExpr

end Silhouette
