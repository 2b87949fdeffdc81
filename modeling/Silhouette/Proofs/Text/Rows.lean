import Mathlib.Data.List.Forall2
import Mathlib.Logic.Relation
import Silhouette.Text.Blank

/-!
# The rows of a text

A row is a line that is not blank.  If a text is closed, so that a line starts behind it, then the
rows of what follows come after its own (`rows_append`), and everything else about rows comes from
this one equation: closed texts put one after another have the rows of each (`rows_join`), and a
blank line, which has no rows, can stand wherever a line starts (`Padded.rows_eq`).
-/

set_option autoImplicit false

namespace Silhouette.Text

def rows (s : String) : List String := (lines s).filter fun line ↦ !isBlankLine line

/-- Behind a closed text a line starts. -/
def IsClosed (s : String) : Prop := s = "" ∨ s.toList.getLast? = some '\n'

instance (s : String) : Decidable (IsClosed s) := inferInstanceAs (Decidable (_ ∨ _))

/-! ## One text after another -/

theorem IsClosed.append {a b : String} (ha : IsClosed a) (hb : IsClosed b) : IsClosed (a ++ b) := by
  obtain rfl | hb := hb
  · rwa [String.append_empty]
  · refine .inr ?_
    rw [String.toList_append, List.getLast?_append, hb]
    rfl

theorem isClosed_line (s : String) : IsClosed (s ++ "\n") := .inr (by simp)

theorem lines_append {a b : String} (ha : IsClosed a) : lines (a ++ b) = lines a ++ lines b := by
  obtain rfl | ha := ha
  · rw [String.empty_append]
    rfl
  · obtain ⟨cs, hcs⟩ := List.getLast?_eq_some_iff.1 ha
    have happend : (a ++ b).toList = cs ++ '\n' :: b.toList := by
      rw [String.toList_append, hcs, List.append_assoc, List.singleton_append]
    rw [lines, lines, lines, happend, hcs, linesFrom_append_newline, List.map_append]

/-- **Rows behind a closed text** come after its own. -/
theorem rows_append {a b : String} (ha : IsClosed a) : rows (a ++ b) = rows a ++ rows b := by
  rw [rows, lines_append ha, List.filter_append]
  rfl

theorem rows_join {texts : List String} (h : ∀ text ∈ texts, IsClosed text) :
    rows (String.join texts) = texts.flatMap rows := by
  induction texts with
  | nil => rfl
  | cons text texts ih =>
    obtain ⟨htext, htexts⟩ := List.forall_mem_cons.1 h
    rw [String.join_cons, rows_append htext, ih htexts, List.flatMap_cons]

/-! ## Lines put one after another -/

/-- A text without line feeds and carriage returns is one line. -/
def IsLine (s : String) : Prop := ∀ c ∈ s.toList, c ≠ '\n' ∧ c ≠ '\r'

instance (s : String) : Decidable (IsLine s) :=
  List.decidableBAll (fun c ↦ c ≠ '\n' ∧ c ≠ '\r') s.toList

theorem IsLine.append {a b : String} (ha : IsLine a) (hb : IsLine b) : IsLine (a ++ b) := by
  rw [IsLine, String.toList_append]
  exact List.forall_mem_append.2 ⟨ha, hb⟩

theorem linesFrom_line {line cs : List Char} (hline : line.head? ≠ some '\r')
    (hcs : ∀ c ∈ cs, c ≠ '\n' ∧ c ≠ '\r') :
    linesFrom line (cs ++ ['\n']) = [line.reverse ++ cs] := by
  induction cs generalizing line with
  | nil =>
    have hdrop : dropReturn line = line := by
      unfold dropReturn
      split
      · exact absurd rfl hline
      · rfl
    rw [List.nil_append, linesFrom, if_pos rfl, hdrop, List.append_nil]
    rfl
  | cons c cs ih =>
    obtain ⟨⟨hfeed, hreturn⟩, hcs⟩ := List.forall_mem_cons.1 hcs
    rw [List.cons_append, linesFrom, if_neg hfeed, ih (by simpa using hreturn) hcs,
      List.reverse_cons, List.append_assoc, List.singleton_append]

theorem isClosed_join (ls : List String) : IsClosed (String.join (ls.map (· ++ "\n"))) := by
  induction ls with
  | nil => exact .inl rfl
  | cons l ls ih =>
    rw [List.map_cons, String.join_cons]
    exact (isClosed_line l).append ih

/-- **Lines are read back** from the text that has each of them closed. -/
theorem lines_join {ls : List String} (h : ∀ l ∈ ls, IsLine l) :
    lines (String.join (ls.map (· ++ "\n"))) = ls := by
  induction ls with
  | nil => rfl
  | cons l ls ih =>
    obtain ⟨hl, hls⟩ := List.forall_mem_cons.1 h
    have hfirst : lines (l ++ "\n") = [l] := by
      have hend : (l ++ "\n").toList = l.toList ++ ['\n'] := String.toList_append ..
      rw [lines, hend, linesFrom_line (by simp) hl]
      simp
    rw [List.map_cons, String.join_cons, lines_append (isClosed_line l), hfirst, ih hls]
    rfl

/-! ## Blank lines -/

/-- A blank text is cut into blank lines. -/
theorem all_isBlank_of_mem_linesFrom {line cs l : List Char} (hline : line.all isBlank)
    (hcs : cs.all isBlank) (hl : l ∈ linesFrom line cs) : l.all isBlank := by
  induction cs generalizing line with
  | nil =>
    rw [linesFrom] at hl
    split at hl
    · cases hl
    · obtain rfl := List.mem_singleton.1 hl
      rwa [List.all_reverse]
  | cons c cs ih =>
    rw [List.all_cons, Bool.and_eq_true_iff] at hcs
    obtain ⟨hc, hcs⟩ := hcs
    have hnext : (c :: line).all isBlank := by rw [List.all_cons, hc, hline, Bool.and_true]
    rw [linesFrom] at hl
    split at hl
    · rcases List.mem_cons.1 hl with rfl | hl
      · rw [List.all_reverse]
        unfold dropReturn
        split
        · exact (Bool.and_eq_true_iff.1 hline).2
        · exact hline
      · exact ih rfl hcs hl
    · exact ih hnext hcs hl

theorem rows_of_isBlankLine {s : String} (h : isBlankLine s) : rows s = [] := by
  refine List.filter_eq_nil_iff.2 fun line hline ↦ ?_
  obtain ⟨l, hl, rfl⟩ := List.mem_map.1 hline
  have hblank : l.all isBlank := all_isBlank_of_mem_linesFrom rfl h hl
  rw [isBlankLine, String.toList_ofList, hblank]
  decide

/-- One blank line is put where a line starts.  As the last line it needs no line end. -/
inductive Inserts : String → String → Prop
  | line {before blank after : String} : IsClosed before → isBlankLine blank →
      Inserts (before ++ after) (before ++ (blank ++ "\n" ++ after))
  | last {before blank : String} : IsClosed before → isBlankLine blank →
      Inserts before (before ++ blank)

/-- Any number of blank lines are put where lines start. -/
abbrev Padded : String → String → Prop := Relation.ReflTransGen Inserts

theorem Inserts.rows_eq {a b : String} (h : Inserts a b) : rows b = rows a := by
  cases h with
  | @line before blank after hbefore hblank =>
    have hclosed := isClosed_line blank
    have hline : isBlankLine (blank ++ "\n") := by
      rw [isBlankLine, String.toList_append, List.all_append]
      exact Bool.and_eq_true_iff.2 ⟨hblank, by decide⟩
    rw [rows_append hbefore, rows_append hbefore, rows_append hclosed, rows_of_isBlankLine hline,
      List.nil_append]
  | last hbefore hblank => rw [rows_append hbefore, rows_of_isBlankLine hblank, List.append_nil]

/-- **Blank lines are no rows.** -/
theorem Padded.rows_eq {a b : String} (h : Padded a b) : rows b = rows a := by
  induction h with
  | refl => rfl
  | tail _ hinsert ih => exact hinsert.rows_eq.trans ih

theorem flatMap_rows_eq {texts padded : List String} (h : List.Forall₂ Padded texts padded) :
    padded.flatMap rows = texts.flatMap rows := by
  induction h with
  | nil => rfl
  | cons htext _ ih => rw [List.flatMap_cons, List.flatMap_cons, htext.rows_eq, ih]

end Silhouette.Text
