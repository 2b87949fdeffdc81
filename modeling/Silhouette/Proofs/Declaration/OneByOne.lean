import Silhouette.Proofs.Declaration.Naming

/-!
# Declaring one after another, and all at once

An emitter adds each declaration as soon as it is made.  `declarationsOf` makes all declarations of
a structure before any of them counts, and that is easier to speak about.  The two go together: if
all can be made, just those are added (`Emitter.declareNamed_of_ok`); if not, those that come before
the first fault are added (`Emitter.exists_declareNamed_of_error`).

Whether a fault can come after the first declaration at all is another question, and it depends on
the structure.
-/

set_option autoImplicit false

namespace Silhouette

/-- All declarations of a structure: the root, and the named types. -/
def declarationsOf (options : EmitOptions) (s : Structure) (rootName : String) (names : Names) :
    Except EmitError (List Declaration) := do
  let root ← declareRoot options s rootName names
  return root ++ (← names.mapM (declare options s names)).flatten

namespace Emitter

variable {e : Emitter} {s : Structure} {rootName : String} {names entries : Names}

@[simp] theorem push_nil (e : Emitter) : e.push [] = e := by
  rw [push, List.append_nil]

@[simp] theorem push_push (e : Emitter) (added more : List Declaration) :
    (e.push added).push more = e.push (added ++ more) := by
  rw [push, push, push, List.append_assoc]

/-! ## Named objects -/

theorem declareEach_of_ok {dss : List (List Declaration)}
    (h : entries.mapM (declare e.options s names) = .ok dss) :
    e.declareEach s names entries = (.ok (), e.push dss.flatten) := by
  induction entries generalizing e dss with
  | nil =>
    cases h
    exact congrArg _ (push_nil e).symm
  | cons entry entries ih =>
    rw [List.mapM_cons] at h
    rw [declareEach]
    cases hadded : declare e.options s names entry with
    | error error =>
      rw [hadded] at h
      cases h
    | ok added =>
      rw [hadded] at h
      cases hrest : entries.mapM (declare e.options s names) with
      | error error =>
        rw [hrest] at h
        cases h
      | ok rest =>
        rw [hrest] at h
        cases h
        dsimp only
        rw [ih (e := e.push added) hrest, push_push, List.flatten_cons]

/-- What comes before a fault is added. -/
theorem exists_declareEach_of_error {error : EmitError}
    (h : entries.mapM (declare e.options s names) = .error error) :
    ∃ done dss, done <+: entries ∧ done.mapM (declare e.options s names) = .ok dss ∧
      e.declareEach s names entries = (.error error, e.push dss.flatten) := by
  induction entries generalizing e with
  | nil => cases h
  | cons entry entries ih =>
    rw [List.mapM_cons] at h
    rw [declareEach]
    cases hadded : declare e.options s names entry with
    | error error =>
      rw [hadded] at h
      cases h
      exact ⟨[], [], List.nil_prefix, rfl, by rw [List.flatten_nil, push_nil]⟩
    | ok added =>
      rw [hadded] at h
      cases hrest : entries.mapM (declare e.options s names) with
      | ok rest =>
        rw [hrest] at h
        cases h
      | error error =>
        rw [hrest] at h
        cases h
        obtain ⟨done, dss, hdone, hdss, heach⟩ := ih (e := e.push added) hrest
        refine ⟨entry :: done, added :: dss, List.prefix_cons_inj entry |>.2 hdone, ?_, ?_⟩
        · rw [List.mapM_cons, hadded,
            show done.mapM (declare e.options s names) = .ok dss from hdss]
          rfl
        · dsimp only
          rw [heach, push_push, List.flatten_cons]

/-! ## Structures whose objects have names -/

theorem declareNamed_of_ok {added : List Declaration}
    (h : declarationsOf e.options s rootName names = .ok added) :
    e.declareNamed s rootName names = (.ok (), e.push added) := by
  rw [declarationsOf] at h
  rw [declareNamed]
  cases hroot : declareRoot e.options s rootName names with
  | error error =>
    rw [hroot] at h
    cases h
  | ok root =>
    rw [hroot] at h
    cases hnames : names.mapM (declare e.options s names) with
    | error error =>
      rw [hnames] at h
      cases h
    | ok dss =>
      rw [hnames] at h
      cases h
      dsimp only
      rw [declareEach_of_ok (e := e.push root) hnames, push_push]

/-- If not all can be declared, the error is that of the first fault, and what is added are the
declarations before it. -/
theorem exists_declareNamed_of_error {error : EmitError}
    (h : declarationsOf e.options s rootName names = .error error) :
    ∃ added, e.declareNamed s rootName names = (.error error, e.push added) ∧
      (added = [] ∨ ∃ root done dss, declareRoot e.options s rootName names = .ok root ∧
        done <+: names ∧ done.mapM (declare e.options s names) = .ok dss ∧
          added = root ++ dss.flatten) := by
  rw [declarationsOf] at h
  rw [declareNamed]
  cases hroot : declareRoot e.options s rootName names with
  | error error =>
    rw [hroot] at h
    cases h
    exact ⟨[], by rw [push_nil], .inl rfl⟩
  | ok root =>
    rw [hroot] at h
    cases hnames : names.mapM (declare e.options s names) with
    | ok dss =>
      rw [hnames] at h
      cases h
    | error error =>
      rw [hnames] at h
      cases h
      obtain ⟨done, dss, hdone, hdss, heach⟩ :=
        exists_declareEach_of_error (e := e.push root) hnames
      refine ⟨root ++ dss.flatten, ?_, .inr ⟨root, done, dss, rfl, hdone, hdss, rfl⟩⟩
      dsimp only
      rw [heach, push_push]

/-- To declare what has names takes no more of them. -/
theorem taken_declareNamed (e : Emitter) (s : Structure) (rootName : String) (names : Names) :
    (e.declareNamed s rootName names).2.taken = e.taken := by
  cases hadded : declarationsOf e.options s rootName names with
  | ok added => rw [declareNamed_of_ok hadded]; rfl
  | error error =>
    obtain ⟨added, hnamed, -⟩ := exists_declareNamed_of_error hadded
    rw [hnamed]
    rfl

/-! ## Structures -/

/-- Objects are named first, and if that succeeds they are declared. -/
theorem emitWith_of_isIdentifier (find : NameFinder) (e : Emitter) (s : Structure) {name : String}
    (hname : Text.isIdentifier name) :
    e.emitWith find s name =
      match assignNames find s.types [] (e.taken.insert (find e.taken name)) []
        [{ type := s.root, hint := find e.taken name, isName := true }] with
      | (.error error, taken) => (.error error, { e with taken })
      | (.ok names, taken) => { e with taken }.declareNamed s (find e.taken name) names := by
  rw [emitWith, if_neg (by simp [hname])]
  dsimp only
  split
  · next error h =>
    rw [← Prod.eta (assignNames _ _ _ _ _ _), h]
  · next names h =>
    rw [← Prod.eta (assignNames _ _ _ _ _ _), h]

theorem emitWith_of_not_isIdentifier (find : NameFinder) (e : Emitter) (s : Structure)
    {name : String} (hname : ¬ Text.isIdentifier name) :
    e.emitWith find s name = (.error (.invalidName name), e) := by
  rw [emitWith, if_pos (by simp [hname])]

/-- The names taken in the end are those that the walk has taken. -/
theorem taken_emitWith (find : NameFinder) (e : Emitter) (s : Structure) {name : String}
    (hname : Text.isIdentifier name) :
    (e.emitWith find s name).2.taken =
      (assignNames find s.types [] (e.taken.insert (find e.taken name)) []
        [{ type := s.root, hint := find e.taken name, isName := true }]).2 := by
  rw [emitWith_of_isIdentifier find e s hname]
  rcases assignNames find s.types [] _ [] _ with ⟨error | names, taken⟩
  · rfl
  · exact taken_declareNamed { e with taken } s _ names

theorem emit_of_isIdentifier (e : Emitter) (s : Structure) {name : String}
    (hname : Text.isIdentifier name) :
    e.emit s name =
      match assignRoot s e.taken (freshName e.taken name) with
      | (.error error, taken) => (.error error, { e with taken })
      | (.ok names, taken) => { e with taken }.declareNamed s (freshName e.taken name) names :=
  emitWith_of_isIdentifier freshName e s hname

theorem emit_of_not_isIdentifier (e : Emitter) (s : Structure) {name : String}
    (hname : ¬ Text.isIdentifier name) : e.emit s name = (.error (.invalidName name), e) :=
  emitWith_of_not_isIdentifier freshName e s hname

end Emitter

end Silhouette
