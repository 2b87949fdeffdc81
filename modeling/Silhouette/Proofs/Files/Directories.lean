import Silhouette.Files.Tree

/-!
# Making directories leaves the files alone

Directories are made one after another, and some of them may be there when the next one cannot be
made.  `FileTree.Widens` says what has happened to a tree then: it has the same files, the same of
them closed to readers, and more directories, but none where a file is (`makeDirectories_widens`).
So whatever a path led to it still leads to (`Widens.entry_eq_ok`), though a path that led nowhere
may lead somewhere now.
-/

set_option autoImplicit false

namespace Silhouette.FileTree

/-- The later tree has the same files and more directories, none of them in the place of a file. -/
structure Widens (t t' : FileTree) : Prop where
  files_eq : t'.files = t.files
  closed_eq : t'.closed = t.closed
  made_of_made : ∀ q ∈ t.made, q ∈ t'.made
  free : ∀ q ∈ t'.made, q ∈ t.made ∨ t.files.lookup q = none

variable {t t' t'' : FileTree}

namespace Widens

theorem refl (t : FileTree) : t.Widens t := ⟨rfl, rfl, fun _ h ↦ h, fun _ h ↦ .inl h⟩

theorem trans (h : t.Widens t') (h' : t'.Widens t'') : t.Widens t'' where
  files_eq := h'.files_eq.trans h.files_eq
  closed_eq := h'.closed_eq.trans h.closed_eq
  made_of_made q hq := h'.made_of_made q (h.made_of_made q hq)
  free q hq := by
    rcases h'.free q hq with hq | hq
    · exact h.free q hq
    · exact .inr (h.files_eq ▸ hq)

/-! ## Walking in the wider tree -/

/-- What two steps in a row answer, they answer if each of them may answer more. -/
theorem bind_eq_ok_of {ε α β : Type} {x y : Except ε α} {f g : α → Except ε β} {b : β}
    (hx : ∀ a, x = .ok a → y = .ok a) (hf : ∀ a, f a = .ok b → g a = .ok b)
    (h : (x >>= f) = .ok b) : (y >>= g) = .ok b := by
  cases x with
  | error e => cases h
  | ok a =>
    rw [hx a rfl]
    exact hf a h

theorem isDirectory (h : t.Widens t') {q : Place} (hq : t.isDirectory q) : t'.isDirectory q := by
  simp only [FileTree.isDirectory, Bool.or_eq_true, List.contains_iff_mem, h.files_eq] at hq ⊢
  exact hq.imp_left (Or.imp_right (h.made_of_made q))

/-- A file does not turn into a directory. -/
theorem not_isDirectory (h : t.Widens t') {q : Place} {c : Content} (hq : ¬ t.isDirectory q)
    (hfile : t.files.lookup q = some c) : ¬ t'.isDirectory q := by
  simp only [FileTree.isDirectory, Bool.or_eq_true, List.contains_iff_mem, h.files_eq] at hq ⊢
  refine fun hq' ↦ hq (hq'.imp_left (Or.imp_right fun hmade ↦ ?_))
  refine (h.free q hmade).resolve_right fun hnone ↦ ?_
  rw [hfile] at hnone
  cases hnone

theorem checkOpen_eq (h : t.Widens t') (p : Place) : t'.checkOpen p = t.checkOpen p := by
  rw [checkOpen, h.closed_eq, ← checkOpen]

theorem readEntry_eq (h : t.Widens t') (x : Entry) : t'.readEntry x = t.readEntry x := by
  match x with
  | .file answer => rfl
  | .directory none => rfl
  | .directory (some p) => rw [readEntry, h.checkOpen_eq, ← readEntry]

theorem step_eq_ok (h : t.Widens t') {spot : Spot} {piece : String} {x : Entry}
    (hx : t.step spot piece = .ok x) : t'.step spot piece = .ok x := by
  unfold step at hx ⊢
  split at hx
  · next hstay => rwa [if_pos hstay]
  next hstay =>
  rw [if_neg hstay]
  split at hx
  · next hup => rwa [if_pos hup]
  next hup =>
  rw [if_neg hup]
  split at hx
  · cases hx
  next hlength =>
  rw [if_neg hlength]
  cases spot with
  | none => cases hx
  | some p =>
    dsimp only at hx ⊢
    split at hx
    · next hdir => rwa [if_pos (h.isDirectory hdir)]
    · next hdir =>
      split at hx
      · next content hfile =>
        rwa [if_neg (h.not_isDirectory hdir hfile), h.files_eq, hfile, h.checkOpen_eq]
      · cases hx

theorem enter_eq_ok (h : t.Widens t') {spot spot' : Spot} {piece : String}
    (hx : t.enter spot piece = .ok spot') : t'.enter spot piece = .ok spot' :=
  bind_eq_ok_of (fun _ ↦ h.step_eq_ok) (fun _ hx ↦ hx) hx

theorem foldlM_enter_eq_ok (h : t.Widens t') {pieces : List String} {spot spot' : Spot}
    (hx : pieces.foldlM t.enter spot = .ok spot') : pieces.foldlM t'.enter spot = .ok spot' := by
  induction pieces generalizing spot with
  | nil => exact hx
  | cons piece pieces ih =>
    rw [List.foldlM_cons] at hx ⊢
    exact bind_eq_ok_of (fun _ ↦ h.enter_eq_ok) (fun _ ↦ ih) hx

/-- **A path leads to what it led to before.** -/
theorem entry_eq_ok (h : t.Widens t') {path : String} {x : Entry} (hx : t.entry path = .ok x) :
    t'.entry path = .ok x :=
  bind_eq_ok_of (fun _ hcheck ↦ hcheck)
    (fun _ ↦ bind_eq_ok_of (fun _ ↦ h.foldlM_enter_eq_ok) fun _ ↦ h.step_eq_ok) hx

theorem read_eq_ok (h : t.Widens t') {path text : String} (hx : t.read path = .ok text) :
    t'.read path = .ok text :=
  bind_eq_ok_of (fun _ ↦ h.entry_eq_ok) (fun x hx ↦ h.readEntry_eq x ▸ hx) hx

end Widens

/-! ## Making directories -/

/-- There is no file where a walk finds nothing. -/
theorem lookup_of_step_eq_notFound {p : Place} {piece : String}
    (h : t.step (some p) piece = .error .notFound) : t.files.lookup (p ++ [piece]) = none := by
  unfold step at h
  split at h
  · cases h
  split at h
  · cases h
  split at h
  · cases h
  dsimp only at h
  split at h
  · cases h
  split at h
  · cases h
  · assumption

theorem widens_made {p : Place} (h : t.files.lookup p = none) :
    t.Widens { t with made := p :: t.made } where
  files_eq := rfl
  closed_eq := rfl
  made_of_made _ hq := List.mem_cons_of_mem _ hq
  free q hq := by
    rcases List.mem_cons.1 hq with rfl | hq
    · exact .inr h
    · exact .inl hq

theorem makeFrom_widens (t : FileTree) (spot : Spot) (began : Bool) (pieces : List String) :
    t.Widens (t.makeFrom spot began pieces).2 := by
  induction pieces generalizing t spot began with
  | nil => exact .refl t
  | cons piece rest ih =>
    rw [makeFrom]
    split
    · exact ih t _ began
    · exact .refl t
    · next hstep =>
      cases spot with
      | none => exact ih t none true
      | some p => exact (widens_made (lookup_of_step_eq_notFound hstep)).trans (ih _ _ true)
    · exact .refl t

/-- **However far it gets, making directories leaves the files alone.** -/
theorem makeDirectories_widens (t : FileTree) (path : String) :
    t.Widens (t.makeDirectories path).2 := by
  unfold makeDirectories
  split
  · exact .refl t
  split
  · exact t.makeFrom_widens _ _ _
  · exact .refl t

end Silhouette.FileTree
