import Silhouette.Inference.Error
import Silhouette.Sample.Kind

/-!
# The sites of a sample, in document order

`Json.sites` lists a value and everything inside it in the order in which a reader of the document
meets it: a value before its parts, elements and members one after another.  Only lists and objects
have parts; a marker is looked at as a whole.

Something can be wrong at a site in two ways (`Site.Faulty`): it lies too deep, or the value there
is a malformed marker.  Depth is looked at first, so a site is wrong in one way only.
`Json.FirstFault` says what is wrong at the first site where something is, and where a site is its
path says, as it is written out (`Path.text_push_key`, `Path.text_push_index`).
-/

set_option autoImplicit false

namespace Silhouette

/-! ## Paths, written out -/

namespace Path

theorem text_root : root.text = "." := rfl

theorem text_push (p : Path) (s : Step) :
    (p.push s).text = if p = root then s.leadingText else p.text ++ s.text := by
  obtain ⟨steps⟩ := p
  rw [text, text, push]
  dsimp only
  rw [List.reverse_cons]
  cases hsteps : steps.reverse with
  | nil =>
    obtain rfl := List.reverse_eq_nil_iff.1 hsteps
    exact String.append_empty
  | cons first rest =>
    have hne : (⟨steps⟩ : Path) ≠ root := by
      rintro ⟨⟩
      cases hsteps
    rw [if_neg hne, List.cons_append]
    dsimp only
    rw [List.map_append, String.join_append, List.map_singleton, String.join_cons, String.join_nil,
      String.append_empty, String.append_assoc]

/-- A key is written behind a point, unless it comes first. -/
theorem text_push_key (p : Path) (key : String) :
    (p.push (.key key)).text = (if p = root then "" else p.text ++ ".") ++ key := by
  rw [text_push]
  split
  · exact String.empty_append.symm
  · exact String.append_assoc.symm

/-- An index is written in brackets. -/
theorem text_push_index (p : Path) (n : Nat) :
    (p.push (.index n)).text = (if p = root then "" else p.text) ++ ("[" ++ toString n ++ "]") := by
  rw [text_push]
  split
  · exact String.empty_append.symm
  · rfl

end Path

namespace Json

/-! ## Sites -/

/-- A value and where it stands in a sample. -/
structure Site where
  path : Path
  value : Json

mutual

/-- The value at `path` and everything inside it, in document order. -/
def sites (path : Path) : Json → List Site
  | .array items => ⟨path, .array items⟩ :: sitesOfItems path 0 items
  | .object members =>
    ⟨path, .object members⟩ ::
      match Kind.ofValue (.object members) with
      | .ok .object => sitesOfMembers path members
      | _ => []
  | v => [⟨path, v⟩]

/-- The elements of a list from number `index` on, with everything inside them. -/
def sitesOfItems (path : Path) (index : Nat) : List Json → List Site
  | [] => []
  | v :: rest => sites (path.push (.index index)) v ++ sitesOfItems path (index + 1) rest

/-- The members of an object, with everything inside them. -/
def sitesOfMembers (path : Path) : List (String × Json) → List Site
  | [] => []
  | (key, v) :: rest => sites (path.push (.key key)) v ++ sitesOfMembers path rest

end

/-! ## Faults -/

/-- What is wrong at a site. -/
inductive Site.Faulty (limit : Nat) (p : Site) : InferenceError → Prop
  | tooDeep (h : limit < p.path.depth) : Faulty limit p (.depthExceeded p.path limit)
  | malformed {fault : Marker.Fault} (hd : p.path.depth ≤ limit)
      (h : Kind.ofValue p.value = .error fault) : Faulty limit p (.classification p.path fault)

/-- Nothing is wrong at a site. -/
def Site.Fine (limit : Nat) (p : Site) : Prop := ∀ e, ¬ p.Faulty limit e

theorem Site.fine_of_kind {limit : Nat} {p : Site} (hd : p.path.depth ≤ limit) {kind : Kind}
    (h : Kind.ofValue p.value = .ok kind) : p.Fine limit := by
  rintro e (hlt | ⟨-, hfault⟩)
  · exact absurd hd (Nat.not_le.2 hlt)
  · rw [h] at hfault
    cases hfault

theorem Site.Fine.depth_le {limit : Nat} {p : Site} (h : p.Fine limit) :
    p.path.depth ≤ limit :=
  Nat.le_of_not_lt fun hlt ↦ h _ (.tooDeep hlt)

/-- The two ways in which something can be wrong. -/
theorem Site.not_fine_iff {limit : Nat} {p : Site} :
    ¬ p.Fine limit ↔ limit < p.path.depth ∨ ∃ fault, Kind.ofValue p.value = .error fault := by
  constructor
  · intro h
    cases hkind : Kind.ofValue p.value with
    | error fault => exact .inr ⟨fault, rfl⟩
    | ok kind => exact .inl (Nat.lt_of_not_le fun hd ↦ h (fine_of_kind hd hkind))
  · rintro (hlt | ⟨fault, hfault⟩) hfine
    · exact hfine _ (.tooDeep hlt)
    · exact hfine _ (.malformed hfine.depth_le hfault)

/-- What is wrong at the first of some sites where something is wrong. -/
def FirstFault (limit : Nat) (ps : List Site) (e : InferenceError) : Prop :=
  ∃ before p after, ps = before ++ p :: after ∧ (∀ q ∈ before, q.Fine limit) ∧ p.Faulty limit e

namespace FirstFault

variable {limit : Nat} {ps qs : List Site} {e : InferenceError}

theorem head {p : Site} (h : p.Faulty limit e) : FirstFault limit (p :: ps) e :=
  ⟨[], p, ps, rfl, fun _ hq ↦ absurd hq List.not_mem_nil, h⟩

theorem append_left (h : FirstFault limit ps e) : FirstFault limit (ps ++ qs) e := by
  obtain ⟨before, p, after, rfl, hbefore, hp⟩ := h
  exact ⟨before, p, after ++ qs, by rw [List.append_assoc, List.cons_append], hbefore, hp⟩

theorem append_right (h : FirstFault limit qs e) (hps : ∀ p ∈ ps, p.Fine limit) :
    FirstFault limit (ps ++ qs) e := by
  obtain ⟨before, p, after, rfl, hbefore, hp⟩ := h
  refine ⟨ps ++ before, p, after, by rw [List.append_assoc], fun q hq ↦ ?_, hp⟩
  exact (List.mem_append.1 hq).elim (hps q) (hbefore q)

theorem cons (h : FirstFault limit ps e) {p : Site} (hp : p.Fine limit) :
    FirstFault limit (p :: ps) e :=
  h.append_right (List.forall_mem_singleton.2 hp)

theorem not_fine (h : FirstFault limit ps e) : ∃ p ∈ ps, ¬ p.Fine limit := by
  obtain ⟨before, p, after, rfl, -, hp⟩ := h
  exact ⟨p, List.mem_append_right _ List.mem_cons_self, fun hfine ↦ hfine e hp⟩

end FirstFault

end Json

end Silhouette
