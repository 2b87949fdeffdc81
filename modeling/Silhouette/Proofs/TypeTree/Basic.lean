import Silhouette.Proofs.Ordered

/-!
# Type trees

A `TypeTree` is a type written out in full: where a description refers to its parts by ids, a tree
holds them.  It knows nothing of registries and digests, and that makes it the measure of what is
done with those.

The members of a union form a set, so there has to be an order in which a tree lists them.  It is
the order of their codes: `TypeTree.code` spells a tree out as numbers, from which the tree can be
read back (`TypeTree.code_injective`).  Any order would do, as long as it does not depend on
digests.
-/

set_option autoImplicit false

namespace Silhouette

/-- A type with all its parts. -/
inductive TypeTree where
  | scalar (kind : Scalar)
  | object (fields : List (String × Presence × TypeTree))
  | array (item : TypeTree)
  | union (members : List TypeTree)
deriving Inhabited

/-! ## Codes -/

/-- A key as numbers, closed by a zero. -/
def keyCode (key : String) : List Nat := key.toList.map (fun c ↦ c.toNat + 1) ++ [0]

def Presence.code : Presence → Nat
  | required => 0
  | optional => 1

namespace TypeTree

mutual

/-- A tree as numbers. -/
def code : TypeTree → List Nat
  | .scalar kind => [0, kind.index]
  | .object fields => 1 :: codeFields fields
  | .array item => 2 :: code item
  | .union members => 3 :: codeMembers members

def codeFields : List (String × Presence × TypeTree) → List Nat
  | [] => [0]
  | (key, presence, t) :: rest =>
    1 :: (keyCode key ++ presence.code :: (code t ++ codeFields rest))

def codeMembers : List TypeTree → List Nat
  | [] => [0]
  | t :: rest => 1 :: (code t ++ codeMembers rest)

end

end TypeTree

theorem keyCode_append_inj {a b : String} {s s' : List Nat}
    (h : keyCode a ++ s = keyCode b ++ s') : a = b ∧ s = s' := by
  suffices hl : ∀ cs ds : List Char,
      cs.map (fun c ↦ c.toNat + 1) ++ 0 :: s = ds.map (fun c ↦ c.toNat + 1) ++ 0 :: s' →
        cs = ds ∧ s = s' by
    obtain ⟨hab, hs⟩ := hl a.toList b.toList (by simpa [keyCode] using h)
    exact ⟨String.toList_inj.1 hab, hs⟩
  intro cs
  induction cs with
  | nil =>
    intro ds hds
    cases ds with
    | nil => exact ⟨rfl, (List.cons.inj hds).2⟩
    | cons d ds => simp at hds
  | cons c cs ih =>
    intro ds hds
    cases ds with
    | nil => simp at hds
    | cons d ds =>
      simp only [List.map_cons, List.cons_append, List.cons.injEq, Nat.add_right_cancel_iff] at hds
      obtain ⟨hcd, hs⟩ := ih ds hds.2
      exact ⟨by rw [Char.toNat_inj.1 hds.1, hcd], hs⟩

theorem Presence.code_injective {p q : Presence} (h : p.code = q.code) : p = q := by
  revert h; cases p <;> cases q <;> decide

namespace TypeTree

mutual

/-- Whatever follows the code of a tree, the tree can be read back. -/
theorem code_append_inj : ∀ (t u : TypeTree) {s s' : List Nat},
    t.code ++ s = u.code ++ s' → t = u ∧ s = s'
  | .scalar j, u, s, s', h => by
    cases u with
    | scalar k =>
      simp only [code, List.cons_append, List.nil_append, List.cons.injEq, true_and] at h
      exact ⟨by rw [Scalar.index_injective h.1], h.2⟩
    | _ => simp [code] at h
  | .object fs, u, s, s', h => by
    cases u with
    | object gs =>
      simp only [code, List.cons_append, List.cons.injEq, true_and] at h
      obtain ⟨hf, hs⟩ := codeFields_append_inj fs gs h
      exact ⟨by rw [hf], hs⟩
    | _ => simp [code] at h
  | .array t, u, s, s', h => by
    cases u with
    | array u =>
      simp only [code, List.cons_append, List.cons.injEq, true_and] at h
      obtain ⟨ht, hs⟩ := code_append_inj t u h
      exact ⟨by rw [ht], hs⟩
    | _ => simp [code] at h
  | .union ts, u, s, s', h => by
    cases u with
    | union us =>
      simp only [code, List.cons_append, List.cons.injEq, true_and] at h
      obtain ⟨ht, hs⟩ := codeMembers_append_inj ts us h
      exact ⟨by rw [ht], hs⟩
    | _ => simp [code] at h

theorem codeFields_append_inj : ∀ (fs gs : List (String × Presence × TypeTree)) {s s' : List Nat},
    codeFields fs ++ s = codeFields gs ++ s' → fs = gs ∧ s = s'
  | [], [], s, s', h => by simpa [codeFields] using h
  | [], _ :: _, s, s', h => by simp [codeFields] at h
  | _ :: _, [], s, s', h => by simp [codeFields] at h
  | (k, p, t) :: fs, (l, q, u) :: gs, s, s', h => by
    simp only [codeFields, List.cons_append, List.append_assoc, List.cons.injEq, true_and] at h
    obtain ⟨hk, h₁⟩ := keyCode_append_inj h
    obtain ⟨hp, h₂⟩ := List.cons.inj h₁
    obtain ⟨ht, h₃⟩ := code_append_inj t u h₂
    obtain ⟨hf, hs⟩ := codeFields_append_inj fs gs h₃
    exact ⟨by rw [hk, Presence.code_injective hp, ht, hf], hs⟩

theorem codeMembers_append_inj : ∀ (ts us : List TypeTree) {s s' : List Nat},
    codeMembers ts ++ s = codeMembers us ++ s' → ts = us ∧ s = s'
  | [], [], s, s', h => by simpa [codeMembers] using h
  | [], _ :: _, s, s', h => by simp [codeMembers] at h
  | _ :: _, [], s, s', h => by simp [codeMembers] at h
  | t :: ts, u :: us, s, s', h => by
    simp only [codeMembers, List.cons_append, List.append_assoc, List.cons.injEq, true_and] at h
    obtain ⟨ht, h₁⟩ := code_append_inj t u h
    obtain ⟨hts, hs⟩ := codeMembers_append_inj ts us h₁
    exact ⟨by rw [ht, hts], hs⟩

end

theorem code_injective {t u : TypeTree} (h : t.code = u.code) : t = u := by
  have happ : t.code ++ [] = u.code ++ [] := by rw [h]
  exact (code_append_inj t u happ).1

/-! ## Order -/

instance : DecidableEq TypeTree := fun t u ↦
  decidable_of_iff (t.code = u.code) ⟨code_injective, congrArg code⟩

instance : Ord TypeTree := ⟨fun t u ↦ compare t.code u.code⟩

theorem compare_def (t u : TypeTree) : compare t u = compare t.code u.code := rfl

instance : Std.OrientedOrd TypeTree where
  eq_swap := fun {a b} ↦ by rw [compare_def, compare_def]; exact Std.OrientedOrd.eq_swap

instance : Std.TransOrd TypeTree where
  isLE_trans h₁ h₂ := by
    rw [compare_def] at h₁ h₂ ⊢
    exact Std.TransOrd.isLE_trans h₁ h₂

instance : Std.LawfulEqOrd TypeTree where
  compare_self := Std.ReflOrd.compare_self
  eq_of_compare h := code_injective (Std.LawfulEqOrd.eq_of_compare h)

end TypeTree

/-- A finite set of type trees. -/
abbrev TreeSet := Ordered fun (t : TypeTree) ↦ t

/-- The fields of an object tree by their keys. -/
abbrev TreeFields := Ordered fun (entry : String × Presence × TypeTree) ↦ entry.1

/-- Fields are listed by key, so one is looked up by membership. -/
theorem TreeFields.lookup_toList_iff {fields : TreeFields} {key : String} {p : Presence}
    {t : TypeTree} : fields.toList.lookup key = some (p, t) ↔ (key, p, t) ∈ fields :=
  lookup_eq_some_iff_mem fields.nodup_keys

namespace TypeTree

/-- The union of a set of trees. -/
def ofMembers (members : TreeSet) : TypeTree := .union members.toList

/-- The object with the given fields. -/
def ofFields (fields : TreeFields) : TypeTree := .object fields.toList

/-- The type without values. -/
def bottom : TypeTree := .union []

/-! ## Looking at a tree -/

/-- The element type of a list type. -/
def item? : TypeTree → Option TypeTree
  | .array item => some item
  | _ => none

/-- The fields of an object type. -/
def fields? : TypeTree → Option (List (String × Presence × TypeTree))
  | .object fields => some fields
  | _ => none

/-- The types that a type is a union of: the members of a union, or just the type. -/
def alternatives : TypeTree → List TypeTree
  | .union members => members
  | t => [t]

def isArray (t : TypeTree) : Bool := t.item?.isSome

def isObject (t : TypeTree) : Bool := t.fields?.isSome

/-- The presence and the type of the field under a key, if the tree is an object that has it. -/
def field? (key : String) (t : TypeTree) : Option (Presence × TypeTree) :=
  t.fields?.bind fun fields ↦ fields.lookup key

/-- The keys of an object type. -/
def keys (t : TypeTree) : List String := (t.fields?.getD []).map Prod.fst

theorem isArray_iff {t : TypeTree} : t.isArray ↔ ∃ u, t = .array u := by
  cases t <;> simp [isArray, item?]

theorem isObject_iff {t : TypeTree} : t.isObject ↔ ∃ fs, t = .object fs := by
  cases t <;> simp [isObject, fields?]

end TypeTree

end Silhouette
