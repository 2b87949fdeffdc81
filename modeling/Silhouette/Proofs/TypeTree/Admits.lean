import Silhouette.Proofs.Json.Distinct
import Silhouette.Proofs.TypeTree.OfJson

/-!
# The values of a type tree

`TypeTree.Admits t v` says that `v` is one of the values that `t` describes.  Folding loses none of
them: what one of several trees admits, their fold admits (`Admits.fold`), whatever rule applies.
The proof goes along the rules (`fold_induction`); all that the rules for unions need is that a
value of a tree is a value of one of its alternatives (`Admits.exists_alternative`).

So a value is one of the values of its own type (`admits_ofJson`).
-/

set_option autoImplicit false

namespace Silhouette

namespace TypeTree

/-- A value is described by a type. -/
inductive Admits : TypeTree → Json → Prop
  | scalar {k : Scalar} {v : Json} (h : Kind.ofValue v = .ok (.scalar k)) : Admits (.scalar k) v
  | array {item : TypeTree} {items : List Json} (h : ∀ v ∈ items, Admits item v) :
      Admits (.array item) (.array items)
  | object {fields : List (String × Presence × TypeTree)} {members : List (String × Json)}
      (hkind : Kind.ofValue (.object members) = .ok .object)
      (listed : ∀ key v, Json.member? key members = some v →
        ∃ p t, fields.lookup key = some (p, t))
      (values : ∀ key v p t, Json.member? key members = some v →
        fields.lookup key = some (p, t) → Admits t v)
      (required : ∀ key t, fields.lookup key = some (.required, t) →
        ∃ v, Json.member? key members = some v) :
      Admits (.object fields) (.object members)
  | union {ts : List TypeTree} {t : TypeTree} {v : Json} (hm : t ∈ ts) (h : Admits t v) :
      Admits (.union ts) v

namespace Admits

variable {members : TreeSet} {t : TypeTree} {v : Json}

/-! ## Unions -/

theorem exists_alternative (h : t.Admits v) : ∃ a ∈ t.alternatives, a.Admits v := by
  cases h with
  | union hm h => exact ⟨_, hm, h⟩
  | scalar h => exact ⟨_, List.mem_singleton_self _, .scalar h⟩
  | array h => exact ⟨_, List.mem_singleton_self _, .array h⟩
  | object hkind listed values required =>
    exact ⟨_, List.mem_singleton_self _, .object hkind listed values required⟩

theorem join (ht : t ∈ members) (h : t.Admits v) : (TypeTree.join members).Admits v := by
  obtain ⟨a, ha, hv⟩ := h.exists_alternative
  have hmem : a ∈ members.alternatives := TreeSet.mem_alternatives.2 ⟨t, ht, ha⟩
  by_cases hone : ∃ only, members.alternatives.toList = [only]
  · obtain ⟨only, hone⟩ := hone
    rw [join_of_singleton hone, ← (Ordered.toList_eq_singleton_iff.1 hone a).1 hmem]
    exact hv
  · rw [join_of_ne fun only honly ↦ hone ⟨only, honly⟩]
    exact .union hmem hv

/-- With `undefined`, a type has the values of both. -/
theorem orUndefined {u : TypeTree} (hu : u = t ∨ u = undefined) (h : u.Admits v) :
    (TypeTree.orUndefined t).Admits v := by
  refine h.join ?_
  rcases hu with rfl | rfl <;> simp

/-! ## The rules -/

theorem foldObjects (hobj : ∀ u ∈ members, u.isObject)
    (hfold : ∀ key, ∀ u ∈ members.typesAt key, ∀ w, u.Admits w →
      (TypeTree.fold (members.typesAt key)).Admits w)
    (ht : t ∈ members) (h : t.Admits v) : (TypeTree.foldObjects members).Admits v := by
  obtain ⟨fs, rfl⟩ := isObject_iff.1 (hobj t ht)
  cases h with
  | @object _ ms hkind listed values required =>
    have hmem : ∀ key p u, fs.lookup key = some (p, u) →
        key ∈ members.keys ∧ u ∈ members.typesAt key := fun key p u hu ↦
      ⟨TreeSet.mem_keys.2 ⟨_, ht, mem_keys_iff.2 ⟨p, u, hu⟩⟩, TreeSet.mem_typesAt.2 ⟨_, ht, p, hu⟩⟩
    have hfield := field?_foldObjects members
    refine .object hkind (fun key w hw ↦ ?_) (fun key w p u hw hu ↦ ?_) fun key u hu ↦ ?_
    · obtain ⟨p, u, hu⟩ := listed key w hw
      exact ⟨_, _, (hfield key).trans (if_pos (hmem key p u hu).1)⟩
    · obtain ⟨p', u', hu'⟩ := listed key w hw
      obtain ⟨hkey, htype⟩ := hmem key p' u' hu'
      cases ((hfield key).trans (if_pos hkey)).symm.trans hu
      exact hfold key u' htype w (values key w p' u' hw hu')
    · -- a field that is required of the fold is required of this object
      have hkey : key ∈ members.keys := by
        by_contra hk
        cases ((hfield key).trans (if_neg hk)).symm.trans hu
      have hreq : members.presenceAt key = .required :=
        congrArg Prod.fst (Option.some.inj (((hfield key).trans (if_pos hkey)).symm.trans hu))
      obtain ⟨u', hu'⟩ := TreeSet.presenceAt_eq_required_iff.1 hreq _ ht (hobj _ ht)
      exact required key u' hu'

/-- **A fold loses no values.** -/
theorem fold (ht : t ∈ members) (h : t.Admits v) : (TypeTree.fold members).Admits v := by
  revert t v
  refine fold_induction (P := fun members u ↦ ∀ {t v}, t ∈ members → t.Admits v → u.Admits v)
    ?none ?one ?arrays ?objects ?optional ?mixed members
  case none =>
    intro members hnil t v ht _
    exact absurd ht (Ordered.toList_eq_nil_iff.1 hnil t)
  case one =>
    intro members only hone t v ht h
    rw [← (Ordered.toList_eq_singleton_iff.1 hone t).1 ht]
    exact h
  case arrays =>
    intro members _ harr ih t v ht h
    obtain ⟨item, rfl⟩ := isArray_iff.1 (harr t ht)
    cases h with
    | array hitems => exact .array fun w hw ↦ ih (TreeSet.mem_items.2 ht) (hitems w hw)
  case objects =>
    intro members _ hobj ih t v ht h
    exact h.foldObjects hobj (fun key u hu w hw ↦ ih key hu hw) ht
  case optional =>
    intro members u _ _ ih t v ht h
    by_cases hu : t = undefined
    · exact h.orUndefined (.inr hu)
    · exact (ih (TreeSet.mem_defined.2 ⟨ht, hu⟩) h).orUndefined (.inl rfl)
  case mixed =>
    intro members _ t v ht h
    exact h.join ht

end Admits

/-! ## The type of a value -/

theorem exists_fold_admits {vs : List Json} {ts : List TypeTree} (hts : ofItems? vs = some ts)
    (h : ∀ v ∈ vs, ∀ t, ofJson? v = some t → t.Admits v) :
    ∀ v ∈ vs, (fold (.ofList ts)).Admits v := by
  intro v hv
  obtain ⟨t, ht, htv⟩ := exists_ofJson?_of_mem hts hv
  exact (h v hv t htv).fold (Ordered.mem_ofList.2 ht)

/-- **A value is one of the values of its type.** -/
theorem admits_ofJson {v : Json} (hd : v.Distinct) {t : TypeTree} (h : ofJson? v = some t) :
    t.Admits v := by
  induction hd generalizing t with
  | null => cases h; exact .scalar rfl
  | bool b => cases h; exact .scalar rfl
  | number n => cases h; exact .scalar rfl
  | string s => cases h; exact .scalar rfl
  | @array items hitems ih =>
    obtain ⟨ts, hts, rfl⟩ := Option.map_eq_some_iff.1 h
    exact .array (exists_fold_admits hts ih)
  | @object members hn hmembers ih =>
    obtain ⟨k, hk, rfl⟩ | ⟨items, ts, he, -⟩ | ⟨members', fs, he, hkind, hfs, rfl⟩ :=
      ofJson?_cases h
    · exact .scalar hk
    · cases he
    · cases he
      have hfield := @field?_ofEntries? members fs hfs hn
      refine .object hkind (fun key v hv ↦ ?_) (fun key v p t hv ht ↦ ?_) fun key t ht ↦ ?_
      · obtain ⟨t, ht⟩ := exists_ofJson?_of_mem_members hfs (mem_of_lookup_eq_some hv)
        exact ⟨.required, t, hfield.2 ⟨rfl, v, hv, ht⟩⟩
      · obtain ⟨-, w, hw, hwt⟩ := hfield.1 ht
        cases hv.symm.trans hw
        exact ih (key, v) (mem_of_lookup_eq_some hv) hwt
      · obtain ⟨-, v, hv, -⟩ := hfield.1 ht
        exact ⟨v, hv⟩

end TypeTree

end Silhouette
