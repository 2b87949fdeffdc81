import Silhouette.Graph.Structure
import Silhouette.Proofs.Json.Compact

/-!
# A structure can be told from its text

A structure is written as JSON on one line, and nothing of it is lost: the text determines the root
and the entries of the registry in their order (`Structure.compact_toJson_eq_iff`).  The registry
need not be in order for that; it may refer to types that it does not have, and its keys may be any
strings.

Whatever is written is told apart by something in the text.  Ids are: a name has fewer letters than
sixteen digits (`TypeId.text_injective`).  Descriptions are, by the key that says what they are, and
their parts by how a text of strings, lists and objects ends (`Json.Textual.compact_inj`).
-/

set_option autoImplicit false

namespace Silhouette

/-! ## Ids -/

theorem Scalar.name_injective {j k : Scalar} (h : j.name = k.name) : j = k := by
  revert h; cases j <;> cases k <;> decide

theorem digitChar_injective {m n : Nat} (hm : m < 16) (hn : n < 16)
    (h : Nat.digitChar m = Nat.digitChar n) : m = n := by
  have hall : ∀ m < 16, ∀ n < 16, Nat.digitChar m = Nat.digitChar n → m = n := by decide
  exact hall m hm n hn h

@[simp] theorem length_hexDigits (digits n : Nat) : (hexDigits digits n).length = digits := by
  induction digits generalizing n with
  | zero => rfl
  | succ digits ih => simp [hexDigits, ih]

/-- Numbers that have so many digits differ in one of them. -/
theorem hexDigits_injective {digits m n : Nat} (hm : m < Nat.pow 16 digits)
    (hn : n < Nat.pow 16 digits) (h : hexDigits digits m = hexDigits digits n) : m = n := by
  induction digits generalizing m n with
  | zero =>
    have hone : Nat.pow 16 0 = 1 := rfl
    omega
  | succ digits ih =>
    have hpow : Nat.pow 16 (digits + 1) = Nat.pow 16 digits * 16 := rfl
    obtain ⟨hhigh, hlow⟩ := List.append_inj h (by simp)
    have hdiv : m / 16 = n / 16 := ih (by omega) (by omega) hhigh
    have hmod : m % 16 = n % 16 :=
      digitChar_injective (Nat.mod_lt _ (by decide)) (Nat.mod_lt _ (by decide))
        (List.cons.inj hlow).1
    omega

theorem NodeId.text_injective {a b : NodeId} (h : a.text = b.text) : a = b := by
  have hbound : ∀ id : NodeId, id.digest.toNat < Nat.pow 16 16 := fun id ↦ id.digest.toNat_lt
  have hnat := hexDigits_injective (hbound a) (hbound b) (String.ofList_injective h)
  obtain ⟨x⟩ := a
  obtain ⟨y⟩ := b
  exact congrArg NodeId.mk (UInt64.toNat_inj.1 hnat)

/-- The name of a kind is shorter than the digits of a node. -/
theorem Scalar.name_ne_text (k : Scalar) (id : NodeId) : k.name ≠ id.text := fun h ↦ by
  have hlength : id.text.length = 16 := by simp [NodeId.text]
  rw [← h] at hlength
  revert hlength
  cases k <;> decide

/-- **An id can be told from its text.** -/
theorem TypeId.text_injective {a b : TypeId} (h : a.text = b.text) : a = b := by
  cases a with
  | scalar j =>
    cases b with
    | scalar k => exact congrArg scalar (Scalar.name_injective h)
    | node id => exact absurd h (j.name_ne_text id)
  | node i =>
    cases b with
    | scalar k => exact absurd h.symm (k.name_ne_text i)
    | node j => exact congrArg node (NodeId.text_injective h)

theorem TypeId.toJson_injective : Function.Injective TypeId.toJson := fun _ _ h ↦
  TypeId.text_injective (Json.string.inj h)

/-! ## Descriptions -/

theorem Presence.text_injective {p q : Presence} (h : p.text = q.text) : p = q := by
  revert h; cases p <;> cases q <;> decide

theorem Field.toJson_injective {f g : Field} (h : f.toJson = g.toJson) : f = g := by
  obtain ⟨p, t⟩ := f
  obtain ⟨q, u⟩ := g
  simp only [toJson, Json.object.injEq, List.cons.injEq, Prod.mk.injEq, Json.string.injEq,
    true_and, and_true] at h
  rw [Presence.text_injective h.1, TypeId.toJson_injective h.2]

/-- The key says what a description is of, and the value has its parts in their order. -/
theorem Descriptor.toJson_injective {d d' : Descriptor} (h : d.toJson = d'.toJson) : d = d' := by
  cases d with
  | object fields =>
    cases d' with
    | object fields' =>
      simp only [toJson, Json.object.injEq, List.cons.injEq, Prod.mk.injEq, true_and,
        and_true] at h
      have hfield : ∀ e e' : String × Field,
          (e.1, e.2.toJson) = (e'.1, e'.2.toJson) → e = e' := fun e e' he ↦
        Prod.ext (Prod.mk.inj he).1 (Field.toJson_injective (Prod.mk.inj he).2)
      rw [Ordered.ext ((List.map_inj_right hfield).1 h)]
    | array item => simp [toJson] at h
    | union members => simp [toJson] at h
  | array item =>
    cases d' with
    | object fields => simp [toJson] at h
    | array item' =>
      simp only [toJson, Json.object.injEq, List.cons.injEq, Prod.mk.injEq, true_and,
        and_true] at h
      rw [TypeId.toJson_injective h]
    | union members => simp [toJson] at h
  | union members =>
    cases d' with
    | object fields => simp [toJson] at h
    | array item => simp [toJson] at h
    | union members' =>
      simp only [toJson, Json.object.injEq, Json.array.injEq, List.cons.injEq, Prod.mk.injEq,
        true_and, and_true] at h
      rw [Ordered.ext ((List.map_inj_right fun _ _ e ↦ TypeId.toJson_injective e).1 h)]

theorem Field.textual_toJson (f : Field) : f.toJson.Textual :=
  .object (List.forall_mem_cons.2 ⟨.string _, List.forall_mem_singleton.2 (.string _)⟩)

theorem Descriptor.textual_toJson (d : Descriptor) : d.toJson.Textual := by
  cases d with
  | object fields =>
    refine .object (List.forall_mem_singleton.2 (.object fun m hm ↦ ?_))
    obtain ⟨e, -, rfl⟩ := List.mem_map.1 hm
    exact e.2.textual_toJson
  | array item => exact .object (List.forall_mem_singleton.2 (.string _))
  | union members =>
    refine .object (List.forall_mem_singleton.2 (.array fun v hv ↦ ?_))
    obtain ⟨id, -, rfl⟩ := List.mem_map.1 hv
    exact .string _

/-! ## Structures -/

namespace Structure

theorem textual_toJson (s : Structure) : s.toJson.Textual := by
  have htypes : s.types.toJson.Textual := .object fun m hm ↦ by
    obtain ⟨e, -, rfl⟩ := List.mem_map.1 hm
    exact e.2.textual_toJson
  exact .object (List.forall_mem_cons.2 ⟨.string _, List.forall_mem_singleton.2 htypes⟩)

/-- **The text of a structure says all of it**: the root, and the entries of the registry in the
order of registration. -/
theorem compact_toJson_eq_iff {s s' : Structure} :
    s.toJson.compact = s'.toJson.compact ↔
      s.root = s'.root ∧ s.types.nodes.toList = s'.types.nodes.toList := by
  have hentry : ∀ e e' : NodeId × Descriptor,
      (e.1.text, e.2.toJson) = (e'.1.text, e'.2.toJson) → e = e' := fun e e' he ↦
    Prod.ext (NodeId.text_injective (Prod.mk.inj he).1)
      (Descriptor.toJson_injective (Prod.mk.inj he).2)
  rw [s.textual_toJson.compact_inj s'.textual_toJson]
  simp only [toJson, Registry.toJson, Json.object.injEq, List.cons.injEq, Prod.mk.injEq, true_and,
    and_true, TypeId.toJson_injective.eq_iff, List.map_inj_right hentry]

end Structure

end Silhouette
