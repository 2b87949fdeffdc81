import Silhouette.Ordered
import Silhouette.Scalar

/-!
# Type ids

A type is referred to by a `TypeId`: a scalar kind by itself, everything else by the digest of its
description, a `NodeId`.  Ids are ordered, scalars first and in their own order, then nodes by their
digest; `TypeId.rank` embeds the order into the natural numbers.

An id is written as the name of the kind or as sixteen hexadecimal digits, and no name looks like
digits, so it can be read back (`TypeId.ofText?`).
-/

set_option autoImplicit false

namespace Silhouette

/-- The digest by which a described type is known. -/
structure NodeId where
  digest : UInt64
deriving DecidableEq, Repr, Inhabited

/-- A reference to a type. -/
inductive TypeId where
  | scalar (kind : Scalar)
  | node (id : NodeId)
deriving DecidableEq, Repr, Inhabited

/-! ## Order of nodes -/

namespace NodeId

/-- Ids are ordered by their digests. -/
instance : Ord NodeId := ⟨fun a b ↦ compare a.digest b.digest⟩

theorem compare_def (a b : NodeId) : compare a b = compare a.digest b.digest := rfl

instance : Std.OrientedOrd NodeId where
  eq_swap := fun {a b} ↦ by rw [compare_def, compare_def]; exact Std.OrientedOrd.eq_swap

instance : Std.TransOrd NodeId where
  isLE_trans h₁ h₂ := by
    rw [compare_def] at h₁ h₂ ⊢
    exact Std.TransOrd.isLE_trans h₁ h₂

instance : Std.LawfulEqOrd NodeId where
  compare_self := Std.ReflOrd.compare_self
  eq_of_compare := fun {a b} h ↦ by
    obtain ⟨x⟩ := a
    obtain ⟨y⟩ := b
    exact congrArg NodeId.mk (Std.LawfulEqOrd.eq_of_compare h)

end NodeId

/-! ## Written form -/

/-- The last `digits` hexadecimal digits of a number. -/
def hexDigits : (digits : Nat) → Nat → List Char
  | 0, _ => []
  | digits + 1, n => hexDigits digits (n / 16) ++ [Nat.digitChar (n % 16)]

namespace NodeId

/-- Sixteen hexadecimal digits. -/
def text (id : NodeId) : String := String.ofList (hexDigits 16 id.digest.toNat)

/-- The digest that sixteen hexadecimal digits in lower case stand for. -/
def ofText? (s : String) : Option NodeId :=
  let digit? (c : Char) : Option Nat :=
    if c.isDigit then some (c.toNat - 48)
    else if 'a' ≤ c ∧ c ≤ 'f' then some (c.toNat - 87) else none
  if s.length = 16 then do
    let digits ← s.toList.mapM digit?
    return ⟨(digits.foldl (fun n d ↦ n * 16 + d) 0).toUInt64⟩
  else none

end NodeId

namespace TypeId

def text : TypeId → String
  | scalar kind => kind.name
  | node id => id.text

/-- The id that a text stands for. -/
def ofText? (s : String) : Option TypeId :=
  match Scalar.all.find? fun k ↦ k.name == s with
  | some kind => some (scalar kind)
  | none => (NodeId.ofText? s).map node

/-- The node that an id refers to, if it is not a scalar. -/
def node? : TypeId → Option NodeId
  | scalar _ => none
  | node id => some id

/-! ## Order -/

/-- The place of an id in the order of all ids. -/
def rank : TypeId → Nat
  | scalar kind => kind.index
  | node id => 8 + id.digest.toNat

theorem rank_injective {a b : TypeId} (h : a.rank = b.rank) : a = b := by
  cases a with
  | scalar j =>
    cases b with
    | scalar k => exact congrArg scalar (Scalar.index_injective h)
    | node id =>
      have := j.index_lt
      simp only [rank] at h; omega
  | node i =>
    cases b with
    | scalar k =>
      have := k.index_lt
      simp only [rank] at h; omega
    | node j =>
      obtain ⟨x⟩ := i
      obtain ⟨y⟩ := j
      simp only [rank, Nat.add_left_cancel_iff] at h
      rw [UInt64.toNat_inj.1 h]

instance : Ord TypeId := ⟨fun a b ↦ compare a.rank b.rank⟩

theorem compare_def (a b : TypeId) : compare a b = compare a.rank b.rank := rfl

instance : Std.OrientedOrd TypeId where
  eq_swap := fun {a b} ↦ by rw [compare_def, compare_def]; exact Std.OrientedOrd.eq_swap

instance : Std.TransOrd TypeId where
  isLE_trans h₁ h₂ := by
    rw [compare_def] at h₁ h₂ ⊢
    exact Std.TransOrd.isLE_trans h₁ h₂

instance : Std.LawfulEqOrd TypeId where
  compare_self := Std.ReflOrd.compare_self
  eq_of_compare h := rank_injective (Std.LawfulEqOrd.eq_of_compare h)

end TypeId

/-- A finite set of type ids. -/
abbrev TypeSet := Ordered fun (id : TypeId) ↦ id

end Silhouette
