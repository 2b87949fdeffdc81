import Std.Data.TreeMap

/-!
# Tables in the order of entry

A `Table` is a list of entries, each under a key, that grows only at its end.  Beside the list it
keeps a search tree, so that looking a key up does not go through all entries.  The tree says
nothing that the list does not say, and that is part of the type: `Table.find?_eq_lookup` reads
every answer off the list, and the list after an operation is given by `Table.toList_add`,
`Table.toList_ofList` and `Table.toList_filter`.

Of several entries under one key the first is found.
-/

set_option autoImplicit false

namespace Silhouette

open Std

/-- Entries in the order in which they came. -/
structure Table (κ β : Type) [Ord κ] [DecidableEq κ] where
  entries : Array (κ × β)
  index : TreeMap κ β
  index_eq : ∀ k, index[k]? = entries.toList.lookup k

namespace Table

variable {κ β : Type} [Ord κ] [DecidableEq κ]

/-- The entries. -/
def toList (t : Table κ β) : List (κ × β) := t.entries.toList

def size (t : Table κ β) : Nat := t.entries.size

def isEmpty (t : Table κ β) : Bool := t.entries.isEmpty

/-- What was entered under a key. -/
def find? (t : Table κ β) (k : κ) : Option β := t.index[k]?

theorem find?_eq_lookup (t : Table κ β) (k : κ) : t.find? k = t.toList.lookup k := t.index_eq k

theorem size_eq_length (t : Table κ β) : t.size = t.toList.length := Array.size_eq_length_toList

variable [TransOrd κ]

def empty : Table κ β := ⟨#[], ∅, fun _ ↦ by simp⟩

instance : EmptyCollection (Table κ β) := ⟨empty⟩

@[simp] theorem toList_empty : (∅ : Table κ β).toList = [] := rfl

variable [LawfulEqOrd κ]

/-- Enter something last. -/
def add (t : Table κ β) (k : κ) (v : β) : Table κ β where
  entries := t.entries.push (k, v)
  index := t.index.insertIfNew k v
  index_eq a := by
    have hk : k ∈ t.index ↔ (t.entries.toList.lookup k).isSome := by
      rw [TreeMap.mem_iff_isSome_getElem?, t.index_eq]
    rw [TreeMap.getElem?_insertIfNew, t.index_eq, Array.toList_push, List.lookup_append]
    by_cases h : k = a
    · subst h
      cases hl : t.entries.toList.lookup k <;> simp [hk, hl]
    · have h' : (a == k) = false := by simpa using Ne.symm h
      simp [List.lookup_cons, h', h]

@[simp] theorem toList_add (t : Table κ β) (k : κ) (v : β) :
    (t.add k v).toList = t.toList ++ [(k, v)] := Array.toList_push

/-- The table of a list of entries. -/
def ofList (l : List (κ × β)) : Table κ β := l.foldl (fun t e ↦ t.add e.1 e.2) ∅

theorem toList_foldl_add (t : Table κ β) (l : List (κ × β)) :
    (l.foldl (fun t e ↦ t.add e.1 e.2) t).toList = t.toList ++ l := by
  induction l generalizing t with
  | nil => simp
  | cons e l ih => simp [ih]

@[simp] theorem toList_ofList (l : List (κ × β)) : (ofList l).toList = l := by
  simp [ofList, toList_foldl_add]

/-- The entries under some of the keys. -/
def filter (keep : κ → Bool) (t : Table κ β) : Table κ β :=
  ofList (t.toList.filter fun e ↦ keep e.1)

@[simp] theorem toList_filter (keep : κ → Bool) (t : Table κ β) :
    (t.filter keep).toList = t.toList.filter fun e ↦ keep e.1 := toList_ofList _

end Table

end Silhouette
