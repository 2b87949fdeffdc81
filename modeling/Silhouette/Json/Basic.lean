import Silhouette.Json.Numeral

/-!
# JSON values

`Json` is a value as it was read: an object is the list of its members in the order in which their
keys first appeared.  `Json.put` keeps it that way — a key that comes again takes the new value at
its old place — so the keys of an object that was read are pairwise different
(`nodup_keys_put`).

An object also knows its members by key (`Json.member?`), which is all that anything but printing
asks of it.
-/

set_option autoImplicit false

namespace Silhouette

/-- A JSON value. -/
inductive Json where
  | null
  | bool (value : Bool)
  | number (value : Json.Numeral)
  | string (value : String)
  | array (items : List Json)
  | object (members : List (String × Json))
deriving Inhabited

namespace Json

/-- The value under a key. -/
def member? (key : String) (members : List (String × Json)) : Option Json := members.lookup key

/-- Give a key a value: at the place of the key if it is there, at the end if it is new. -/
def put (members : List (String × Json)) (key : String) (value : Json) : List (String × Json) :=
  match members with
  | [] => [(key, value)]
  | (k, v) :: rest => if k = key then (key, value) :: rest else (k, v) :: put rest key value

theorem keys_put (members : List (String × Json)) (key : String) (value : Json) :
    (put members key value).map Prod.fst =
      if key ∈ members.map Prod.fst then members.map Prod.fst
      else members.map Prod.fst ++ [key] := by
  induction members with
  | nil => simp [put]
  | cons m rest ih =>
    obtain ⟨k, v⟩ := m
    by_cases h : k = key
    · simp [put, h]
    · simp only [put, h, if_false, List.map_cons, List.mem_cons, ih]
      have h' : ¬ key = k := fun e ↦ h e.symm
      simp only [h', false_or]
      split <;> simp

/-- Keys stay pairwise different. -/
theorem nodup_keys_put {members : List (String × Json)} (h : (members.map Prod.fst).Nodup)
    (key : String) (value : Json) : ((put members key value).map Prod.fst).Nodup := by
  rw [keys_put]
  split
  · exact h
  · next hk =>
    refine List.nodup_append.2 ⟨h, by simp, fun a ha b hb ↦ ?_⟩
    rw [List.mem_singleton.1 hb]
    exact fun e ↦ hk (e ▸ ha)

end Json

end Silhouette
