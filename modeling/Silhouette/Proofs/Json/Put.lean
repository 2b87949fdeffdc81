import Mathlib.Data.List.Induction
import Silhouette.Json.Basic

/-!
# Members put one after another

`Json.put` gives one key a value; `Json.putAll` does it for a list of entries.  A key that comes
again keeps its first place (`keys_putAll`) and takes its last value (`member?_putAll`), so nothing
of the list is lost just if its keys are pairwise different (`putAll_eq_self_iff`).
-/

set_option autoImplicit false

namespace Silhouette.Json

variable {members entries : List (String × Json)} {key name : String} {value : Json}

@[simp] theorem member?_nil (key : String) : member? key [] = none := rfl

@[simp] theorem member?_cons (key k : String) (v : Json) (rest : List (String × Json)) :
    member? key ((k, v) :: rest) = if key = k then some v else member? key rest := by
  rw [member?, List.lookup_cons]
  by_cases h : key = k
  · simp [h]
  · simp [h, beq_false_of_ne h, member?]

theorem member?_put : member? name (put members key value) =
    if name = key then some value else member? name members := by
  induction members with
  | nil => rw [put, member?_cons]
  | cons m rest ih =>
    obtain ⟨k, v⟩ := m
    rw [put]
    split
    · next hk =>
      rw [hk, member?_cons, member?_cons]
      split <;> rfl
    · next hk =>
      rw [member?_cons, member?_cons, ih]
      split
      · next hname => rw [if_neg (hname ▸ hk)]
      · rfl

theorem put_of_not_mem (h : key ∉ members.map Prod.fst) :
    put members key value = members ++ [(key, value)] := by
  induction members with
  | nil => rfl
  | cons m rest ih =>
    obtain ⟨k, v⟩ := m
    rw [List.map_cons, List.mem_cons, not_or] at h
    rw [put, if_neg (Ne.symm h.1), ih h.2, List.cons_append]

/-- The members that come of entries, one put after another. -/
def putAll (entries : List (String × Json)) : List (String × Json) :=
  entries.foldl (fun members e ↦ put members e.1 e.2) []

theorem putAll_append_singleton (entries : List (String × Json)) (e : String × Json) :
    putAll (entries ++ [e]) = put (putAll entries) e.1 e.2 :=
  List.foldl_append

/-- Keys stand where they came first. -/
theorem keys_putAll (entries : List (String × Json)) :
    (putAll entries).map Prod.fst = (entries.map Prod.fst).eraseDups := by
  induction entries using List.reverseRecOn with
  | nil => rfl
  | append_singleton entries e ih =>
    rw [putAll_append_singleton, keys_put, ih, List.map_append, List.map_singleton,
      List.eraseDups_append]
    simp only [List.mem_eraseDups]
    split
    · next h => simp [List.removeAll, h]
    · next h => simp [List.removeAll, h, List.eraseDups_cons]

theorem nodup_keys_putAll (entries : List (String × Json)) :
    ((putAll entries).map Prod.fst).Nodup := by
  induction entries using List.reverseRecOn with
  | nil => exact List.nodup_nil
  | append_singleton entries e ih =>
    rw [putAll_append_singleton]
    exact nodup_keys_put ih e.1 e.2

/-- A key has the value that came last. -/
theorem member?_putAll (entries : List (String × Json)) (name : String) :
    member? name (putAll entries) =
      ((entries.filter fun e ↦ e.1 = name).getLast?).map Prod.snd := by
  induction entries using List.reverseRecOn with
  | nil => rfl
  | append_singleton entries e ih =>
    rw [putAll_append_singleton, member?_put, ih, List.filter_append]
    by_cases h : e.1 = name
    · simp [h]
    · simp [h, Ne.symm h]

/-- Entries stay as they are just if their keys are different. -/
theorem putAll_eq_self_iff : putAll entries = entries ↔ (entries.map Prod.fst).Nodup := by
  constructor
  · intro h
    rw [← h]
    exact nodup_keys_putAll entries
  · intro h
    induction entries using List.reverseRecOn with
    | nil => rfl
    | append_singleton entries e ih =>
      rw [List.map_append, List.map_singleton] at h
      obtain ⟨hentries, -, hne⟩ := List.nodup_append.1 h
      rw [putAll_append_singleton, ih hentries]
      exact put_of_not_mem fun he ↦ hne _ he _ List.mem_cons_self rfl

end Silhouette.Json
