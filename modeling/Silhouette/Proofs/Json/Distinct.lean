import Silhouette.Json.Parser

/-!
# Values whose keys are pairwise different

`Json` can hold a key twice, but no value that was read does: where a key comes again, its value
takes the place of the earlier one.  `Json.Distinct` says so of an object and of everything inside,
and `distinct_of_parse` is the proof that reading gives nothing else.  It follows the machine of
`Json.parse`: what is still open is already in order, and a token keeps it so
(`State.Distinct.step`).
-/

set_option autoImplicit false

namespace Silhouette.Json

/-- No object in a value has a key twice. -/
inductive Distinct : Json → Prop
  | null : Distinct .null
  | bool (b : Bool) : Distinct (.bool b)
  | number (n : Numeral) : Distinct (.number n)
  | string (s : String) : Distinct (.string s)
  | array {items : List Json} (h : ∀ v ∈ items, Distinct v) : Distinct (.array items)
  | object {members : List (String × Json)} (hn : (members.map Prod.fst).Nodup)
      (h : ∀ m ∈ members, Distinct m.2) : Distinct (.object members)

@[simp] theorem distinct_null : Json.null.Distinct := .null

@[simp] theorem distinct_bool (b : Bool) : (Json.bool b).Distinct := .bool b

@[simp] theorem distinct_number (n : Numeral) : (Json.number n).Distinct := .number n

@[simp] theorem distinct_string (s : String) : (Json.string s).Distinct := .string s

@[simp] theorem distinct_array_iff {items : List Json} :
    (Json.array items).Distinct ↔ ∀ v ∈ items, v.Distinct :=
  ⟨fun h ↦ by cases h with | array h => exact h, .array⟩

@[simp] theorem distinct_object_iff {members : List (String × Json)} :
    (Json.object members).Distinct ↔
      (members.map Prod.fst).Nodup ∧ ∀ m ∈ members, m.2.Distinct :=
  ⟨fun h ↦ by cases h with | object hn h => exact ⟨hn, h⟩, fun h ↦ .object h.1 h.2⟩

/-- Rows that do not agree: a field that is missing, a list that is empty, values of two kinds, and
one row that is not there.  They serve as the example throughout. -/
def unevenRows : List Json :=
  [.object [("tags", .array []), ("note", .null)],
    .object [("note", .bool true), ("tags", .array [.string "a"]),
      ("at", .object [("$date", .string "2024-05-01T10:00:00Z")])],
    .object [("$undefined", .bool true)]]

theorem distinct_of_mem_unevenRows : ∀ v ∈ unevenRows, v.Distinct := by
  simp [unevenRows]

/-- The same for the members of an object that is still open. -/
structure DistinctMembers (members : List (String × Json)) : Prop where
  nodup : (members.map Prod.fst).Nodup
  values : ∀ m ∈ members, m.2.Distinct

theorem distinctMembers_nil : DistinctMembers [] := ⟨List.nodup_nil, by simp⟩

theorem mem_of_mem_put {members : List (String × Json)} {key : String} {value : Json}
    {m : String × Json} (h : m ∈ put members key value) : m = (key, value) ∨ m ∈ members := by
  induction members with
  | nil => simpa [put] using h
  | cons m' rest ih =>
    obtain ⟨k, v⟩ := m'
    rw [put] at h
    split at h
    · exact (List.mem_cons.1 h).imp_right (List.mem_cons_of_mem _)
    · rcases List.mem_cons.1 h with rfl | h
      · exact .inr List.mem_cons_self
      · exact (ih h).imp_right (List.mem_cons_of_mem _)

theorem DistinctMembers.put {members : List (String × Json)} (h : DistinctMembers members)
    (key : String) {value : Json} (hv : value.Distinct) :
    DistinctMembers (put members key value) where
  nodup := nodup_keys_put h.nodup key value
  values m hm := by
    rcases mem_of_mem_put hm with rfl | hm
    · exact hv
    · exact h.values m hm

/-! ## The machine -/

/-- What is in a frame is in order. -/
def Frame.Distinct : Frame → Prop
  | list items => ∀ v ∈ items, v.Distinct
  | entry members _ => DistinctMembers members

namespace State

/-- What has been read so far is in order. -/
def Distinct : State → Prop
  | value frames _ => ∀ f ∈ frames, f.Distinct
  | key frames members _ => (∀ f ∈ frames, f.Distinct) ∧ DistinctMembers members
  | colon frames members _ => (∀ f ∈ frames, f.Distinct) ∧ DistinctMembers members
  | listEnd frames items => (∀ f ∈ frames, f.Distinct) ∧ ∀ v ∈ items, v.Distinct
  | objectEnd frames members => (∀ f ∈ frames, f.Distinct) ∧ DistinctMembers members
  | finished v => v.Distinct

theorem distinct_place {frames : List Frame} (hf : ∀ f ∈ frames, f.Distinct) {v : Json}
    (hv : v.Distinct) : (place frames v).Distinct := by
  cases frames with
  | nil => exact hv
  | cons f frames =>
    obtain ⟨hf, hframes⟩ := List.forall_mem_cons.1 hf
    cases f with
    | list items => exact ⟨hframes, List.forall_mem_cons.2 ⟨hv, hf⟩⟩
    | entry members name => exact ⟨hframes, hf.put name hv⟩

theorem distinct_takeValue {frames : List Frame} (hf : ∀ f ∈ frames, f.Distinct) {lead : Lead}
    {t : Token} {s : State} (h : takeValue frames lead t = .ok s) : s.Distinct := by
  unfold takeValue at h
  split at h
  · cases h; exact distinct_place hf .null
  · cases h; exact distinct_place hf (.bool _)
  · cases h; exact distinct_place hf (.number _)
  · cases h; exact distinct_place hf (.string _)
  · split at h
    · cases h
      exact List.forall_mem_cons.2 ⟨by simp [Frame.Distinct], hf⟩
    · cases h
  · split at h
    · cases h
      exact ⟨hf, distinctMembers_nil⟩
    · cases h
  · split at h
    · cases h
      obtain ⟨hitems, hframes⟩ := List.forall_mem_cons.1 hf
      exact distinct_place hframes (.array fun v hv ↦ hitems v (List.mem_reverse.1 hv))
    · cases h
    · cases h
  · cases h
  · cases h

/-- A token leaves what has been read in order. -/
theorem Distinct.step {s s' : State} (hs : s.Distinct) {t : Token} (h : s.step t = .ok s') :
    s'.Distinct := by
  cases s with
  | value frames lead => exact distinct_takeValue hs h
  | key frames members first =>
    rw [State.step] at h
    split at h
    · cases h
      exact hs
    · split at h
      · cases h
        exact distinct_place hs.1 (.object hs.2.nodup hs.2.values)
      · cases h
    · cases h
    · cases h
  | colon frames members name =>
    rw [State.step] at h
    split at h
    · cases h
      exact List.forall_mem_cons.2 ⟨hs.2, hs.1⟩
    · cases h
  | listEnd frames items =>
    rw [State.step] at h
    split at h
    · cases h
      exact List.forall_mem_cons.2 ⟨hs.2, hs.1⟩
    · cases h
      exact distinct_place hs.1 (.array fun v hv ↦ hs.2 v (List.mem_reverse.1 hv))
    · cases h
  | objectEnd frames members =>
    rw [State.step] at h
    split at h
    · cases h
      exact hs
    · cases h
      exact distinct_place hs.1 (.object hs.2.nodup hs.2.values)
    · cases h
  | finished v => cases h

theorem Distinct.run {s s' : State} (hs : s.Distinct) {ts : List Token}
    (h : ts.foldlM State.step s = .ok s') : s'.Distinct := by
  induction ts generalizing s with
  | nil =>
    cases h
    exact hs
  | cons t ts ih =>
    rw [List.foldlM_cons] at h
    cases hstep : s.step t with
    | error fault =>
      rw [hstep] at h
      cases h
    | ok s₁ =>
      rw [hstep] at h
      exact ih (hs.step hstep) h

end State

/-- **No value that was read has a key twice.** -/
theorem distinct_of_parse {text : String} {v : Json} (h : parse text = .ok v) : v.Distinct := by
  rw [parse] at h
  cases hrun : (tokens text).foldlM State.step (.value [] .other) with
  | error fault =>
    rw [hrun] at h
    cases h
  | ok s =>
    have hs : s.Distinct :=
      State.Distinct.run (s := .value [] .other) (by simp [State.Distinct]) hrun
    rw [hrun] at h
    cases s with
    | finished w =>
      cases h
      exact hs
    | value frames lead => cases lead <;> cases h
    | key frames members first => cases first <;> cases h
    | _ => cases h

end Silhouette.Json
