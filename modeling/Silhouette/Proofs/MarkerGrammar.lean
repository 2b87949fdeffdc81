import Mathlib
import Silhouette.Proofs.Json.Put
import Silhouette.Proofs.Text
import Silhouette.Sample.Kind

/-!
# The grammar of markers

What a value is can be said without looking at how it is found out: `Json.HasKind` lists all values
of each kind, the markers among them with the payloads that they may have, and `RecordId.Spelled`
the two ways to write a record id.  The classifier gives every value the kind that the list gives
it, and fails just on the objects that look like a marker and are not in the list
(`Kind.ofValue_eq_iff`).

Which texts are timestamps and which are uuids is for `Timestamp.check` and `Uuid.isUuid` to say;
the list takes their word for it.
-/

set_option autoImplicit false

namespace Silhouette

/-! ## Names of tables -/

namespace RecordId

/-- An ASCII letter or `_`. -/
def IsTableStart (c : Char) : Prop := ('A' ≤ c ∧ c ≤ 'Z') ∨ ('a' ≤ c ∧ c ≤ 'z') ∨ c = '_'

/-- An ASCII letter, a digit or `_`. -/
def IsTableRest (c : Char) : Prop := IsTableStart c ∨ ('0' ≤ c ∧ c ≤ '9')

/-- The name of a table, from its first character to its last. -/
def IsTable (cs : List Char) : Prop :=
  ∃ c rest, cs = c :: rest ∧ IsTableStart c ∧ ∀ d ∈ rest, IsTableRest d

theorem isTableStart_iff {c : Char} : IsTableStart c ↔ (c.isAlpha || c == '_') = true := by
  simp only [IsTableStart, Char.isAlpha, Char.isUpper, Char.isLower, Bool.or_eq_true,
    Bool.and_eq_true, decide_eq_true_eq, beq_iff_eq, Char.le_def, ge_iff_le, or_assoc]

theorem isTableRest_iff {c : Char} : IsTableRest c ↔ (c.isAlphanum || c == '_') = true := by
  simp only [IsTableRest, isTableStart_iff, Char.isAlphanum, Char.isDigit, Bool.or_eq_true,
    Bool.and_eq_true, decide_eq_true_eq, beq_iff_eq, Char.le_def, ge_iff_le]
  exact or_right_comm

theorem isTable_iff {s : String} : IsTable s.toList ↔ Text.isTableName s := by
  rw [Text.isTableName, Text.hasNameShape_iff, IsTable]
  simp only [isTableStart_iff, isTableRest_iff]

/-- There is no colon in the name of a table. -/
theorem IsTable.ne_colon {cs : List Char} (h : IsTable cs) : ∀ c ∈ cs, c ≠ ':' := by
  obtain ⟨c, rest, rfl, hc, hrest⟩ := h
  have hcolon : ¬ IsTableRest ':' := by
    rw [isTableRest_iff]
    decide
  refine List.forall_mem_cons.2 ⟨?_, fun d hd he ↦ hcolon (he ▸ hrest d hd)⟩
  rintro rfl
  exact hcolon (.inl hc)

/-! ## Record ids -/

/-- The ways to write a record id. -/
inductive Spelled : Json → Prop
  /-- The table and the key with a colon between them, which is the first colon of the text. -/
  | text {table key : List Char} (htable : IsTable table) (hkey : key ≠ []) :
      Spelled (.string (String.ofList (table ++ ':' :: key)))
  /-- An object with two members, one that names the table and one that is not null. -/
  | parts {table : String} {id : Json} {members : List (String × Json)}
      (htable : IsTable table.toList) (hid : id ≠ .null)
      (hmembers : members = [("tb", .string table), ("id", id)] ∨
        members = [("id", id), ("tb", .string table)]) : Spelled (.object members)

/-- The two sides of the first colon. -/
theorem splitColon?_eq_some_iff {s table key : String} :
    splitColon? s = some (table, key) ↔
      s.toList = table.toList ++ ':' :: key.toList ∧ ∀ c ∈ table.toList, c ≠ ':' := by
  rw [splitColon?]
  constructor
  · intro h
    have hwhole : s.toList.takeWhile (· != ':') ++ s.toList.dropWhile (· != ':') = s.toList :=
      List.takeWhile_append_dropWhile
    have hhead := List.head?_dropWhile_not (· != ':') s.toList
    split at h
    · cases h
    · next c rest hdrop =>
      cases h
      rw [hdrop] at hwhole hhead
      have hc : c = ':' := by simpa using hhead
      subst hc
      rw [String.toList_ofList, String.toList_ofList]
      exact ⟨hwhole.symm, fun d hd ↦ bne_iff_ne.1 (List.mem_takeWhile_imp (p := (· != ':')) hd)⟩
  · rintro ⟨hs, htable⟩
    have hpass : ∀ c ∈ table.toList, (c != ':') = true := fun c hc ↦ bne_iff_ne.2 (htable c hc)
    rw [hs, List.dropWhile_append_of_pos hpass, List.takeWhile_append_of_pos hpass]
    simp

theorem checkText_eq_ok_iff {s : String} : checkText s = .ok () ↔ Spelled (.string s) := by
  rw [checkText]
  constructor
  · intro h
    split at h
    · cases h
    · next table key hsplit =>
      obtain ⟨hs, -⟩ := splitColon?_eq_some_iff.1 hsplit
      split at h
      · cases h
      · next htable =>
        split at h
        · cases h
        · next hkey =>
          rw [← String.ofList_toList (s := s), hs]
          exact .text (isTable_iff.2 (by simpa using htable)) (by simpa using hkey)
  · intro h
    cases h with
    | @text table key htable hkey =>
      have hsplit : splitColon? (String.ofList (table ++ ':' :: key)) =
          some (String.ofList table, String.ofList key) :=
        splitColon?_eq_some_iff.2 ⟨by simp, by simpa using htable.ne_colon⟩
      rw [hsplit]
      dsimp only
      rw [if_neg, if_neg]
      · simpa using hkey
      · simpa [← isTable_iff] using htable

theorem hasTable_iff {members : List (String × Json)} :
    hasTable members ↔
      ∃ table, Json.member? "tb" members = some (.string table) ∧ IsTable table.toList := by
  simp only [isTable_iff]
  rw [hasTable]
  split
  · next table h => simp [h]
  · next hno => exact ⟨nofun, fun ⟨table, htable, _⟩ ↦ absurd htable (hno table)⟩

/-- Members that name a table and hold an id, and are two. -/
theorem checkMembers_eq_ok_iff_member? {members : List (String × Json)} :
    checkMembers members = .ok () ↔
      hasTable members ∧ (∃ id, Json.member? "id" members = some id ∧ id ≠ .null) ∧
        members.length = 2 := by
  rw [checkMembers]
  split
  · next h => exact ⟨nofun, fun ⟨htable, _⟩ ↦ by simp [htable] at h⟩
  · next h =>
    have htable : hasTable members := by simpa using h
    split
    · next hid => exact ⟨nofun, fun ⟨_, ⟨id, hid', _⟩, _⟩ ↦ by rw [hid] at hid'; cases hid'⟩
    · next hid =>
      refine ⟨nofun, fun ⟨_, ⟨id, hid', hnull⟩, _⟩ ↦ ?_⟩
      rw [hid] at hid'
      exact absurd (Option.some.inj hid').symm hnull
    · next id hnull hid =>
      split
      · next hlength => exact ⟨fun _ ↦ ⟨htable, ⟨id, hid, hnull⟩, hlength⟩, fun _ ↦ rfl⟩
      · next hlength => exact ⟨nofun, fun ⟨_, _, hlength'⟩ ↦ absurd hlength' hlength⟩

theorem checkMembers_eq_ok_iff {members : List (String × Json)} :
    checkMembers members = .ok () ↔ Spelled (.object members) := by
  rw [checkMembers_eq_ok_iff_member?, hasTable_iff]
  constructor
  · rintro ⟨⟨table, htb, htable⟩, ⟨id, hid, hnull⟩, hlength⟩
    obtain ⟨⟨k, v⟩, ⟨k', v'⟩, rfl⟩ := List.length_eq_two.1 hlength
    refine .parts htable hnull ?_
    simp only [Json.member?_cons, Json.member?_nil] at htb hid
    -- two keys are found among two members, so each is the key of one of them
    by_cases hk : "tb" = k
    · subst hk
      have hv : v = .string table := by simpa using htb
      have hrest : "id" = k' ∧ v' = id := by simpa using hid
      obtain ⟨rfl, rfl⟩ := hrest
      exact .inl (by rw [hv])
    · have hrest : "tb" = k' ∧ v' = .string table := by simpa [hk] using htb
      obtain ⟨rfl, rfl⟩ := hrest
      have hfirst : "id" = k ∧ v = id := by simpa using hid
      obtain ⟨rfl, rfl⟩ := hfirst
      exact .inr rfl
  · intro h
    cases h with
    | @parts table id members htable hid hmembers =>
      rcases hmembers with rfl | rfl
      · exact ⟨⟨table, rfl, htable⟩, ⟨id, rfl, hid⟩, rfl⟩
      · exact ⟨⟨table, rfl, htable⟩, ⟨id, rfl, hid⟩, rfl⟩

/-- **A record id is what is written in one of the two ways.** -/
theorem check_eq_ok_iff {v : Json} : check v = .ok () ↔ Spelled v := by
  cases v with
  | string s => exact checkText_eq_ok_iff
  | object members => exact checkMembers_eq_ok_iff
  | _ => exact ⟨nofun, nofun⟩

end RecordId

/-! ## Payloads -/

namespace Marker

/-- The payloads that fit a marker. -/
inductive Fits : Marker → Json → Prop
  | date {s : String} (h : Timestamp.check s = .ok ()) : Fits .date (.string s)
  | recordId {v : Json} (h : RecordId.Spelled v) : Fits .recordId v
  | uuid {s : String} (h : Uuid.isUuid s) : Fits .uuid (.string s)
  | undefined : Fits .undefined (.bool true)

theorem mapError_eq_ok_iff {ε ε' α : Type} {f : ε → ε'} {x : Except ε α} {a : α} :
    x.mapError f = .ok a ↔ x = .ok a := by
  cases x <;> simp [Except.mapError]

/-- **The payloads that are let through are those that fit.** -/
theorem check_eq_ok_iff {m : Marker} {payload : Json} :
    m.check payload = .ok () ↔ m.Fits payload := by
  cases m with
  | date =>
    cases payload with
    | string s =>
      rw [check, mapError_eq_ok_iff]
      exact ⟨.date, fun | .date h => h⟩
    | _ => exact ⟨nofun, nofun⟩
  | recordId =>
    rw [check, mapError_eq_ok_iff, RecordId.check_eq_ok_iff]
    exact ⟨.recordId, fun | .recordId h => h⟩
  | uuid =>
    cases payload with
    | string s =>
      rw [check, mapError_eq_ok_iff, Uuid.check]
      split
      · next h => exact ⟨fun _ ↦ .uuid h, fun _ ↦ rfl⟩
      · next h => exact ⟨nofun, fun | .uuid h' => absurd h' h⟩
    | _ => exact ⟨nofun, nofun⟩
  | undefined =>
    cases payload with
    | bool b =>
      cases b with
      | true => exact ⟨fun _ ↦ .undefined, fun _ ↦ rfl⟩
      | false => exact ⟨nofun, nofun⟩
    | _ => exact ⟨nofun, nofun⟩

/-! ## Keys -/

/-- The keys that make an object a marker. -/
def keys : List String := ["$date", "$recordId", "$uuid", "$undefined"]

theorem mem_keys_iff {key : String} : key ∈ keys ↔ ∃ m : Marker, m.key = key := by
  have hkeys : keys = all.map Marker.key := rfl
  rw [hkeys, List.mem_map]
  refine exists_congr fun m ↦ and_iff_right ?_
  cases m <;> decide

/-- Members that make an object a marker: there is one, and it has the key of a marker. -/
def Keyed (members : List (String × Json)) : Prop :=
  ∃ key ∈ keys, ∃ payload, members = [(key, payload)]

theorem ofKey?_key (m : Marker) : ofKey? m.key = some m := by
  cases m <;> decide

theorem read?_single (m : Marker) (payload : Json) :
    read? [(m.key, payload)] = some ((m.check payload).map fun _ ↦ m.scalar) := by
  rw [read?, ofMembers?, ofKey?_key]
  rfl

theorem read?_of_not_keyed {members : List (String × Json)} (h : ¬ Keyed members) :
    read? members = none := by
  rw [read?, Option.map_eq_none_iff, ofMembers?.eq_def]
  split
  · next name payload =>
    rw [Option.map_eq_none_iff, ofKey?, List.find?_eq_none]
    intro m _ hm
    exact h ⟨name, mem_keys_iff.2 ⟨m, eq_of_beq hm⟩, payload, rfl⟩
  · rfl

end Marker

/-! ## Kinds -/

/-- What a value is. -/
inductive Json.HasKind : Json → Kind → Prop
  | null : HasKind .null (.scalar .null)
  | bool (b : Bool) : HasKind (.bool b) (.scalar .boolean)
  | number (n : Numeral) : HasKind (.number n) (.scalar .number)
  | string (s : String) : HasKind (.string s) (.scalar .string)
  | array (items : List Json) : HasKind (.array items) .array
  | date {s : String} (h : Timestamp.check s = .ok ()) :
      HasKind (.object [("$date", .string s)]) (.scalar .date)
  | recordId {v : Json} (h : RecordId.Spelled v) :
      HasKind (.object [("$recordId", v)]) (.scalar .recordId)
  | uuid {s : String} (h : Uuid.isUuid s) :
      HasKind (.object [("$uuid", .string s)]) (.scalar .uuid)
  | undefined : HasKind (.object [("$undefined", .bool true)]) (.scalar .undefined)
  /-- Whatever keys it has, an object is an ordinary one unless a single key makes it a marker. -/
  | object {members : List (String × Json)} (h : ¬ Marker.Keyed members) :
      HasKind (.object members) .object

namespace Kind

theorem ofValue_single (m : Marker) (payload : Json) :
    ofValue (.object [(m.key, payload)]) = (m.check payload).map fun _ ↦ .scalar m.scalar := by
  rw [ofValue, Marker.read?_single]
  cases m.check payload <;> rfl

theorem ofValue_of_fits {m : Marker} {payload : Json} (h : m.Fits payload) :
    ofValue (.object [(m.key, payload)]) = .ok (.scalar m.scalar) := by
  rw [ofValue_single, Marker.check_eq_ok_iff.2 h]
  rfl

theorem exists_fault_of_not_fits {m : Marker} {payload : Json} (h : ¬ m.Fits payload) :
    ∃ fault, ofValue (.object [(m.key, payload)]) = .error fault := by
  rw [ofValue_single]
  cases hcheck : m.check payload with
  | ok => exact absurd (Marker.check_eq_ok_iff.1 hcheck) h
  | error fault => exact ⟨fault, rfl⟩

/-- The classifier gives the kind of the grammar. -/
theorem ofValue_of_hasKind {v : Json} {k : Kind} (h : v.HasKind k) : ofValue v = .ok k := by
  cases h with
  | date h => exact ofValue_of_fits (.date h)
  | recordId h => exact ofValue_of_fits (.recordId h)
  | uuid h => exact ofValue_of_fits (.uuid h)
  | undefined => exact ofValue_of_fits .undefined
  | object h => rw [ofValue, Marker.read?_of_not_keyed h]
  | _ => rfl

theorem exists_hasKind_of_fits {m : Marker} {payload : Json} (h : m.Fits payload) :
    ∃ k, Json.HasKind (.object [(m.key, payload)]) k := by
  cases h with
  | date h => exact ⟨_, .date h⟩
  | recordId h => exact ⟨_, .recordId h⟩
  | uuid h => exact ⟨_, .uuid h⟩
  | undefined => exact ⟨_, .undefined⟩

/-- A value has a kind, or it is a marker with a payload that does not fit. -/
theorem exists_hasKind_or_not_fits (v : Json) :
    (∃ k, v.HasKind k) ∨
      ∃ (m : Marker) (payload : Json), v = .object [(m.key, payload)] ∧ ¬ m.Fits payload := by
  cases v with
  | null => exact .inl ⟨_, .null⟩
  | bool b => exact .inl ⟨_, .bool b⟩
  | number n => exact .inl ⟨_, .number n⟩
  | string s => exact .inl ⟨_, .string s⟩
  | array items => exact .inl ⟨_, .array items⟩
  | object members =>
    by_cases hkeyed : Marker.Keyed members
    · obtain ⟨key, hkey, payload, rfl⟩ := hkeyed
      obtain ⟨m, rfl⟩ := Marker.mem_keys_iff.1 hkey
      by_cases hfits : m.Fits payload
      · exact .inl (exists_hasKind_of_fits hfits)
      · exact .inr ⟨m, payload, rfl, hfits⟩
    · exact .inl ⟨_, .object hkeyed⟩

/-- **The classifier accepts the grammar and nothing else.**  A value is classified as what the
grammar says it is.  The classifier fails just on the objects that have the key of a marker for
their only one and are nothing in the grammar. -/
theorem ofValue_eq_iff (v : Json) :
    (∀ k, ofValue v = .ok k ↔ v.HasKind k) ∧
      ((∃ fault, ofValue v = .error fault) ↔
        (∃ key ∈ Marker.keys, ∃ payload, v = .object [(key, payload)]) ∧ ∀ k, ¬ v.HasKind k) := by
  obtain ⟨k, hk⟩ | ⟨m, payload, rfl, hno⟩ := exists_hasKind_or_not_fits v
  · have hv := ofValue_of_hasKind hk
    refine ⟨fun k' ↦ ⟨fun h ↦ ?_, ofValue_of_hasKind⟩, ?_, fun ⟨_, hnone⟩ ↦ absurd hk (hnone k)⟩
    · cases hv.symm.trans h
      exact hk
    · rintro ⟨fault, hfault⟩
      cases hv.symm.trans hfault
  · obtain ⟨fault, hfault⟩ := exists_fault_of_not_fits hno
    have hnone : ∀ k, ¬ Json.HasKind (.object [(m.key, payload)]) k := fun k hk ↦ by
      cases hfault.symm.trans (ofValue_of_hasKind hk)
    refine ⟨fun k ↦ ⟨fun h ↦ ?_, fun h ↦ absurd h (hnone k)⟩, fun _ ↦ ?_, fun _ ↦ ⟨fault, hfault⟩⟩
    · cases hfault.symm.trans h
    · exact ⟨⟨m.key, Marker.mem_keys_iff.2 ⟨m, rfl⟩, payload, rfl⟩, hnone⟩

end Kind

end Silhouette
