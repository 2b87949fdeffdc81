import Silhouette.Proofs.Json.Quote

/-!
# A compact text has one value

No text of a value is the beginning of another one: a string ends at the first quote that is not
escaped, a list and an object at the bracket that closes them.  So a value can be told from its text
even if something follows, and what follows can be told too (`Textual.compact_append_inj`).  This is
said of values in which all that has no parts is a string; a number has no end of its own.

Lists and objects are one case, parts with commas in between and a bracket behind
(`commaed_append_inj`).  All that is asked of the parts is that each shows its end, and that none
starts like the bracket.
-/

set_option autoImplicit false

namespace Silhouette.Json

/-! ## Strings -/

/-- The closing quote can be told from the quotes inside. -/
theorem quote_append_inj {s t : String} {a b : List Char}
    (h : (quote s).toList ++ a = (quote t).toList ++ b) : s = t ∧ a = b := by
  rw [toList_quote_append, toList_quote_append] at h
  have hinner := (List.cons.inj h).2
  obtain ⟨stop, hs⟩ := Token.scanString_quote s a 0
  obtain ⟨stop', ht⟩ := Token.scanString_quote t b 0
  rw [hinner, ht] at hs
  obtain rfl : t = s := (Prod.mk.inj (Except.ok.inj hs)).1
  exact ⟨rfl, (List.cons.inj (List.append_cancel_left hinner)).2⟩

/-! ## Parts between commas -/

section Parts

variable {α : Type} {code : α → List Char} {closing : Char} {xs ys : List α} {a b : List Char}

theorem intercalate_cons_eq (sep x : List Char) (l : List (List Char)) :
    sep.intercalate (x :: l) = x ++ l.flatMap (sep ++ ·) := by
  induction l generalizing x with
  | nil => simp
  | cons y l ih =>
    rw [List.intercalate_cons_cons, ih, List.flatMap_cons, List.append_assoc, List.append_assoc]

/-- Where a part ends shows, whatever is behind it. -/
def ShowsEnd (code : α → List Char) (ys : List α) (x : α) : Prop :=
  ∀ y ∈ ys, ∀ a b, code x ++ a = code y ++ b → x = y ∧ a = b

/-- Parts behind commas, up to the closing bracket. -/
theorem behindCommas_append_inj (hclosing : closing ≠ ',') (hxs : ∀ x ∈ xs, ShowsEnd code ys x)
    (h : xs.flatMap (fun x ↦ ',' :: code x) ++ closing :: a =
      ys.flatMap (fun y ↦ ',' :: code y) ++ closing :: b) : xs = ys ∧ a = b := by
  induction xs generalizing ys with
  | nil =>
    cases ys with
    | nil => exact ⟨rfl, (List.cons.inj h).2⟩
    | cons y ys => exact absurd (List.cons.inj h).1 hclosing
  | cons x xs ih =>
    cases ys with
    | nil => exact absurd (List.cons.inj h).1.symm hclosing
    | cons y ys =>
      simp only [List.flatMap_cons, List.cons_append, List.append_assoc] at h
      obtain ⟨hx, hxs⟩ := List.forall_mem_cons.1 hxs
      obtain ⟨rfl, hrest⟩ := hx y List.mem_cons_self _ _ (List.cons.inj h).2
      obtain ⟨rfl, hab⟩ :=
        ih (fun x hx y hy ↦ hxs x hx y (List.mem_cons_of_mem _ hy)) hrest
      exact ⟨rfl, hab⟩

/-- Parts with commas in between, up to the closing bracket. -/
theorem commaed_append_inj (hclosing : closing ≠ ',') (hxs : ∀ x ∈ xs, ShowsEnd code ys x)
    (hstart : ∀ x, x ∈ xs ∨ x ∈ ys → ∀ a b, code x ++ a ≠ closing :: b)
    (h : [','].intercalate (xs.map code) ++ closing :: a =
      [','].intercalate (ys.map code) ++ closing :: b) : xs = ys ∧ a = b := by
  have hcons : ∀ (x : α) (xs : List α) (a : List Char),
      [','].intercalate ((x :: xs).map code) ++ a =
        code x ++ (xs.flatMap (fun x ↦ ',' :: code x) ++ a) := fun x xs a ↦ by
    rw [List.map_cons, intercalate_cons_eq, List.flatMap_map, List.append_assoc]
    rfl
  cases xs with
  | nil =>
    cases ys with
    | nil => exact ⟨rfl, (List.cons.inj h).2⟩
    | cons y ys =>
      rw [hcons] at h
      exact absurd h.symm (hstart y (.inr List.mem_cons_self) _ _)
  | cons x xs =>
    cases ys with
    | nil =>
      rw [hcons] at h
      exact absurd h (hstart x (.inl List.mem_cons_self) _ _)
    | cons y ys =>
      rw [hcons, hcons] at h
      obtain ⟨hx, hxs⟩ := List.forall_mem_cons.1 hxs
      obtain ⟨rfl, hrest⟩ := hx y List.mem_cons_self _ _ h
      obtain ⟨rfl, hab⟩ := behindCommas_append_inj hclosing
        (fun x hx y hy ↦ hxs x hx y (List.mem_cons_of_mem _ hy)) hrest
      exact ⟨rfl, hab⟩

end Parts

/-! ## Values -/

/-- All that has no parts is a string. -/
inductive Textual : Json → Prop
  | string (s : String) : Textual (.string s)
  | array {items : List Json} (h : ∀ v ∈ items, Textual v) : Textual (.array items)
  | object {members : List (String × Json)} (h : ∀ m ∈ members, Textual m.2) :
      Textual (.object members)

/-- A member as it stands in an object. -/
def memberText (m : String × Json) : List Char := (quote m.1).toList ++ ':' :: (compact m.2).toList

theorem toList_compact_array (items : List Json) (a : List Char) :
    (compact (.array items)).toList ++ a =
      '[' :: ([','].intercalate (items.map fun v ↦ (compact v).toList) ++ ']' :: a) := by
  have hitems : ∀ items : List Json, compactItems items = items.map compact := fun items ↦ by
    induction items with
    | nil => rfl
    | cons v items ih => rw [compactItems, ih, List.map_cons]
  simp [compact, hitems, String.toList_intercalate, Function.comp_def]

theorem toList_compact_object (members : List (String × Json)) (a : List Char) :
    (compact (.object members)).toList ++ a =
      '\x7b' :: ([','].intercalate (members.map memberText) ++ '\x7d' :: a) := by
  have hmembers : ∀ members : List (String × Json), (compactMembers members).map String.toList =
      members.map memberText := fun members ↦ by
    induction members with
    | nil => rfl
    | cons m members ih =>
      rw [compactMembers, List.map_cons, ih, List.map_cons, memberText]
      simp
  simp [compact, hmembers, String.toList_intercalate]

theorem Textual.compact_ne_closing {v : Json} (h : v.Textual) (a b : List Char) :
    (compact v).toList ++ a ≠ ']' :: b := by
  cases h with
  | string s => simp [compact, quote]
  | array h => simp [toList_compact_array]
  | object h => simp [toList_compact_object]

/-- **The text of a value shows the value and where it ends.** -/
theorem Textual.compact_append_inj {v w : Json} {a b : List Char} (hv : v.Textual) (hw : w.Textual)
    (h : (compact v).toList ++ a = (compact w).toList ++ b) : v = w ∧ a = b := by
  induction hv generalizing w a b with
  | string s =>
    cases hw with
    | string t =>
      rw [compact, compact] at h
      obtain ⟨rfl, hab⟩ := quote_append_inj h
      exact ⟨rfl, hab⟩
    | array _ => simp [compact, quote] at h
    | object _ => simp [compact, quote] at h
  | @array items hitems ih =>
    cases hw with
    | string t => simp [compact, quote] at h
    | @array items' hitems' =>
      rw [toList_compact_array, toList_compact_array] at h
      obtain ⟨rfl, hab⟩ := commaed_append_inj (by decide)
        (fun x hx y hy a b h ↦ ih x hx (hitems' y hy) h)
        (fun x hx ↦ (hx.elim (hitems x) (hitems' x)).compact_ne_closing) (List.cons.inj h).2
      exact ⟨rfl, hab⟩
    | object _ => simp [toList_compact_array, toList_compact_object] at h
  | @object members hmembers ih =>
    cases hw with
    | string t => simp [compact, quote] at h
    | array _ => simp [toList_compact_array, toList_compact_object] at h
    | @object members' hmembers' =>
      rw [toList_compact_object, toList_compact_object] at h
      have hmember : ∀ m ∈ members, ShowsEnd memberText members' m := by
        rintro ⟨k, v⟩ hm ⟨k', v'⟩ hm' a b h
        simp only [memberText, List.append_assoc] at h
        obtain ⟨rfl, hvalue⟩ := quote_append_inj h
        obtain ⟨rfl, hab⟩ := ih _ hm (hmembers' _ hm') (List.cons.inj hvalue).2
        exact ⟨rfl, hab⟩
      obtain ⟨rfl, hab⟩ := commaed_append_inj (by decide) hmember
        (fun m _ a b ↦ by simp [memberText, quote]) (List.cons.inj h).2
      exact ⟨rfl, hab⟩

theorem Textual.compact_inj {v w : Json} (hv : v.Textual) (hw : w.Textual) :
    compact v = compact w ↔ v = w :=
  ⟨fun h ↦ (hv.compact_append_inj hw (a := []) (b := []) (by rw [h])).1, fun h ↦ h ▸ rfl⟩

end Silhouette.Json
