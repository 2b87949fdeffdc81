import Silhouette.Json.Parser
import Silhouette.Proofs.Declaration.Adds
import Silhouette.Proofs.Declaration.SyntaxReader

/-!
# Keys of all kinds can be read back

A key is any string: it may be empty, have quotes and line breaks in it, or look like something
else.  In a declaration it stands as it is if it is an identifier and as a string literal otherwise,
and either way the text says which key it is.

* The literal is a JSON text on its own, and its value is the key (`Json.parse_quote`).  The reader
  of whole texts is asked here, so all of the literal is needed: it has a single token, which
  reaches to its end (`Json.tokens_quote`).
* Whatever follows the literal, the key is read and nothing of what follows
  (`Reader.readKey_quote`).  An identifier must be followed by something else than more of it, and
  that it is: by a mark or a colon (`Property.readKey_text`).
* No control character is left in it (`not_control_of_mem_propertyKey`), so that the line of a key
  goes on to the end of its type (`Property.count_newline_text`).

So different keys are written differently (`propertyKey_injective`): one that is read back cannot be
mistaken for another one.
-/

set_option autoImplicit false

namespace Silhouette

open Text

/-! ## A string literal is a JSON text -/

namespace Json

/-- Characters that have been read already are passed over. -/
theorem Token.scan_skip (done : List Token) (offset : Nat) (cs : List Char) :
    Token.scan done cs.length offset cs = done.reverse := by
  induction cs generalizing offset with
  | nil => rfl
  | cons c cs ih => exact ih (offset + c.utf8Size)

/-- A quoted string is one token. -/
theorem tokens_quote (s : String) : ∃ stop, tokens (quote s) = [⟨.string s, 0, stop⟩] := by
  obtain ⟨stop, hscan⟩ := Token.scanString_quote s [] 1
  have hread : Token.read 0 '"' (s.toList.flatMap escapeChar ++ ['"']) =
      (⟨.string s, 0, stop⟩, some ((s.toList.flatMap escapeChar).length + 1)) := by
    simp only [Token.read, hscan]
  have hlength : (s.toList.flatMap escapeChar ++ ['"']).length =
      (s.toList.flatMap escapeChar).length + 1 := List.length_append
  refine ⟨stop, ?_⟩
  rw [tokens, toList_quote, Token.scan, if_neg (by decide), hread]
  dsimp only
  rw [← hlength, Token.scan_skip]
  rfl

/-- **A quoted string has the string as its value.** -/
theorem parse_quote (s : String) : parse (quote s) = .ok (.string s) := by
  obtain ⟨stop, htokens⟩ := tokens_quote s
  rw [parse, htokens]
  rfl

end Json

/-! ## Keys -/

/-- **Different keys are written differently.** -/
theorem propertyKey_injective : Function.Injective propertyKey := by
  intro key key' h
  have hstops : Reader.Stops [] := fun c hc ↦ by cases hc
  have hread := Reader.readKey_append key hstops
  rw [h, Reader.readKey_append key' hstops] at hread
  exact (Prod.mk.inj (Option.some.inj hread)).1.symm

/-! ## Fields -/

namespace Property

/-- What stands behind the key of a field. -/
def behindKey (p : Property) : List Char :=
  (if p.optional then "?" else "").toList ++ (": ".toList ++ (p.type.text.toList ++ ";\n".toList))

theorem toList_text_eq_key_append (p : Property) :
    p.text.toList = "  ".toList ++ ((propertyKey p.key).toList ++ p.behindKey) := by
  simp only [text, behindKey, String.toList_append, List.append_assoc]

/-- **The key of a field is read back**, whatever its type. -/
theorem readKey_text (p : Property) :
    Reader.readKey ((propertyKey p.key).toList ++ p.behindKey) = some (p.key, p.behindKey) := by
  refine Reader.readKey_append p.key ?_
  rw [behindKey]
  cases p.optional
  · exact Reader.stops_cons (by decide)
  · exact Reader.stops_cons (by decide)

/-- The line of a field ends behind its type, if that is on one line. -/
theorem count_newline_text (p : Property) :
    p.text.toList.count '\n' = p.type.text.toList.count '\n' + 1 := by
  have hkey : (propertyKey p.key).toList.count '\n' = 0 :=
    List.count_eq_zero.2 (newline_not_mem_propertyKey p.key)
  have hmark : (if p.optional then "?" else "").toList.count '\n' = 0 := by
    cases p.optional <;> decide
  rw [toList_text_eq_key_append, behindKey]
  simp only [List.count_append, hkey, hmark]
  rw [show "  ".toList.count '\n' = 0 by decide, show ": ".toList.count '\n' = 0 by decide,
    show ";\n".toList.count '\n' = 1 by decide, Nat.zero_add, Nat.zero_add, Nat.zero_add,
    Nat.zero_add]

end Property

/-- A record has the keys of the object that it is made for. -/
theorem exists_properties_of_recordOf {options : EmitOptions} {r : Registry} {names : Names}
    {name : String} {fields : Fields} {d : Declaration}
    (h : recordOf options r names name fields = .ok d) :
    ∃ properties, d = .record name options.useTypeAlias properties ∧
      properties.map Property.key = fields.keys := by
  rw [recordOf] at h
  obtain ⟨properties, hproperties, h⟩ := exists_of_bind_eq_ok h
  cases h
  refine ⟨properties, rfl, ?_⟩
  have hkeys : List.Forall₂ (fun f p ↦ f.1 = p.key) fields.toList properties :=
    (forall₂_of_mapM_eq_ok hproperties).imp fun f p hp ↦ by
      obtain ⟨e, -, hp⟩ := exists_of_bind_eq_ok hp
      cases hp
      rfl
  rw [Fields.keys, eq_comm, ← List.forall₂_eq_eq_eq, List.forall₂_map_left_iff,
    List.forall₂_map_right_iff]
  exact hkeys

/-- **A key is written so that it can be read back.**

* It stands as it is if it is an identifier.  Otherwise it is a string literal: a JSON text with the
  key as its value, which is read as the key whatever follows it.
* No control character is left in it, and different keys are written differently.
* In a field the key is read back, and nothing but the type can break the line before its end.
* So the properties of one object have different names. -/
theorem propertyKey_shows_key :
    (∀ key : String,
      (isIdentifier key ∧ propertyKey key = key ∨
        ¬ isIdentifier key ∧ Json.parse (propertyKey key) = .ok (.string key) ∧
          ∀ rest, Reader.readKey ((propertyKey key).toList ++ rest) = some (key, rest)) ∧
      ∀ c ∈ (propertyKey key).toList, ¬ c.toNat < 0x20) ∧
    Function.Injective propertyKey ∧
    (∀ p : Property,
      p.text.toList = "  ".toList ++ ((propertyKey p.key).toList ++ p.behindKey) ∧
      Reader.readKey ((propertyKey p.key).toList ++ p.behindKey) = some (p.key, p.behindKey) ∧
      p.text.toList.count '\n' = p.type.text.toList.count '\n' + 1) ∧
    ∀ options r names name fields d, recordOf options r names name fields = .ok d →
      ∃ properties, d = .record name options.useTypeAlias properties ∧
        properties.map Property.key = fields.keys ∧
        (properties.map fun p ↦ propertyKey p.key).Nodup := by
  refine ⟨fun key ↦ ⟨?_, fun c ↦ not_control_of_mem_propertyKey⟩, propertyKey_injective,
    fun p ↦ ⟨p.toList_text_eq_key_append, p.readKey_text, p.count_newline_text⟩,
    fun options r names name fields d h ↦ ?_⟩
  · by_cases hkey : isIdentifier key
    · exact .inl ⟨hkey, if_pos hkey⟩
    · rw [propertyKey, if_neg hkey]
      exact .inr ⟨hkey, Json.parse_quote key, Reader.readKey_quote key⟩
  · obtain ⟨properties, rfl, hkeys⟩ := exists_properties_of_recordOf h
    refine ⟨properties, rfl, hkeys, ?_⟩
    have hnodup : (fields.keys.map propertyKey).Nodup := fields.nodup_keys.map propertyKey_injective
    rwa [← hkeys, List.map_map] at hnodup

/-- Keys that could be mistaken: an empty one, one that is the literal of another one, and one that
would end its string and its line. -/
def mistakableFields : Fields :=
  .ofList [("", ⟨.required, .scalar .string⟩), ("item", ⟨.optional, .scalar .number⟩),
    ("\"item\"", ⟨.required, .scalar .null⟩),
    ("a\": string;\n  b\u0001\\", ⟨.required, .scalar .null⟩)]

theorem propertyKey_shows_key_mistakableFields :
    ∃ (d : Declaration) (properties : List Property),
      recordOf {} ∅ [] "Row" mistakableFields = .ok d ∧ d = .record "Row" false properties ∧
      properties.map Property.key = ["", "\"item\"", "a\": string;\n  b\u0001\\", "item"] ∧
      (properties.map fun p ↦ propertyKey p.key).Nodup := by
  obtain ⟨d, hd⟩ :=
    exists_ok_of_isOk (by decide +kernel : (recordOf {} ∅ [] "Row" mistakableFields).isOk)
  obtain ⟨properties, hrecord, hkeys, hnodup⟩ := propertyKey_shows_key.2.2.2 _ _ _ _ _ d hd
  have hfields : mistakableFields.keys = ["", "\"item\"", "a\": string;\n  b\u0001\\", "item"] := by
    decide +kernel
  exact ⟨d, properties, hd, hrecord, hkeys.trans hfields, hnodup⟩

end Silhouette
