import Silhouette.Json.Printer
import Silhouette.Json.Token

/-!
# A quoted string is read back

`Json.quote` writes a string between quotes and escapes what could not stand there; the reader of
string tokens undoes it (`Token.scanString_quote`), whatever the characters of the string are and
whatever follows it.  It goes by one character at a time: what a character is written as, the reader
takes for that character (`Token.scanString_escapeChar`).

The offsets that the reader counts are for its messages; here they are left open.
-/

set_option autoImplicit false

namespace Silhouette.Json

theorem toList_quote_append (s : String) (rest : List Char) :
    (quote s).toList ++ rest = '"' :: (s.toList.flatMap escapeChar ++ '"' :: rest) := by
  simp [quote]

theorem toList_quote (s : String) :
    (quote s).toList = '"' :: (s.toList.flatMap escapeChar ++ ['"']) := by
  rw [← toList_quote_append s [], List.append_nil]

namespace Token

/-! ## Escapes -/

theorem hexDigit?_hexDigit {n : Nat} (h : n < 16) : hexDigit? (hexDigit n) = some n := by
  have hall : ∀ n < 16, hexDigit? (hexDigit n) = some n := by decide
  exact hall n h

theorem utf8Size_hexDigit {n : Nat} (h : n < 16) : (hexDigit n).utf8Size = 1 := by
  have hall : ∀ n < 16, (hexDigit n).utf8Size = 1 := by decide
  exact hall n h

/-- The two digits of a control character, behind two zeros. -/
theorem hexFour_control {n : Nat} (h : n < 0x20) (offset : Nat) (rest : List Char) :
    hexFour offset ('0' :: '0' :: hexDigit (n / 16) :: hexDigit (n % 16) :: rest) = .ok n := by
  have hhigh : n / 16 < 16 := by omega
  have hlow : n % 16 < 16 := by omega
  have htake : ('0' :: '0' :: hexDigit (n / 16) :: hexDigit (n % 16) :: rest).take 4 =
      ['0', '0', hexDigit (n / 16), hexDigit (n % 16)] := rfl
  have hlen : ¬ Text.byteLength ['0', '0', hexDigit (n / 16), hexDigit (n % 16)] < 4 := by
    simp [utf8Size_hexDigit hhigh, utf8Size_hexDigit hlow, show '0'.utf8Size = 1 from by decide]
  have hdigits : ['0', '0', hexDigit (n / 16), hexDigit (n % 16)].mapM hexDigit? =
      some [0, 0, n / 16, n % 16] := by
    simp [hexDigit?_hexDigit hhigh, hexDigit?_hexDigit hlow,
      show hexDigit? '0' = some 0 from by decide]
  rw [hexFour, htake, if_neg hlen, hdigits]
  dsimp only
  congr 1
  omega

theorem escape_control {c : Char} (h : c.toNat < 0x20) (offset : Nat) (rest : List Char) :
    escape offset
      ('u' :: '0' :: '0' :: hexDigit (c.toNat / 16) :: hexDigit (c.toNat % 16) :: rest) =
        .ok (c, 5) := by
  have hlow : ¬ (0xDC00 ≤ c.toNat ∧ c.toNat ≤ 0xDFFF) := by omega
  have hsingle : c.toNat < 0xD800 ∨ 0xDFFF < c.toNat := by omega
  rw [escape, hexFour_control h]
  simp only [bind, Except.bind, if_neg hlow, if_pos hsingle, Char.ofNat_toNat]
  rfl

/-- A character is written as it is, or as a backslash and something that is read as it. -/
theorem escapeChar_cases (c : Char) :
    (escapeChar c = [c] ∧ c ≠ '"' ∧ c ≠ '\\' ∧ ¬ c.toNat < 0x20) ∨
    ∃ tail, escapeChar c = '\\' :: tail ∧
      ∀ offset rest, escape offset (tail ++ rest) = .ok (c, tail.length) := by
  rw [escapeChar]
  split
  · next h => exact .inr ⟨_, rfl, fun _ _ ↦ by rw [h]; rfl⟩
  split
  · next h => exact .inr ⟨_, rfl, fun _ _ ↦ by rw [h]; rfl⟩
  split
  · next h => exact .inr ⟨_, rfl, fun _ _ ↦ by rw [h]; rfl⟩
  split
  · next h => exact .inr ⟨_, rfl, fun _ _ ↦ by rw [h]; rfl⟩
  split
  · next h => exact .inr ⟨_, rfl, fun _ _ ↦ by rw [h]; rfl⟩
  split
  · next h => exact .inr ⟨_, rfl, fun _ _ ↦ by rw [h]; rfl⟩
  split
  · next h => exact .inr ⟨_, rfl, fun _ _ ↦ by rw [h]; rfl⟩
  split
  · next h => exact .inr ⟨_, rfl, fun offset rest ↦ escape_control h offset rest⟩
  · next hquote hslash _ _ _ _ _ hcontrol => exact .inl ⟨rfl, hquote, hslash, hcontrol⟩

/-! ## Strings -/

/-- What is to be passed over is passed over. -/
theorem scanString_skip (tail rest done : List Char) (length offset : Nat) :
    ∃ offset', scanString tail.length done length offset (tail ++ rest) =
      scanString 0 done (length + tail.length) offset' rest := by
  induction tail generalizing length offset with
  | nil => exact ⟨offset, rfl⟩
  | cons c tail ih =>
    obtain ⟨offset', h⟩ := ih (length + 1) (offset + c.utf8Size)
    refine ⟨offset', ?_⟩
    rw [List.cons_append, List.length_cons, scanString, h, Nat.add_assoc, Nat.add_comm 1]

/-- **What a character is written as is read as that character.** -/
theorem scanString_escapeChar (c : Char) (rest done : List Char) (length offset : Nat) :
    ∃ offset', scanString 0 done length offset (escapeChar c ++ rest) =
      scanString 0 (c :: done) (length + (escapeChar c).length) offset' rest := by
  obtain ⟨hc, hquote, hslash, hcontrol⟩ | ⟨tail, hc, hescape⟩ := escapeChar_cases c
  · refine ⟨offset + c.utf8Size, ?_⟩
    rw [hc, List.singleton_append, scanString, if_neg hquote, if_neg hslash, if_neg hcontrol]
    rfl
  · obtain ⟨offset', h⟩ := scanString_skip tail rest (c :: done) (length + 1) (offset + 1)
    refine ⟨offset', ?_⟩
    rw [hc, List.cons_append, scanString, if_neg (by decide), if_pos rfl, hescape]
    dsimp only
    rw [h, List.length_cons, Nat.add_assoc, Nat.add_comm 1]

theorem scanString_flatMap (cs rest done : List Char) (length offset : Nat) :
    ∃ offset', scanString 0 done length offset (cs.flatMap escapeChar ++ rest) =
      scanString 0 (cs.reverse ++ done) (length + (cs.flatMap escapeChar).length) offset' rest := by
  induction cs generalizing done length offset with
  | nil => exact ⟨offset, rfl⟩
  | cons c cs ih =>
    obtain ⟨offset₁, h₁⟩ :=
      scanString_escapeChar c (cs.flatMap escapeChar ++ rest) done length offset
    obtain ⟨offset₂, h₂⟩ := ih (c :: done) (length + (escapeChar c).length) offset₁
    refine ⟨offset₂, ?_⟩
    rw [List.flatMap_cons, List.append_assoc, h₁, h₂, List.length_append, List.reverse_cons,
      List.append_assoc, Nat.add_assoc]
    rfl

/-- **A quoted string is read back**, whatever follows its closing quote. -/
theorem scanString_quote (s : String) (rest : List Char) (offset : Nat) :
    ∃ stop, scanString 0 [] 0 offset (s.toList.flatMap escapeChar ++ '"' :: rest) =
      .ok (s, (s.toList.flatMap escapeChar).length + 1, stop) := by
  obtain ⟨offset', h⟩ := scanString_flatMap s.toList ('"' :: rest) [] 0 offset
  refine ⟨offset' + 1, ?_⟩
  rw [h, scanString, if_pos rfl, List.append_nil, List.reverse_reverse, String.ofList_toList,
    Nat.zero_add]

end Token

end Silhouette.Json
