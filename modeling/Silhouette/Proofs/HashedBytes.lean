import Mathlib
import Silhouette.Graph.Digest

/-!
# Descriptions can be told from the bytes that are hashed

The id of a description is a hash of bytes, and no two descriptions have the same bytes
(`Descriptor.encode_injective`).  So where two different ones have one id, the hash has a collision;
there is no other reason (`Descriptor.encode_inj_and_digest_eq_iff`).

The parts of an encoding stand side by side, with nothing between them.  What keeps them apart is
that each shows where it ends, whatever follows it (`SelfDelimiting`): a word has eight bytes, an id
two words, and a key ends at the first byte `0xff`, which no UTF-8 encoding contains.  The three
forms of description differ in their first word.

Nothing rests on the number that is written in front of the entries.  It is kept modulo `2 ^ 64`,
but the entries take up all the bytes that are left, so they show how many they are.
-/

set_option autoImplicit false

namespace Silhouette

/-! ## Codes that show where they end -/

section Codes

variable {α β γ : Type} {code : α → List γ} {code' : β → List γ}

/-- Whatever follows a code, the code shows what it is for and where it ends. -/
def SelfDelimiting (code : α → List γ) : Prop :=
  ∀ x y a b, code x ++ a = code y ++ b → x = y ∧ a = b

namespace SelfDelimiting

/-- Codes of one length end after so many letters. -/
theorem of_length {n : Nat} (hlength : ∀ x, (code x).length = n)
    (hinj : Function.Injective code) : SelfDelimiting code := fun x y a b h ↦ by
  obtain ⟨hcode, hrest⟩ := List.append_inj h (by rw [hlength, hlength])
  exact ⟨hinj hcode, hrest⟩

/-- One code behind another. -/
theorem append (h : SelfDelimiting code) (h' : SelfDelimiting code') :
    SelfDelimiting fun p : α × β ↦ code p.1 ++ code' p.2 := fun p q a b heq ↦ by
  rw [List.append_assoc, List.append_assoc] at heq
  obtain ⟨hfst, heq⟩ := h _ _ _ _ heq
  obtain ⟨hsnd, hrest⟩ := h' _ _ _ _ heq
  exact ⟨Prod.ext hfst hsnd, hrest⟩

theorem injective (h : SelfDelimiting code) : Function.Injective code := fun x y heq ↦
  (h x y [] [] (by rw [heq])).1

/-- A sequence is told from the codes of its elements, if none of them is empty. -/
theorem flatMap_injective (h : SelfDelimiting code) (hne : ∀ x, code x ≠ []) :
    Function.Injective fun xs : List α ↦ xs.flatMap code := by
  intro xs ys heq
  dsimp only at heq
  induction xs generalizing ys with
  | nil =>
    cases ys with
    | nil => rfl
    | cons y ys => exact absurd (List.append_eq_nil_iff.1 heq.symm).1 (hne y)
  | cons x xs ih =>
    cases ys with
    | nil => exact absurd (List.append_eq_nil_iff.1 heq).1 (hne x)
    | cons y ys =>
      rw [List.flatMap_cons, List.flatMap_cons] at heq
      obtain ⟨rfl, hrest⟩ := h _ _ _ _ heq
      rw [ih hrest]

end SelfDelimiting

end Codes

/-! ## Words -/

theorem toNat_byte (n : UInt64) {i : Nat} (hi : i < 8) :
    (n >>> (8 * i).toUInt64).toUInt8.toNat = n.toNat / 2 ^ (8 * i) % 2 ^ 8 := by
  have hshift : (8 * i).toUInt64.toNat % 64 = 8 * i := by
    rw [Nat.toUInt64, UInt64.toNat_ofNat']
    omega
  rw [UInt64.toNat_toUInt8, UInt64.toNat_shiftRight, hshift, Nat.shiftRight_eq_div_pow]

@[simp] theorem length_encodeWord (n : UInt64) : (encodeWord n).length = 8 := by
  rw [encodeWord, List.length_map, List.length_range]

theorem encodeWord_injective : Function.Injective encodeWord := fun m n h ↦ by
  have hbyte : ∀ i < 8, m.toNat / 2 ^ (8 * i) % 2 ^ 8 = n.toNat / 2 ^ (8 * i) % 2 ^ 8 :=
    fun i hi ↦ by
      rw [← toNat_byte m hi, ← toNat_byte n hi, List.map_inj_left.1 h i (List.mem_range.2 hi)]
  refine UInt64.toNat_inj.1 (Nat.eq_of_testBit_eq fun j ↦ ?_)
  by_cases hj : j < 64
  · -- bit `j` of the word is bit `j % 8` of byte `j / 8`
    have hbit := congrArg (Nat.testBit · (j % 8)) (hbyte (j / 8) (by omega))
    have hmod : j % 8 < 8 := Nat.mod_lt j (by decide)
    simpa only [Nat.testBit_mod_two_pow, Nat.testBit_div_two_pow, hmod, decide_true, Bool.true_and,
      Nat.mod_add_div] using hbit
  · have hzero : ∀ k : UInt64, k.toNat.testBit j = false := fun k ↦
      Nat.testBit_lt_two_pow
        (Nat.lt_of_lt_of_le k.toNat_lt (Nat.pow_le_pow_right (by decide) (by omega)))
    rw [hzero, hzero]

theorem selfDelimiting_encodeWord : SelfDelimiting encodeWord :=
  .of_length length_encodeWord encodeWord_injective

/-! ## Keys -/

theorem Text.utf8_injective : Function.Injective Text.utf8 := fun s t h ↦ by
  have hbytes : (String.ofList s.toList).toByteArray = (String.ofList t.toList).toByteArray := by
    rw [String.toByteArray_ofList, String.toByteArray_ofList]
    exact congrArg List.toByteArray h
  rwa [String.toByteArray_inj, String.ofList_toList, String.ofList_toList] at hbytes

theorem lt_keyEnd_of_mem_utf8EncodeChar {c : Char} :
    ∀ b ∈ String.utf8EncodeChar c, b < keyEnd := by
  have hbyte : ∀ n < 0xff, UInt8.ofNat n < keyEnd := fun n hn ↦ by
    have hlast : keyEnd.toNat = 0xff := rfl
    rw [UInt8.lt_iff_toNat_lt, UInt8.toNat_ofNat', hlast]
    omega
  rw [String.utf8EncodeChar]
  -- one case for each number of bytes
  repeat' split
  all_goals
    simp only [List.forall_mem_cons]
    repeat' apply And.intro
  all_goals first | exact hbyte _ (by omega) | exact List.forall_mem_nil _

theorem keyEnd_not_mem_utf8 (key : String) : keyEnd ∉ Text.utf8 key := fun hmem ↦ by
  obtain ⟨c, -, hc⟩ := List.mem_flatMap.1 hmem
  exact UInt8.lt_irrefl keyEnd (lt_keyEnd_of_mem_utf8EncodeChar keyEnd hc)

/-- A key ends at the first byte that is in no encoding. -/
theorem selfDelimiting_key : SelfDelimiting fun key ↦ Text.utf8 key ++ [keyEnd] := by
  intro key key' a b h
  have htake : ∀ key a, (Text.utf8 key ++ ([keyEnd] ++ a)).takeWhile (· != keyEnd) =
      Text.utf8 key := fun key a ↦ by
    have hbytes : ∀ byte ∈ Text.utf8 key, byte != keyEnd := fun byte hbyte ↦
      bne_iff_ne.2 fun he ↦ keyEnd_not_mem_utf8 key (he ▸ hbyte)
    rw [List.takeWhile_append_of_pos hbytes, List.singleton_append,
      List.takeWhile_cons_of_neg (by simp), List.append_nil]
  simp only [List.append_assoc] at h
  have hkey : Text.utf8 key = Text.utf8 key' := by rw [← htake key a, ← htake key' b, h]
  obtain rfl := Text.utf8_injective hkey
  exact ⟨rfl, (List.cons.inj (List.append_cancel_left h)).2⟩

/-! ## Ids and fields -/

namespace TypeId

/-- The two words of an id: which sort of id it is, and which one of that sort. -/
def words : TypeId → UInt64 × UInt64
  | scalar kind => (0, kind.index.toUInt64)
  | node id => (1, id.digest)

theorem encode_eq_words (id : TypeId) :
    id.encode = encodeWord id.words.1 ++ encodeWord id.words.2 := by
  cases id <;> rfl

theorem words_injective : Function.Injective words := by
  have hindex : ∀ j k : Scalar, j.index.toUInt64 = k.index.toUInt64 → j = k := by
    intro j k
    cases j <;> cases k <;> decide
  intro a b h
  cases a with
  | scalar j =>
    cases b with
    | scalar k => exact congrArg scalar (hindex j k (Prod.mk.inj h).2)
    | node id => exact absurd (Prod.mk.inj h).1 (by decide)
  | node i =>
    cases b with
    | scalar k => exact absurd (Prod.mk.inj h).1 (by decide)
    | node j =>
      obtain ⟨x⟩ := i
      obtain ⟨y⟩ := j
      exact congrArg (node ⟨·⟩) (Prod.mk.inj h).2

theorem selfDelimiting_encode : SelfDelimiting encode := by
  intro x y a b h
  rw [encode_eq_words, encode_eq_words] at h
  obtain ⟨hwords, hrest⟩ :=
    selfDelimiting_encodeWord.append selfDelimiting_encodeWord x.words y.words a b h
  exact ⟨words_injective hwords, hrest⟩

end TypeId

/-- The word in front of the type of a field. -/
def Presence.word : Presence → UInt64
  | required => 0
  | optional => 1

theorem Presence.word_injective : Function.Injective word := by
  intro p q
  cases p <;> cases q <;> decide

namespace Field

theorem encode_eq_word (f : Field) : f.encode = encodeWord f.presence.word ++ f.type.encode := by
  obtain ⟨presence, type⟩ := f
  cases presence <;> rfl

theorem selfDelimiting_encode : SelfDelimiting encode := by
  intro f g a b h
  rw [encode_eq_word, encode_eq_word] at h
  obtain ⟨hparts, hrest⟩ := selfDelimiting_encodeWord.append TypeId.selfDelimiting_encode
    (f.presence.word, f.type) (g.presence.word, g.type) a b h
  obtain ⟨hword, htype⟩ := Prod.mk.inj hparts
  obtain ⟨presence, type⟩ := f
  obtain ⟨presence', type'⟩ := g
  exact ⟨congrArg₂ mk (Presence.word_injective hword) htype, hrest⟩

end Field

/-! ## Descriptions -/

namespace Descriptor

/-- A field under its key, as it stands among the bytes of an object. -/
def encodeEntry (entry : String × Field) : List UInt8 :=
  Text.utf8 entry.1 ++ keyEnd :: entry.2.encode

theorem selfDelimiting_encodeEntry : SelfDelimiting encodeEntry := by
  have heq : encodeEntry = fun entry ↦ (Text.utf8 entry.1 ++ [keyEnd]) ++ entry.2.encode :=
    funext fun entry ↦ by rw [encodeEntry, List.append_assoc, List.singleton_append]
  rw [heq]
  exact selfDelimiting_key.append Field.selfDelimiting_encode

theorem encodeEntry_ne_nil (entry : String × Field) : encodeEntry entry ≠ [] :=
  List.append_ne_nil_of_right_ne_nil _ (List.cons_ne_nil _ _)

/-- The word that says what a description is of. -/
def formWord : Descriptor → UInt64
  | object _ => 0
  | array _ => 1
  | union _ => 2

/-- What is behind that word. -/
def encodeParts : Descriptor → List UInt8
  | object fields => encodeWord fields.size.toUInt64 ++ fields.toList.flatMap encodeEntry
  | array item => item.encode
  | union members => encodeWord members.size.toUInt64 ++ members.toList.flatMap TypeId.encode

theorem encode_eq_formWord (d : Descriptor) :
    d.encode = encodeWord d.formWord ++ d.encodeParts := by
  cases d with
  | object fields => exact List.append_assoc _ _ _
  | array item => rfl
  | union members => exact List.append_assoc _ _ _

/-- **No two descriptions have the same bytes.** -/
theorem encode_injective : Function.Injective encode := by
  intro d d' h
  rw [encode_eq_formWord, encode_eq_formWord] at h
  obtain ⟨hform, hparts⟩ := selfDelimiting_encodeWord _ _ _ _ h
  cases d with
  | object fields =>
    cases d' with
    | object fields' =>
      have hentries := (selfDelimiting_encodeWord _ _ _ _ hparts).2
      have hlist := selfDelimiting_encodeEntry.flatMap_injective encodeEntry_ne_nil hentries
      exact congrArg object (Ordered.ext hlist)
    | array item => simp [formWord] at hform
    | union members => simp [formWord] at hform
  | array item =>
    cases d' with
    | object fields => simp [formWord] at hform
    | array item' => exact congrArg array (TypeId.selfDelimiting_encode.injective hparts)
    | union members => simp [formWord] at hform
  | union members =>
    cases d' with
    | object fields => simp [formWord] at hform
    | array item => simp [formWord] at hform
    | union members' =>
      have hmembers := (selfDelimiting_encodeWord _ _ _ _ hparts).2
      have hne : ∀ id : TypeId, id.encode ≠ [] := fun id hnil ↦ by
        have hlength := congrArg List.length hnil
        rw [TypeId.encode_eq_words, List.length_append, length_encodeWord] at hlength
        cases hlength
      have hlist := TypeId.selfDelimiting_encode.flatMap_injective hne hmembers
      exact congrArg union (Ordered.ext hlist)

end Descriptor

/-- Two byte strings are different and have one hash. -/
def SipHash.Collides (a b : List UInt8) : Prop := a ≠ b ∧ hash a = hash b

/-- **The bytes that are hashed determine a description**, so two descriptions have one id only if
they are the same or if the hash collides on their bytes. -/
theorem Descriptor.encode_inj_and_digest_eq_iff (d d' : Descriptor) :
    (d.encode = d'.encode ↔ d = d') ∧
      (d.digest = d'.digest ↔ d = d' ∨ SipHash.Collides d.encode d'.encode) := by
  refine ⟨encode_injective.eq_iff, fun h ↦ ?_, ?_⟩
  · by_cases hd : d = d'
    · exact .inl hd
    · exact .inr ⟨encode_injective.ne hd, congrArg NodeId.digest h⟩
  · rintro (rfl | ⟨-, hhash⟩)
    · rfl
    · exact congrArg NodeId.mk hhash

end Silhouette
