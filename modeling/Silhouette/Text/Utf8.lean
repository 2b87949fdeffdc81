/-!
# Text as bytes

Places in a text, digests and a few formats count **bytes** of the UTF-8 encoding, while everything
else in the library speaks of characters.  This file is the bridge: `Text.utf8` is the encoding of
a string as a list of bytes, and `Text.byteLength` the number of them, character by character.
-/

set_option autoImplicit false

namespace Silhouette.Text

/-- The UTF-8 encoding of a text. -/
def utf8 (s : String) : List UInt8 := s.toList.flatMap String.utf8EncodeChar

/-- How many bytes a run of characters takes. -/
def byteLength (cs : List Char) : Nat := cs.foldr (fun c n ↦ c.utf8Size + n) 0

@[simp] theorem byteLength_nil : byteLength [] = 0 := rfl

@[simp] theorem byteLength_cons (c : Char) (cs : List Char) :
    byteLength (c :: cs) = c.utf8Size + byteLength cs := rfl

end Silhouette.Text
