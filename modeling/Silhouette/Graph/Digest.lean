import Silhouette.Graph.Descriptor
import Silhouette.SipHash
import Silhouette.Text.Utf8

/-!
# The digest of a description

`Descriptor.encode` spells a description out as bytes, and `Descriptor.digest` is the hash of them.
Tags and numbers take eight bytes, the lowest first.  A key is its UTF-8 encoding closed by the byte
`0xff`, which occurs in no such encoding.  Parts are encoded by their ids, so the digest of a type
covers everything below it without looking there.
-/

set_option autoImplicit false

namespace Silhouette

/-- A number as eight bytes, the lowest first. -/
def encodeWord (n : UInt64) : List UInt8 :=
  (List.range 8).map fun i ↦ (n >>> (8 * i).toUInt64).toUInt8

namespace TypeId

def encode : TypeId → List UInt8
  | scalar kind => encodeWord 0 ++ encodeWord kind.index.toUInt64
  | node id => encodeWord 1 ++ encodeWord id.digest

end TypeId

namespace Field

def encode (f : Field) : List UInt8 :=
  (match f.presence with
    | .required => encodeWord 0
    | .optional => encodeWord 1) ++ f.type.encode

end Field

/-- The byte that closes a key. -/
def keyEnd : UInt8 := 0xff

namespace Descriptor

/-- A description as bytes. -/
def encode : Descriptor → List UInt8
  | object fields =>
    encodeWord 0 ++ encodeWord fields.size.toUInt64 ++
      fields.toList.flatMap fun entry ↦ Text.utf8 entry.1 ++ keyEnd :: entry.2.encode
  | array item => encodeWord 1 ++ item.encode
  | union members =>
    encodeWord 2 ++ encodeWord members.size.toUInt64 ++ members.toList.flatMap TypeId.encode

/-- The id of a description. -/
def digest (d : Descriptor) : NodeId := ⟨SipHash.hash d.encode⟩

end Descriptor

end Silhouette
