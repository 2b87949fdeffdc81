import Silhouette.Json.Printer
import Silhouette.Text.Identifier

/-!
# Record ids

A record id names a row of a table.  It is written either as one text, the table and the key with a
colon between them, or as an object with a table `tb` and an `id`.  The key of the text form is
everything behind the **first** colon and must not be empty; the `id` of the object form may be
anything but null, and the object holds nothing else.
-/

set_option autoImplicit false

namespace Silhouette.RecordId

/-- Why a value is no record id. -/
inductive Fault where
  | noColon (text : String)
  | badTable (text : String)
  | emptyKey (text : String)
  | noTable
  | noId
  | otherMembers
  | neitherTextNorObject (found : Json)

def Fault.message : Fault → String
  | noColon s => "record id `" ++ s ++ "` is missing the `table:` prefix"
  | badTable s => "record id `" ++ s ++ "` has an invalid table name"
  | emptyKey s => "record id `" ++ s ++ "` has an empty key"
  | noTable => "record id object needs a `tb` table name"
  | noId => "record id object needs a non-null `id`"
  | otherMembers => "record id object takes only `tb` and `id`"
  | neitherTextNorObject v => "`$recordId` expects a string or object, got " ++ v.compact

/-- The two sides of the first colon. -/
def splitColon? (s : String) : Option (String × String) :=
  let cs := s.toList
  match cs.dropWhile (· != ':') with
  | [] => none
  | _ :: key => some (String.ofList (cs.takeWhile (· != ':')), String.ofList key)

def checkText (s : String) : Except Fault Unit :=
  match splitColon? s with
  | none => .error (.noColon s)
  | some (table, key) =>
    if !Text.isTableName table then .error (.badTable s)
    else if key.isEmpty then .error (.emptyKey s)
    else .ok ()

/-- The table that the members of an object name. -/
def hasTable (members : List (String × Json)) : Bool :=
  match Json.member? "tb" members with
  | some (.string table) => Text.isTableName table
  | _ => false

def checkMembers (members : List (String × Json)) : Except Fault Unit :=
  if !hasTable members then .error .noTable
  else
    match Json.member? "id" members with
    | none => .error .noId
    | some .null => .error .noId
    | some _ => if members.length = 2 then .ok () else .error .otherMembers

/-- Whether a value is a record id, and if not, why. -/
def check : Json → Except Fault Unit
  | .string s => checkText s
  | .object members => checkMembers members
  | v => .error (.neitherTextNorObject v)

end Silhouette.RecordId
