import Silhouette.Marker.RecordId
import Silhouette.Marker.Timestamp
import Silhouette.Marker.Uuid
import Silhouette.Scalar

/-!
# Marker objects

Dates, record ids, uuids and `undefined` have no notation of their own in JSON.  They travel as
objects with a single member whose key starts with a dollar sign:

    {"$date": "2024-05-01T10:00:00Z"}
    {"$recordId": "user:ann"}
    {"$uuid": "0190f8a2-52c4-7c47-9b3b-3f4e0c1f0a11"}
    {"$undefined": true}

A marker with a payload that does not fit is an error, never an ordinary object.  An object that has
such a key beside others is no marker.
-/

set_option autoImplicit false

namespace Silhouette

/-- The kinds of marker. -/
inductive Marker where
  | date
  | recordId
  | uuid
  | undefined
deriving DecidableEq, Repr

namespace Marker

/-- The key that makes an object a marker. -/
def key : Marker → String
  | date => "$date"
  | recordId => "$recordId"
  | uuid => "$uuid"
  | undefined => "$undefined"

def all : List Marker := [date, recordId, uuid, undefined]

/-- The marker with a given key. -/
def ofKey? (name : String) : Option Marker := all.find? fun m ↦ m.key == name

/-- What a marker stands for. -/
def scalar : Marker → Scalar
  | date => .date
  | recordId => .recordId
  | uuid => .uuid
  | undefined => .undefined

/-- Why the payload of a marker does not fit. -/
inductive Fault where
  | dateNotText (found : Json)
  | badDate (text : String) (fault : Timestamp.Fault)
  | badRecordId (fault : RecordId.Fault)
  | uuidNotText (found : Json)
  | badUuid (text : String) (fault : Uuid.Fault)
  | undefinedNotTrue (found : Json)

def Fault.message : Fault → String
  | dateNotText v => "`$date` expects an RFC 3339 string, got " ++ v.compact
  | badDate s fault => "`" ++ s ++ "` is not an RFC 3339 timestamp: " ++ fault.message
  | badRecordId fault => fault.message
  | uuidNotText v => "`$uuid` expects a string, got " ++ v.compact
  | badUuid s fault => "`" ++ s ++ "` is not a uuid: " ++ fault.message
  | undefinedNotTrue v => "`$undefined` expects `true`, got " ++ v.compact

/-- Check the payload of a marker. -/
def check : Marker → Json → Except Fault Unit
  | date, .string s => (Timestamp.check s).mapError (.badDate s)
  | date, v => .error (.dateNotText v)
  | recordId, v => (RecordId.check v).mapError .badRecordId
  | uuid, .string s => (Uuid.check s).mapError (.badUuid s)
  | uuid, v => .error (.uuidNotText v)
  | undefined, .bool true => .ok ()
  | undefined, v => .error (.undefinedNotTrue v)

/-- The marker that an object with these members is, and its payload. -/
def ofMembers? : List (String × Json) → Option (Marker × Json)
  | [(name, payload)] => (ofKey? name).map (·, payload)
  | _ => none

/-- What an object with these members stands for if it is a marker: a scalar kind, or an error if
the payload does not fit. -/
def read? (members : List (String × Json)) : Option (Except Fault Scalar) :=
  (ofMembers? members).map fun (m, payload) ↦ (m.check payload).map fun _ ↦ m.scalar

end Marker

end Silhouette
