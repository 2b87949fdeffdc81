/-!
# Scalar kinds

The eight kinds of value that have no parts: the ones JSON has itself, and those that are written as
marker objects.  Their order is the order in which they are listed in unions and sets.
-/

set_option autoImplicit false

namespace Silhouette

/-- A kind of value without parts. -/
inductive Scalar where
  | string
  | number
  | boolean
  | null
  | undefined
  | date
  | recordId
  | uuid
deriving DecidableEq, Repr, Inhabited

namespace Scalar

/-- All kinds, in order. -/
def all : List Scalar := [string, number, boolean, null, undefined, date, recordId, uuid]

/-- The place of a kind in the order. -/
def index : Scalar → Nat
  | string => 0
  | number => 1
  | boolean => 2
  | null => 3
  | undefined => 4
  | date => 5
  | recordId => 6
  | uuid => 7

/-- The name of a kind, which is also how it is declared unless something else is asked for. -/
def name : Scalar → String
  | string => "string"
  | number => "number"
  | boolean => "boolean"
  | null => "null"
  | undefined => "undefined"
  | date => "Date"
  | recordId => "RecordId"
  | uuid => "UUID"

theorem mem_all (k : Scalar) : k ∈ all := by cases k <;> decide

theorem index_lt (k : Scalar) : k.index < 8 := by cases k <;> decide

theorem index_injective {j k : Scalar} (h : j.index = k.index) : j = k := by
  revert h; cases j <;> cases k <;> decide

end Scalar

end Silhouette
