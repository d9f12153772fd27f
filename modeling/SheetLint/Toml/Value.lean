import SheetLint.Json.Basic

/-!
The values of a TOML document, and the JSON values they stand for.
-/
namespace SheetLint

/-- How a table came about. An inline table is complete; a table that a header has opened may not be
opened again; one that only lies on the way to another table is implicit; one made by a dotted key grows
by dotted keys alone. -/
inductive TableOrigin where
  | inline
  | header
  | implicit
  | dotted
  deriving DecidableEq, Repr

inductive Toml where
  | string (value : String)
  | integer (value : Int)
  | float (value : Float)
  | bool (value : Bool)
  | date (text : String)
  | array (items : List Toml)
  | tables (items : List Toml)
  | table (origin : TableOrigin) (fields : List (String × Toml))
  deriving Repr

namespace Toml

def dateKey : String := "$__toml_private_datetime"

mutual

def toJson : Toml → Json
  | string value => .string value
  | integer value => .integer value
  | float value => if value.isFinite then .float value else .null
  | bool value => .bool value
  | date text => .object [(dateKey, .string text)]
  | array items => .array (itemsToJson items)
  | tables items => .array (itemsToJson items)
  | table _ fields => .object (fieldsToJson fields)

def itemsToJson : List Toml → List Json
  | [] => []
  | item :: rest => toJson item :: itemsToJson rest

def fieldsToJson : List (String × Toml) → List (String × Json)
  | [] => []
  | (key, value) :: rest => (key, toJson value) :: fieldsToJson rest

end

end Toml
end SheetLint
