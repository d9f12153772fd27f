import SheetLint.Decimal.Shortest
import SheetLint.Json.Basic
import SheetLint.Severity
import SheetLint.Text.Quoted

/-!
Readers that turn JSON values into options. A value of another shape is refused with the first thing
that does not fit.
-/
namespace SheetLint

def Json.description : Json → String
  | .null => "null"
  | .bool value => if value then "boolean `true`" else "boolean `false`"
  | .integer value => s!"integer `{value}`"
  | .float value => "floating point `" ++ Decimal.floatText value ++ "`"
  | .string value => "string " ++ Text.quoted value
  | .array _ => "sequence"
  | .object _ => "map"

inductive ShapeError where
  | wrongType (found expected : String)
  | unknownVariant (name : String) (known : List String)
  | unknownField (name : String) (known : List String)
  | tooLong (size : Nat)
  | notOneKey
  | notAMatcher
  deriving DecidableEq, Repr

namespace ShapeError

def alternatives (names : List String) : String :=
  match names.map fun name => "`" ++ name ++ "`" with
  | [one, two] => one ++ " or " ++ two
  | [one] => one
  | many => "one of " ++ ", ".intercalate many

def message : ShapeError → String
  | wrongType found expected => s!"invalid type: {found}, expected {expected}"
  | unknownVariant name known => s!"unknown variant `{name}`, expected " ++ alternatives known
  | unknownField name known => s!"unknown field `{name}`, expected " ++ alternatives known
  | tooLong size => s!"invalid length {size}, expected fewer elements in array"
  | notOneKey => "invalid value: map, expected map with a single key"
  | notAMatcher => "data did not match any variant of untagged enum MatcherConfig"

end ShapeError

namespace Shape

def wrong {α : Type} (value : Json) (expected : String) : Except ShapeError α :=
  .error (.wrongType value.description expected)

def string : Json → Except ShapeError String
  | .string text => .ok text
  | value => wrong value "a string"

def list {α : Type} (item : Json → Except ShapeError α) : Json → Except ShapeError (List α)
  | .array items => items.mapM item
  | value => wrong value "a sequence"

def map {α : Type} (item : Json → Except ShapeError α) :
    Json → Except ShapeError (List (String × α))
  | .object fields => fields.mapM fun field => (item field.2).map fun value => (field.1, value)
  | value => wrong value "a map"

def optional {α : Type} (item : Json → Except ShapeError α) : Json → Except ShapeError (Option α)
  | .null => .ok none
  | value => (item value).map some

def named {α : Type} (known : List (String × α)) (name : String) : Except ShapeError α :=
  match known.lookup name with
  | some variant => .ok variant
  | none => .error (.unknownVariant name (known.map (·.1)))

def variant {α : Type} (known : List (String × α)) : Json → Except ShapeError α
  | .string name => named known name
  | .object [(name, payload)] =>
    match named known name with
    | .ok choice => if payload.isNull then .ok choice else wrong payload "unit"
    | .error error => .error error
  | .object _ => .error .notOneKey
  | value => wrong value "string or map"

structure Field (α : Type) where
  name : String
  read : Json → α → Except ShapeError α

def byName {α : Type} (fields : List (Field α)) :
    List (String × Json) → α → Except ShapeError α
  | [], record => .ok record
  | (name, value) :: rest, record =>
    match fields.find? fun field => field.name == name with
    | none => .error (.unknownField name (fields.map Field.name))
    | some field =>
      match field.read value record with
      | .ok next => byName fields rest next
      | .error error => .error error

def byPlace {α : Type} (size : Nat) : List (Field α) → List Json → α → Except ShapeError α
  | _, [], record => .ok record
  | [], _ :: _, _ => .error (.tooLong size)
  | field :: fields, value :: rest, record =>
    match field.read value record with
    | .ok next => byPlace size fields rest next
    | .error error => .error error

/-- A record, given as an object or as an array of its fields in order. What is not given stays as it is
in `start`. -/
def record {α : Type} (expected : String) (fields : List (Field α)) (start : α) :
    Json → Except ShapeError α
  | .object given => byName fields given start
  | .array given => byPlace given.length fields given start
  | value => wrong value expected

end Shape

def Severity.ofJson : Json → Except ShapeError Severity :=
  Shape.variant ([Severity.error, .warning, .info].map fun severity => (severity.name, severity))

end SheetLint
