/-!
JSON values. The fields of an object are kept as written; `canonical` gives the value itself, in which
every key stands once, with its last value, and the keys ascend.
-/
namespace SheetLint

inductive Json where
  | null
  | bool (value : Bool)
  | integer (value : Int)
  | float (value : Float)
  | string (value : String)
  | array (items : List Json)
  | object (fields : List (String × Json))
  deriving Repr

def insertKey {α : Type} (key : String) (value : α) : List (String × α) → List (String × α)
  | [] => [(key, value)]
  | (k, v) :: rest =>
    if key < k then (key, value) :: (k, v) :: rest
    else if key = k then (key, value) :: rest
    else (k, v) :: insertKey key value rest

def sortKeys {α : Type} (pairs : List (String × α)) : List (String × α) :=
  pairs.foldl (fun sorted pair => insertKey pair.1 pair.2 sorted) []

namespace Json

mutual

def canonical : Json → Json
  | array items => array (canonicalItems items)
  | object fields => object (sortKeys (canonicalFields fields))
  | value => value

def canonicalItems : List Json → List Json
  | [] => []
  | item :: rest => canonical item :: canonicalItems rest

def canonicalFields : List (String × Json) → List (String × Json)
  | [] => []
  | (key, value) :: rest => (key, canonical value) :: canonicalFields rest

end

def isNull : Json → Bool
  | null => true
  | _ => false

end Json
end SheetLint
