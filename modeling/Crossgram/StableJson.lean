import Mathlib.Data.List.Sort
import Mathlib.Data.Rat.Defs
import Mathlib.Data.String.Basic
/-!
# StableJson — JSON values compared without key order (packages/bridge/src/stable-json.ts)

Stored message content and metadata are JSON.  `jsonEquals` compares the canonical forms, where the fields of every
object stand in key order; `jsonContains` asks that every field of `expected` is in `container`.  A field list holds a
key once, as an object does; numbers are the rationals a finite double is.
-/
namespace Crossgram

inductive Json
  | null
  | bool (value : Bool)
  | num (value : Rat)
  | str (value : String)
  | arr (items : List Json)
  | obj (fields : List (String × Json))

/-- The fields of a `JsonObject`. -/
abbrev JsonObject := List (String × Json)

namespace Json

mutual

def same : Json → Json → Bool
  | .null,   .null   => true
  | .bool a, .bool b => a == b
  | .num a,  .num b  => a == b
  | .str a,  .str b  => a == b
  | .arr a,  .arr b  => sameItems a b
  | .obj a,  .obj b  => sameFields a b
  | _,       _       => false

def sameItems : List Json → List Json → Bool
  | [],     []     => true
  | a :: l, b :: r => same a b && sameItems l r
  | _,      _      => false

def sameFields : List (String × Json) → List (String × Json) → Bool
  | [],          []          => true
  | (k, a) :: l, (k', b) :: r => k == k' && same a b && sameFields l r
  | _,           _           => false

end

mutual

def canonical : Json → Json
  | .arr items  => .arr (canonicalItems items)
  | .obj fields => .obj ((canonicalFields fields).insertionSort (fun a b => a.1 ≤ b.1))
  | j           => j

def canonicalItems : List Json → List Json
  | []     => []
  | j :: l => canonical j :: canonicalItems l

def canonicalFields : List (String × Json) → List (String × Json)
  | []          => []
  | (k, j) :: l => (k, canonical j) :: canonicalFields l

end

def jsonEquals (left right : Json) : Bool := same (canonical left) (canonical right)

/-- `container[key]`, of an object's fields or an array's items. -/
def property : Json → String → Option Json
  | .obj fields, key => (fields.find? (fun f => f.1 = key)).map Prod.snd
  | .arr items,  key => (items.zipIdx.find? (fun i => toString i.2 = key)).map Prod.fst
  | _,           _   => none

/-- `typeof value === 'object'`, `null` apart. -/
def isObject : Json → Bool
  | .arr _ => true
  | .obj _ => true
  | _      => false

mutual

def jsonContains : Json → Json → Bool
  | container, .arr items =>
    jsonEquals container (.arr items) ||
      match container with
      | .arr own => own.length == items.length && containsItems own items
      | .obj own => containsIndexed (.obj own) 0 items
      | _        => false
  | container, .obj fields =>
    jsonEquals container (.obj fields) || container.isObject && containsFields container fields
  | container, expected => jsonEquals container expected
termination_by structural _ expected => expected

def containsItems : List Json → List Json → Bool
  | own :: l, expected :: r => jsonContains own expected && containsItems l r
  | _,        _             => true
termination_by structural _ items => items

def containsIndexed : Json → Nat → List Json → Bool
  | _,         _,     []            => true
  | container, index, expected :: r =>
    (match container.property (toString index) with
      | some own => jsonContains own expected
      | none     => false) && containsIndexed container (index + 1) r
termination_by structural _ _ items => items

def containsFields : Json → List (String × Json) → Bool
  | _,         []                   => true
  | container, (key, expected) :: r =>
    (match container.property key with
      | some own => jsonContains own expected
      | none     => false) && containsFields container r
termination_by structural _ fields => fields

end

/-- `{ ...fields, [key]: value }`. -/
def setField (fields : JsonObject) (key : String) (value : Json) : JsonObject :=
  if fields.any (fun f => f.1 = key) then fields.map (fun f => if f.1 = key then (key, value) else f)
  else fields ++ [(key, value)]

/-- `{ ...fields, ...overrides }`. -/
def spread (fields overrides : JsonObject) : JsonObject := overrides.foldl (fun acc f => setField acc f.1 f.2) fields

end Json

end Crossgram
