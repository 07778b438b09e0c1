import ClauseTriage.Json.Number

/-!
# JSON documents

A document as it is written: fields keep their order and may repeat, and a number or a text that has
no value, too large or half a surrogate pair, is present without one.
-/
namespace ClauseTriage.Json

inductive Value where
  | null
  | bool (b : Bool)
  | number (n : Written)
  | text (s : Option String)
  | array (items : List Value)
  | object (fields : List (Option String × Value))

namespace Value

mutual

/-- Greatest number of arrays and objects around a part of the document. -/
def depth : Value → Nat
  | array items => 1 + depthOfItems items
  | object fields => 1 + depthOfFields fields
  | _ => 0

def depthOfItems : List Value → Nat
  | [] => 0
  | v :: rest => max v.depth (depthOfItems rest)

def depthOfFields : List (Option String × Value) → Nat
  | [] => 0
  | (_, v) :: rest => max v.depth (depthOfFields rest)

end

mutual

/-- Every number and every text has a value. -/
def isSound : Value → Bool
  | number n => n.isSome
  | text s => s.isSome
  | array items => itemsSound items
  | object fields => fieldsSound fields
  | _ => true

def itemsSound : List Value → Bool
  | [] => true
  | v :: rest => v.isSound && itemsSound rest

def fieldsSound : List (Option String × Value) → Bool
  | [] => true
  | (k, v) :: rest => k.isSome && v.isSound && fieldsSound rest

end

/-- A number as a double; whole numbers count too. -/
def asFloat? : Value → Option Float
  | number (some n) => some n.toFloat
  | _ => none

/-- A whole number of 64 bits with a sign. -/
def asInt? : Value → Option Int
  | number (some (.whole n)) => if n < pow2 63 then some n else none
  | _ => none

def asText? : Value → Option String
  | text s => s
  | _ => none

/-- A list whose items all have a form. -/
def asList? {α : Type} (item? : Value → Option α) : Value → Option (List α)
  | array items => items.mapM item?
  | _ => none

/-- The field of a name, which has to stand exactly once. -/
def field? (name : String) (fields : List (Option String × Value)) : Option Value :=
  match fields.filter fun f => f.1 == some name with
  | [f] => some f.2
  | _ => none

/-- A double; what is not finite has no number. -/
def ofFloat (x : Float) : Value := if x.isFinite then number (some (.real x)) else null

def ofInt (n : Int) : Value := number (some (.whole n))

def ofList {α : Type} (f : α → Value) (xs : List α) : Value := array (xs.map f)

end Value

end ClauseTriage.Json
