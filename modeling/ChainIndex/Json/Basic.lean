/-!
# JSON values

* `Json`: a value. Whole numbers between -2^63 and 2^64 - 1 are exact, all others are doubles.
* `Json.field?` and `Json.setField` look up and replace a field of an object.
-/

namespace ChainIndex

/-- A JSON value. -/
inductive Json where
  | null
  | bool (b : Bool)
  | int (i : Int)
  | float (f : Float)
  | str (s : String)
  | arr (items : List Json)
  | obj (fields : List (String × Json))
deriving Inhabited

namespace Json

/-- A natural number as a value. -/
def nat (n : Nat) : Json := .int n

/-- Nothing as null. -/
def opt : Option Json → Json
  | some j => j
  | none => .null

/-- The field of an object under a name. -/
def field? (name : String) : Json → Option Json
  | .obj fields => fields.lookup name
  | _ => none

/-- Fields with one set: a field of that name keeps its place. -/
def setField (name : String) (value : Json) : List (String × Json) → List (String × Json)
  | [] => [(name, value)]
  | (n, v) :: rest => if n = name then (n, value) :: rest else (n, v) :: setField name value rest

end Json

end ChainIndex
