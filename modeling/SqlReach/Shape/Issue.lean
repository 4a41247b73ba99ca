/-!
# Issues with data

Checking data finds everything that is wrong with it, not only the first issue,
and says for each issue to which part of the data it belongs.
-/

namespace SqlReach.Shape

/-- A step from a value to one of its parts. -/
inductive Key where
  | name (text : String)
  | index (position : Nat)
deriving DecidableEq

inductive Problem where
  | missing
  | notString
  | notList
  | notDictionary
  /-- No data for a value of the named shape. -/
  | notModel (shape : String)
  | notBoolean
  | unreadableBoolean
  | notInteger
  | unreadableInteger
  | fractionalInteger
  | oversizedInteger
  | notFinite
  | tooDeep
  /-- A part that was met before. -/
  | cyclic
  /-- A value of this shape does not change. -/
  | frozen
deriving DecidableEq

namespace Problem

def label : Problem → String
  | missing => "missing"
  | notString => "string_type"
  | notList => "list_type"
  | notDictionary => "dict_type"
  | notModel _ => "model_type"
  | notBoolean => "bool_type"
  | unreadableBoolean => "bool_parsing"
  | notInteger => "int_type"
  | unreadableInteger => "int_parsing"
  | fractionalInteger => "int_from_float"
  | oversizedInteger => "int_parsing_size"
  | notFinite => "finite_number"
  | tooDeep => "recursion_depth_exceeded"
  | cyclic => "recursion_loop"
  | frozen => "frozen_instance"

def message : Problem → String
  | missing => "Field required"
  | notString => "Input should be a valid string"
  | notList => "Input should be a valid list"
  | notDictionary => "Input should be a valid dictionary"
  | notModel shape => "Input should be a valid dictionary or instance of " ++ shape
  | notBoolean => "Input should be a valid boolean"
  | unreadableBoolean => "Input should be a valid boolean, unable to interpret input"
  | notInteger => "Input should be a valid integer"
  | unreadableInteger =>
      "Input should be a valid integer, unable to parse string as an integer"
  | fractionalInteger => "Input should be a valid integer, got a number with a fractional part"
  | oversizedInteger => "Unable to parse input string as an integer, exceeded maximum size"
  | notFinite => "Input should be a finite number"
  | tooDeep => "Recursion error - maximum validation depth exceeded"
  | cyclic => "Recursion error - cyclic reference detected"
  | frozen => "Instance is frozen"

end Problem

/-- Something wrong with a part of the data. -/
structure Issue where
  problem : Problem
  location : List Key := []
deriving DecidableEq

abbrev Checked (α : Type) := Except (List Issue) α

def refuse {α : Type} (problem : Problem) : Checked α :=
  .error [{ problem }]

/-- Says that a check was about the part behind a key. -/
def under {α : Type} (key : Key) : Checked α → Checked α
  | .ok value => .ok value
  | .error issues =>
      .error (issues.map fun issue => { issue with location := key :: issue.location })

/-- Both of two checks; the issues of the first stand in front. -/
def both {α β : Type} : Checked α → Checked β → Checked (α × β)
  | .ok left, .ok right => .ok (left, right)
  | .ok _, .error issues => .error issues
  | .error issues, .ok _ => .error issues
  | .error left, .error right => .error (left ++ right)

/-- The checks of consecutive items, the first at position `position`. -/
def sequence {α : Type} (position : Nat) : List (Checked α) → Checked (List α)
  | [] => .ok []
  | item :: items =>
      (both (under (.index position) item) (sequence (position + 1) items)).map fun both =>
        both.1 :: both.2

end SqlReach.Shape
