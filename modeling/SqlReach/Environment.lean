import SqlReach.Register

/-!
# The environment

The environment holds variables by their names, in the order in which they were
first set.
-/

namespace SqlReach

structure Environment where
  entries : List (String × String) := []

namespace Environment

def set (environment : Environment) (name value : String) : Environment :=
  ⟨Register.put name value environment.entries⟩

def get? (environment : Environment) (name : String) : Option String :=
  environment.entries.lookup name

end Environment

end SqlReach
