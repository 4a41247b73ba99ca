import SqlReach.Environment
import SqlReach.Settings.EnvFile

/-!
# References in values

A value of an environment file can refer to a variable: a dollar sign is
followed by the name in braces, and a default may stand behind the name, after a
colon and a hyphen.  A variable has the value that the file gave it before, or
else the value that it has in the environment.
-/

namespace SqlReach.EnvFile

structure Reference where
  name : String
  default : Option String

def isClosing (char : Char) : Bool :=
  char == '\x7d'

def isNameChar (char : Char) : Bool :=
  !isClosing char && char != ':'

/-- Reads a reference behind its opening brace. -/
def reference? (text : List Char) : Option (Reference × List Char) :=
  match text.dropWhile isNameChar with
  | '\x7d' :: rest => some (⟨String.ofList (text.takeWhile isNameChar), none⟩, rest)
  | ':' :: '-' :: rest =>
      match rest.dropWhile (!isClosing ·) with
      | [] => none
      | _ :: after =>
          some (⟨String.ofList (text.takeWhile isNameChar),
            some (String.ofList (rest.takeWhile (!isClosing ·)))⟩, after)
  | _ => none

theorem length_dropWhile_le {α : Type} (keep : α → Bool) (items : List α) :
    (items.dropWhile keep).length ≤ items.length :=
  (List.dropWhile_sublist keep).length_le

theorem length_reference? {text rest : List Char} {reference : Reference}
    (hread : reference? text = some (reference, rest)) : rest.length < text.length := by
  unfold reference? at hread
  have hname := length_dropWhile_le isNameChar text
  split at hread
  · rename_i hdrop
    simp only [Option.some.injEq, Prod.mk.injEq] at hread
    rw [hdrop, List.length_cons] at hname
    rw [← hread.2]
    exact hname
  · rename_i behind hdrop
    rw [hdrop, List.length_cons, List.length_cons] at hname
    split at hread
    · cases hread
    · rename_i hdefault
      have hlength := length_dropWhile_le (!isClosing ·) behind
      rw [hdefault, List.length_cons] at hlength
      simp only [Option.some.injEq, Prod.mk.injEq] at hread
      rw [← hread.2]
      omega
  · cases hread

/-- Replaces every reference in a text by its meaning. -/
def expand (meaning : Reference → String) (text : List Char) : List Char :=
  match text with
  | [] => []
  | '$' :: '\x7b' :: rest =>
      match _hread : reference? rest with
      | some (reference, after) => (meaning reference).toList ++ expand meaning after
      | none => '$' :: expand meaning ('\x7b' :: rest)
  | char :: rest => char :: expand meaning rest
termination_by text.length
decreasing_by
  · have := length_reference? _hread
    simp only [List.length_cons]
    omega
  · simp
  · simp

/-- What a reference stands for, when `known` are the values that the file gave
so far.  A key without a value is known, and stands for nothing. -/
def meaning (environment : Environment) (known : List (String × Option String))
    (reference : Reference) : String :=
  match known.lookup reference.name <|> (environment.get? reference.name).map some with
  | some value => value.getD ""
  | none => reference.default.getD ""

/-- The values of a file by their keys.  A value can refer to those before it. -/
def values (environment : Environment) (bindings : List Binding) :
    List (String × Option String) :=
  bindings.foldl (fun known binding =>
    let resolved := binding.value.map fun value =>
      String.ofList (expand (meaning environment known) value.toList)
    Register.put binding.key resolved known) []

/-- The names that a text refers to. -/
def namesIn : List Char → List String
  | '$' :: '\x7b' :: rest => ((reference? rest).map (·.1.name)).toList ++ namesIn rest
  | _ :: rest => namesIn rest
  | [] => []

end SqlReach.EnvFile
