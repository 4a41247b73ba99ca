import SqlReach.Json.Data
import SqlReach.Shape.Scalar

/-!
# Shapes of data

Paragraphs, call graphs, call trees and analyses can be given as JSON data.  Data
that fits a shape is understood as a value of that shape: members that were left
out get their defaults, and members that the shape does not know are dropped.
-/

namespace SqlReach.Shape

/-- A member that may be left out, if there is a default. -/
def member {α : Type} (members : List (String × Json)) (name : String) (default : Option α)
    (check : Json → Checked α) : Checked α :=
  under (.name name) <|
    match members.lookup name, default with
    | some value, _ => check value
    | none, some default => .ok default
    | none, none => refuse .missing

def checkStrings : Json → Checked (List String)
  | .array items => sequence 0 (items.map checkString)
  | _ => refuse .notList

def checkParagraph : Json → Checked Paragraph
  | .object members =>
      (both (member members "name" none checkString)
        (both (member members "calls" (some []) checkStrings)
          (member members "uses_sql" (some false) checkBoolean))).map
        fun (name, calls, usesSql) => { name, calls, usesSql }
  | _ => refuse (.notModel "Paragraph")

def checkEntries : List (String × Json) → Checked (List (String × Paragraph))
  | [] => .ok []
  | (name, value) :: entries =>
      (both (under (.name name) (checkParagraph value)) (checkEntries entries)).map
        fun (paragraph, rest) => (name, paragraph) :: rest

def checkSections : Json → Checked (List (String × Paragraph))
  | .object members => checkEntries members
  | _ => refuse .notDictionary

def checkCallGraph : Json → Checked CallGraph
  | .object members =>
      (member members "sections" (some []) checkSections).map fun sections => { sections }
  | _ => refuse (.notModel "CallGraph")

theorem sizeOf_lookup_lt {members : List (String × Json)} {name : String} {value : Json}
    (hfound : members.lookup name = some value) : sizeOf value < sizeOf members := by
  induction members with
  | nil => simp at hfound
  | cons first rest ih =>
      obtain ⟨known, old⟩ := first
      rw [List.lookup_cons] at hfound
      split at hfound
      · cases hfound
        simp only [List.cons.sizeOf_spec, Prod.mk.sizeOf_spec]
        omega
      · have := ih hfound
        simp only [List.cons.sizeOf_spec]
        omega

/-- Trees nest up to this level. -/
def levelLimit : Nat := 255

/-- The small values.  However often one of them occurs, it is one and the same
value. -/
inductive Small where
  | null
  | truth (value : Bool)
  | number (value : Int)
  | text (value : String)
deriving DecidableEq

/-- A text of at most one character, if that has a code of eight bits. -/
def isSmallText (text : String) : Bool :=
  text.length ≤ 1 && text.toList.all (·.toNat < 0x100)

def small? : Json → Option Small
  | .null => some .null
  | .bool value => some (.truth value)
  | .integer value => if -5 ≤ value ∧ value ≤ 256 then some (.number value) else none
  | .string value => if isSmallText value then some (.text value) else none
  | _ => none

/-- Checks the members of a call tree whose children have been checked. -/
def checkNode (members : List (String × Json)) (children : Checked (List CallTree)) :
    Checked CallTree :=
  (both (member members "name" none checkString)
    (both (member members "uses_sql" (some false) checkBoolean)
      (under (.name "children") children))).map
    fun (name, usesSql, children) => .node name usesSql children

mutual

/-- Checks a call tree that stands at a given level of the data.  Beyond the
limit nothing is looked at any more, but a small value found there is noted in
`beyond`; when it is met again, it is taken for a part of itself. -/
def checkTree (level : Nat) (beyond : List Small) (value : Json) :
    Checked CallTree × List Small :=
  if (small? value).any (· ∈ beyond) then (refuse .cyclic, beyond)
  else if levelLimit ≤ level then (refuse .tooDeep, (small? value).toList ++ beyond)
  else
    match value with
    | .object members =>
        match _hchildren : members.lookup "children" with
        | none => (checkNode members (.ok []), beyond)
        | some (.array items) =>
            let (children, beyond) := checkTrees (level + 1) beyond 0 items
            (checkNode members children, beyond)
        | some _ => (checkNode members (refuse .notList), beyond)
    | _ => (refuse (.notModel "CallTree"), beyond)
termination_by sizeOf value
decreasing_by
  have harray := sizeOf_lookup_lt _hchildren
  simp only [Json.array.sizeOf_spec] at harray
  simp only [Json.object.sizeOf_spec]
  omega

/-- Checks consecutive call trees, the first at position `position`. -/
def checkTrees (level : Nat) (beyond : List Small) (position : Nat) (items : List Json) :
    Checked (List CallTree) × List Small :=
  match items with
  | [] => (.ok [], beyond)
  | item :: items =>
      let (first, beyond) := checkTree level beyond item
      let (rest, beyond) := checkTrees level beyond (position + 1) items
      ((both (under (.index position) first) rest).map fun both => both.1 :: both.2, beyond)
termination_by sizeOf items

end

def checkCallTree (level : Nat) (value : Json) : Checked CallTree :=
  (checkTree level [] value).1

def checkAnalysis : Json → Checked Analysis
  | .object members =>
      (both (member members "start" none checkString)
        (both (member members "source" (some none) checkSource)
          (both (member members "sections" (some 0) checkInteger)
            (both (member members "uses_sql" none checkBoolean)
              (member members "tree" none (checkCallTree 1)))))).map
        fun (start, source, sections, usesSql, tree) =>
          { start, source, sections, usesSql, tree }
  | _ => refuse (.notModel "AnalysisResult")

end SqlReach.Shape

namespace SqlReach

/-- The shapes that data can be checked against. -/
inductive Shape where
  | paragraph
  | callGraph
  | callTree
  | analysis
deriving DecidableEq

namespace Shape

def name : Shape → String
  | paragraph => "Paragraph"
  | callGraph => "CallGraph"
  | callTree => "CallTree"
  | analysis => "AnalysisResult"

/-- The data as it is understood: all members are there, in their order. -/
def check : Shape → Json → Checked Json
  | paragraph, data => (checkParagraph data).map (·.toJson)
  | callGraph, data => (checkCallGraph data).map (·.toJson)
  | callTree, data => (checkCallTree 0 data).map (·.toJson)
  | analysis, data => (checkAnalysis data).map (·.toJson)

/-- Why data is rejected. -/
inductive Rejection where
  | invalid (issues : List Issue)
  | unknownMember (shape : Shape) (name : String)
  /-- The name stands for something that follows from the members. -/
  | derivedMember (shape : Shape) (name : String)
  /-- The name stands for something that is not a part of the data. -/
  | lockedMember (shape : Shape) (name : String)
  /-- The kind of a value is not changed by another value. -/
  | notKind (kind : String)
  /-- All members at once are given by an object only. -/
  | notMembers (kind : String)
  /-- What stands in the place of a writer cannot write. -/
  | notWriter (kind : String)
  /-- What stands in the place of the writer's tool is of no use to it. -/
  | notTool (kind : String)
  /-- The value nests too deeply to be written. -/
  | unwritable

def Rejection.message : Rejection → String
  | invalid issues => "\n".intercalate (issues.map (·.problem.message))
  | unknownMember shape name => "\"" ++ shape.name ++ "\" object has no field \"" ++ name ++ "\""
  | derivedMember shape name =>
      "property '" ++ name ++ "' of '" ++ shape.name ++ "' object has no setter"
  | lockedMember shape name =>
      "attribute '" ++ name ++ "' of '" ++ shape.name ++ "' objects is not writable"
  | notKind kind => "__class__ must be set to a class, not '" ++ kind ++ "' object"
  | notMembers kind => "__dict__ must be set to a dictionary, not a '" ++ kind ++ "'"
  | notWriter kind => "'" ++ kind ++ "' object is not callable"
  | notTool kind => "'" ++ kind ++ "' object has no attribute 'to_python'"
  | unwritable => "Error serializing to JSON: ValueError: Maximum serialization depth exceeded"

/-- The kind of a value, as messages name it. -/
def kind : Json → String
  | .null => "NoneType"
  | .bool _ => "bool"
  | .integer _ => "int"
  | .decimal .. => "float"
  | .string _ => "str"
  | .array _ => "list"
  | .object _ => "dict"

/-- The names of the members, in their order. -/
def memberNames : Shape → List String
  | paragraph => ["name", "calls", "uses_sql"]
  | callGraph => ["sections"]
  | callTree => ["name", "uses_sql", "children"]
  | analysis => ["start", "source", "sections", "uses_sql", "tree"]

/-- The names that stand for something that follows from the members. -/
def derivedNames : Shape → List String
  | callGraph => ["model_extra", "model_fields_set", "perform_calls", "sql_usage"]
  | _ => ["model_extra", "model_fields_set"]

/-- Values nest up to this depth when they are written. -/
def depthLimit : Nat := 255

/-- How deeply the value of a member nests when it is written.  The items of the
lists and maps that the shape itself provides for begin anew, and call trees
bring their own levels along. -/
def writtenDepth (shape : Shape) (name : String) (value : Json) : Nat :=
  match shape, name, value with
  | paragraph, "calls", .array items => Json.heightItems items
  | callGraph, "sections", .object members => Json.heightMembers members
  | callTree, "children", .array items => Json.heightItems items + 2
  | callTree, _, value => value.height + 1
  | analysis, "tree", value => value.height + 2
  | _, _, value => value.height

/-- The data with some of its members replaced, if they can be written. -/
def replaced (shape : Shape) (fresh members : List (String × Json)) : Except Rejection Json :=
  if fresh.all fun member => shape.writtenDepth member.1 member.2 ≤ depthLimit then
    .ok (.object members)
  else .error .unwritable

/-- The name of the tool that values are written with. -/
def toolName : String := "__pydantic_serializer__"

/-- The names of what it takes to write a value, in the order of use, each with
what happens if something else stands in its place. -/
def writingNames : List (String × (String → Rejection)) :=
  [("model_dump", .notWriter), (toolName, .notTool), ("model_dump_json", .notWriter)]

/-- Why members keep a value from being written: one of them takes the place of
what it takes to write it. -/
def obstruction? (members : List (String × Json)) : Option Rejection :=
  writingNames.findSome? fun (name, rejection) =>
    (members.lookup name).map fun value => rejection (kind value)

/-- Replaces all members at once.  Names that are no members are dropped, unless
they keep the value from being written, and members may be missing afterwards. -/
def assignAll (shape : Shape) : Json → Except Rejection Json
  | .object members =>
      match obstruction? members with
      | some rejection => .error rejection
      | none =>
          let known := members.filter fun member => member.1 ∈ shape.memberNames
          shape.replaced known known
  | value => .error (.notMembers (kind value))

/-- Sets a name that begins with an underscore.  A few of these names stand for
the value as a whole; all others are kept apart from the members, so that
setting one changes nothing that can be seen. -/
def assignHidden (shape : Shape) (name : String) (value : Json) (data : Json) :
    Except Rejection Json :=
  if name = "__class__" then .error (.notKind (kind value))
  else if name = "__dict__" then shape.assignAll value
  else if name = "__weakref__" then .error (.lockedMember shape name)
  else if name ∈ ["__fields__", "__fields_set__"] then .error (.derivedMember shape name)
  else if name = toolName then .error (.notTool (kind value))
  else .ok data

/-- Replaces a member, whatever its new value.  Call trees do not change. -/
def assign (shape : Shape) (name : String) (value : Json) (data : Json) :
    Except Rejection Json :=
  if name.toList.head? = some '_' then shape.assignHidden name value data
  else if shape = callTree then .error (.invalid [⟨.frozen, [.name name]⟩])
  else if name ∈ shape.derivedNames then .error (.derivedMember shape name)
  else
    match data with
    | .object members =>
        if name ∈ shape.memberNames then
          shape.replaced [(name, value)] (Register.put name value members)
        else .error (.unknownMember shape name)
    | _ => .error (.unknownMember shape name)

/-- Checks data and then replaces a member, if one is to be replaced. -/
def validate (shape : Shape) (data : Json) (assignment : Option (String × Json)) :
    Except Rejection Json :=
  match shape.check data with
  | .error issues => .error (.invalid issues)
  | .ok understood =>
      match assignment with
      | none => .ok understood
      | some (name, value) => shape.assign name value understood

/-- Where an integer is expected, a truth value is written as one. -/
def writtenInteger : Json → Json
  | .bool value => .integer (if value then 1 else 0)
  | value => value

def writtenMember (member : String × Json) : String × Json :=
  if member.1 = "sections" then (member.1, writtenInteger member.2) else member

/-- The text of data that has been understood, on one line. -/
def text : Shape → Json → String
  | analysis, .object members => (Json.object (members.map writtenMember)).compact
  | _, data => data.compact

end Shape

end SqlReach
