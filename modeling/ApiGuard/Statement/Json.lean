/-
  ApiGuard.Statement.Json
  ───────────────────────
  Statements as JSON values, written by `toJson` and read by `ofJson?`.

  A statement is an object whose member `op` names its form and whose other
  members are its parts.  A value of several forms is an object with one member
  named for the form, or just the name where the form has no parts.
-/
import ApiGuard.Json.Basic
import ApiGuard.Statement

namespace ApiGuard

open Json

/-! ## §1. Forms. -/

namespace Json

/-- The name and the parts of a value of several forms. -/
def variant? : Json → Option (String × Option Json)
  | .string name => some (name, none)
  | .object [(name, parts)] => some (name, some parts)
  | _ => none

/-- The name of a form without parts. -/
def plainVariant? (j : Json) : Option String :=
  match variant? j with
  | some (name, none) => some name
  | some (name, some .null) => some name
  | some (name, some (.object [])) => some name
  | _ => none

/-- The value of a signed integer of 64 bits. -/
def word? (j : Json) : Option Int64 := j.int64?.map Int64.ofInt

/-- A field that may not be missing. -/
def required? {α : Type} (read : Json → Option α) (field : Option Json) : Option α :=
  field.bind read

/-- A field that stands for `default` if it is missing. -/
def defaulted? {α : Type} (default : α) (read : Json → Option α) : Option Json → Option α
  | none => some default
  | some j => read j

end Json

/-! ## §2. Operands and calls. -/

/-- The kind of a name. -/
def InvokeKind.ofName? (name : String) : Option InvokeKind :=
  [.virtual, .interface, .special, .static, .dynamic].find? (·.name == name)

/-- Read a kind. -/
def InvokeKind.ofJson? (j : Json) : Option InvokeKind := (plainVariant? j).bind ofName?

/-- Write a kind. -/
def InvokeKind.toJson (kind : InvokeKind) : Json := .string kind.name

/-- The comparison of a name. -/
def Comparison.ofName? (name : String) : Option Comparison :=
  [.eq, .ne, .lt, .ge, .gt, .le].find? (·.render == name)

/-- Read a comparison. -/
def Comparison.ofJson? (j : Json) : Option Comparison := (plainVariant? j).bind ofName?

/-- Write a comparison. -/
def Comparison.toJson (comparison : Comparison) : Json := .string comparison.render

/-- Read an operand. -/
def Operand.ofJson? (j : Json) : Option Operand :=
  match variant? j with
  | some ("local", some name) => (string? name).map .localVar
  | some ("int", some value) => (word? value).map .int
  | some ("null", _) => (plainVariant? j).map fun _ => .null
  | _ => none

/-- Write an operand. -/
def Operand.toJson : Operand → Json
  | .localVar name => .object [("local", .string name)]
  | .int value => .object [("int", .ofInt value.toInt)]
  | .null => .string "null"

/-- Read a call. -/
def Invocation.ofJson? (j : Json) : Option Invocation := do
  match ← fields? ["kind", "method", "args", "private"] j with
  | [kind, method, args, isPrivate] =>
    return {
      kind := ← required? InvokeKind.ofJson? kind
      method := ← required? string? method
      args := ← defaulted? [] (list? Operand.ofJson?) args
      isPrivate := ← defaulted? false bool? isPrivate }
  | _ => none

/-- Write a call. -/
def Invocation.toJson (call : Invocation) : Json :=
  .object [("kind", call.kind.toJson), ("method", .string call.method),
    ("args", .array (call.args.map Operand.toJson)), ("private", .bool call.isPrivate)]

/-- Read an expression. -/
def Expression.ofJson? (j : Json) : Option Expression :=
  match variant? j with
  | some ("field", some signature) => (string? signature).map .field
  | some ("local", some name) => (string? name).map .localVar
  | some ("int", some value) => (word? value).map .int
  | some ("invoke", some call) => (Invocation.ofJson? call).map .invoke
  | some ("text", some text) => (string? text).map .other
  | _ => none

/-- Write an expression. -/
def Expression.toJson : Expression → Json
  | .field signature => .object [("field", .string signature)]
  | .localVar name => .object [("local", .string name)]
  | .int value => .object [("int", .ofInt value.toInt)]
  | .invoke call => .object [("invoke", call.toJson)]
  | .other text => .object [("text", .string text)]

/-- Read a condition. -/
def Predicate.ofJson? (j : Json) : Option Predicate := do
  match ← fields? ["left", "cmp", "right"] j with
  | [left, comparison, right] =>
    return {
      left := ← required? Operand.ofJson? left
      comparison := ← required? Comparison.ofJson? comparison
      right := ← required? Operand.ofJson? right }
  | _ => none

/-- Write a condition. -/
def Predicate.toJson (p : Predicate) : Json :=
  .object [("left", p.left.toJson), ("cmp", p.comparison.toJson), ("right", p.right.toJson)]

/-! ## §3. Statements. -/

/-- The names of the forms of a statement.  A form may also be given by its
place in this list. -/
def Statement.forms : List String :=
  ["assign", "invoke", "if", "goto", "return", "throw", "nop"]

/-- The form that a member `op` stands for. -/
def Statement.form? : Json → Option String
  | .string name => some name
  | j => do forms[(← Decimal.toUInt32? (← j.int?))]?

/-- Read the parts of a statement of the given form. -/
def Statement.ofParts? (form : String) (members : List (String × Json)) : Option Statement :=
  match form with
  | "assign" => do
    let target ← member? members "local"
    let value ← member? members "value"
    return .assign (← required? string? target) (← required? Expression.ofJson? value)
  | "invoke" => do
    return .invoke (← required? Invocation.ofJson? (← member? members "invoke"))
  | "if" => do
    let condition ← member? members "cond"
    let label ← member? members "target"
    return .branch (← required? Predicate.ofJson? condition) (← required? string? label)
  | "goto" => do
    return .goto (← required? string? (← member? members "target"))
  | "return" => do
    return .ret (← defaulted? none (nullable? Operand.ofJson?) (← member? members "value"))
  | "throw" => do
    return .throw (← required? Operand.ofJson? (← member? members "value"))
  | "nop" => some .nop
  | _ => none

/-- The form of a statement. -/
def Statement.form : Statement → String
  | .assign .. => "assign"
  | .invoke _ => "invoke"
  | .branch .. => "if"
  | .goto _ => "goto"
  | .ret _ => "return"
  | .throw _ => "throw"
  | .nop => "nop"

/-- Write the parts of a statement. -/
def Statement.parts : Statement → List (String × Json)
  | .assign target value => [("local", .string target), ("value", value.toJson)]
  | .invoke call => [("invoke", call.toJson)]
  | .branch condition label => [("cond", condition.toJson), ("target", .string label)]
  | .goto label => [("target", .string label)]
  | .ret value => [("value", (value.map Operand.toJson).getD .null)]
  | .throw value => [("value", value.toJson)]
  | .nop => []

namespace LabeledStatement

/-- Read a statement with its label. -/
def ofJson? : Json → Option LabeledStatement
  | .object members => do
    let label ← defaulted? none (nullable? string?) (← member? members "label")
    let form ← required? Statement.form? (← member? members "op")
    return { label, statement := ← Statement.ofParts? form members }
  | _ => none

/-- Write a statement with its label. -/
def toJson (s : LabeledStatement) : Json :=
  .object ((s.label.map fun label => ("label", .string label)).toList
    ++ ("op", .string s.statement.form) :: s.statement.parts)

/-- Read a list of statements. -/
def listOfJson? (j : Json) : Option (List LabeledStatement) := list? ofJson? j

/-- Write a list of statements. -/
def listToJson (stmts : List LabeledStatement) : Json := .array (stmts.map toJson)

end LabeledStatement

end ApiGuard
