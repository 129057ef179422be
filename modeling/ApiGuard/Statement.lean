/-
  ApiGuard.Statement
  ──────────────────
  The statements of method bodies, as an intermediate form of bytecode has
  them: assignments to locals, calls, jumps to labels, returns and throws.

  Markers are searched in the text of statements, so `Statement.render` is part
  of what the analyses mean and not only a way to print.
-/

namespace ApiGuard

/-! ## §1. Syntax. -/

/-- How a call finds the method that it runs. -/
inductive InvokeKind where
  | virtual
  | interface
  | special
  | static
  | dynamic
  deriving DecidableEq, Repr

/-- What a statement reads. -/
inductive Operand where
  | localVar (name : String)
  | int (value : Int64)
  | null
  deriving DecidableEq, Repr

/-- A call. -/
structure Invocation where
  kind : InvokeKind
  /-- The signature of the called method, as declared. -/
  method : String
  args : List Operand := []
  /-- The called method is private, so no subclass has another one for it. -/
  isPrivate : Bool := false
  deriving DecidableEq, Repr

/-- What an assignment assigns. -/
inductive Expression where
  /-- The field of the given signature. -/
  | field (signature : String)
  | localVar (name : String)
  | int (value : Int64)
  | invoke (call : Invocation)
  /-- Anything else, as a text. -/
  | other (text : String)
  deriving DecidableEq, Repr

/-- A way to compare two operands. -/
inductive Comparison where
  | eq
  | ne
  | lt
  | ge
  | gt
  | le
  deriving DecidableEq, Repr

/-- The condition of a branch. -/
structure Predicate where
  left : Operand
  comparison : Comparison
  right : Operand
  deriving DecidableEq, Repr

/-- A statement. -/
inductive Statement where
  | assign (target : String) (value : Expression)
  | invoke (call : Invocation)
  /-- Jump to the label if the condition holds. -/
  | branch (condition : Predicate) (label : String)
  | goto (label : String)
  | ret (value : Option Operand)
  | throw (value : Operand)
  | nop
  deriving DecidableEq, Repr

/-- A statement with the label that jumps name it by. -/
structure LabeledStatement where
  label : Option String := none
  statement : Statement
  deriving DecidableEq, Repr

/-! ## §2. Text. -/

/-- The name of a kind. -/
def InvokeKind.name : InvokeKind → String
  | .virtual => "virtual"
  | .interface => "interface"
  | .special => "special"
  | .static => "static"
  | .dynamic => "dynamic"

/-- Write a kind as the instruction that makes such a call. -/
def InvokeKind.render (kind : InvokeKind) : String := kind.name ++ "invoke"

/-- Write an operand. -/
def Operand.render : Operand → String
  | .localVar name => name
  | .int value => toString value.toInt
  | .null => "null"

/-- Write a call as `KIND METHOD(ARG, ARG)`. -/
def Invocation.render (call : Invocation) : String :=
  call.kind.render ++ " " ++ call.method ++ "("
    ++ ", ".intercalate (call.args.map Operand.render) ++ ")"

/-- Write an expression. -/
def Expression.render : Expression → String
  | .field signature => signature
  | .localVar name => name
  | .int value => toString value.toInt
  | .invoke call => call.render
  | .other text => text

/-- Write a comparison. -/
def Comparison.render : Comparison → String
  | .eq => "=="
  | .ne => "!="
  | .lt => "<"
  | .ge => ">="
  | .gt => ">"
  | .le => "<="

/-- Write a condition as `LEFT COMPARISON RIGHT`. -/
def Predicate.render (p : Predicate) : String :=
  p.left.render ++ " " ++ p.comparison.render ++ " " ++ p.right.render

/-- Write a statement. -/
def Statement.render : Statement → String
  | .assign target value => target ++ " = " ++ value.render
  | .invoke call => call.render
  | .branch condition label => "if " ++ condition.render ++ " goto " ++ label
  | .goto label => "goto " ++ label
  | .ret none => "return"
  | .ret (some value) => "return " ++ value.render
  | .throw value => "throw " ++ value.render
  | .nop => "nop"

/-! ## §3. Parts. -/

/-- Is the method that runs chosen by the class of the receiver? -/
def InvokeKind.isDispatched : InvokeKind → Bool
  | .virtual | .interface => true
  | .special | .static | .dynamic => false

/-- The local that the operand reads. -/
def Operand.local? : Operand → Option String
  | .localVar name => some name
  | .int _ | .null => none

/-- The locals that the condition reads, from left to right. -/
def Predicate.uses (p : Predicate) : List String :=
  p.left.local?.toList ++ p.right.local?.toList

namespace Statement

/-- The local that the statement assigns. -/
def assigned? : Statement → Option String
  | .assign target _ => some target
  | _ => none

/-- The call in the statement. -/
def call? : Statement → Option Invocation
  | .invoke call => some call
  | .assign _ (.invoke call) => some call
  | _ => none

/-- The condition of the statement. -/
def condition? : Statement → Option Predicate
  | .branch condition _ => some condition
  | _ => none

/-- The label that the statement may jump to. -/
def label? : Statement → Option String
  | .branch _ label => some label
  | .goto label => some label
  | _ => none

/-- Does the statement end the method without an exception? -/
def isReturn : Statement → Bool
  | .ret _ => true
  | _ => false

end Statement

end ApiGuard
