/-
  ApiGuard.Proofs.Statement.Encoding
  ──────────────────────────────────
  Statements are read back as they were written.

  Each part of a statement is read back from its value, and so is the statement, since its
  label and the name of its form are no names of parts.  The values that are written are
  plain and nest few levels, so that they are also read back from their text and can be held
  in a document:

      ofJson?_toJson       one for operands, calls, expressions, conditions and statements
      isPlain_toJson       what they are written as is plain
      encoding_exact       lists of statements, as values and as text
-/
import ApiGuard.Bundle.Document
import ApiGuard.Proofs.Json.Plain
import Mathlib.Data.Option.Basic

namespace ApiGuard

open Json

/-! ## §1. Parts of values. -/

namespace Json

theorem int?_ofInt (i : Int) : (ofInt i).int? = some i := by
  show (if (!true || (decide (i < 0) && i.natAbs == 0)) = true then none
    else some (if decide (i < 0) = true then -(i.natAbs : Int) else (i.natAbs : Int))) = some i
  by_cases hneg : i < 0
  · have hpos : (i.natAbs == 0) = false := beq_eq_false_iff_ne.mpr (by omega)
    have habs : -(i.natAbs : Int) = i := by omega
    rw [decide_eq_true hneg, hpos, habs]
    rfl
  · have habs : (i.natAbs : Int) = i := by omega
    rw [decide_eq_false hneg, habs]
    rfl

theorem word?_ofInt (value : Int64) : word? (.ofInt value.toInt) = some value := by
  have hword : Decimal.toInt64? value.toInt = some value.toInt :=
    if_pos ⟨value.le_toInt, Int.le_of_lt_add_one value.toInt_lt⟩
  unfold word? int64?
  rw [int?_ofInt, Option.bind_some, hword, Option.map_some, Int64.ofInt_toInt]

theorem isPlain_ofInt (depth : Nat) (value : Int64) : IsPlain depth (.ofInt value.toInt) := by
  refine .ofInt ?_
  have hlimit : Decimal.wordLimit = 2 ^ 64 := rfl
  have hmin := value.le_toInt
  have hmax := value.toInt_lt
  omega

theorem IsPlain.mono {j : Json} {depth depth' : Nat} (h : IsPlain depth j)
    (hle : depth ≤ depth') : IsPlain depth' j := by
  induction h generalizing depth' with
  | null => exact .null
  | bool => exact .bool
  | ofInt hi => exact .ofInt hi
  | string => exact .string
  | array _ ih =>
      obtain ⟨d, rfl⟩ : ∃ d, depth' = d + 1 := ⟨depth' - 1, by omega⟩
      exact .array fun j hj => ih j hj (by omega)
  | object _ ih =>
      obtain ⟨d, rfl⟩ : ∃ d, depth' = d + 1 := ⟨depth' - 1, by omega⟩
      exact .object fun member hmember => ih member hmember (by omega)

section

variable {α : Type} {read : Json → Option α} {write : α → Json}

/-- A list is read back if its items are. -/
theorem list?_map (hread : ∀ a, read (write a) = some a) (l : List α) :
    list? read (.array (l.map write)) = some l := by
  show (l.map write).mapM read = some l
  rw [List.mapM_map, show read ∘ write = fun a => pure a from funext hread]
  exact List.mapM_pure.trans (congrArg some (List.map_id' l))

/-- A value that may be missing is read back if none is written like a missing one. -/
theorem nullable?_getD (hread : ∀ a, read (write a) = some a) (hnull : ∀ a, write a ≠ .null)
    (o : Option α) : nullable? read ((o.map write).getD .null) = some o := by
  cases o with
  | none => rfl
  | some a =>
      show nullable? read (write a) = _
      unfold nullable?
      split
      next heq => exact absurd heq (hnull a)
      next => rw [hread, Option.map_some]

end

theorem member?_cons_of_ne {n name : String} (hne : n ≠ name) (j : Json)
    (members : List (String × Json)) : member? ((n, j) :: members) name = member? members name := by
  unfold member? valuesOf
  rw [List.filter_cons_of_neg (by simpa using hne)]

end Json

/-! ## §2. Operands, calls, expressions and conditions. -/

theorem InvokeKind.ofJson?_toJson (kind : InvokeKind) : ofJson? kind.toJson = some kind := by
  cases kind <;> rfl

theorem Comparison.ofJson?_toJson (comparison : Comparison) :
    ofJson? comparison.toJson = some comparison := by
  cases comparison <;> rfl

theorem Operand.ofJson?_toJson (operand : Operand) : ofJson? operand.toJson = some operand := by
  cases operand with
  | localVar name => rfl
  | int value =>
      show (word? (.ofInt value.toInt)).map Operand.int = _
      rw [word?_ofInt, Option.map_some]
  | null => rfl

/-- The operand `null` is not written like a missing value. -/
theorem Operand.toJson_ne_null (operand : Operand) : operand.toJson ≠ .null := by
  cases operand <;> exact Json.noConfusion

theorem Operand.isPlain_toJson (operand : Operand) : IsPlain 1 operand.toJson := by
  cases operand with
  | localVar name => exact .object (by simpa using .string)
  | int value => exact .object (by simpa using isPlain_ofInt 0 value)
  | null => exact .string

theorem Invocation.ofJson?_toJson (call : Invocation) : ofJson? call.toJson = some call := by
  have hargs := list?_map Operand.ofJson?_toJson call.args
  have hfields : fields? ["kind", "method", "args", "private"] call.toJson
      = some [some call.kind.toJson, some (.string call.method),
          some (.array (call.args.map Operand.toJson)), some (.bool call.isPrivate)] := rfl
  unfold ofJson?
  rw [hfields]
  simp [required?, defaulted?, InvokeKind.ofJson?_toJson, hargs, string?, bool?]

theorem Invocation.isPlain_toJson (call : Invocation) : IsPlain 3 call.toJson := by
  have hargs : IsPlain 2 (.array (call.args.map Operand.toJson)) := by
    refine .array fun j hj => ?_
    obtain ⟨operand, _, rfl⟩ := List.mem_map.mp hj
    exact operand.isPlain_toJson
  refine .object ?_
  simp only [List.forall_mem_cons]
  exact ⟨.string, .string, hargs, .bool, by simp⟩

theorem Expression.ofJson?_toJson (value : Expression) : ofJson? value.toJson = some value := by
  cases value with
  | field signature => rfl
  | localVar name => rfl
  | int value =>
      show (word? (.ofInt value.toInt)).map Expression.int = _
      rw [word?_ofInt, Option.map_some]
  | invoke call =>
      show (Invocation.ofJson? call.toJson).map Expression.invoke = _
      rw [call.ofJson?_toJson, Option.map_some]
  | other text => rfl

theorem Expression.isPlain_toJson (value : Expression) : IsPlain 4 value.toJson := by
  cases value with
  | field signature => exact .object (by simpa using .string)
  | localVar name => exact .object (by simpa using .string)
  | int value => exact .object (by simpa using isPlain_ofInt 3 value)
  | invoke call => exact .object (by simpa using call.isPlain_toJson)
  | other text => exact .object (by simpa using .string)

theorem Predicate.ofJson?_toJson (p : Predicate) : ofJson? p.toJson = some p := by
  have hfields : fields? ["left", "cmp", "right"] p.toJson
      = some [some p.left.toJson, some p.comparison.toJson, some p.right.toJson] := rfl
  unfold ofJson?
  rw [hfields]
  simp [required?, Operand.ofJson?_toJson, Comparison.ofJson?_toJson]

theorem Predicate.isPlain_toJson (p : Predicate) : IsPlain 2 p.toJson := by
  refine .object ?_
  simp only [List.forall_mem_cons]
  exact ⟨p.left.isPlain_toJson, .string, p.right.isPlain_toJson, by simp⟩

/-! ## §3. Statements. -/

namespace Statement

/-- The names of the parts that statements have. -/
def partNames : List String := ["local", "value", "invoke", "cond", "target"]

/-- A statement is read from its parts alone. -/
theorem ofParts?_congr {members parts : List (String × Json)}
    (hparts : ∀ name ∈ partNames, member? members name = member? parts name) (form : String) :
    ofParts? form members = ofParts? form parts := by
  simp only [partNames, List.forall_mem_cons] at hparts
  obtain ⟨hlocal, hvalue, hinvoke, hcond, htarget, _⟩ := hparts
  unfold ofParts?
  rw [hlocal, hvalue, hinvoke, hcond, htarget]

/-- A statement is put together again from its form and its parts. -/
theorem ofParts?_form_parts (s : Statement) : ofParts? s.form s.parts = some s := by
  cases s with
  | assign target value =>
      show ((Expression.ofJson? value.toJson).bind _) = _
      rw [value.ofJson?_toJson]
      rfl
  | invoke call =>
      show ((Invocation.ofJson? call.toJson).bind _) = _
      rw [call.ofJson?_toJson]
      rfl
  | branch condition label =>
      show ((Predicate.ofJson? condition.toJson).bind _) = _
      rw [condition.ofJson?_toJson]
      rfl
  | goto label => rfl
  | ret value =>
      show ((nullable? Operand.ofJson? ((value.map Operand.toJson).getD .null)).bind _) = _
      rw [nullable?_getD Operand.ofJson?_toJson Operand.toJson_ne_null]
      rfl
  | throw value =>
      show ((Operand.ofJson? value.toJson).bind _) = _
      rw [value.ofJson?_toJson]
      rfl
  | nop => rfl

theorem isPlain_parts (s : Statement) : ∀ member ∈ s.parts, IsPlain 4 member.2 := by
  cases s with
  | assign target value => simpa [parts] using ⟨.string, value.isPlain_toJson⟩
  | invoke call => simpa [parts] using call.isPlain_toJson.mono (by decide)
  | branch condition label =>
      simpa [parts] using ⟨condition.isPlain_toJson.mono (by decide), .string⟩
  | goto label => simpa [parts] using .string
  | ret value =>
      cases value with
      | none => simpa [parts] using .null
      | some value => simpa [parts] using value.isPlain_toJson.mono (by decide)
  | throw value => simpa [parts] using value.isPlain_toJson.mono (by decide)
  | nop => simp [parts]

end Statement

/-! ## §4. Labels and lists. -/

namespace LabeledStatement

/-- The members that a statement with its label is written as. -/
def members (s : LabeledStatement) : List (String × Json) :=
  (s.label.map fun label => ("label", Json.string label)).toList
    ++ ("op", .string s.statement.form) :: s.statement.parts

variable {depth : Nat}

/-- No part is named like the label or the form. -/
theorem member?_label (s : LabeledStatement) :
    member? s.members "label" = some (s.label.map .string) := by
  obtain ⟨label, statement⟩ := s
  cases label <;> cases statement <;> rfl

theorem member?_op (s : LabeledStatement) :
    member? s.members "op" = some (some (.string s.statement.form)) := by
  obtain ⟨label, statement⟩ := s
  cases label <;> cases statement <;> rfl

theorem member?_part (s : LabeledStatement) {name : String} (hname : name ∈ Statement.partNames) :
    member? s.members name = member? s.statement.parts name := by
  have hother : ∀ name ∈ Statement.partNames, "label" ≠ name ∧ "op" ≠ name := by decide
  obtain ⟨hlabel, hop⟩ := hother name hname
  obtain ⟨label, statement⟩ := s
  cases label with
  | none => exact member?_cons_of_ne hop _ _
  | some label => exact (member?_cons_of_ne hlabel _ _).trans (member?_cons_of_ne hop _ _)

/-- A statement is read back with its label. -/
theorem ofJson?_toJson (s : LabeledStatement) : ofJson? s.toJson = some s := by
  have hlabel : defaulted? none (nullable? string?) (s.label.map .string) = some s.label := by
    cases s.label <;> rfl
  have hform : required? Statement.form? (some (.string s.statement.form))
      = some s.statement.form := rfl
  have hparts : Statement.ofParts? s.statement.form s.members = some s.statement :=
    (Statement.ofParts?_congr (fun _ => s.member?_part) _).trans s.statement.ofParts?_form_parts
  have hlabelMember := s.member?_label
  have hop := s.member?_op
  -- of the members only what they give for these names matters from here on
  show ofJson? (.object s.members) = _
  generalize s.members = members at hparts hlabelMember hop ⊢
  simp only [ofJson?, hlabelMember, hop, hlabel, hform, hparts, Option.bind_eq_bind,
    Option.bind_some]
  rfl

theorem isPlain_toJson (s : LabeledStatement) : IsPlain 5 s.toJson := by
  refine .object fun member hmember => ?_
  rcases List.mem_append.mp hmember with hmember | hmember
  · obtain ⟨label, _, rfl⟩ := Option.map_eq_some_iff.mp (Option.mem_toList.mp hmember)
    exact .string
  · rcases List.mem_cons.mp hmember with rfl | hmember
    · exact .string
    · exact s.statement.isPlain_parts member hmember

/-- Read a statement that nests no more than `depth` levels.  It is held before it is looked
at. -/
def readHeld (depth : Nat) (j : Json) : Option LabeledStatement :=
  if j.isHeld depth then ofJson? j else none

/-- So the statements of a document are read. -/
theorem readStatement_eq : readStatement = readHeld statementDepth := rfl

theorem readHeld_toJson (hdepth : 5 ≤ depth) (s : LabeledStatement) :
    readHeld depth s.toJson = some s := by
  unfold readHeld
  rw [if_pos (s.isPlain_toJson.isHeld hdepth), ofJson?_toJson]

/-- Write a list of statements as a text. -/
def encode (stmts : List LabeledStatement) : String := (listToJson stmts).compact

/-- Read a list of statements, each of at most `depth` levels, from a text. -/
def decode? (depth : Nat) (text : String) : Option (List LabeledStatement) :=
  (Json.parse? text).bind (list? (readHeld depth))

theorem parse?_encode (stmts : List LabeledStatement) :
    Json.parse? (encode stmts) = some (listToJson stmts) := by
  have hplain : IsPlain 6 (listToJson stmts) := by
    refine .array fun j hj => ?_
    obtain ⟨s, _, rfl⟩ := List.mem_map.mp hj
    exact s.isPlain_toJson
  exact parse?_compact hplain

theorem listOfJson?_listToJson (stmts : List LabeledStatement) :
    listOfJson? (listToJson stmts) = some stmts := list?_map ofJson?_toJson stmts

theorem decode?_encode (hdepth : 5 ≤ depth) (stmts : List LabeledStatement) :
    decode? depth (encode stmts) = some stmts := by
  unfold decode?
  rw [parse?_encode, Option.bind_some]
  exact list?_map (readHeld_toJson hdepth) stmts

/-- The body of a method of a document is read back. -/
theorem methodDecl_ofJson?_body (signature : String) (stmts : List LabeledStatement) :
    MethodDecl.ofJson? (.object [("signature", .string signature), ("body", listToJson stmts)])
      = some ⟨signature, some stmts⟩ := by
  have hbody : list? readStatement (listToJson stmts) = some stmts := by
    rw [readStatement_eq]
    exact list?_map (readHeld_toJson (by decide)) stmts
  have hnullable : nullable? (list? readStatement) (listToJson stmts) = some (some stmts) := by
    show (list? readStatement (listToJson stmts)).map some = _
    rw [hbody, Option.map_some]
  show ((nullable? (list? readStatement) (listToJson stmts)).bind _) = _
  rw [hnullable]
  rfl

/-- What is read back determines what was written. -/
theorem injective_of_read {α β : Type} {read : β → Option α} {write : α → β}
    (hread : ∀ a, read (write a) = some a) : Function.Injective write := by
  have hcomp : read ∘ write = some := funext hread
  exact .of_comp (f := read) (hcomp ▸ Option.some_injective α)

/-- A list of statements is read back as it was written, as a value, as a text, and as the
body of a method.  So to write and read once more what was read changes nothing, and no two
lists are written alike. -/
theorem encoding_exact (hdepth : 5 ≤ depth) :
    (∀ stmts, listOfJson? (listToJson stmts) = some stmts)
      ∧ (∀ stmts, decode? depth (encode stmts) = some stmts)
      ∧ (∀ signature stmts,
          MethodDecl.ofJson?
              (.object [("signature", .string signature), ("body", listToJson stmts)])
            = some ⟨signature, some stmts⟩)
      ∧ (∀ j, (listOfJson? j).bind (fun stmts => listOfJson? (listToJson stmts)) = listOfJson? j)
      ∧ (∀ text,
          (decode? depth text).bind (fun stmts => decode? depth (encode stmts))
            = decode? depth text)
      ∧ Function.Injective listToJson
      ∧ Function.Injective encode := by
  refine ⟨listOfJson?_listToJson, decode?_encode hdepth, methodDecl_ofJson?_body, fun j => ?_, fun text => ?_,
    injective_of_read listOfJson?_listToJson,
    injective_of_read (decode?_encode hdepth)⟩
  · simp only [listOfJson?_listToJson, Option.bind_fun_some]
  · simp only [decode?_encode hdepth, Option.bind_fun_some]

/-- Returns of nothing, of `null`, and of a number. -/
def returns : List LabeledStatement :=
  [⟨some "a", .ret none⟩, ⟨none, .ret (some .null)⟩, ⟨none, .ret (some (.int (-1)))⟩]

/-- A return of nothing is not written like one of `null`, and both are read back. -/
theorem encoding_exact_returns :
    5 ≤ statementDepth
    ∧ listToJson returns = .array [
        .object [("label", .string "a"), ("op", .string "return"), ("value", .null)],
        .object [("op", .string "return"), ("value", .string "null")],
        .object [("op", .string "return"), ("value", .object [("int", .ofInt (-1))])]]
    ∧ listOfJson? (listToJson returns) = some returns
    ∧ decode? statementDepth (encode returns) = some returns := by
  have hdepth : 5 ≤ statementDepth := by decide
  obtain ⟨hvalue, htext, _⟩ := encoding_exact hdepth
  exact ⟨hdepth, rfl, hvalue returns, htext returns⟩

end LabeledStatement

end ApiGuard
