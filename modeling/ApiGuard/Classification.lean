/-
  ApiGuard.Classification
  ───────────────────────
  Which of the used methods are missing on some level that the application
  claims to support, and whether their callers look at the level first.
-/
import ApiGuard.CallGraph.Guards
import ApiGuard.CallGraph.Trace
import ApiGuard.Usage

namespace ApiGuard

/-! ## §1. Candidates. -/

/-- The levels that an application claims to support, ends included. -/
structure LevelWindow where
  min : Nat
  max : Nat
  deriving DecidableEq, Repr

/-- Write a window as `[MIN, MAX]`. -/
def LevelWindow.render (w : LevelWindow) : String :=
  "[" ++ toString w.min ++ ", " ++ toString w.max ++ "]"

/-- The side of the window on which a method is missing. -/
inductive Side where
  /-- The method is gone before the last level. -/
  | forward
  /-- The method comes after the first level. -/
  | backward
  deriving DecidableEq, Repr

/-- Write a side. -/
def Side.render : Side → String
  | .forward => "Forward"
  | .backward => "Backward"

/-- The sides on which a method is missing.  With an unknown bound there are
none, and what comes with level 1 was always there. -/
def missingSides (life : Lifetime) (w : LevelWindow) : List Side :=
  match life.bounds? with
  | none => []
  | some (min, max) =>
    (if max < w.max then [.forward] else []) ++
      (if w.min < min ∧ 1 < min then [.backward] else [])

/-! ## §2. Findings. -/

/-- Do the callers of a method look at the level first? -/
inductive Protection where
  /-- Some of them are guarded. -/
  | guarded
  /-- None of them is guarded. -/
  | problematic
  deriving DecidableEq, Repr

/-- Write a protection. -/
def Protection.render : Protection → String
  | .guarded => "Protected"
  | .problematic => "Problematic"

/-- What is known of a caller of a used method. -/
structure CallerFacts where
  caller : String
  /-- The caller belongs to a library. -/
  isLibrary : Bool
  /-- The call, or a way to the caller, is guarded. -/
  isGuarded : Bool
  /-- The callers of the caller, if it belongs to the application. -/
  trace : Option CallerTrace
  deriving DecidableEq

/-- A used method that is missing on one side of the window. -/
structure Finding where
  lifetime : Lifetime
  side : Side
  protection : Protection
  callers : List CallerFacts
  deriving DecidableEq

/-- Write a finding as `==> PROTECTION_SIDE LIFETIME`. -/
def Finding.render (f : Finding) : String :=
  "==> " ++ f.protection.render ++ "_" ++ f.side.render ++ " " ++ f.lifetime.render

/-- The findings for a list of used methods. -/
structure Classification where
  /-- The findings, in the order of the methods. -/
  findings : List Finding
  /-- The number of methods of which a bound is unknown. -/
  unknown : Nat
  deriving DecidableEq

namespace Classification

/-- The findings of one kind. -/
def bucket (c : Classification) (side : Side) (protection : Protection) : List Finding :=
  c.findings.filter fun f => f.side = side && f.protection = protection

/-- The findings bucket by bucket. -/
def byBucket (c : Classification) : List Finding :=
  c.bucket .forward .guarded ++ c.bucket .forward .problematic
    ++ c.bucket .backward .guarded ++ c.bucket .backward .problematic

end Classification

/-! ## §3. Classification. -/

/-- What findings are drawn from. -/
structure Grounds where
  graph : CallGraph
  callers : CallSites
  table : LifetimeTable
  /-- Does the class belong to the platform or to a library? -/
  isLibrary : String → Bool

namespace Grounds

variable (k : Grounds)

/-- Is a call of the method from `caller` guarded, or a way to `caller`? -/
def isGuarded (caller api : String) : Bool :=
  (k.callers.spellingsOf api).toList.any
      (fun target => (k.graph.find? ⟨caller, target⟩).any Edge.isGuarded)
    || !(k.graph.guardsLeadingTo caller).isEmpty

/-- What is known of a caller of the method. -/
def factsOf (api caller : String) : CallerFacts :=
  let isLibrary := k.isLibrary (Signature.declaringClass caller)
  { caller
    isLibrary
    isGuarded := k.isGuarded caller api
    trace := if isLibrary then none else some (k.graph.callerTrace caller) }

/-- What is known of the callers of the method, in increasing order. -/
def callerFacts (api : String) : List CallerFacts :=
  (k.callers.callersOf api).toList.map (k.factsOf api)

/-- Is some caller guarded? -/
def protectionOf (callers : List CallerFacts) : Protection :=
  if callers.any (·.isGuarded) then .guarded else .problematic

/-- The findings for one method. -/
def findings (w : LevelWindow) (api : String) : List Finding :=
  let lifetime := k.table.lookup api
  match missingSides lifetime w with
  | [] => []
  | sides =>
    let callers := k.callerFacts api
    sides.map fun side => ⟨lifetime, side, protectionOf callers, callers⟩

/-- The findings for a list of methods. -/
def classify (apis : List String) (w : LevelWindow) : Classification where
  findings := apis.flatMap (k.findings w)
  unknown := apis.countP fun api => (k.table.lookup api).bounds?.isNone

end Grounds

end ApiGuard
