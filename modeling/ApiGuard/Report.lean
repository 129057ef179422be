/-
  ApiGuard.Report
  ───────────────
  The result of an analysis as a JSON document.
-/
import ApiGuard.Bundle.Manifest
import ApiGuard.Json.Basic

namespace ApiGuard

/-- What is reported of an analysed application. -/
structure Report where
  name : String
  manifest : Manifest
  /-- The level that the application is built for. -/
  builtFor : Nat
  /-- The levels that it claims to support. -/
  window : LevelWindow
  /-- The number of platform methods used by the main unit. -/
  primaryApis : Nat
  /-- The number of platform methods used by the other units. -/
  secondaryApis : Nat
  /-- The application reads the platform version. -/
  sdkCheck : Bool
  classification : Classification

namespace Report

open Json

/-- A natural number. -/
def ofNat (n : Nat) : Json := .ofInt n

/-- A list of texts. -/
def ofTexts (texts : List String) : Json := .array (texts.map .string)

/-- A level of a lifetime. -/
def ofLevel : ApiLevel → Json
  | .known level => .object [("Level", ofNat level)]
  | .unknown => .string "Unknown"

/-- A lifetime. -/
def ofLifetime (life : Lifetime) : Json :=
  .object [("signature", .string life.signature), ("min", ofLevel life.min),
    ("max", ofLevel life.max)]

/-- A line of a trace of callers. -/
def ofLine (line : TraceLine) : Json :=
  .object [("depth", ofNat line.depth), ("caller", .string line.caller),
    ("conditions", ofTexts (line.conditions.toList.map PathCondition.render))]

/-- A trace of callers. -/
def ofTrace (trace : CallerTrace) : Json :=
  .object [("method", .string trace.method), ("lines", .array (trace.lines.map ofLine))]

/-- What is known of a caller. -/
def ofCaller (e : CallerFacts) : Json :=
  .object ([("caller", .string e.caller), ("library", .bool e.isLibrary),
    ("protected", .bool e.isGuarded)]
    ++ (e.trace.map fun trace => ("call_stack", ofTrace trace)).toList)

/-- A finding. -/
def ofFinding (f : Finding) : Json :=
  .object [("lifetime", ofLifetime f.lifetime),
    ("compatibility", .string f.side.render),
    ("protection", .string f.protection.render), ("callers", .array (f.callers.map ofCaller))]

/-- A classification, bucket by bucket. -/
def ofClassification (c : Classification) : Json :=
  let bucket (side : Side) (protection : Protection) : Json :=
    .array ((c.bucket side protection).map ofFinding)
  .object [("protected_forward", bucket .forward .guarded),
    ("problematic_forward", bucket .forward .problematic),
    ("protected_backward", bucket .backward .guarded),
    ("problematic_backward", bucket .backward .problematic),
    ("nb_unknown", ofNat c.unknown)]

/-- A declared level. -/
def ofDeclared (level : Option Nat) : Json := (level.map ofNat).getD .null

/-- A manifest. -/
def ofManifest (m : Manifest) : Json :=
  .object [("min_sdk", ofDeclared m.minSdk), ("target_sdk", ofDeclared m.targetSdk),
    ("max_sdk", ofDeclared m.maxSdk)]

/-- A window. -/
def ofWindow (w : LevelWindow) : Json := .object [("min", ofNat w.min), ("max", ofNat w.max)]

/-- The document of a report. -/
def toJson (r : Report) : Json :=
  .object [("name", .string r.name), ("manifest", ofManifest r.manifest),
    ("api_level", ofNat r.builtFor), ("window", ofWindow r.window),
    ("nb_primary_apis", ofNat r.primaryApis), ("nb_secondary_apis", ofNat r.secondaryApis),
    ("sdk_check", .bool r.sdkCheck), ("classification", ofClassification r.classification)]

end Report

end ApiGuard
