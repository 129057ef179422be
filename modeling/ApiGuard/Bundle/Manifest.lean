/-
  ApiGuard.Bundle.Manifest
  ────────────────────────
  The platform levels that the manifest of an application declares.
-/
import ApiGuard.Classification

namespace ApiGuard

/-- The declared levels. -/
structure Manifest where
  /-- The first level that the application supports. -/
  minSdk : Option Nat := none
  /-- The level that the application is built for. -/
  targetSdk : Option Nat := none
  /-- The last level that the application supports. -/
  maxSdk : Option Nat := none
  deriving DecidableEq, Repr

namespace Manifest

/-- The first supported level, 1 if none is declared. -/
def firstLevel (m : Manifest) : Nat := m.minSdk.getD 1

/-- The supported levels, up to `latest` if no last one is declared. -/
def window (m : Manifest) (latest : Nat) : LevelWindow := ⟨m.firstLevel, m.maxSdk.getD latest⟩

/-- The level that the application is built for: the target, or else the last
supported one, or else `default`. -/
def builtFor (m : Manifest) (default : Nat) : Nat := (m.targetSdk.or m.maxSdk).getD default

/-- Write a level, `-1` if it is not declared. -/
def renderLevel (level : Option Nat) : String := (level.map toString).getD "-1"

/-- Write the levels on three lines, the last one without its end. -/
def render (m : Manifest) : String :=
  "Declared Min Sdk version is: " ++ renderLevel m.minSdk ++ "\n"
    ++ "Declared Target Sdk version is: " ++ renderLevel m.targetSdk ++ "\n"
    ++ "Declared Max Sdk version is: " ++ renderLevel m.maxSdk

end Manifest

end ApiGuard
