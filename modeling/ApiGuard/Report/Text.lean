/-
  ApiGuard.Report.Text
  ────────────────────
  The result of an analysis as text, which may be coloured.
-/
import ApiGuard.Report

namespace ApiGuard

/-! ## §1. Colours. -/

/-- A colour of text. -/
inductive Colour where
  | green
  | red
  deriving DecidableEq, Repr

/-- The number of a colour on a terminal. -/
def Colour.code : Colour → Nat
  | .green => 32
  | .red => 31

/-- A text in a colour. -/
def Colour.paint (colour : Colour) (text : String) : String :=
  "\x1b[" ++ toString colour.code ++ "m" ++ text ++ "\x1b[0m"

namespace Report

/-! ## §2. Summary and findings. -/

/-- A text on a line of its own. -/
def line (text : String) : String := text ++ "\n"

/-- The line that counts the findings of a kind. -/
def countLine (c : Classification) (side : Side) (protection : Protection) : String :=
  line ("Found " ++ toString (c.bucket side protection).length ++ " Android APIs (for "
    ++ (match side with | .forward => "forward" | .backward => "backward")
    ++ " compatibility) that are accessed "
    ++ (match protection with
      | .guarded => "with protection (SDK Check)"
      | .problematic => "problematically"))

/-- The counts of a report. -/
def summary (r : Report) : String :=
  line (String.ofList (List.replicate 104 '-'))
    ++ line r.manifest.render
    ++ line ("Collected " ++ toString r.primaryApis ++ " Android APIs in the primary DEX file")
    ++ line ("Collected " ++ toString r.secondaryApis
      ++ " Android APIs in the secondary DEX files")
    ++ line ("SDK Check: " ++ toString r.sdkCheck)
    ++ countLine r.classification .forward .guarded
    ++ countLine r.classification .forward .problematic
    ++ countLine r.classification .backward .guarded
    ++ countLine r.classification .backward .problematic

/-- A text, painted if it is to be coloured and has a colour. -/
def paint (coloured : Bool) (colour : Option Colour) (text : String) : String :=
  match coloured, colour with
  | true, some colour => colour.paint text
  | _, _ => text

/-- A caller of a finding, green if it is guarded, with its own callers. -/
def callerText (coloured : Bool) (e : CallerFacts) : String :=
  line (paint coloured (if e.isGuarded then some .green else none)
      ("--Library:" ++ toString e.isLibrary ++ "--> " ++ e.caller))
    ++ (e.trace.map CallerTrace.render).getD ""

/-- A finding after an empty line, green or red, with its callers. -/
def findingText (coloured : Bool) (f : Finding) : String :=
  let colour : Colour := match f.protection with
    | .guarded => .green
    | .problematic => .red
  "\n" ++ line (paint coloured (some colour) f.render)
    ++ String.join (f.callers.map (callerText coloured))

/-- The text of a report: its counts, and its findings bucket by bucket. -/
def render (coloured : Bool) (r : Report) : String :=
  r.summary ++ String.join (r.classification.byBucket.map (findingText coloured))

end Report

end ApiGuard
