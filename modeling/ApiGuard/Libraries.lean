/-
  ApiGuard.Libraries
  ──────────────────
  Which classes belong to the platform or to a library.

  A class does if one of some patterns matches in its name, whatever engine reads the patterns
  and looks for them.
-/
import ApiGuard.PatternEngine

namespace ApiGuard.PatternEngine

/-- The patterns of the names of library classes. -/
structure Libraries (E : PatternEngine) where
  patterns : List E.Pattern

namespace Libraries

/-- The namespaces of the platform and of well known libraries. -/
def namespaces : List String :=
  ["android.", "androidx.", "com.android.", "com.google.android.", "dalvik.", "java.", "javax.",
    "junit.", "kotlin.", "kotlinx.", "org.apache.http.", "org.json.", "org.w3c.dom.",
    "org.xml.sax.", "org.xmlpull."]

variable {E : PatternEngine}

/-- The pattern of the classes in a namespace, as a text. -/
def anchored (E : PatternEngine) (ns : String) : String := "^" ++ E.escape ns

/-- No libraries. -/
def empty : E.Libraries := ⟨[]⟩

/-- The well known libraries, those of the namespaces. -/
def wellKnown? : Except E.Error E.Libraries :=
  (namespaces.mapM fun ns => E.compile (anchored E ns)).map Libraries.mk

/-- Add the libraries whose classes have names in which the pattern matches: the libraries
afterwards, and whether the text could be read. -/
def tryAdd (l : E.Libraries) (text : String) : E.Libraries × Except E.Error Unit :=
  match E.compile text with
  | .ok p => (⟨l.patterns ++ [p]⟩, .ok ())
  | .error e => (l, .error e)

theorem tryAdd_of_ok {l : E.Libraries} {text : String} {p : E.Pattern}
    (h : E.compile text = .ok p) : l.tryAdd text = (⟨l.patterns ++ [p]⟩, .ok ()) := by
  rw [tryAdd, h]

theorem tryAdd_of_error {l : E.Libraries} {text : String} {e : E.Error}
    (h : E.compile text = .error e) : l.tryAdd text = (l, .error e) := by
  rw [tryAdd, h]

/-- The libraries after an addition, unless it fails. -/
def add (l : E.Libraries) (text : String) : Except E.Error E.Libraries :=
  let (l, outcome) := l.tryAdd text
  outcome.map fun _ => l

/-- The number of patterns. -/
def size (l : E.Libraries) : Nat := l.patterns.length

/-- Does the class belong to a library? -/
def contains (l : E.Libraries) (className : String) : Bool :=
  l.patterns.any fun p => E.isMatch p className

end Libraries

end ApiGuard.PatternEngine
