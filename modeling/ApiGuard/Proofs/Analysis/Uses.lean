/-
  ApiGuard.Proofs.Analysis.Uses
  ─────────────────────────────
  What is noted of the methods of the platform, seen from their uses.

  A body uses a method of the platform by each call that stands for it, wherever that
  call is in the body.  What is noted of some bodies are their uses and no others, so
  that neither their order nor their number matters:

      Reflects.noteBody        a body adds its uses to those noted
      Reflects.mem_used        the used methods are those of the uses
      mem_usesOf               the uses of a body, by its calls
-/
import ApiGuard.Proofs.Body.Flow
import ApiGuard.Usage

namespace ApiGuard

/-- Some element of a list with one more is one of the list, or this one. -/
theorem exists_mem_concat {α : Type} {l : List α} {a : α} {P : α → Prop} :
    (∃ b ∈ l ++ [a], P b) ↔ (∃ b ∈ l, P b) ∨ P a := by
  simp only [List.mem_append, List.mem_singleton, or_and_right, exists_or, exists_eq_left]

/-! ## §1. The uses of a body. -/

/-- A use of a method of the platform. -/
structure Use where
  /-- The call is in a body of the main unit. -/
  isPrimary : Bool
  /-- The method whose body has the call. -/
  caller : String
  /-- The signature that is called. -/
  invoked : String
  /-- The used method that the call stands for. -/
  api : String
  deriving DecidableEq, Repr

/-- The body calls the signature. -/
def Body.Invokes (body : Body) (invoked : String) : Prop :=
  ∃ i call, body.call? i = some call ∧ call.method = invoked

/-- Collected of a body are the methods that some statement of it invokes. -/
theorem Body.mem_invokedBy {body : Body} {invoked : String} :
    invoked ∈ ApiUsage.invokedBy body ↔ body.Invokes invoked := by
  unfold ApiUsage.invokedBy Body.Invokes call? statement?
  simp only [List.mem_filterMap, Array.mem_toList_iff, Option.map_eq_some_iff]
  constructor
  · -- a statement of the body is at some place
    rintro ⟨step, hstep, call, hcall, rfl⟩
    obtain ⟨i, hi⟩ := Array.getElem?_of_mem hstep
    refine ⟨i, call, ?_, rfl⟩
    rw [hi]
    exact hcall
  · rintro ⟨i, call, hcall, rfl⟩
    obtain ⟨s, hs, hcall⟩ := Option.bind_eq_some_iff.mp hcall
    obtain ⟨step, hstep, rfl⟩ := Option.map_eq_some_iff.mp hs
    exact ⟨step, Array.mem_of_getElem? hstep, call, hcall, rfl⟩

namespace ApiUsage

variable {table : LifetimeTable} {h : Hierarchy} {markers : GuardMarkers}

/-- The uses of a body, in the order of its calls. -/
def usesOf (table : LifetimeTable) (h : Hierarchy) (isPrimary : Bool) (body : Body) : List Use :=
  (invokedBy body).filterMap fun invoked =>
    (platformMethod? table h invoked).map fun api => ⟨isPrimary, body.signature, invoked, api⟩

/-- A body uses what its calls stand for. -/
theorem mem_usesOf {isPrimary : Bool} {body : Body} {use : Use} :
    use ∈ usesOf table h isPrimary body
      ↔ use.isPrimary = isPrimary ∧ use.caller = body.signature ∧ body.Invokes use.invoked
        ∧ platformMethod? table h use.invoked = some use.api := by
  unfold usesOf
  simp only [List.mem_filterMap, Option.map_eq_some_iff, Body.mem_invokedBy]
  constructor
  · rintro ⟨invoked, hinvoked, api, hapi, rfl⟩
    exact ⟨rfl, rfl, hinvoked, hapi⟩
  · rintro ⟨rfl, hcaller, hinvoked, hapi⟩
    refine ⟨use.invoked, hinvoked, use.api, hapi, ?_⟩
    rw [← hcaller]

/-! ## §2. Noting uses. -/

/-- Note a use. -/
def noteUse (u : ApiUsage) (use : Use) : ApiUsage :=
  u.note use.isPrimary use.caller use.invoked use.api

/-- To note a body is to note its uses, and whether it reads the version. -/
theorem noteBody_eq (u : ApiUsage) (isPrimary : Bool) (body : Body) :
    u.noteBody table h markers isPrimary body
      = (usesOf table h isPrimary body).foldl noteUse
          { u with readsVersion := u.readsVersion || markers.readsVersion body } := by
  unfold noteBody usesOf
  rw [List.foldl_filterMap]
  congr 1
  funext v invoked
  cases platformMethod? table h invoked <;> rfl

theorem readsVersion_foldl_noteUse (uses : List Use) :
    ∀ u : ApiUsage, (uses.foldl noteUse u).readsVersion = u.readsVersion := by
  induction uses with
  | nil => exact fun _ => rfl
  | cons use rest ih => exact fun u => ih (u.noteUse use)

theorem readsVersion_noteBody (u : ApiUsage) (isPrimary : Bool) (body : Body) :
    (u.noteBody table h markers isPrimary body).readsVersion
      = (u.readsVersion || markers.readsVersion body) := by
  rw [noteBody_eq, readsVersion_foldl_noteUse]

/-- The uses are what is noted. -/
structure Reflects (u : ApiUsage) (uses : List Use) : Prop where
  callers_isProper : u.callers.IsProper
  spellings_isProper : u.spellings.IsProper
  mem_primary {api : String} :
    api ∈ u.primary ↔ ∃ use ∈ uses, use.isPrimary = true ∧ api = use.api
  mem_secondary {api : String} :
    api ∈ u.secondary ↔ ∃ use ∈ uses, use.isPrimary = false ∧ api = use.api
  mem_callers {api caller : String} :
    caller ∈ u.callers.image api ↔ ∃ use ∈ uses, api = use.api ∧ caller = use.caller
  mem_spellings {api invoked : String} :
    invoked ∈ u.spellings.image api ↔ ∃ use ∈ uses, api = use.api ∧ invoked = use.invoked

theorem reflects_empty : Reflects ∅ [] where
  callers_isProper := Relation.isProper_empty
  spellings_isProper := Relation.isProper_empty
  mem_primary := iff_of_false (SortedSet.not_mem_empty _) (by simp)
  mem_secondary := iff_of_false (SortedSet.not_mem_empty _) (by simp)
  mem_callers := iff_of_false (SortedSet.not_mem_empty _) (by simp)
  mem_spellings := iff_of_false (SortedSet.not_mem_empty _) (by simp)

namespace Reflects

variable {u : ApiUsage} {uses : List Use}

/-- Whether bodies read the version is apart from their uses. -/
theorem withReadsVersion (hu : Reflects u uses) (b : Bool) :
    Reflects { u with readsVersion := b } uses :=
  ⟨hu.callers_isProper, hu.spellings_isProper, hu.mem_primary, hu.mem_secondary, hu.mem_callers,
    hu.mem_spellings⟩

/-- To note a use adds it to those noted. -/
theorem noteUse (hu : Reflects u uses) (use : Use) :
    Reflects (u.noteUse use) (uses ++ [use]) := by
  refine ⟨hu.callers_isProper.add _ _, hu.spellings_isProper.add _ _, ?_, ?_, ?_, ?_⟩
  · intro api
    show api ∈ (if use.isPrimary then u.primary.insert use.api else u.primary) ↔ _
    rw [exists_mem_concat, or_comm, ← hu.mem_primary]
    cases use.isPrimary <;> simp
  · intro api
    show api ∈ (if use.isPrimary then u.secondary else u.secondary.insert use.api) ↔ _
    rw [exists_mem_concat, or_comm, ← hu.mem_secondary]
    cases use.isPrimary <;> simp
  · intro api caller
    show caller ∈ (u.callers.add use.api use.caller).image api ↔ _
    rw [exists_mem_concat, or_comm, ← hu.mem_callers, Relation.mem_image_add]
  · intro api invoked
    show invoked ∈ (u.spellings.add use.api use.invoked).image api ↔ _
    rw [exists_mem_concat, or_comm, ← hu.mem_spellings, Relation.mem_image_add]

theorem foldl_noteUse (later : List Use) :
    ∀ {u : ApiUsage} {uses : List Use}, Reflects u uses →
      Reflects (later.foldl ApiUsage.noteUse u) (uses ++ later) := by
  induction later with
  | nil =>
      intro u uses hu
      rw [List.append_nil]
      exact hu
  | cons use rest ih =>
      intro u uses hu
      rw [List.append_cons]
      exact ih (hu.noteUse use)

/-- A body adds its uses to those noted. -/
theorem noteBody (hu : Reflects u uses) (isPrimary : Bool) (body : Body) :
    Reflects (u.noteBody table h markers isPrimary body)
      (uses ++ usesOf table h isPrimary body) := by
  rw [noteBody_eq]
  exact foldl_noteUse _ (hu.withReadsVersion _)

/-! ## §3. What is asked of usage. -/

/-- The used methods are those of the uses. -/
theorem mem_used (hu : Reflects u uses) {api : String} :
    api ∈ u.used ↔ ∃ use ∈ uses, api = use.api := by
  unfold used
  rw [hu.callers_isProper.mem_keys_iff]
  simp only [hu.mem_callers]
  constructor
  · rintro ⟨_, use, huse, hapi, _⟩
    exact ⟨use, huse, hapi⟩
  · rintro ⟨use, huse, hapi⟩
    exact ⟨use.caller, use, huse, hapi, rfl⟩

/-- A used method is used by the main unit or by another. -/
theorem mem_used_iff_primary_or_secondary (hu : Reflects u uses) {api : String} :
    api ∈ u.used ↔ api ∈ u.primary ∨ api ∈ u.secondary := by
  rw [hu.mem_used, hu.mem_primary, hu.mem_secondary]
  constructor
  · rintro ⟨use, huse, hapi⟩
    cases hunit : use.isPrimary with
    | true => exact .inl ⟨use, huse, hunit, hapi⟩
    | false => exact .inr ⟨use, huse, hunit, hapi⟩
  · rintro (⟨use, huse, _, hapi⟩ | ⟨use, huse, _, hapi⟩)
    · exact ⟨use, huse, hapi⟩
    · exact ⟨use, huse, hapi⟩

/-- If uses differ at most in their units, the same callers and spellings are noted. -/
theorem tables_eq {u' : ApiUsage} {uses' : List Use} (hu : Reflects u uses)
    (hu' : Reflects u' uses')
    (hsame : ∀ caller invoked api,
      (∃ b, (⟨b, caller, invoked, api⟩ : Use) ∈ uses)
        ↔ ∃ b, (⟨b, caller, invoked, api⟩ : Use) ∈ uses') :
    u.callers = u'.callers ∧ u.spellings = u'.spellings := by
  -- neither table asks of which unit a use is
  have hmem : ∀ P : String → String → String → Prop,
      (∃ use ∈ uses, P use.caller use.invoked use.api)
        ↔ ∃ use ∈ uses', P use.caller use.invoked use.api := by
    intro P
    constructor
    · rintro ⟨⟨b, caller, invoked, api⟩, huse, hP⟩
      obtain ⟨b', huse'⟩ := (hsame caller invoked api).mp ⟨b, huse⟩
      exact ⟨_, huse', hP⟩
    · rintro ⟨⟨b, caller, invoked, api⟩, huse, hP⟩
      obtain ⟨b', huse'⟩ := (hsame caller invoked api).mpr ⟨b, huse⟩
      exact ⟨_, huse', hP⟩
  constructor
  · refine hu.callers_isProper.ext hu'.callers_isProper fun api caller => ?_
    rw [hu.mem_callers, hu'.mem_callers]
    exact hmem fun caller' _ api' => api = api' ∧ caller = caller'
  · refine hu.spellings_isProper.ext hu'.spellings_isProper fun api invoked => ?_
    rw [hu.mem_spellings, hu'.mem_spellings]
    exact hmem fun _ invoked' api' => api = api' ∧ invoked = invoked'

end Reflects

end ApiUsage

end ApiGuard
