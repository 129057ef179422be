/-
  ApiGuard.Proofs.Analysis.Index
  ──────────────────────────────
  The index of callers, by the bodies that are noted.

  Whatever bodies are noted and in whatever order, a method of the platform has the callers
  whose calls stand for it and no others, and is found under the signatures of these calls.
  What a call stands for depends on its signature alone, so that no signature is kept for
  two methods:

      noted_congr          what is noted depends on the set of bodies
      index_exact          callers, spellings, units and order of the used methods
-/
import ApiGuard.Proofs.Analysis.Findings

namespace ApiGuard

/-- The body has a call that stands for the method. -/
def Body.Uses (table : LifetimeTable) (h : Hierarchy) (body : Body) (api : String) : Prop :=
  ∃ invoked, body.Invokes invoked ∧ platformMethod? table h invoked = some api

namespace ApiUsage

variable {table : LifetimeTable} {h : Hierarchy} {markers : GuardMarkers} {entries : List Entry}

/-! ## §1. Noting bodies. -/

/-- The usage after bodies are noted, each in the main unit or in another. -/
def noted (table : LifetimeTable) (h : Hierarchy) (markers : GuardMarkers)
    (entries : List Entry) : ApiUsage :=
  entries.foldl (fun u entry => u.noteBody table h markers entry.isPrimary entry.body) ∅

/-- To note bodies is what an analysis that enters them does beside recording calls. -/
theorem noted_eq_usage (entries : List Entry) :
    noted table h markers entries
      = (Analysis.entered ⟨h, table, { markers }⟩ entries).usage := by
  induction entries using List.reverseRecOn with
  | nil => rfl
  | append_singleton entries entry ih =>
      rw [Analysis.entered_concat]
      unfold noted at ih ⊢
      rw [List.foldl_append, ih]
      rfl

/-- The uses of all bodies. -/
abbrev usesNoted (table : LifetimeTable) (h : Hierarchy) (markers : GuardMarkers)
    (entries : List Entry) : List Use :=
  Analysis.usesOfAll ⟨h, table, { markers }⟩ entries

/-- What is noted are the uses of all bodies. -/
theorem reflects_noted (entries : List Entry) :
    Reflects (noted table h markers entries) (usesNoted table h markers entries) := by
  rw [noted_eq_usage]
  exact Analysis.reflects_entered entries

/-- What is noted depends on the set of bodies alone, each with its unit. -/
theorem noted_congr {entries' : List Entry}
    (hsame : ∀ entry, entry ∈ entries ↔ entry ∈ entries') :
    noted table h markers entries = noted table h markers entries' := by
  have hu : Reflects (noted table h markers entries) (usesNoted table h markers entries) :=
    reflects_noted entries
  have hu' : Reflects (noted table h markers entries') (usesNoted table h markers entries') :=
    reflects_noted entries'
  have huses : ∀ use, use ∈ usesNoted table h markers entries ↔ use ∈ usesNoted table h markers entries' := by
    intro use
    simp only [Analysis.mem_usesOfAll, hsame]
  obtain ⟨hcallers, hspellings⟩ := hu.tables_eq hu' fun caller invoked api => by simp only [huses]
  have hprimary : (noted table h markers entries).primary
      = (noted table h markers entries').primary := by
    refine SortedSet.ext fun api => ?_
    simp only [hu.mem_primary, hu'.mem_primary, huses]
  have hsecondary : (noted table h markers entries).secondary
      = (noted table h markers entries').secondary := by
    refine SortedSet.ext fun api => ?_
    simp only [hu.mem_secondary, hu'.mem_secondary, huses]
  have hreads : (noted table h markers entries).readsVersion
      = (noted table h markers entries').readsVersion := by
    rw [Bool.eq_iff_iff]
    simp only [noted_eq_usage, Analysis.readsVersion_entered, List.mem_map, hsame]
  -- these are all the parts of what is noted
  calc noted table h markers entries
      = ⟨(noted table h markers entries).primary, (noted table h markers entries).secondary,
          (noted table h markers entries).callers, (noted table h markers entries).spellings,
          (noted table h markers entries).readsVersion⟩ := rfl
    _ = noted table h markers entries' := by
        rw [hprimary, hsecondary, hcallers, hspellings, hreads]

/-! ## §2. The index. -/

/-- The callers of a method are those with a call that stands for it. -/
theorem mem_callersOf_noted {caller api : String} :
    caller ∈ (noted table h markers entries).callSites.callersOf api
      ↔ ∃ entry ∈ entries, entry.body.signature = caller ∧ entry.body.Uses table h api := by
  show caller ∈ (noted table h markers entries).callers.image api ↔ _
  rw [(reflects_noted entries).mem_callers]
  simp only [Analysis.mem_usesOfAll]
  constructor
  · rintro ⟨use, ⟨entry, hentry, _, hcaller, hinvokes, hapi⟩, rfl, rfl⟩
    exact ⟨entry, hentry, hcaller.symm, use.invoked, hinvokes, hapi⟩
  · rintro ⟨entry, hentry, rfl, invoked, hinvokes, hapi⟩
    exact ⟨⟨entry.isPrimary, entry.body.signature, invoked, api⟩,
      ⟨entry, hentry, rfl, rfl, hinvokes, hapi⟩, rfl, rfl⟩

/-- A method is kept under the signatures of the calls that stand for it. -/
theorem mem_spellings_noted {invoked api : String} :
    invoked ∈ (noted table h markers entries).spellings.image api
      ↔ platformMethod? table h invoked = some api
        ∧ ∃ entry ∈ entries, entry.body.Invokes invoked := by
  rw [(reflects_noted entries).mem_spellings]
  simp only [Analysis.mem_usesOfAll]
  constructor
  · rintro ⟨use, ⟨entry, hentry, _, _, hinvokes, hapi⟩, rfl, rfl⟩
    exact ⟨hapi, entry, hentry, hinvokes⟩
  · rintro ⟨hapi, entry, hentry, hinvokes⟩
    exact ⟨⟨entry.isPrimary, entry.body.signature, invoked, api⟩,
      ⟨entry, hentry, rfl, rfl, hinvokes, hapi⟩, rfl, rfl⟩

/-- The uses in units of one kind. -/
theorem exists_use_iff_uses {isPrimary : Bool} {api : String} :
    (∃ use ∈ usesNoted table h markers entries, use.isPrimary = isPrimary ∧ api = use.api)
      ↔ ∃ entry ∈ entries, entry.isPrimary = isPrimary ∧ entry.body.Uses table h api := by
  simp only [Analysis.mem_usesOfAll]
  constructor
  · rintro ⟨use, ⟨entry, hentry, hunit, _, hinvokes, hapi⟩, rfl, rfl⟩
    exact ⟨entry, hentry, hunit.symm, use.invoked, hinvokes, hapi⟩
  · rintro ⟨entry, hentry, rfl, invoked, hinvokes, hapi⟩
    exact ⟨⟨entry.isPrimary, entry.body.signature, invoked, api⟩,
      ⟨entry, hentry, rfl, rfl, hinvokes, hapi⟩, rfl, rfl⟩

/-- What a used method is called by stands for it, its own signature included. -/
theorem platformMethod?_of_mem_spellingsOf {invoked api : String}
    (hused : api ∈ (noted table h markers entries).used)
    (hspelling : invoked ∈ (noted table h markers entries).callSites.spellingsOf api) :
    platformMethod? table h invoked = some api := by
  have hmem : invoked ∈ ((noted table h markers entries).spellings.image api).insert api :=
    hspelling
  rw [SortedSet.mem_insert, mem_spellings_noted] at hmem
  rcases hmem with rfl | ⟨hstands, _⟩
  · obtain ⟨use, huse, rfl⟩ := (reflects_noted entries).mem_used.mp hused
    obtain ⟨_, _, _, _, _, hstands⟩ := Analysis.mem_usesOfAll.mp huse
    exact platformMethod?_self hstands
  · exact hstands

/-- After bodies are noted, the callers of a method are those bodies with a call that stands
for it, and its spellings are its own signature with the signatures of these calls.  The
main unit uses what some body of it does, and so do the other units; together these are
the used methods, in strictly increasing order.

No signature is kept for two methods, and none is a spelling of two used ones.  In whatever
order the bodies are noted, the same is noted of them. -/
theorem index_exact (table : LifetimeTable) (h : Hierarchy) (markers : GuardMarkers)
    (entries : List Entry) :
    (∀ api, ((∀ caller, caller ∈ (noted table h markers entries).callSites.callersOf api
          ↔ ∃ entry ∈ entries, entry.body.signature = caller ∧ entry.body.Uses table h api)
        ∧ (∀ invoked, invoked ∈ (noted table h markers entries).callSites.spellingsOf api
          ↔ invoked = api ∨ platformMethod? table h invoked = some api
              ∧ ∃ entry ∈ entries, entry.body.Invokes invoked))
      ∧ (api ∈ (noted table h markers entries).primary
          ↔ ∃ entry ∈ entries, entry.isPrimary = true ∧ entry.body.Uses table h api)
      ∧ (api ∈ (noted table h markers entries).secondary
          ↔ ∃ entry ∈ entries, entry.isPrimary = false ∧ entry.body.Uses table h api)
      ∧ (api ∈ (noted table h markers entries).used
          ↔ api ∈ (noted table h markers entries).primary
            ∨ api ∈ (noted table h markers entries).secondary))
    ∧ ((noted table h markers entries).used.Pairwise fun api api' => compare api api' = .lt)
    ∧ (∀ api api' invoked, invoked ∈ (noted table h markers entries).spellings.image api →
        invoked ∈ (noted table h markers entries).spellings.image api' → api = api')
    ∧ (∀ api ∈ (noted table h markers entries).used,
        ∀ api' ∈ (noted table h markers entries).used, ∀ invoked,
          invoked ∈ (noted table h markers entries).callSites.spellingsOf api →
          invoked ∈ (noted table h markers entries).callSites.spellingsOf api' → api = api')
    ∧ ∀ entries', entries.Perm entries' →
        noted table h markers entries' = noted table h markers entries := by
  have hreflects : Reflects (noted table h markers entries) (usesNoted table h markers entries) :=
    reflects_noted entries
  refine ⟨fun api => ⟨⟨fun caller => mem_callersOf_noted, fun invoked => ?_⟩, ?_, ?_,
    hreflects.mem_used_iff_primary_or_secondary⟩, pairwise_used _, ?_, ?_, ?_⟩
  · show invoked ∈ ((noted table h markers entries).spellings.image api).insert api ↔ _
    rw [SortedSet.mem_insert, mem_spellings_noted]
  · rw [hreflects.mem_primary, exists_use_iff_uses]
  · rw [hreflects.mem_secondary, exists_use_iff_uses]
  · intro api api' invoked hkept hkept'
    have hstands := (mem_spellings_noted.mp hkept).1
    exact Option.some.inj (hstands.symm.trans (mem_spellings_noted.mp hkept').1)
  · intro api hused api' hused' invoked hspelling hspelling'
    have hstands := platformMethod?_of_mem_spellingsOf hused hspelling
    exact Option.some.inj
      (hstands.symm.trans (platformMethod?_of_mem_spellingsOf hused' hspelling'))
  · exact fun entries' hperm => noted_congr fun entry => hperm.mem_iff.symm

/-- A body that calls the callback of its own class. -/
def callingScreen : Body where
  signature := "<app.Main: void run()>"
  steps := #[⟨.invoke ⟨.virtual, "<app.Main: void on()>", [], false⟩, .next⟩, ⟨.ret none, .stop⟩]
  target_lt := by decide
  flow_fits := by decide

/-- A body of another unit that calls the callback of the lists. -/
def callingList : Body where
  signature := "<app.Lists: void run()>"
  steps := #[⟨.invoke ⟨.virtual, "<os.List.Activity: void on()>", [], false⟩, .next⟩,
    ⟨.ret none, .stop⟩]
  target_lt := by decide
  flow_fits := by decide

/-- The first body in the main unit and the second one in another. -/
def callings : List Entry := [⟨true, callingScreen⟩, ⟨false, callingList⟩]

/-- Both bodies call the callback of the lists, the first one by a signature that the table
lacks, and in which order they are noted does not matter. -/
theorem index_exact_callback :
    (∃ entry ∈ callings, entry.isPrimary = true ∧ entry.body.signature = "<app.Main: void run()>"
      ∧ entry.body.Uses callbacks activities "<os.List.Activity: void on()>")
    ∧ "<app.Main: void run()>" ∈ (noted callbacks activities {} callings).callSites.callersOf
        "<os.List.Activity: void on()>"
    ∧ "<os.List.Activity: void on()>" ∈ (noted callbacks activities {} callings).primary
    ∧ "<os.List.Activity: void on()>" ∈ (noted callbacks activities {} callings).used
    ∧ "<app.Main: void on()>" ∈ (noted callbacks activities {} callings).callSites.spellingsOf
        "<os.List.Activity: void on()>"
    ∧ (∀ api ∈ (noted callbacks activities {} callings).used,
        "<app.Main: void on()>"
            ∈ (noted callbacks activities {} callings).callSites.spellingsOf api →
          api = "<os.List.Activity: void on()>")
    ∧ callings.Perm callings.reverse
    ∧ noted callbacks activities {} callings.reverse = noted callbacks activities {} callings := by
  obtain ⟨_, hstands⟩ := platformMethod?_activities
  have huses : ∃ entry ∈ callings, entry.isPrimary = true
      ∧ entry.body.signature = "<app.Main: void run()>"
      ∧ entry.body.Uses callbacks activities "<os.List.Activity: void on()>" :=
    ⟨_, List.mem_cons_self, rfl, rfl, _, ⟨0, _, rfl, rfl⟩, hstands⟩
  obtain ⟨hindex, _, _, hspelled, hperm⟩ := index_exact callbacks activities {} callings
  obtain ⟨⟨hcallers, hspellings⟩, hprimary, _, hused⟩ := hindex "<os.List.Activity: void on()>"
  have hmain := hprimary.mpr (huses.imp fun _ huse => ⟨huse.1, huse.2.1, huse.2.2.2⟩)
  have hcaller := (hcallers _).mpr (huses.imp fun _ huse => ⟨huse.1, huse.2.2.1, huse.2.2.2⟩)
  have hspelling := (hspellings "<app.Main: void on()>").mpr
    (.inr ⟨hstands, ⟨true, callingScreen⟩, List.mem_cons_self, 0, _, rfl, rfl⟩)
  have hreverse : callings.Perm callings.reverse := List.Perm.swap _ _ []
  refine ⟨huses, hcaller, hmain, hused.mpr (.inl hmain), hspelling, fun api hapi hspelling' => ?_,
    hreverse, hperm _ hreverse⟩
  exact hspelled api hapi _ (hused.mpr (.inl hmain)) _ hspelling' hspelling

end ApiUsage

end ApiGuard
