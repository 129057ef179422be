/-
  ApiGuard.Proofs.Analysis.Agreement
  ──────────────────────────────────
  Uses and stored edges agree on the calls that control reaches.

  Uses are noted for all calls of a body, wherever they are, while edges are stored for
  those that control reaches from an entry.  The calls that have no edge, although their
  ends differ and are not empty, lie behind loops that no entry leads to:

      isStored_entered     the edges stored for bodies, by the calls reached
      callees_agree        each call has its edge, unless it is not reached, and so has a
                           caller of a used method
      unreached_uses       a body whose use has no edge
-/
import ApiGuard.Proofs.Analysis.Runs
import ApiGuard.Proofs.Body.Entries

namespace ApiGuard

/-! ## §1. Calls that are not reached. -/

theorem Body.lt_size_of_call? {body : Body} {i : Nat} {call : Invocation}
    (h : body.call? i = some call) : i < body.size := by
  obtain ⟨s, hs, _⟩ := Option.bind_eq_some_iff.mp h
  obtain ⟨step, hstep, _⟩ := Option.map_eq_some_iff.mp hs
  exact (Array.getElem?_eq_some_iff.mp hstep).1

/-- The empty signature stands for a method only if the table has it. -/
theorem contains_empty_of_platformMethod? {table : LifetimeTable} {h : Hierarchy} {api : String}
    (hapi : platformMethod? table h "" = some api) : table.contains "" = true := by
  unfold platformMethod? at hapi
  split at hapi
  next hcontains => exact hcontains
  next =>
      -- the empty signature names no class that another could take the place of
      obtain ⟨inherited, hfind, _⟩ := Option.map_eq_some_iff.mp hapi
      obtain ⟨className, _, rfl⟩ := List.mem_map.mp (List.mem_of_find?_eq_some hfind)
      exact List.find?_some hfind

namespace Analysis

open ApiUsage

variable {inputs : AnalysisInputs} {entries : List Entry}

/-! ## §2. Edges and uses of bodies. -/

/-- Stored are the edges to all methods that the calls reached in some body may run. -/
theorem isStored_entered {a : Arc} :
    (entered inputs entries).graph.IsStored a
      ↔ ∃ entry ∈ entries, a.source = entry.body.signature ∧ a.isValid = true
          ∧ ∃ i, entry.body.IsReached i
            ∧ entry.body.MayRunAt inputs.hierarchy.subtypes i a.target := by
  rw [graph_entered, CallGraph.isStored_recordAll]
  constructor
  · rintro ⟨_, hbody, hstored⟩
    obtain ⟨entry, hentry, rfl⟩ := List.mem_map.mp hbody
    exact ⟨entry, hentry, hstored⟩
  · rintro ⟨entry, hentry, hstored⟩
    exact ⟨entry.body, List.mem_map_of_mem hentry, hstored⟩

/-- The call at a place of an entered body of the method stands for the used one. -/
structure UsesAt (inputs : AnalysisInputs) (entries : List Entry) (caller api : String)
    (body : Body) (i : Nat) (call : Invocation) : Prop where
  exists_entry : ∃ entry ∈ entries, entry.body = body
  signature_eq : body.signature = caller
  call?_eq : body.call? i = some call
  platformMethod?_eq : platformMethod? inputs.table inputs.hierarchy call.method = some api

/-- The callers of a used method are those with a call that stands for it. -/
theorem mem_callersOf_entered {caller api : String} :
    caller ∈ (entered inputs entries).usage.callSites.callersOf api
      ↔ ∃ body i call, UsesAt inputs entries caller api body i call := by
  show caller ∈ (entered inputs entries).usage.callers.image api ↔ _
  rw [(reflects_entered entries).mem_callers]
  simp only [mem_usesOfAll]
  constructor
  · rintro ⟨use, ⟨entry, hentry, _, hcaller, ⟨i, call, hcall, hinvoked⟩, hapi⟩, rfl, rfl⟩
    rw [← hinvoked] at hapi
    exact ⟨entry.body, i, call, ⟨entry, hentry, rfl⟩, hcaller.symm, hcall, hapi⟩
  · rintro ⟨_, i, call, ⟨entry, hentry, rfl⟩, hcaller, hcall, hapi⟩
    exact ⟨⟨entry.isPrimary, caller, call.method, api⟩,
      ⟨entry, hentry, rfl, hcaller.symm, ⟨i, call, hcall, rfl⟩, hapi⟩, rfl, rfl⟩

/-- What a method is called by is a spelling of the used one. -/
theorem UsesAt.mem_spellingsOf {caller api : String} {body : Body} {i : Nat} {call : Invocation}
    (h : UsesAt inputs entries caller api body i call) :
    call.method ∈ (entered inputs entries).usage.callSites.spellingsOf api := by
  obtain ⟨⟨entry, hentry, rfl⟩, _, hcall, hapi⟩ := h
  show call.method ∈ ((entered inputs entries).usage.spellings.image api).insert api
  refine SortedSet.mem_insert.mpr (.inr ((reflects_entered entries).mem_spellings.mpr ?_))
  exact ⟨⟨entry.isPrimary, entry.body.signature, call.method, api⟩, mem_usesOfAll.mpr
    ⟨entry, hentry, rfl, rfl, ⟨i, call, hcall, rfl⟩, hapi⟩, rfl, rfl⟩

/-! ## §3. The agreement. -/

/-- A call has its edge if its ends differ and are not empty, unless control reaches it
from no entry. -/
theorem isStored_of_call {entry : Entry} (hentry : entry ∈ entries) {i : Nat} {call : Invocation}
    (hcall : entry.body.call? i = some call) (hcallee : call.method ≠ "")
    (hcaller : entry.body.signature ≠ "") (hne : call.method ≠ entry.body.signature) :
    (entered inputs entries).graph.IsStored ⟨entry.body.signature, call.method⟩
      ∨ (¬ entry.body.IsReached i ∧ entry.body.IsBehindLoop i) := by
  by_cases hreached : entry.body.IsReached i
  · refine .inl (isStored_entered.mpr ⟨entry, hentry, rfl, ?_, i, hreached, call, hcall, .inl rfl⟩)
    unfold Arc.isValid
    simpa [hcallee, hcaller] using hne.symm
  · exact .inr ⟨hreached,
      Body.isBehindLoop_of_not_isReached (Body.lt_size_of_call? hcall) hreached⟩

/-- After bodies are entered, in whatever order, each call whose ends differ and are not
empty has its edge, or control reaches it from no entry and it lies behind a loop that no
entry leads to.

So a caller of a used method, if it is not empty, has a stored edge to one of the
spellings.  Otherwise each of its calls that stand for the method is of the caller itself,
or is not reached, or is of the empty signature, which the table has then. -/
theorem callees_agree (inputs : AnalysisInputs) (entries : List Entry) :
    (∀ entry ∈ entries, ∀ i call, entry.body.call? i = some call → call.method ≠ "" →
      entry.body.signature ≠ "" → call.method ≠ entry.body.signature →
      (entered inputs entries).graph.IsStored ⟨entry.body.signature, call.method⟩
        ∨ (¬ entry.body.IsReached i ∧ entry.body.IsBehindLoop i))
    ∧ ∀ api, ∀ caller ∈ (entered inputs entries).usage.callSites.callersOf api,
        (∃ body i call, UsesAt inputs entries caller api body i call)
        ∧ ((∃ target ∈ (entered inputs entries).usage.callSites.spellingsOf api,
              (entered inputs entries).graph.IsStored ⟨caller, target⟩)
          ∨ caller = ""
          ∨ ∀ body i call, UsesAt inputs entries caller api body i call →
              call.method = caller ∨ (¬ body.IsReached i ∧ body.IsBehindLoop i)
                ∨ (call.method = "" ∧ inputs.table.contains "" = true)) := by
  refine ⟨fun entry hentry i call => isStored_of_call hentry, fun api caller hcaller =>
    ⟨mem_callersOf_entered.mp hcaller, ?_⟩⟩
  by_cases hempty : caller = ""
  · exact .inr (.inl hempty)
  · rw [or_iff_not_imp_left]
    refine fun hnone => .inr fun body i call huse => ?_
    obtain ⟨⟨entry, hentry, rfl⟩, rfl, hcall, hapi⟩ := id huse
    by_cases hcallee : call.method = ""
    · rw [hcallee] at hapi
      exact .inr (.inr ⟨hcallee, contains_empty_of_platformMethod? hapi⟩)
    · by_cases hself : call.method = entry.body.signature
      · exact .inl hself
      · -- the edge of the call would lead to a spelling
        rcases isStored_of_call hentry hcall hcallee hempty hself with hstored | hbehind
        · exact absurd ⟨_, huse.mem_spellingsOf, hstored⟩ hnone
        · exact .inr (.inl hbehind)

/-- The notifier is entered and its call is reached, so that both have their edge. -/
theorem callees_agree_notifier :
    (∃ call, notifier.call? 0 = some call ∧ call.method = "<android.app.Channel: void open()>"
      ∧ call.method ≠ "" ∧ notifier.signature ≠ "" ∧ call.method ≠ notifier.signature
      ∧ (entered channelInputs [⟨true, notifier⟩]).graph.IsStored
          ⟨notifier.signature, call.method⟩)
    ∧ notifier.signature ∈ (entered channelInputs [⟨true, notifier⟩]).usage.callSites.callersOf
        "<android.app.Channel: void open()>"
    ∧ ∃ target ∈ (entered channelInputs [⟨true, notifier⟩]).usage.callSites.spellingsOf
        "<android.app.Channel: void open()>",
        (entered channelInputs [⟨true, notifier⟩]).graph.IsStored ⟨notifier.signature, target⟩ := by
  obtain ⟨hcalls, hcallers⟩ := callees_agree channelInputs [⟨true, notifier⟩]
  have hreached : notifier.IsReached 0 := .of_mem_entries (by decide)
  have hcall : notifier.call? 0
      = some ⟨.virtual, "<android.app.Channel: void open()>", [], false⟩ := rfl
  have hcaller : notifier.signature
      ∈ (entered channelInputs [⟨true, notifier⟩]).usage.callSites.callersOf
        "<android.app.Channel: void open()>" := by
    decide +kernel
  refine ⟨⟨_, hcall, rfl, by decide, by decide, by decide, ?_⟩, hcaller, ?_⟩
  · rcases hcalls ⟨true, notifier⟩ List.mem_cons_self 0 _ hcall (by decide) (by decide) (by decide)
      with hstored | ⟨hnot, _⟩
    · exact hstored
    · exact absurd hreached hnot
  · have hapi : platformMethod? channelInputs.table channelInputs.hierarchy
        "<android.app.Channel: void open()>" = some "<android.app.Channel: void open()>" := by
      decide +kernel
    have huse : UsesAt channelInputs [⟨true, notifier⟩] notifier.signature
        "<android.app.Channel: void open()>" notifier 0 _ :=
      ⟨⟨_, List.mem_cons_self, rfl⟩, rfl, hcall, hapi⟩
    obtain ⟨_, hstored | hempty | hrest⟩ := hcallers _ _ hcaller
    · exact hstored
    · exact absurd hempty (by decide)
    · rcases hrest _ _ _ huse with hself | ⟨hnot, _⟩ | ⟨hnameless, _⟩
      · exact absurd hself (by decide)
      · exact absurd hreached hnot
      · exact absurd hnameless (by decide)

/-- A body that uses the platform in a loop behind its return. -/
def deadLoop : Body where
  signature := "<app.Main: void run()>"
  steps := #[
    ⟨.ret none, .stop⟩,
    ⟨.invoke ⟨.static, "<android.app.Channel: void open()>", [], false⟩, .next⟩,
    ⟨.goto "again", .jump 1⟩]
  target_lt := by decide
  flow_fits := by decide

/-- A body that calls the empty signature. -/
def namelessCall : Body where
  signature := "<app.Main: void run()>"
  steps := #[⟨.invoke ⟨.static, "", [], false⟩, .next⟩, ⟨.ret none, .stop⟩]
  target_lt := by decide
  flow_fits := by decide

/-- A table that has the empty signature. -/
def namelessInputs : AnalysisInputs where
  hierarchy := ∅
  table := (∅ : LifetimeTable).insert "" (.known 26) (.known 34)

theorem not_isStored_deadLoop (a : Arc) :
    ¬ (entered channelInputs [⟨true, deadLoop⟩]).graph.IsStored a := by
  have hvisits : Walk.callVisits {} deadLoop = [] := by cbv
  rw [isStored_entered]
  rintro ⟨entry, hentry, _, _, i, hreached, call, hcall, _⟩
  obtain rfl := List.mem_singleton.mp hentry
  have hvisit : i ∈ (Walk.callVisits {} deadLoop).map Visit.place :=
    Walk.mem_places_callVisits.mpr ⟨hreached, call, hcall⟩
  rw [hvisits] at hvisit
  cases hvisit

/-- The call of a method without a name is recorded, but not stored. -/
theorem not_isStored_namelessCall (a : Arc) :
    ¬ (entered namelessInputs [⟨true, namelessCall⟩]).graph.IsStored a := by
  rw [isStored_entered]
  rintro ⟨entry, hentry, _, hvalid, i, _, call, hcall, hrun⟩
  obtain rfl := List.mem_singleton.mp hentry
  have htarget : a.target = "" := by
    match i, hcall with
    | 0, hcall =>
        cases hcall
        rcases hrun with htarget | ⟨hstatic, _⟩
        · exact htarget
        · cases hstatic
    | 1, hcall | _ + 2, hcall => cases hcall
  unfold Arc.isValid at hvalid
  simp [htarget] at hvalid

/-- The call in the loop is no edge although its ends differ and are not empty; so its
method is a caller of the used one that has no edge to any spelling, by which it does not
call itself.  A call of the empty signature, which is reached, has no edge either. -/
theorem unreached_uses :
    (∃ call, deadLoop.call? 1 = some call ∧ call.method ≠ "" ∧ deadLoop.signature ≠ ""
      ∧ call.method ≠ deadLoop.signature
      ∧ ¬ (entered channelInputs [⟨true, deadLoop⟩]).graph.IsStored
          ⟨deadLoop.signature, call.method⟩)
    ∧ (∃ caller ∈ (entered channelInputs [⟨true, deadLoop⟩]).usage.callSites.callersOf
          "<android.app.Channel: void open()>",
        caller ≠ ""
        ∧ caller ∉ (entered channelInputs [⟨true, deadLoop⟩]).usage.callSites.spellingsOf
            "<android.app.Channel: void open()>"
        ∧ ∀ target, ¬ (entered channelInputs [⟨true, deadLoop⟩]).graph.IsStored ⟨caller, target⟩)
    ∧ ∃ caller ∈ (entered namelessInputs [⟨true, namelessCall⟩]).usage.callSites.callersOf "",
        caller ≠ ""
        ∧ caller ∉ (entered namelessInputs [⟨true, namelessCall⟩]).usage.callSites.spellingsOf ""
        ∧ ∀ target, ¬ (entered namelessInputs [⟨true, namelessCall⟩]).graph.IsStored
            ⟨caller, target⟩ := by
  refine ⟨⟨_, rfl, by decide, by decide, by decide, not_isStored_deadLoop _⟩,
    ⟨deadLoop.signature, ?_, by decide, ?_, fun _ => not_isStored_deadLoop _⟩,
    namelessCall.signature, ?_, by decide, ?_, fun _ => not_isStored_namelessCall _⟩
  · decide +kernel
  · decide +kernel
  · decide +kernel
  · decide +kernel

end Analysis

end ApiGuard
