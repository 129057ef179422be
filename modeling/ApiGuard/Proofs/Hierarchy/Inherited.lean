/-
  ApiGuard.Proofs.Hierarchy.Inherited
  ───────────────────────────────────
  The methods of the platform that classes inherit.

  A signature stands for the method that it names or else for the one that its class
  inherits from the nearest ancestor which has it.  Calls are followed the other way: an
  override of a method is this method in a class below.  Both ways meet, since a class
  above which another is found is found below it:

      platformMethod?_eq_of_find?   the nearest ancestor that has the method
      le_height_of_find?            no ancestor that has it is nearer
      mem_overridesOf               the overrides of a method
      overrides_resolve             an override stands for a method of the table
      resolution_exact              what a call stands for, if it stands for a method
-/
import ApiGuard.Guard.Calls
import ApiGuard.Proofs.Hierarchy.Ancestry
import ApiGuard.Proofs.Lifetime.Table
import ApiGuard.Proofs.Signature.Classes
import ApiGuard.Usage

namespace ApiGuard

open Signature

/-! ## §1. What a signature stands for. -/

variable {table : LifetimeTable} {h : Hierarchy} {invoked api : String}

/-- A call stands for a method by its canonical signature, which the table has. -/
theorem of_platformMethod?_eq_some
    (hapi : platformMethod? table h invoked = some api) :
    api ∈ table.entries.keys ∧ Signature.canonical api = api := by
  have hsource : ∃ spelling, table.contains spelling = true
      ∧ Signature.canonical spelling = api := by
    unfold platformMethod? at hapi
    split at hapi
    next hcontains => exact ⟨invoked, hcontains, Option.some.inj hapi⟩
    next =>
        -- the method is inherited from the class that the table knows
        obtain ⟨inherited, hfind, hcanonical⟩ := Option.map_eq_some_iff.mp hapi
        exact ⟨inherited, List.find?_some hfind, hcanonical⟩
  obtain ⟨spelling, hcontains, rfl⟩ := hsource
  exact ⟨LifetimeTable.contains_iff.mp hcontains, Signature.canonical_canonical spelling⟩

/-- A method of the table stands for itself. -/
theorem platformMethod?_of_contains (hcontains : table.contains invoked = true) :
    platformMethod? table h invoked = some (canonical invoked) := if_pos hcontains

/-- What a call stands for stands for itself. -/
theorem platformMethod?_self (hapi : platformMethod? table h invoked = some api) :
    platformMethod? table h api = some api := by
  obtain ⟨hkey, hcanonical⟩ := of_platformMethod?_eq_some hapi
  rw [platformMethod?_of_contains (LifetimeTable.contains_iff.mpr (hcanonical.symm ▸ hkey)),
    hcanonical]

/-- A signature that the table lacks stands for the method of the first ancestor that the
table has the method of. -/
theorem platformMethod?_of_not_contains (hnot : table.contains invoked = false) :
    platformMethod? table h invoked
      = ((h.ancestors (declaringClass invoked)).find? fun p =>
          table.contains (inClass invoked p)).map fun p => canonical (inClass invoked p) := by
  unfold platformMethod?
  rw [hnot, if_neg Bool.false_ne_true, List.find?_map, Option.map_map]
  rfl

/-! ## §2. The nearest ancestor. -/

/-- No ancestor with the property is nearer than the first one that has it. -/
theorem Hierarchy.le_height_of_find? {c p q : String} {P : String → Bool}
    (hfind : (h.ancestors c).find? P = some p) (hq : q ∈ h.ancestors c) (hP : P q = true) :
    h.height c p ≤ h.height c q := by
  obtain ⟨_, before, after, happend, hbefore⟩ := List.find?_eq_some_iff_append.mp hfind
  have hsorted := h.pairwise_ancestors c
  rw [happend, List.pairwise_append] at hsorted
  rw [happend, List.mem_append, List.mem_cons] at hq
  rcases hq with hq | rfl | hq
  · -- those before the first one lack the property
    have hlacks := hbefore q hq
    rw [hP] at hlacks
    cases hlacks
  · exact Nat.le_refl _
  · exact List.rel_of_pairwise_cons hsorted.2.1 hq

/-! ## §3. Overrides. -/

/-- Overrides are the same method in the other classes below its class. -/
theorem mem_overridesOf {subtypes : Subtyping} {callee o : String} :
    o ∈ overridesOf subtypes callee
      ↔ declaringClass callee ≠ "" ∧ ∃ sub ∈ subtypes (declaringClass callee),
          sub ≠ declaringClass callee ∧ inClass callee sub = o := by
  unfold overridesOf
  by_cases hclass : declaringClass callee = ""
  · simp [hclass]
  · simp [hclass, SortedSet.mem_def, and_assoc]

/-- The class of an override has the class of the method among its ancestors. -/
theorem mem_ancestors_of_mem_overridesOf {callee sub : String}
    (hover : inClass callee sub ∈ overridesOf h.subtypes callee) :
    declaringClass callee ≠ "" ∧ declaringClass callee ∈ h.ancestors sub := by
  obtain ⟨hclass, found, hfound, hne, heq⟩ := mem_overridesOf.mp hover
  obtain rfl : found = sub := inClass_injective hclass heq
  exact ⟨hclass, Hierarchy.mem_ancestors.mpr ⟨hne.symm, Hierarchy.mem_subtypes.mp hfound⟩⟩

/-- An override of a method that the table has, in a class whose name has characters and no
colon, stands for a method that the table has too.  The override is in the table itself, or
it inherits the method from an ancestor of its class: no other one that the table has the
method of is nearer, and so neither is the class of the overridden method. -/
theorem overrides_resolve (table : LifetimeTable) (h : Hierarchy) {callee sub : String}
    (hcontains : table.contains callee = true) (hsub : IsClassName sub)
    (hover : inClass callee sub ∈ overridesOf h.subtypes callee) :
    declaringClass (inClass callee sub) = sub
    ∧ ∃ api, platformMethod? table h (inClass callee sub) = some api
      ∧ table.contains api = true
      ∧ ((table.contains (inClass callee sub) = true ∧ api = canonical (inClass callee sub))
        ∨ ∃ p ∈ h.ancestors sub, api = canonical (inClass callee p)
          ∧ (IsClassName p → declaringClass api = canonical p)
          ∧ (∀ q ∈ h.ancestors sub, table.contains (inClass callee q) = true →
              h.height sub p ≤ h.height sub q)
          ∧ declaringClass callee ∈ h.ancestors sub
          ∧ h.height sub p ≤ h.height sub (declaringClass callee)) := by
  obtain ⟨hclass, hancestor⟩ := mem_ancestors_of_mem_overridesOf hover
  have hdeclaring : declaringClass (inClass callee sub) = sub :=
    declaringClass_inClass hclass hsub.not_colon
  refine ⟨hdeclaring, ?_⟩
  cases hown : table.contains (inClass callee sub) with
  | true =>
      refine ⟨canonical (inClass callee sub), platformMethod?_of_contains hown, ?_,
        .inl ⟨rfl, rfl⟩⟩
      rw [table.contains_canonical, hown]
  | false =>
      -- the method of an ancestor is that of the callee, whatever class it is read from
      have hstands := platformMethod?_of_not_contains (h := h) hown
      simp only [hdeclaring, inClass_inClass hsub] at hstands
      have hcallee : table.contains (inClass callee (declaringClass callee)) = true := by
        rw [inClass_declaringClass, hcontains]
      obtain ⟨p, hfind⟩ : ∃ p, (h.ancestors sub).find? (fun p =>
          table.contains (inClass callee p)) = some p :=
        Option.isSome_iff_exists.mp (List.find?_isSome.mpr ⟨_, hancestor, hcallee⟩)
      have hnearest := fun q hq hcontains => Hierarchy.le_height_of_find? (q := q) hfind hq hcontains
      refine ⟨canonical (inClass callee p), by rw [hstands, hfind]; rfl, ?_,
        .inr ⟨p, List.mem_of_find?_eq_some hfind, rfl, declaringClass_canonical_inClass hclass,
          hnearest, hancestor, hnearest _ hancestor hcallee⟩⟩
      rw [table.contains_canonical]
      exact List.find?_some (p := fun p => table.contains (inClass callee p)) hfind

/-- An activity of an application below a class of lists and a class of activities, two
links up, that an interface is above. -/
def activities : Hierarchy :=
  .built [.define "app.Main", .link ⟨"app.Main", "os.List$Activity", .superclass⟩,
    .link ⟨"os.List$Activity", "os.Activity", .superclass⟩,
    .link ⟨"os.Activity", "os.Callback", .interface⟩, .close]

/-- The callback is known of the interface, and also of the lists. -/
def callbacks : LifetimeTable :=
  ((∅ : LifetimeTable).insert "<os.Callback: void on()>" (.known 1) (.known 34)).insert
    "<os.List.Activity: void on()>" (.known 3) .unknown

/-- The callback of the application is that of the lists, the nearest ancestor with one. -/
theorem platformMethod?_activities :
    callbacks.contains "<app.Main: void on()>" = false
    ∧ platformMethod? callbacks activities "<app.Main: void on()>"
        = some "<os.List.Activity: void on()>" := by
  have hown : callbacks.contains "<app.Main: void on()>" = false := by decide +kernel
  have hancestors : activities.ancestors (declaringClass "<app.Main: void on()>")
      = ["os.List$Activity", "os.Activity", "os.Callback", objectClass] := by
    decide +kernel
  have hcanonical : canonical (inClass "<app.Main: void on()>" "os.List$Activity")
      = "<os.List.Activity: void on()>" := by
    decide +kernel
  have hlists : callbacks.contains (inClass "<app.Main: void on()>" "os.List$Activity") = true := by
    rw [← LifetimeTable.contains_canonical, hcanonical]
    decide +kernel
  have hfind := List.find?_cons_of_pos (l := ["os.Activity", "os.Callback", objectClass])
    (p := fun p => callbacks.contains (inClass "<app.Main: void on()>" p)) hlists
  refine ⟨hown, ?_⟩
  rw [platformMethod?_of_not_contains hown, hancestors, hfind, Option.map_some, hcanonical]

/-- The override of the callback in the application is not in the table, and it inherits the
callback from the lists, two links nearer than the interface. -/
theorem overrides_resolve_callback :
    callbacks.contains "<os.Callback: void on()>" = true
    ∧ IsClassName "app.Main"
    ∧ inClass "<os.Callback: void on()>" "app.Main" = "<app.Main: void on()>"
    ∧ "<app.Main: void on()>" ∈ overridesOf activities.subtypes "<os.Callback: void on()>"
    ∧ callbacks.contains "<app.Main: void on()>" = false
    ∧ platformMethod? callbacks activities "<app.Main: void on()>"
        = some "<os.List.Activity: void on()>"
    ∧ ∃ p ∈ activities.ancestors "app.Main",
        "<os.List.Activity: void on()>" = canonical (inClass "<os.Callback: void on()>" p)
        ∧ activities.height "app.Main" p ≤ activities.height "app.Main" "os.Callback" := by
  have hcontains : callbacks.contains "<os.Callback: void on()>" = true := by decide +kernel
  have hsub : IsClassName "app.Main" := ⟨by decide, by decide⟩
  have hinherits : inClass "<os.Callback: void on()>" "app.Main" = "<app.Main: void on()>" := by
    decide +kernel
  have hclass : declaringClass "<os.Callback: void on()>" = "os.Callback" := by decide +kernel
  have hover : inClass "<os.Callback: void on()>" "app.Main"
      ∈ overridesOf activities.subtypes "<os.Callback: void on()>" := by
    decide +kernel
  obtain ⟨hown, hapi⟩ := platformMethod?_activities
  obtain ⟨_, api, hstands, _, hwhence⟩ :=
    overrides_resolve callbacks activities hcontains hsub hover
  rw [hinherits] at hover hstands hwhence
  obtain rfl : "<os.List.Activity: void on()>" = api := Option.some.inj (hapi.symm.trans hstands)
  rw [hown, hclass] at hwhence
  obtain ⟨hfalse, _⟩ | ⟨p, hp, heq, _, _, _, hle⟩ := hwhence
  · cases hfalse
  · exact ⟨hcontains, hsub, hinherits, hover, hown, hapi, p, hp, heq, hle⟩

/-! ## §4. What calls stand for. -/

/-- A signature stands for no method just if the table has neither the one that it names
nor that of any ancestor of its class. -/
theorem platformMethod?_eq_none_iff :
    platformMethod? table h invoked = none
      ↔ table.contains invoked = false
        ∧ ∀ p ∈ h.ancestors (declaringClass invoked),
            table.contains (inClass invoked p) = false := by
  cases hown : table.contains invoked with
  | true => simp [platformMethod?_of_contains hown]
  | false =>
      rw [platformMethod?_of_not_contains hown, Option.map_eq_none_iff, List.find?_eq_none]
      simp

/-- What a signature that the table lacks stands for is the method of an ancestor of its
class, and the table has the method of no nearer one. -/
theorem exists_nearest_of_platformMethod? (hown : table.contains invoked = false)
    (hapi : platformMethod? table h invoked = some api) :
    ∃ p ∈ h.ancestors (declaringClass invoked),
      table.contains (inClass invoked p) = true ∧ api = canonical (inClass invoked p)
      ∧ ∀ q ∈ h.ancestors (declaringClass invoked), table.contains (inClass invoked q) = true →
          h.height (declaringClass invoked) p ≤ h.height (declaringClass invoked) q := by
  rw [platformMethod?_of_not_contains hown] at hapi
  obtain ⟨p, hfind, hcanonical⟩ := Option.map_eq_some_iff.mp hapi
  have hcontains := List.find?_some (p := fun p => table.contains (inClass invoked p)) hfind
  refine ⟨p, List.mem_of_find?_eq_some hfind, hcontains, hcanonical.symm, ?_⟩
  intro q hq hhas
  exact Hierarchy.le_height_of_find? hfind hq hhas

/-- In any hierarchy that operations build a signature, well formed or not, stands for no
method just if the table has neither this signature nor the one that any ancestor of its
class would have in its place.

What it stands for is a key of the table without a dollar sign and stands for itself.  It is
the canonical spelling of the signature if the table has this one, and else that of the
signature in an ancestor of its class; no ancestor to which fewer links lead is the class of
a method of the table. -/
theorem resolution_exact (table : LifetimeTable) (ops : List Hierarchy.Operation)
    (invoked : String) :
    (platformMethod? table (.built ops) invoked = none
      ↔ table.contains invoked = false
        ∧ ∀ p ∈ (Hierarchy.built ops).ancestors (declaringClass invoked),
            table.contains (inClass invoked p) = false)
    ∧ ∀ api, platformMethod? table (.built ops) invoked = some api →
        api ∈ table.entries.keys ∧ '$' ∉ api.toList
        ∧ platformMethod? table (.built ops) api = some api
        ∧ (table.contains invoked = true → api = canonical invoked)
        ∧ (table.contains invoked = false →
            ∃ p ∈ (Hierarchy.built ops).ancestors (declaringClass invoked),
              api = canonical (inClass invoked p) ∧ table.contains (inClass invoked p) = true
              ∧ ∃ n, IsLeast {n | (Hierarchy.built ops).Climbs n (declaringClass invoked) p} n
                ∧ ∀ q ∈ (Hierarchy.built ops).ancestors (declaringClass invoked),
                    (∃ m < n, (Hierarchy.built ops).Climbs m (declaringClass invoked) q) →
                      table.contains (inClass invoked q) = false) := by
  refine ⟨platformMethod?_eq_none_iff, fun api hapi => ?_⟩
  obtain ⟨hkey, hcanonical⟩ := of_platformMethod?_eq_some hapi
  have hdollar : '$' ∉ api.toList := hcanonical ▸ dollar_not_mem_canonical api
  refine ⟨hkey, hdollar, platformMethod?_self hapi, fun hown => ?_, fun hown => ?_⟩
  · rw [platformMethod?_of_contains hown] at hapi
    exact (Option.some.inj hapi).symm
  · obtain ⟨p, hp, hcontains, hspelling, hnearest⟩ := exists_nearest_of_platformMethod? hown hapi
    refine ⟨p, hp, hspelling, hcontains, _, Hierarchy.isLeast_height hp, ?_⟩
    intro q hq hnearer
    obtain ⟨m, hm, hclimbs⟩ := hnearer
    -- an ancestor of which the table had the method would not be nearer
    by_contra hhas
    have hle := hnearest q hq (by simpa using hhas)
    have hheight := (Hierarchy.isLeast_height hq).2 hclimbs
    omega

/-- The callback of the application is that of the lists, one link up, and not that of the
interface, which the table has as well.  A signature without a class stands for nothing. -/
theorem resolution_exact_activities :
    platformMethod? callbacks activities "<app.Main: void on()>"
      = some "<os.List.Activity: void on()>"
    ∧ callbacks.contains "<app.Main: void on()>" = false
    ∧ "<os.List.Activity: void on()>" ∈ callbacks.entries.keys
    ∧ platformMethod? callbacks activities "<os.List.Activity: void on()>"
      = some "<os.List.Activity: void on()>"
    ∧ (∃ p ∈ activities.ancestors "app.Main",
        "<os.List.Activity: void on()>" = canonical (inClass "<app.Main: void on()>" p))
    ∧ "os.Callback" ∈ activities.ancestors "app.Main"
    ∧ callbacks.contains (inClass "<app.Main: void on()>" "os.Callback") = true
    ∧ platformMethod? callbacks activities "app.Main: void on()" = none := by
  obtain ⟨hown, hapi⟩ := platformMethod?_activities
  have hclass : declaringClass "<app.Main: void on()>" = "app.Main" := by decide +kernel
  obtain ⟨hkey, _, hself, _, hinherits⟩ := (resolution_exact callbacks _ _).2 _ hapi
  obtain ⟨p, hp, hspelling, _⟩ := hinherits hown
  rw [hclass] at hp
  refine ⟨hapi, hown, hkey, hself, ⟨p, hp, hspelling⟩, by decide +kernel, by decide +kernel, ?_⟩
  refine (resolution_exact callbacks _ _).1.mpr ⟨by decide +kernel, fun p hp => ?_⟩
  -- without a class the signature is the same in all of them
  rw [inClass_of_eq_empty (by decide +kernel)]
  decide +kernel

end ApiGuard
