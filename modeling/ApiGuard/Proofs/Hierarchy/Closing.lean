/-
  ApiGuard.Proofs.Hierarchy.Closing
  ─────────────────────────────────
  Hierarchies that are closed.

  To close a hierarchy puts the classes without a parent below the one above all others.  A
  chain of links that uses one of the new links comes by this class, so nothing else is
  gained above any class than this one and what is above it.  Without circles every class
  has a highest class above it, and that class is put below the one above all:

      close_close             to close again changes nothing
      climbs_close            new chains come by the class above all
      IsAcyclic.wellFounded   without circles chains end
      IsAcyclic.climbs_close  and so all of them lead on to the class above all
      closing_exact           all of this for a hierarchy that operations build
-/
import ApiGuard.Proofs.Hierarchy.Ancestry
import Mathlib.Data.Fintype.EquivFin
import Mathlib.Order.WellFounded

namespace ApiGuard.Hierarchy

variable {h h' : Hierarchy} {c p : String} {n : Nat}

/-! ## §1. Closed hierarchies. -/

theorem eq_of_classes_of_links (hclasses : h.classes = h'.classes) (hlinks : h.links = h'.links) :
    h = h' := by
  cases h
  cases h'
  cases hclasses
  cases hlinks
  rfl

theorem mem_names_close : p ∈ h.close.names ↔ p ∈ h.names ∨ p = objectClass :=
  mem_names_declare

/-- After closing a class has a parent, unless it is the one above all others. -/
theorem exists_isLinked_close (hc : c ∈ h.close.names) (hne : c ≠ objectClass) :
    ∃ p, h.close.IsLinked c p := by
  by_cases hparent : ∃ p, h.IsLinked c p
  · obtain ⟨p, hlink⟩ := hparent
    exact ⟨p, isLinked_close.mpr (.inl hlink)⟩
  · -- an orphan, which is adopted
    have hname : c ∈ h.names := (mem_names_close.mp hc).resolve_right hne
    exact ⟨objectClass, isLinked_close.mpr (.inr ⟨hname, not_exists.mp hparent, hne, rfl⟩)⟩

/-- The new links lead from the orphans to the class above all others. -/
theorem exists_links_close (h : Hierarchy) :
    ∃ added, h.close.links = h.links ++ added
      ∧ ∀ l, l ∈ added ↔ l.parent = objectClass ∧ l.kind = .superclass
          ∧ l.child ∈ h.names ∧ (∀ p, ¬ h.IsLinked l.child p) ∧ l.child ≠ objectClass := by
  refine ⟨_, rfl, fun l => ?_⟩
  simp only [List.mem_map, mem_orphans_declare]
  constructor
  · intro hadded
    obtain ⟨c, horphan, rfl⟩ := hadded
    exact ⟨rfl, rfl, horphan⟩
  · intro hadded
    obtain ⟨hparent, hkind, horphan⟩ := hadded
    refine ⟨l.child, horphan, ?_⟩
    rw [← hparent, ← hkind]

/-- A class that is known and comes up again changes nothing. -/
theorem enter_of_mem {name : String} {classes : List ClassEntry}
    (hmem : name ∈ classes.map (·.name)) : enter name false classes = classes := by
  unfold enter
  rw [if_pos hmem]
  conv_rhs => rw [← List.map_id classes]
  refine List.map_congr_left fun e _ => ?_
  split
  next => rw [Bool.or_false]; rfl
  next => rfl

/-- Where all classes but the one above all others have parents, there is nothing to close. -/
theorem close_eq_self (hobject : objectClass ∈ h.names)
    (hparents : ∀ c ∈ h.names, c ≠ objectClass → ∃ p, h.IsLinked c p) : h.close = h := by
  obtain ⟨added, hlinks, hadded⟩ := exists_links_close h
  have hnone : added = [] := by
    refine List.eq_nil_iff_forall_not_mem.mpr fun l hl => ?_
    obtain ⟨_, _, hname, hnone, hne⟩ := (hadded l).mp hl
    obtain ⟨p, hlink⟩ := hparents _ hname hne
    exact hnone p hlink
  refine eq_of_classes_of_links (enter_of_mem hobject) ?_
  rw [hlinks, hnone, List.append_nil]

theorem close_close (h : Hierarchy) : h.close.close = h.close :=
  close_eq_self (mem_names_close.mpr (.inr rfl)) fun _ hc hne => exists_isLinked_close hc hne

/-! ## §2. Chains after closing. -/

/-- A chain after closing is one from before, or it comes by the class above all others. -/
theorem climbs_close :
    ∀ {p : String}, h.close.Climbs n c p →
      h.Climbs n c p ∨ ∃ m, h.close.Climbs m objectClass p := by
  induction n with
  | zero => exact .inl
  | succ n ih =>
      intro p hclimbs
      obtain ⟨next, hrest, hlink⟩ := hclimbs
      rcases isLinked_close.mp hlink with hold | ⟨_, _, _, rfl⟩
      · rcases ih hrest with hrest | ⟨m, hobject⟩
        · exact .inl ⟨next, hrest, hold⟩
        · exact .inr ⟨m + 1, next, hobject, hlink⟩
      · -- the last link is a new one
        exact .inr ⟨0, rfl⟩

theorem mem_ancestors_close_of_mem (hp : p ∈ h.ancestors c) : p ∈ h.close.ancestors c := by
  obtain ⟨hne, n, hclimbs⟩ := mem_ancestors.mp hp
  have hkept : ∀ c p, h.IsLinked c p → h.close.IsLinked c p :=
    fun c p hlink => isLinked_close.mpr (.inl hlink)
  exact mem_ancestors.mpr ⟨hne, n, climbs_mono hkept hclimbs⟩

/-- The ancestors gained are the class above all others and its own ancestors. -/
theorem mem_ancestors_of_mem_close (hp : p ∈ h.close.ancestors c) :
    p ∈ h.ancestors c ∨ p = objectClass ∨ p ∈ h.close.ancestors objectClass := by
  obtain ⟨hne, n, hclimbs⟩ := mem_ancestors.mp hp
  rcases climbs_close hclimbs with hold | ⟨m, hobject⟩
  · exact .inl (mem_ancestors.mpr ⟨hne, n, hold⟩)
  · by_cases heq : p = objectClass
    · exact .inr (.inl heq)
    · exact .inr (.inr (mem_ancestors.mpr ⟨heq, m, hobject⟩))

/-! ## §3. Without circles. -/

/-- No chain of links leads from a class back to it. -/
def IsAcyclic (h : Hierarchy) : Prop := ∀ c n, ¬ h.Climbs (n + 1) c c

/-- Without circles no class has classes above it without end. -/
theorem IsAcyclic.wellFounded (hacyclic : h.IsAcyclic) :
    WellFounded fun p c : { name // name ∈ h.names } => h.IsLinked c.1 p.1 := by
  -- there are only so many classes, and being above is transitive
  have : IsTrans { name // name ∈ h.names } fun p c => ∃ n, h.Climbs (n + 1) c.1 p.1 := by
    refine ⟨fun p next c hlast hfirst => ?_⟩
    obtain ⟨n, hlast⟩ := hlast
    obtain ⟨m, hfirst⟩ := hfirst
    exact ⟨m + 1 + n, climbs_trans hfirst hlast⟩
  have : Std.Irrefl fun p c : { name // name ∈ h.names } => ∃ n, h.Climbs (n + 1) c.1 p.1 := by
    refine ⟨fun c hcircle => ?_⟩
    obtain ⟨n, hclimbs⟩ := hcircle
    exact hacyclic c.1 n hclimbs
  refine Subrelation.wf ?_ (Finite.wellFounded_of_trans_of_irrefl
    fun p c : { name // name ∈ h.names } => ∃ n, h.Climbs (n + 1) c.1 p.1)
  intro p c hlink
  exact ⟨0, c.1, rfl, hlink⟩

/-- Without circles a chain leads from each class to the one above all others, by way of the
highest class above it. -/
theorem IsAcyclic.climbs_close (hacyclic : h.IsAcyclic) (hc : c ∈ h.close.names) :
    ∃ n, h.close.Climbs n c objectClass := by
  by_cases heq : c = objectClass
  · exact ⟨0, heq⟩
  have hname : c ∈ h.names := (mem_names_close.mp hc).resolve_right heq
  suffices hknown : ∀ c : { name // name ∈ h.names }, ∃ n, h.close.Climbs n c.1 objectClass from
    hknown ⟨c, hname⟩
  intro c
  induction c using hacyclic.wellFounded.induction with
  | _ c ih =>
      by_cases heq : c.1 = objectClass
      · exact ⟨0, heq⟩
      by_cases hparent : ∃ p, h.IsLinked c.1 p
      · obtain ⟨p, hlink⟩ := hparent
        obtain ⟨n, hclimbs⟩ := ih ⟨p, (mem_names_of_isLinked hlink).2⟩ hlink
        exact ⟨n + 1, climbs_succ_iff.mpr ⟨p, isLinked_close.mpr (.inl hlink), hclimbs⟩⟩
      · -- the highest class gets the one above all others as its parent
        refine ⟨1, c.1, rfl, isLinked_close.mpr (.inr ?_)⟩
        exact ⟨c.2, not_exists.mp hparent, heq, rfl⟩

/-! ## §4. Insertions that fail. -/

/-- An insertion fails just for a class that is not known. -/
theorem link_eq_error_iff {l : Link} {e : HierarchyError} :
    h.link l = .error e ↔ l.child ∉ h.names ∧ e = .classNotFound l.child := by
  by_cases hc : l.child ∈ h.names
  · simp [link_of_mem hc, hc]
  · simp [link_of_not_mem hc, hc, eq_comm]

/-- An insertion that fails leaves the hierarchy as it was: the parent does not come up. -/
theorem tryLink_of_link_eq_error {l : Link} {e : HierarchyError} (herror : h.link l = .error e) :
    h.tryLink l = (h, .error e) := by
  obtain ⟨hunknown, rfl⟩ := link_eq_error_iff.mp herror
  exact tryLink_of_not_mem hunknown

/-! ## §5. Closing. -/

/-- To close a hierarchy that operations have built makes the class above all others known,
and no other class is left without a parent; to close it again changes nothing.  The links
stay as they are, and the new ones lead from the classes without a parent to that class.

If no links made a circle before, that class is above all others afterwards.  In any case
what a class has gained above it is that class and what is above it now, and nothing is
lost.  An insertion fails just for a class that is not known, and then nothing changes. -/
theorem closing_exact (ops : List Operation) :
    (∀ c, c ∈ (built ops).close.names ↔ c ∈ (built ops).names ∨ c = objectClass)
    ∧ (∀ c ∈ (built ops).close.names, c ≠ objectClass → ∃ p, (built ops).close.IsLinked c p)
    ∧ built (ops ++ [.close, .close]) = built (ops ++ [.close])
    ∧ (∃ added, (built ops).close.links = (built ops).links ++ added
        ∧ ∀ l, l ∈ added ↔ l.parent = objectClass ∧ l.kind = .superclass
            ∧ l.child ∈ (built ops).names ∧ (∀ p, ¬ (built ops).IsLinked l.child p)
            ∧ l.child ≠ objectClass)
    ∧ ((built ops).IsAcyclic → ∀ c ∈ (built ops).close.names, c ≠ objectClass →
        objectClass ∈ (built ops).close.ancestors c)
    ∧ (∀ c, ∀ p ∈ (built ops).ancestors c, p ∈ (built ops).close.ancestors c)
    ∧ (∀ c, ∀ p ∈ (built ops).close.ancestors c,
        p ∈ (built ops).ancestors c ∨ p = objectClass
          ∨ p ∈ (built ops).close.ancestors objectClass)
    ∧ ∀ l e, ((built ops).link l = .error e
          ↔ l.child ∉ (built ops).names ∧ e = .classNotFound l.child)
        ∧ ((built ops).link l = .error e → built (ops ++ [.link l]) = built ops) := by
  refine ⟨fun c => mem_names_close, fun c hc hne => exists_isLinked_close hc hne, ?_,
    exists_links_close _, fun hacyclic c hc hne => ?_, fun c p => mem_ancestors_close_of_mem,
    fun c p => mem_ancestors_of_mem_close, fun l e => ⟨link_eq_error_iff, fun herror => ?_⟩⟩
  · rw [List.append_cons, built_concat, built_concat]
    exact close_close _
  · exact mem_ancestors.mpr ⟨Ne.symm hne, hacyclic.climbs_close hc⟩
  · rw [built_concat, apply, tryLink_of_link_eq_error herror]

/-- Links up a numbering of the classes make no circles. -/
theorem isAcyclic_of_rank (rank : String → Nat)
    (hrank : ∀ l ∈ h.links, rank l.child < rank l.parent) : h.IsAcyclic := by
  have hclimbs : ∀ c n p, h.Climbs n c p → rank c + n ≤ rank p := by
    intro c n
    induction n with
    | zero =>
        intro p heq
        exact Nat.le_of_eq (congrArg rank heq)
    | succ n ih =>
        intro p hclimbs
        obtain ⟨next, hrest, l, hl, rfl, rfl⟩ := hclimbs
        have hle := ih l.child hrest
        have hlt := hrank l hl
        omega
  intro c n hcircle
  have hle := hclimbs c (n + 1) c hcircle
  omega

/-- A class that is known as a parent only, a first closing, and then a class above the one
above all others and a class of its own. -/
def rootOperations : List Operation :=
  [.define "app.Main", .link ⟨"app.Main", "app.Base", .superclass⟩, .close,
    .link ⟨objectClass, "java.lang.Root", .interface⟩, .define "app.Other"]

/-- When this hierarchy is closed again, the class of its own gains the class above all others
and the one above that, which makes a circle with it. -/
theorem closing_exact_root :
    (built rootOperations).IsAcyclic
    ∧ "app.Other" ∈ (built rootOperations).close.names
    ∧ "app.Other" ≠ objectClass
    ∧ objectClass ∈ (built rootOperations).close.ancestors "app.Other"
    ∧ "java.lang.Root" ∉ (built rootOperations).ancestors "app.Other"
    ∧ "java.lang.Root" ∈ (built rootOperations).close.ancestors objectClass
    ∧ (∃ p, (built rootOperations).close.IsLinked "java.lang.Root" p)
    ∧ "app.Base" ∈ (built rootOperations).close.ancestors "app.Main"
    ∧ (built rootOperations).link ⟨"app.Missing", "app.Base", .superclass⟩
        = .error (.classNotFound "app.Missing")
    ∧ built (rootOperations ++ [.link ⟨"app.Missing", "app.Base", .superclass⟩])
        = built rootOperations := by
  -- parents come up after their children here
  have hacyclic : (built rootOperations).IsAcyclic :=
    isAcyclic_of_rank (built rootOperations).names.idxOf (by decide +kernel)
  have hnames : ∀ c ∈ ["app.Other", "java.lang.Root"],
      c ∈ (built rootOperations).close.names ∧ c ≠ objectClass := by
    decide +kernel
  have hbase : "app.Base" ∈ (built rootOperations).ancestors "app.Main" := by decide +kernel
  have hnot : "java.lang.Root" ∉ (built rootOperations).ancestors "app.Other" := by decide +kernel
  have hroot : "java.lang.Root" ∈ (built rootOperations).close.ancestors "app.Other" := by
    decide +kernel
  obtain ⟨_, hparents, _, _, habove, hkept, hgained, hfails⟩ := closing_exact rootOperations
  obtain ⟨hother, hne⟩ := hnames "app.Other" (by decide)
  obtain ⟨hrootname, hrootne⟩ := hnames "java.lang.Root" (by decide)
  obtain ⟨herror, hsame⟩ := hfails ⟨"app.Missing", "app.Base", .superclass⟩
    (.classNotFound "app.Missing")
  have hmissing := herror.mpr ⟨by decide +kernel, rfl⟩
  refine ⟨hacyclic, hother, hne, habove hacyclic _ hother hne, hnot, ?_,
    hparents _ hrootname hrootne, hkept _ _ hbase, hmissing, hsame hmissing⟩
  exact ((hgained _ _ hroot).resolve_left hnot).resolve_left hrootne

end ApiGuard.Hierarchy
