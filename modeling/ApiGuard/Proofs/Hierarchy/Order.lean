/-
  ApiGuard.Proofs.Hierarchy.Order
  ───────────────────────────────
  The order in which the ancestors of a class are listed.

  An ancestor is found from the first class, starting with the class itself, that has it as
  a parent.  Ancestors come in the order of the classes that they are found from, and those
  found from the same class come as its parents do, superclasses before interfaces.  So
  superclasses come before interfaces among the parents of one class, but not among all
  ancestors at the same height:

      comesBefore_parents       the order of the parents of a class
      comesBefore_ancestors     the order of ancestors, by the links that find them
      Finds.nears               the link that finds an ancestor comes from the height below
      ancestors_order           all of this for a hierarchy that operations build
-/
import ApiGuard.Proofs.Hierarchy.Ancestry
import ApiGuard.Proofs.Search.Order

namespace ApiGuard.Hierarchy

variable {h : Hierarchy} {c p : String} {l l' : Link}

/-! ## §1. Parents. -/

theorem link_ext (hl : l ∈ h.links) (hl' : l' ∈ h.links) (hchild : l.child = l'.child)
    (hparent : l.parent = l'.parent) : l = l' :=
  List.inj_on_of_nodup_map h.ends_nodup hl hl' (Prod.ext hchild hparent)

/-- Of two links of one class the first leads to the earlier parent: superclasses come before
interfaces, and parents of one kind in the order in which their names came up. -/
def Outranks (h : Hierarchy) (l l' : Link) : Prop :=
  (l.kind = .superclass ∧ l'.kind = .interface)
    ∨ (l.kind = l'.kind ∧ ComesBefore h.names l.parent l'.parent)

/-- Is the class joined to the parent by a link of this kind? -/
def joins (h : Hierarchy) (c : String) (kind : Inheritance) (p : String) : Bool :=
  (h.links.filter (·.child == c)).any fun l => l.kind = kind && l.parent = p

theorem joins_iff (hl : l ∈ h.links) {kind : Inheritance} :
    h.joins l.child kind l.parent = true ↔ l.kind = kind := by
  unfold joins
  rw [List.any_eq_true]
  constructor
  · intro hjoins
    obtain ⟨k, hk, hends⟩ := hjoins
    obtain ⟨hk, hchild⟩ := List.mem_filter.mp hk
    simp only [Bool.and_eq_true, decide_eq_true_eq] at hends
    -- no other link joins these classes
    rw [← link_ext hk hl (by simpa using hchild) hends.2]
    exact hends.1
  · intro hkind
    exact ⟨l, List.mem_filter.mpr ⟨hl, by simp⟩, by simp [hkind]⟩

theorem parents_eq (h : Hierarchy) (c : String) :
    h.parents c
      = h.names.filter (h.joins c .superclass) ++ h.names.filter (h.joins c .interface) := rfl

/-- The parents of a class come in the order of its links. -/
theorem comesBefore_parents (hl : l ∈ h.links) (hl' : l' ∈ h.links)
    (hchild : l.child = l'.child) :
    ComesBefore (h.parents l.child) l.parent l'.parent ↔ h.Outranks l l' := by
  have hname : l.parent ∈ h.names := (h.link_known l hl).2
  have hname' : l'.parent ∈ h.names := (h.link_known l' hl').2
  have hjoins : ∀ kind, h.joins l.child kind l.parent = true ↔ l.kind = kind :=
    fun kind => joins_iff hl
  have hjoins' : ∀ kind, h.joins l.child kind l'.parent = true ↔ l'.kind = kind :=
    fun kind => hchild ▸ joins_iff hl'
  unfold Outranks
  rw [parents_eq, comesBefore_append]
  simp only [List.mem_filter, hname, hname', true_and, hjoins, hjoins']
  cases hkind : l.kind with
  | superclass =>
      cases hkind' : l'.kind with
      | superclass =>
          rw [comesBefore_filter ((hjoins _).mpr hkind) ((hjoins' _).mpr hkind')]
          simp
      | interface => simp
  | interface =>
      cases hkind' : l'.kind with
      | superclass => simp
      | interface =>
          rw [comesBefore_filter ((hjoins _).mpr hkind) ((hjoins' _).mpr hkind')]
          simp

/-! ## §2. Where ancestors are found from. -/

/-- A class and its ancestors as they are listed. -/
def lineage (h : Hierarchy) (c : String) : List String := c :: h.ancestors c

/-- The first of a class and its ancestors that has the given parent. -/
def finder? (h : Hierarchy) (c p : String) : Option String :=
  (h.lineage c).find? (p ∈ h.parents ·)

/-- An ancestor of the class is found by this link. -/
def Finds (h : Hierarchy) (c : String) (l : Link) : Prop :=
  l ∈ h.links ∧ h.finder? c l.parent = some l.child

instance (c : String) (l : Link) : Decidable (h.Finds c l) :=
  inferInstanceAs (Decidable (_ ∧ _))

theorem mem_lineage : p ∈ h.lineage c ↔ p = c ∨ p ∈ h.ancestors c := List.mem_cons

theorem ne_of_mem_ancestors (hp : p ∈ h.ancestors c) : p ≠ c := (mem_ancestors.mp hp).1

/-- A class that has ancestors is known, so that the search from it finds itself and them. -/
theorem search_eq_lineage (hp : p ∈ h.ancestors c) :
    Search.search h.parents h.names [c] = h.lineage c := by
  refine search_eq_cons_ancestors ?_
  by_contra hc
  rw [ancestors_of_not_mem hc] at hp
  cases hp

theorem mem_search_of_mem_ancestors (hp : p ∈ h.ancestors c) :
    p ∈ Search.search h.parents h.names [c] ∧ p ∉ [c] := by
  rw [search_eq_lineage hp]
  exact ⟨mem_lineage.mpr (.inr hp), by simpa using ne_of_mem_ancestors hp⟩

/-- Each ancestor is found by a link. -/
theorem exists_finds (hp : p ∈ h.ancestors c) : ∃ l, h.Finds c l ∧ l.parent = p := by
  obtain ⟨hmem, hstart⟩ := mem_search_of_mem_ancestors hp
  obtain ⟨q, hq⟩ := Search.exists_find?_of_mem_search hmem hstart
  have hparent : p ∈ h.parents q := by simpa using List.find?_some hq
  obtain ⟨l, hl, rfl, rfl⟩ := mem_parents.mp hparent
  rw [search_eq_lineage hp] at hq
  exact ⟨l, ⟨hl, hq⟩, rfl⟩

/-- The parents of the class itself are found by its own links. -/
theorem finds_of_child_eq (hl : l ∈ h.links) (hchild : l.child = c) : h.Finds c l := by
  subst hchild
  refine ⟨hl, List.find?_cons_of_pos ?_⟩
  simpa using mem_parents.mpr ⟨l, hl, rfl, rfl⟩

/-- It is found by no other one. -/
theorem Finds.unique (hfinds : h.Finds c l) (hfinds' : h.Finds c l')
    (hparent : l.parent = l'.parent) : l = l' := by
  have hchild : some l.child = some l'.child := by
    rw [← hfinds.2, ← hfinds'.2, hparent]
  exact link_ext hfinds.1 hfinds'.1 (Option.some.inj hchild) hparent

theorem Finds.child_mem (hfinds : h.Finds c l) : l.child ∈ h.lineage c :=
  List.mem_of_find?_eq_some hfinds.2

/-- No other class with this parent comes before the one from which it is found. -/
theorem Finds.not_comesBefore (hfinds : h.Finds c l) (hl' : l' ∈ h.links)
    (hparent : l'.parent = l.parent) : ¬ ComesBefore (h.lineage c) l'.child l.child := by
  have hup : l.parent ∈ h.parents l'.child := mem_parents.mpr ⟨l', hl', rfl, hparent⟩
  exact not_comesBefore_of_find? hfinds.2 (by simpa using hup)

/-- Ancestors come in the order of the classes that they are found from, and of the links of
the same class. -/
theorem comesBefore_ancestors (hfinds : h.Finds c l) (hfinds' : h.Finds c l')
    (hp : l.parent ∈ h.ancestors c) (hp' : l'.parent ∈ h.ancestors c) :
    ComesBefore (h.ancestors c) l.parent l'.parent
      ↔ ComesBefore (h.lineage c) l.child l'.child
        ∨ (l.child = l'.child ∧ h.Outranks l l') := by
  have hne := ne_of_mem_ancestors hp
  have hne' := ne_of_mem_ancestors hp'
  -- the class itself, which the search starts from, is none of the two
  have htail : ComesBefore (h.lineage c) l.parent l'.parent
      ↔ ComesBefore (h.ancestors c) l.parent l'.parent := by
    unfold lineage
    rw [comesBefore_cons]
    simp [hne, hne']
  obtain ⟨hmem, hstart⟩ := mem_search_of_mem_ancestors hp
  obtain ⟨hmem', hstart'⟩ := mem_search_of_mem_ancestors hp'
  obtain ⟨hl, hfind⟩ := hfinds
  obtain ⟨hl', hfind'⟩ := hfinds'
  unfold finder? at hfind hfind'
  rw [← search_eq_lineage hp] at hfind hfind'
  have hlaw := Search.comesBefore_search hmem hmem' hstart hstart' hfind hfind'
  rw [search_eq_lineage hp] at hlaw
  rw [← htail, hlaw]
  refine or_congr_right (and_congr_right fun hchild => ?_)
  exact comesBefore_parents hl hl' hchild

/-! ## §3. Heights. -/

theorem height_self (h : Hierarchy) (c : String) : h.height c c = 0 :=
  Nat.le_zero.mp (Nat.sInf_le rfl)

theorem isLeast_height_of_mem_lineage (hp : p ∈ h.lineage c) :
    IsLeast {n | h.Climbs n c p} (h.height c p) := by
  rcases mem_lineage.mp hp with rfl | hp
  · rw [height_self]
    exact ⟨rfl, fun n _ => Nat.zero_le n⟩
  · exact isLeast_height hp

theorem height_le_of_not_comesBefore {q : String} (hp : p ∈ h.lineage c)
    (hq : q ∈ h.lineage c) (hnot : ¬ ComesBefore (h.lineage c) q p) :
    h.height c p ≤ h.height c q := by
  have hsorted : (h.lineage c).Pairwise fun p q => h.height c p ≤ h.height c q := by
    refine List.pairwise_cons.mpr ⟨fun q _ => ?_, h.pairwise_ancestors c⟩
    rw [height_self]
    exact Nat.zero_le _
  rcases eq_or_comesBefore hp hnot with rfl | hbefore
  · exact Nat.le_refl _
  · exact rel_of_comesBefore (R := fun p q => h.height c p ≤ h.height c q) hsorted hq hbefore

/-- The link leads up from the height just below its parent. -/
def Nears (h : Hierarchy) (c : String) (l : Link) : Prop :=
  l.child ∈ h.lineage c ∧ h.height c l.child + 1 = h.height c l.parent

/-- The link that finds an ancestor leads up from the height just below it. -/
theorem Finds.nears (hfinds : h.Finds c l) (hp : l.parent ∈ h.ancestors c) : h.Nears c l := by
  refine ⟨hfinds.child_mem, Nat.le_antisymm ?_ ?_⟩
  · -- a shortest chain to the ancestor has a last link
    obtain ⟨hclimbs, _⟩ := isLeast_height hp
    cases hheight : h.height c l.parent with
    | zero =>
        rw [hheight] at hclimbs
        exact absurd hclimbs.symm (ne_of_mem_ancestors hp)
    | succ n =>
        rw [hheight] at hclimbs
        obtain ⟨next, hnext, k, hk, rfl, hparent⟩ := hclimbs
        have hmem : k.child ∈ h.lineage c := by
          by_cases heq : k.child = c
          · exact mem_lineage.mpr (.inl heq)
          · exact mem_lineage.mpr (.inr (mem_ancestors.mpr ⟨heq, n, hnext⟩))
        have hle := height_le_of_not_comesBefore hfinds.child_mem hmem
          (hfinds.not_comesBefore hk hparent)
        have hleast := (isLeast_height_of_mem_lineage hmem).2 hnext
        omega
  · have hchild := (isLeast_height_of_mem_lineage hfinds.child_mem).1
    exact (isLeast_height hp).2 ⟨l.child, hchild, l, hfinds.1, rfl, rfl⟩

/-! ## §4. Superclasses and interfaces. -/

/-- Of two ancestors at the same height, the one that is the superclass of a class at the
height below comes first if the other is only an interface of classes there. -/
def ListsSuperclassesFirst (h : Hierarchy) (c : String) : Prop :=
  ∀ p ∈ h.ancestors c, ∀ p' ∈ h.ancestors c, h.height c p = h.height c p' →
    (∃ l ∈ h.links, l.parent = p ∧ h.Nears c l ∧ l.kind = .superclass) →
    (∀ l ∈ h.links, l.parent = p' → h.Nears c l → l.kind = .interface) →
    ComesBefore (h.ancestors c) p p'

/-- A superclass comes before an interface if no class that has the interface comes before
the one whose superclass it is. -/
theorem comesBefore_of_superclass {p' : String} (hl : l ∈ h.links)
    (hp : l.parent ∈ h.ancestors c) (hp' : p' ∈ h.ancestors c) (hkind : l.kind = .superclass)
    (hinterface : ∀ l' ∈ h.links, l'.parent = p' → h.Nears c l' →
      l'.kind = .interface ∧ ¬ ComesBefore (h.lineage c) l'.child l.child) :
    ComesBefore (h.ancestors c) l.parent p' := by
  obtain ⟨k, hfinds, hparent⟩ := exists_finds hp
  obtain ⟨k', hfinds', rfl⟩ := exists_finds hp'
  obtain ⟨hkind', hnot⟩ := hinterface k' hfinds'.1 rfl (hfinds'.nears hp')
  rw [← hparent] at hp ⊢
  rw [comesBefore_ancestors hfinds hfinds' hp hp']
  -- the superclass is found from the class of the link, or from one before
  have hfirst := hfinds.not_comesBefore hl hparent.symm
  by_cases hchild : l.child = k.child
  · obtain rfl : l = k := link_ext hl hfinds.1 hchild hparent.symm
    exact (eq_or_comesBefore hfinds.child_mem hnot).elim
      (fun heq => .inr ⟨heq, .inl ⟨hkind, hkind'⟩⟩) .inl
  · have hbefore := (eq_or_comesBefore hfinds.child_mem hfirst).resolve_left (Ne.symm hchild)
    unfold ComesBefore at *
    omega

/-- In any hierarchy that operations build each ancestor of a class is found by just one
link, which leads up from the height below: the one of the first class, from the given one
on, that has it as a parent.  Of two ancestors the one comes first that is found from the
earlier class; of those found from the same class superclasses come before interfaces, and
parents of one kind in the order in which their names came up.

So a superclass of some class comes before an interface if no class at the height below the
interface that has it comes before that class.  In particular the superclasses of a class
come before its interfaces. -/
theorem ancestors_order (ops : List Operation) (c : String) :
    (∀ p ∈ (built ops).ancestors c, ∃ l, (built ops).Finds c l ∧ l.parent = p
      ∧ (built ops).Nears c l
      ∧ ∀ l', (built ops).Finds c l' → l'.parent = p → l' = l)
    ∧ (∀ l l', (built ops).Finds c l → (built ops).Finds c l' →
        l.parent ∈ (built ops).ancestors c → l'.parent ∈ (built ops).ancestors c →
        (ComesBefore ((built ops).ancestors c) l.parent l'.parent
          ↔ ComesBefore ((built ops).lineage c) l.child l'.child
            ∨ (l.child = l'.child ∧ (built ops).Outranks l l')))
    ∧ (∀ l ∈ (built ops).links, l.kind = .superclass → l.parent ∈ (built ops).ancestors c →
        ∀ p' ∈ (built ops).ancestors c,
          (∀ l' ∈ (built ops).links, l'.parent = p' → (built ops).Nears c l' →
            l'.kind = .interface
              ∧ ¬ ComesBefore ((built ops).lineage c) l'.child l.child) →
          ComesBefore ((built ops).ancestors c) l.parent p')
    ∧ (∀ l ∈ (built ops).links, ∀ l' ∈ (built ops).links, l.child = c → l'.child = c →
        l.kind = .superclass → l'.kind = .interface → l.parent ≠ c → l'.parent ≠ c →
        ComesBefore ((built ops).ancestors c) l.parent l'.parent) := by
  refine ⟨fun p hp => ?_, fun l l' => comesBefore_ancestors,
    fun l hl hkind hp p' hp' => comesBefore_of_superclass hl hp hp' hkind, ?_⟩
  · obtain ⟨l, hfinds, rfl⟩ := exists_finds hp
    exact ⟨l, hfinds, rfl, hfinds.nears hp, fun l' hfinds' hparent =>
      hfinds'.unique hfinds hparent⟩
  · intro l hl l' hl' hchild hchild' hkind hkind' hne hne'
    have hp : l.parent ∈ (built ops).ancestors c :=
      mem_ancestors.mpr ⟨hne, 1, c, rfl, l, hl, hchild, rfl⟩
    have hp' : l'.parent ∈ (built ops).ancestors c :=
      mem_ancestors.mpr ⟨hne', 1, c, rfl, l', hl', hchild', rfl⟩
    have hlaw := comesBefore_ancestors (finds_of_child_eq hl hchild)
      (finds_of_child_eq hl' hchild') hp hp'
    exact hlaw.mpr (.inr ⟨hchild.trans hchild'.symm, .inl ⟨hkind, hkind'⟩⟩)

/-- A class with a base class and a listener: the base class implements the callback, and the
listener extends the handler. -/
def handlerOperations : List Operation :=
  [.define "app.Main", .link ⟨"app.Main", "app.Base", .superclass⟩,
    .link ⟨"app.Main", "app.Listener", .interface⟩,
    .link ⟨"app.Base", "app.Callback", .interface⟩,
    .link ⟨"app.Listener", "app.Handler", .superclass⟩]

example : (built handlerOperations).ancestors "app.Main"
    = ["app.Base", "app.Listener", "app.Callback", "app.Handler"] := by
  decide +kernel

theorem finds_handlerOperations :
    (built handlerOperations).Finds "app.Main" ⟨"app.Main", "app.Base", .superclass⟩
    ∧ (built handlerOperations).Finds "app.Main" ⟨"app.Main", "app.Listener", .interface⟩
    ∧ (built handlerOperations).Finds "app.Main" ⟨"app.Base", "app.Callback", .interface⟩
    ∧ (built handlerOperations).Finds "app.Main" ⟨"app.Listener", "app.Handler", .superclass⟩ := by
  decide +kernel

/-- The handler is found from the listener only.  The base class comes before the listener and
so does what is found from there, whether it is a superclass or not. -/
theorem ancestors_order_handler :
    "app.Base" ∈ (built handlerOperations).ancestors "app.Main"
    ∧ "app.Callback" ∈ (built handlerOperations).ancestors "app.Main"
    ∧ "app.Handler" ∈ (built handlerOperations).ancestors "app.Main"
    ∧ (∀ l, (built handlerOperations).Finds "app.Main" l → l.parent = "app.Handler" →
        l = ⟨"app.Listener", "app.Handler", .superclass⟩)
    ∧ ComesBefore ((built handlerOperations).ancestors "app.Main") "app.Base" "app.Listener"
    ∧ ComesBefore ((built handlerOperations).ancestors "app.Main") "app.Base" "app.Callback"
    ∧ ComesBefore ((built handlerOperations).ancestors "app.Main") "app.Callback" "app.Handler" := by
  obtain ⟨hbase, hlistener, hcallback, hhandler⟩ := finds_handlerOperations
  obtain ⟨hfound, hlaw, hsuperclass, hparents⟩ := ancestors_order handlerOperations "app.Main"
  have hmem : "app.Base" ∈ (built handlerOperations).ancestors "app.Main"
      ∧ "app.Callback" ∈ (built handlerOperations).ancestors "app.Main"
      ∧ "app.Handler" ∈ (built handlerOperations).ancestors "app.Main" := by
    decide +kernel
  have hfirst := hparents _ hbase.1 _ hlistener.1 rfl rfl rfl rfl (by decide) (by decide)
  have honly : ∀ l ∈ (built handlerOperations).links, l.parent = "app.Callback" →
      l = ⟨"app.Base", "app.Callback", .interface⟩ := by
    decide +kernel
  refine ⟨hmem.1, hmem.2.1, hmem.2.2, fun l hfinds hparent => ?_, hfirst, ?_, ?_⟩
  · obtain ⟨_, _, _, _, hunique⟩ := hfound _ hmem.2.2
    exact (hunique l hfinds hparent).trans (hunique _ hhandler rfl).symm
  · refine hsuperclass _ hbase.1 rfl hmem.1 _ hmem.2.1 fun l hl hparent _ => ?_
    rw [honly l hl hparent]
    exact ⟨rfl, by decide⟩
  · -- the callback is found from the base class, and the handler from the listener
    rw [hlaw _ _ hcallback hhandler hmem.2.1 hmem.2.2]
    left
    decide +kernel

/-- Two links above the class stands the handler, the superclass of the listener, and the
callback, which only the base class implements; and the callback is listed before it. -/
theorem not_listsSuperclassesFirst_handler :
    ¬ (built handlerOperations).ListsSuperclassesFirst "app.Main" := by
  intro hfirst
  obtain ⟨hbase, hlistener, hcallback, hhandler⟩ := finds_handlerOperations
  have hmem : ∀ p ∈ ["app.Base", "app.Listener", "app.Callback", "app.Handler"],
      p ∈ (built handlerOperations).ancestors "app.Main" := by
    decide +kernel
  -- both are as far up as there are links that find them and those below
  obtain ⟨_, hbase⟩ := hbase.nears (hmem _ (by decide))
  obtain ⟨_, hlistener⟩ := hlistener.nears (hmem _ (by decide))
  obtain ⟨_, hcallback⟩ := hcallback.nears (hmem _ (by decide))
  have hnears := hhandler.nears (hmem _ (by decide))
  have hheight : (built handlerOperations).height "app.Main" "app.Handler"
      = (built handlerOperations).height "app.Main" "app.Callback" := by
    have hhandler := hnears.2
    simp only at hbase hlistener hcallback hhandler
    omega
  have honly : ∀ l ∈ (built handlerOperations).links, l.parent = "app.Callback" →
      l.kind = .interface := by
    decide +kernel
  have hlisted := hfirst "app.Handler" (hmem _ (by decide)) "app.Callback" (hmem _ (by decide))
    hheight ⟨_, hhandler.1, rfl, hnears, rfl⟩ fun l hl hparent _ => honly l hl hparent
  exact absurd hlisted (by decide +kernel)

end ApiGuard.Hierarchy
