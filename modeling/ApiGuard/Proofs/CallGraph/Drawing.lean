/-
  ApiGuard.Proofs.CallGraph.Drawing
  ─────────────────────────────────
  The drawing of a call graph has what the graph has.

  Methods get their boxes while the edges are drawn, so what holds of a drawing is said for
  the edges that are drawn so far.  The boxes are numbered in the order in which the methods
  came up (`Numbers`), and the arrows are the edges, between the boxes of their ends
  (`Shows`).  Drawing one more edge keeps both:

      Numbers.box              a method that comes up has the box of its number
      Shows.draw               one more edge is one more arrow
      shows_ofEdges            so a drawing shows the edges that it is made of
      label_escapeMethod_inj   labels tell methods apart
      toDot_faithful           what the text of the drawing lists
-/
import ApiGuard.CallGraph.Dot
import ApiGuard.Proofs.CallGraph.Indexes
import ApiGuard.Proofs.Search.Order

namespace ApiGuard

namespace Drawing

/-! ## §1. Boxes. -/

/-- The boxes are those of the methods that came up, in the order in which they did, and the
numbers are theirs. -/
structure Numbers (d : Drawing) (methods : List String) : Prop where
  number_iff : ∀ {method : String} {number : Nat},
    d.numbers.find? method = some number ↔ d.boxes[number]? = some method
  mem_boxes_iff : ∀ {method : String}, method ∈ d.boxes ↔ method ∈ methods
  ordered : d.boxes.toList.Pairwise (ComesBefore methods)

theorem numbers_empty : Numbers ∅ [] where
  number_iff := by
    intro method number
    exact iff_of_false (fun h => by cases h) (fun h => by cases h)
  mem_boxes_iff := by
    intro method
    exact iff_of_false (Array.not_mem_empty method) List.not_mem_nil
  ordered := .nil

variable {d : Drawing} {methods : List String} {method : String}

theorem arrows_box : (d.box method).1.arrows = d.arrows := by
  unfold box
  split <;> rfl

/-- Boxes keep their numbers. -/
theorem getElem?_box_of_some {number : Nat} {other : String}
    (hother : d.boxes[number]? = some other) : (d.box method).1.boxes[number]? = some other := by
  unfold box
  split
  next => exact hother
  next =>
      have hlt : number < d.boxes.size := (Array.getElem?_eq_some_iff.mp hother).1
      show (d.boxes.push method)[number]? = some other
      rw [Array.getElem?_push, if_neg (Nat.ne_of_lt hlt), hother]

/-- The number is that of the box of the method. -/
theorem Numbers.getElem?_box (h : d.Numbers methods) :
    (d.box method).1.boxes[(d.box method).2]? = some method := by
  unfold Drawing.box
  split
  next number hnumber => exact h.number_iff.mp hnumber
  next => exact Array.getElem?_push_size

/-- A method without a number has not come up. -/
theorem Numbers.not_mem_of_find?_eq_none (h : d.Numbers methods)
    (hnone : d.numbers.find? method = none) : method ∉ methods := by
  intro hmem
  obtain ⟨number, hnumber⟩ := Array.mem_iff_getElem?.mp (h.mem_boxes_iff.mpr hmem)
  rw [← h.number_iff, hnone] at hnumber
  cases hnumber

/-- One more method comes up. -/
theorem Numbers.box (h : d.Numbers methods) (method : String) :
    (d.box method).1.Numbers (methods ++ [method]) := by
  -- those that were there before came up before
  have hordered : d.boxes.toList.Pairwise (ComesBefore (methods ++ [method])) := by
    refine h.ordered.imp_of_mem ?_
    intro a b ha _ hbefore
    rw [comesBefore_append]
    exact .inl ⟨h.mem_boxes_iff.mp (Array.mem_toList_iff.mp ha), fun _ => hbefore⟩
  unfold Drawing.box
  split
  next number hnumber =>
      have hmem : method ∈ methods :=
        h.mem_boxes_iff.mp (Array.mem_of_getElem? (h.number_iff.mp hnumber))
      refine ⟨h.number_iff, ?_, hordered⟩
      intro other
      rw [h.mem_boxes_iff, List.mem_append, List.mem_singleton]
      constructor
      · exact .inl
      · intro hother
        rcases hother with hother | rfl
        · exact hother
        · exact hmem
  next hnone =>
      have hnew : method ∉ methods := h.not_mem_of_find?_eq_none hnone
      refine ⟨?_, ?_, ?_⟩
      · intro other number
        simp only [SortedMap.find?_insert, Array.getElem?_push]
        by_cases hother : other = method
        · -- the new number is none of those before
          subst hother
          rw [if_pos rfl, Option.some.injEq, eq_comm]
          split
          next hnumber => simp [hnumber]
          next hnumber =>
              refine iff_of_false hnumber fun hbox => hnew ?_
              exact h.mem_boxes_iff.mp (Array.mem_of_getElem? hbox)
        · rw [if_neg hother, h.number_iff]
          split
          next hnumber =>
              subst hnumber
              simp [Ne.symm hother]
          next => exact Iff.rfl
      · intro other
        rw [Array.mem_push, h.mem_boxes_iff, List.mem_append, List.mem_singleton]
      · rw [Array.toList_push, List.pairwise_append]
        refine ⟨hordered, List.pairwise_singleton _ _, ?_⟩
        intro a ha b hb
        have ha : a ∈ methods := h.mem_boxes_iff.mp (Array.mem_toList_iff.mp ha)
        rw [List.mem_singleton.mp hb, comesBefore_append]
        exact .inl ⟨ha, fun hmem => absurd hmem hnew⟩

/-- No method has two boxes. -/
theorem Numbers.nodup (h : d.Numbers methods) : d.boxes.toList.Nodup := by
  refine h.ordered.imp ?_
  intro a b hbefore heq
  rw [heq] at hbefore
  exact Nat.lt_irrefl _ hbefore

/-! ## §2. Arrows. -/

/-- The methods at the ends of edges, as they come up. -/
def endsOf (edges : List Edge) : List String := edges.flatMap fun e => [e.source, e.target]

theorem mem_endsOf_iff {edges : List Edge} :
    method ∈ endsOf edges ↔ ∃ e ∈ edges, method = e.source ∨ method = e.target := by
  unfold endsOf
  simp

/-- The boxes are those of the ends of the edges, and the arrows are the edges. -/
structure Shows (d : Drawing) (edges : List Edge) : Prop where
  numbers : d.Numbers (endsOf edges)
  edges_eq : d.arrows.toList.map Arrow.edge = edges
  joins : ∀ a ∈ d.arrows, d.boxes[a.source]? = some a.edge.source
    ∧ d.boxes[a.target]? = some a.edge.target

variable {edges : List Edge}

/-- One more edge is drawn between the boxes of its ends. -/
theorem Shows.draw (h : d.Shows edges) (e : Edge) : (d.draw e).Shows (edges ++ [e]) := by
  have hsource : (d.box e.source).1.Numbers (endsOf edges ++ [e.source]) :=
    h.numbers.box e.source
  have htarget := hsource.box e.target
  have harrows : (d.draw e).arrows = d.arrows.push
      ⟨(d.box e.source).2, ((d.box e.source).1.box e.target).2, e⟩ := by
    have hsame : ((d.box e.source).1.box e.target).1.arrows = d.arrows := by
      rw [arrows_box, arrows_box]
    rw [← hsame]
    rfl
  refine ⟨⟨htarget.number_iff, ?_, ?_⟩, ?_, ?_⟩
  · intro method
    show method ∈ ((d.box e.source).1.box e.target).1.boxes ↔ _
    rw [htarget.mem_boxes_iff]
    unfold endsOf
    simp
  · have hends : endsOf (edges ++ [e]) = endsOf edges ++ [e.source] ++ [e.target] := by
      unfold endsOf
      simp
    rw [hends]
    exact htarget.ordered
  · rw [harrows, Array.toList_push, List.map_append, h.edges_eq]
    rfl
  · intro a ha
    show ((d.box e.source).1.box e.target).1.boxes[a.source]? = _
      ∧ ((d.box e.source).1.box e.target).1.boxes[a.target]? = _
    rw [harrows] at ha
    rcases Array.mem_push.mp ha with ha | rfl
    · obtain ⟨hs, ht⟩ := h.joins a ha
      exact ⟨getElem?_box_of_some (getElem?_box_of_some hs),
        getElem?_box_of_some (getElem?_box_of_some ht)⟩
    · exact ⟨getElem?_box_of_some h.numbers.getElem?_box, hsource.getElem?_box⟩

/-- A drawing shows the edges that are drawn. -/
theorem shows_ofEdges (edges : List Edge) : (ofEdges edges).Shows edges := by
  induction edges using List.reverseRecOn with
  | nil =>
      refine ⟨numbers_empty, rfl, fun a ha => ?_⟩
      exact absurd ha (Array.not_mem_empty a)
  | append_singleton edges e ih =>
      unfold ofEdges at ih ⊢
      rw [List.foldl_append]
      exact ih.draw e

/-! ## §3. Labels. -/

/-- What a character of a method is written as ends where the next one begins. -/
theorem escapeMethod_append_inj {c d : Char} {cs ds : List Char}
    (h : escapeMethod c ++ cs = escapeMethod d ++ ds) : c = d ∧ cs = ds := by
  unfold escapeMethod at h
  split_ifs at h <;> grind

/-- Names of methods that are written alike are the same, character by character. -/
theorem flatMap_escapeMethod_inj {cs ds : List Char}
    (h : cs.flatMap escapeMethod = ds.flatMap escapeMethod) : cs = ds := by
  have hne : ∀ c, escapeMethod c ≠ [] := by
    intro c
    unfold escapeMethod
    split_ifs <;> simp
  induction cs generalizing ds with
  | nil =>
      cases ds with
      | nil => rfl
      | cons d ds =>
          rw [List.flatMap_nil, List.flatMap_cons, eq_comm, List.append_eq_nil_iff] at h
          exact absurd h.1 (hne d)
  | cons c cs ih =>
      cases ds with
      | nil =>
          rw [List.flatMap_nil, List.flatMap_cons, List.append_eq_nil_iff] at h
          exact absurd h.1 (hne c)
      | cons d ds =>
          rw [List.flatMap_cons, List.flatMap_cons] at h
          obtain ⟨rfl, htail⟩ := escapeMethod_append_inj h
          rw [ih htail]

/-- Methods with one label are one method. -/
theorem label_escapeMethod_inj {other : String}
    (h : label escapeMethod method = label escapeMethod other) : method = other := by
  have hlist := congrArg String.toList h
  unfold label at hlist
  simp only [String.toList_append, String.toList_ofList, List.append_cancel_left_eq,
    List.append_cancel_right_eq] at hlist
  exact String.toList_inj.mp (flatMap_escapeMethod_inj hlist)

/-! ## §4. The text. -/

/-- The text of a drawing, line by line: the boxes with their numbers, and then the arrows. -/
theorem render_eq (d : Drawing) :
    d.render = "digraph \x7b\n"
      ++ String.join (d.boxes.toList.mapIdx fun number method =>
          "    " ++ toString number ++ " [ label = " ++ label escapeMethod method
            ++ " shape=box]\n")
      ++ String.join (d.arrows.toList.map fun a =>
          "    " ++ toString a.source ++ " -> " ++ toString a.target ++ " [ "
            ++ (if a.edge.isGuarded then
                  "color=green,label=" ++ label escapeConditions a.edge.conditions.render
                else "color=black")
            ++ "]\n")
      ++ "\x7d\n" := by
  have hboxes : (d.boxes.toList.mapIdx Line.box).map Line.render
      = d.boxes.toList.mapIdx fun number method =>
          "    " ++ toString number ++ " [ label = " ++ label escapeMethod method
            ++ " shape=box]\n" := by
    rw [List.mapIdx_eq_zipIdx_map, List.map_map, List.mapIdx_eq_zipIdx_map]
    rfl
  unfold render lines
  rw [List.map_append, List.map_append, List.map_cons, hboxes, List.map_map, String.join_append,
    String.join_append, String.join_cons]
  rfl

end Drawing

namespace CallGraph

open Drawing

/-- The methods at the ends of stored edges are as many as there are boxes. -/
theorem size_methods (g : CallGraph) : g.drawing.boxes.toList.length = g.methods.size := by
  have hshows : g.drawing.Shows g.storedEdges := shows_ofEdges g.storedEdges
  refine List.Perm.length_eq ?_
  rw [List.perm_ext_iff_of_nodup hshows.numbers.nodup g.methods.nodup_toList]
  intro method
  show _ ↔ method ∈ g.methods
  unfold methods
  rw [SortedSet.mem_ofList]
  exact Array.mem_toList_iff.trans hshows.numbers.mem_boxes_iff

/-- The drawing of any graph lists a box for each method at an end of a stored edge and then
an arrow for each stored edge.

No method has two boxes.  They are numbered in the order in which the methods come up on the
way through the stored edges, the source of each before its target, and as many as methods
are counted.

The arrows are the stored edges, in order, and as many as edges are counted.  Each joins the
boxes of the source and of the target.  It is green and has the conditions as its label if
the edge is guarded, and is black otherwise.

No two methods have the same label. -/
theorem toDot_faithful (ops : List Operation) :
    ∃ (boxes : List String) (arrows : List Arrow),
      ((built ops).toDot = "digraph \x7b\n"
        ++ String.join (boxes.mapIdx fun number method =>
            "    " ++ toString number ++ " [ label = " ++ label escapeMethod method
              ++ " shape=box]\n")
        ++ String.join (arrows.map fun a =>
            "    " ++ toString a.source ++ " -> " ++ toString a.target ++ " [ "
              ++ (if a.edge.isGuarded then
                    "color=green,label=" ++ label escapeConditions a.edge.conditions.render
                  else "color=black")
              ++ "]\n")
        ++ "\x7d\n")
      ∧ (boxes.Nodup
        ∧ (∀ method, method ∈ boxes
            ↔ ∃ e ∈ (built ops).storedEdges, method = e.source ∨ method = e.target)
        ∧ boxes.Pairwise
            (ComesBefore ((built ops).storedEdges.flatMap fun e => [e.source, e.target]))
        ∧ boxes.length = (built ops).methods.size)
      ∧ (arrows.map Arrow.edge = (built ops).storedEdges
        ∧ arrows.length = (built ops).countEdges
        ∧ ∀ a ∈ arrows, boxes[a.source]? = some a.edge.source
            ∧ boxes[a.target]? = some a.edge.target)
      ∧ ∀ method other, label escapeMethod method = label escapeMethod other → method = other := by
  have hshows : (built ops).drawing.Shows (built ops).storedEdges := shows_ofEdges _
  refine ⟨(built ops).drawing.boxes.toList, (built ops).drawing.arrows.toList, render_eq _,
    ⟨hshows.numbers.nodup, ?_, hshows.numbers.ordered, size_methods _⟩,
    ⟨hshows.edges_eq, ?_, ?_⟩, fun method other h => label_escapeMethod_inj h⟩
  · intro method
    rw [← mem_endsOf_iff, ← hshows.numbers.mem_boxes_iff]
    exact Array.mem_toList_iff
  · rw [← (indexed_run ops).toWellFormed.length_storedEdges, ← hshows.edges_eq, List.length_map]
  · intro a ha
    simp only [Array.getElem?_toList]
    exact hshows.joins a (Array.mem_toList_iff.mp ha)

end CallGraph

end ApiGuard
