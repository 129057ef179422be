/-
  ApiGuard.Proofs.CallGraph.Quotation
  ───────────────────────────────────
  Where the quoted labels of a drawing end.

  In a quoted text a backslash protects the character after it, and the first quote that is
  not protected ends the text.  The labels of methods are written for this: quotes and
  backslashes are protected.  In the labels of conditions only quotes get a backslash, so
  that a backslash of the conditions may take away the protection of a quote after it:

      readQuoted_escapeMethod           the label of a method is read to its end
      readQuoted_escapeConditions_iff   that of conditions, just if quotes stand free
      labels_closed                     all labels of a drawing
      label_not_closed                  a label that is not read to its end
-/
import ApiGuard.Proofs.CallGraph.Drawing
import Mathlib.Algebra.Group.Nat.Even
import Mathlib.Data.List.DropRight

namespace ApiGuard

/-! ## §1. Quoted texts. -/

/-- Read a quoted text from after its opening quote on.  The results are the text as it is
written, without the quote that ends it, and what follows this quote. -/
def readQuoted : List Char → Option (List Char × List Char)
  | [] => none
  | '"' :: cs => some ([], cs)
  | '\\' :: c :: cs => (readQuoted cs).map fun (text, rest) => ('\\' :: c :: text, rest)
  | c :: cs => (readQuoted cs).map fun (text, rest) => (c :: text, rest)

variable {c : Char} {cs text rest : List Char}

theorem readQuoted_protected :
    readQuoted ('\\' :: c :: cs) = some ('\\' :: c :: text, rest)
      ↔ readQuoted cs = some (text, rest) := by
  rw [readQuoted]
  cases readQuoted cs <;> simp [Prod.ext_iff]

theorem readQuoted_cons (hquote : c ≠ '"') (hslash : c ≠ '\\') :
    readQuoted (c :: cs) = some (c :: text, rest) ↔ readQuoted cs = some (text, rest) := by
  rw [readQuoted]
  · cases readQuoted cs <;> simp [Prod.ext_iff]
  · exact hquote
  · intro d ds hc
    exact absurd hc hslash

/-! ## §2. Backslashes before quotes. -/

/-- The number of backslashes that a text ends with. -/
def slashesBefore (cs : List Char) : Nat := (cs.rtakeWhile (· = '\\')).length

/-- Every quote of the text stands behind an even number of backslashes, so that they protect
each other and none of them the quote. -/
def QuotesStandFree (cs : List Char) : Prop :=
  ∀ before after, cs = before ++ '"' :: after → Even (slashesBefore before)

theorem slashesBefore_concat :
    slashesBefore (cs ++ [c]) = if c = '\\' then slashesBefore cs + 1 else 0 := by
  unfold slashesBefore
  rw [List.rtakeWhile_concat]
  by_cases hc : c = '\\'
  · simp [hc]
  · simp [hc]

/-- Backslashes that protect each other do not count for what comes after them. -/
theorem even_slashesBefore_append {ds : List Char} (hcs : Even (slashesBefore cs)) :
    Even (slashesBefore (cs ++ ds)) ↔ Even (slashesBefore ds) := by
  induction ds using List.reverseRecOn with
  | nil =>
      rw [List.append_nil]
      exact iff_of_true hcs Even.zero
  | append_singleton ds d ih =>
      rw [← List.append_assoc, slashesBefore_concat, slashesBefore_concat]
      split
      next => rw [Nat.even_add_one, Nat.even_add_one, ih]
      next => exact Iff.rfl

theorem quotesStandFree_of_slash_not_mem (h : '\\' ∉ cs) : QuotesStandFree cs := by
  intro before after heq
  have hnone : before.rtakeWhile (· = '\\') = [] := by
    rw [List.rtakeWhile_eq_nil_iff]
    intro hne hlast
    refine h ?_
    rw [heq, ← of_decide_eq_true hlast]
    exact List.mem_append_left _ (List.getLast_mem hne)
  rw [slashesBefore, hnone]
  exact Even.zero

theorem quotesStandFree_of_quote_not_mem (h : '"' ∉ cs) : QuotesStandFree cs := by
  intro before after heq
  exact absurd (heq ▸ List.mem_append_right before List.mem_cons_self) h

/-- What comes after a text with protected backslashes is as free as it is by itself. -/
theorem quotesStandFree_append {ds : List Char} (hfree : QuotesStandFree cs)
    (heven : Even (slashesBefore cs)) :
    QuotesStandFree (cs ++ ds) ↔ QuotesStandFree ds := by
  constructor
  · intro h before after heq
    rw [← even_slashesBefore_append heven]
    exact h (cs ++ before) after (by rw [heq, List.append_assoc])
  · intro h before after heq
    rcases List.append_eq_append_iff.mp heq with ⟨more, rfl, hds⟩ | ⟨more, rfl, hquote⟩
    · rw [even_slashesBefore_append heven]
      exact h more after hds
    · -- the quote is the first character of the second text, or stands in the first one
      cases more with
      | nil =>
          rw [List.append_nil] at heven
          exact heven
      | cons d more =>
          cases hquote
          exact hfree before more rfl

theorem quotesStandFree_concat_quote :
    QuotesStandFree (cs ++ ['"']) ↔ QuotesStandFree cs ∧ Even (slashesBefore cs) := by
  constructor
  · intro h
    refine ⟨fun before after heq => ?_, h cs [] rfl⟩
    exact h before (after ++ ['"']) (by rw [heq, List.append_assoc, List.cons_append])
  · intro h
    rw [quotesStandFree_append h.1 h.2]
    exact quotesStandFree_of_slash_not_mem (by decide)

/-- A character that is no backslash may be left out before a text. -/
theorem quotesStandFree_cons (hslash : c ≠ '\\') :
    QuotesStandFree (c :: cs) ↔ QuotesStandFree cs := by
  have hfree : QuotesStandFree [c] := by
    refine quotesStandFree_of_slash_not_mem ?_
    rw [List.mem_singleton]
    exact Ne.symm hslash
  have heven : Even (slashesBefore ([] ++ [c])) := by
    rw [slashesBefore_concat, if_neg hslash]
    exact Even.zero
  exact quotesStandFree_append hfree heven

/-- A backslash takes the freedom of a quote after it, and protects any other character. -/
theorem quotesStandFree_slash_cons :
    QuotesStandFree ('\\' :: c :: cs) ↔ c ≠ '"' ∧ QuotesStandFree cs := by
  have hone : ¬ Even (slashesBefore ['\\']) := by decide
  by_cases hquote : c = '"'
  · subst hquote
    refine iff_of_false (fun h => hone ?_) (fun h => h.1 rfl)
    exact h ['\\'] cs rfl
  · have heven : Even (slashesBefore (['\\'] ++ [c])) := by
      rw [slashesBefore_concat]
      split
      next => exact Nat.even_add_one.mpr hone
      next => exact Even.zero
    have hfree : QuotesStandFree ['\\', c] := by
      refine quotesStandFree_of_quote_not_mem ?_
      simp [Ne.symm hquote]
    rw [and_iff_right hquote]
    exact quotesStandFree_append hfree heven

/-! ## §3. Labels. -/

open Drawing in
/-- The label of a method is read to its end. -/
theorem readQuoted_escapeMethod (cs rest : List Char) :
    readQuoted (cs.flatMap escapeMethod ++ '"' :: rest)
      = some (cs.flatMap escapeMethod, rest) := by
  induction cs with
  | nil => rfl
  | cons c cs ih =>
      rw [List.flatMap_cons, List.append_assoc]
      unfold escapeMethod
      split_ifs with hquote hslash hnewline
      · exact readQuoted_protected.mpr ih
      · exact readQuoted_protected.mpr ih
      · exact readQuoted_protected.mpr ih
      · exact (readQuoted_cons hquote hslash).mpr ih

open Drawing in
/-- The label of conditions is read to its end just if the quotes in their text, and the one
after it, stand free. -/
theorem readQuoted_escapeConditions_iff (cs rest : List Char) :
    readQuoted (cs.flatMap escapeConditions ++ '"' :: rest)
        = some (cs.flatMap escapeConditions, rest)
      ↔ QuotesStandFree (cs ++ ['"']) := by
  induction hlength : cs.length using Nat.strongRecOn generalizing cs with
  | _ n ih =>
    subst hlength
    cases cs with
    | nil => exact iff_of_true rfl (quotesStandFree_of_slash_not_mem (by decide))
    | cons c cs =>
        by_cases hquote : c = '"'
        · subst hquote
          rw [List.cons_append, quotesStandFree_cons (by decide)]
          exact readQuoted_protected.trans (ih cs.length (Nat.lt_succ_self _) cs rfl)
        · have hplain : escapeConditions c = [c] := if_neg hquote
          rw [List.flatMap_cons, hplain, List.singleton_append]
          by_cases hslash : c = '\\'
          · subst hslash
            cases cs with
            | nil =>
                -- the backslash protects the quote that is meant to end the label
                refine iff_of_false (fun h => ?_) (fun h => ?_)
                · rw [List.flatMap_nil, List.cons_append, List.nil_append, readQuoted] at h
                  cases hrest : readQuoted rest <;> simp [hrest] at h
                · exact (quotesStandFree_slash_cons.mp h).1 rfl
            | cons d cs =>
                rw [List.flatMap_cons, List.cons_append, List.cons_append, List.cons_append,
                  quotesStandFree_slash_cons]
                by_cases hd : d = '"'
                · -- the backslash protects that of the quote, and the quote ends the label
                  subst hd
                  refine iff_of_false (fun h => ?_) (fun h => h.1 rfl)
                  cases h
                · have hplain : escapeConditions d = [d] := if_neg hd
                  rw [hplain, List.singleton_append, and_iff_right hd]
                  exact readQuoted_protected.trans
                    (ih cs.length (by simp only [List.length_cons]; omega) cs rfl)
          · rw [List.cons_append, List.cons_append, quotesStandFree_cons hslash,
              readQuoted_cons hquote hslash]
            exact ih cs.length (Nat.lt_succ_self _) cs rfl

namespace Drawing

variable {d : Drawing}

/-! ## §4. Labels of a drawing. -/

/-- A text between two quotes in a larger text. -/
structure Quotation (text : String) where
  before : List Char
  written : List Char
  after : List Char
  text_eq : text.toList = before ++ '"' :: (written ++ '"' :: after)

/-- Of the quotes after the opening one, the first that is not protected is the closing one. -/
def Quotation.IsClosed {text : String} (q : Quotation text) : Prop :=
  readQuoted (q.written ++ '"' :: q.after) = some (q.written, q.after)

theorem render_of_lines {above below : List Line} {line : Line}
    (h : d.lines = above ++ line :: below) :
    d.render = String.join (above.map Line.render) ++ line.render
      ++ String.join (below.map Line.render) := by
  unfold render
  rw [h, List.map_append, List.map_cons, String.join_append, String.join_cons,
    String.append_assoc]

/-- The label of a box. -/
def boxLabel {above below : List Line} {number : Nat} {method : String}
    (h : d.lines = above ++ .box number method :: below) : Quotation d.render where
  before := (String.join (above.map Line.render) ++ "    " ++ toString number
    ++ " [ label = ").toList
  written := method.toList.flatMap escapeMethod
  after := (" shape=box]\n" ++ String.join (below.map Line.render)).toList
  text_eq := by
    rw [render_of_lines h]
    simp [Line.render, label]

/-- The label of an arrow that is guarded. -/
def arrowLabel {above below : List Line} {a : Arrow}
    (h : d.lines = above ++ .arrow a :: below) (hguarded : a.edge.isGuarded = true) :
    Quotation d.render where
  before := (String.join (above.map Line.render) ++ "    " ++ toString a.source ++ " -> "
    ++ toString a.target ++ " [ color=green,label=").toList
  written := a.edge.conditions.render.toList.flatMap escapeConditions
  after := ("]\n" ++ String.join (below.map Line.render)).toList
  text_eq := by
    rw [render_of_lines h]
    simp [Line.render, label, hguarded]

instance {text : String} (q : Quotation text) : Decidable q.IsClosed :=
  inferInstanceAs (Decidable (readQuoted _ = some _))

theorem isClosed_boxLabel {above below : List Line} {number : Nat} {method : String}
    (h : d.lines = above ++ .box number method :: below) : (boxLabel h).IsClosed :=
  readQuoted_escapeMethod _ _

/-- The text of conditions ends with a bracket, and not with a backslash. -/
theorem quotesStandFree_render_concat_quote (cs : Conditions) :
    QuotesStandFree (cs.render.toList ++ ['"']) ↔ QuotesStandFree cs.render.toList := by
  rw [quotesStandFree_concat_quote, and_iff_left]
  unfold Conditions.render
  rw [String.toList_append]
  show Even (slashesBefore (_ ++ [']']))
  rw [slashesBefore_concat]
  exact Even.zero

theorem isClosed_arrowLabel_iff {above below : List Line} {a : Arrow}
    (h : d.lines = above ++ .arrow a :: below) (hguarded : a.edge.isGuarded = true) :
    (arrowLabel h hguarded).IsClosed ↔ QuotesStandFree a.edge.conditions.render.toList := by
  rw [← quotesStandFree_render_concat_quote]
  exact readQuoted_escapeConditions_iff _ _

/-- The labels of all guarded arrows are closed. -/
def ArrowLabelsClosed (d : Drawing) : Prop :=
  ∀ (above : List Line) (a : Arrow) (below : List Line)
    (h : d.lines = above ++ .arrow a :: below) (hguarded : a.edge.isGuarded = true),
    (arrowLabel h hguarded).IsClosed

theorem mem_arrows_iff {a : Arrow} :
    a ∈ d.arrows ↔ ∃ above below, d.lines = above ++ .arrow a :: below := by
  rw [← List.mem_iff_append]
  unfold lines
  simp

end Drawing

/-! ## §5. Tokens without backslashes. -/

/-- A character of joined texts is one of the separator or of a text. -/
theorem mem_intercalate {c : Char} {sep : String} {texts : List String}
    (hc : c ∈ (sep.intercalate texts).toList) :
    c ∈ sep.toList ∨ ∃ text ∈ texts, c ∈ text.toList := by
  induction texts with
  | nil => simp at hc
  | cons text texts ih =>
      cases texts with
      | nil =>
          rw [String.intercalate_singleton] at hc
          exact .inr ⟨text, List.mem_cons_self, hc⟩
      | cons next texts =>
          rw [String.intercalate_cons_cons, String.toList_append, String.toList_append,
            List.mem_append, List.mem_append] at hc
          rcases hc with (hc | hc) | hc
          · exact .inr ⟨text, List.mem_cons_self, hc⟩
          · exact .inl hc
          · rcases ih hc with hsep | ⟨other, hother, hc⟩
            · exact .inl hsep
            · exact .inr ⟨other, List.mem_cons_of_mem _ hother, hc⟩

/-- The brackets and commas of a list are no backslashes. -/
theorem exists_text_of_slash_mem {texts : List String}
    (h : '\\' ∈ ("[" ++ ", ".intercalate texts ++ "]").toList) :
    ∃ text ∈ texts, '\\' ∈ text.toList := by
  rw [String.toList_append, String.toList_append, List.mem_append, List.mem_append] at h
  rcases h with (hopen | hinside) | hclose
  · exact absurd hopen (by decide)
  · exact (mem_intercalate hinside).resolve_left (by decide)
  · exact absurd hclose (by decide)

theorem GuardToken.slash_mem_text {token : GuardToken} (h : '\\' ∈ token.render.toList) :
    '\\' ∈ token.text.toList := by
  cases token with
  | holds text => exact h
  | negated text =>
      have h : '\\' ∈ ("-" ++ text).toList := h
      rw [String.toList_append, List.mem_append] at h
      exact h.resolve_left (by decide)

/-- A backslash in the text of conditions is one of a token. -/
theorem Conditions.exists_token_of_slash_mem {cs : Conditions} (h : '\\' ∈ cs.render.toList) :
    ∃ c ∈ cs, ∃ token ∈ c, '\\' ∈ token.text.toList := by
  obtain ⟨text, htext, h⟩ := exists_text_of_slash_mem h
  obtain ⟨c, hc, rfl⟩ := List.mem_map.mp htext
  obtain ⟨text, htext, h⟩ := exists_text_of_slash_mem h
  obtain ⟨token, htoken, rfl⟩ := List.mem_map.mp htext
  exact ⟨c, hc, token, htoken, token.slash_mem_text h⟩

namespace CallGraph

open Drawing

/-- In the drawing of a graph the label of each method ends with its own closing quote.  That
of a guarded edge does just if the quotes in the text of its conditions stand behind an even
number of backslashes each.  So all labels are closed just if this holds of all guarded edges
that are stored, and in particular if no token has a backslash in its text. -/
theorem labels_closed (g : CallGraph) :
    (∀ (above : List Line) (number : Nat) (method : String) (below : List Line)
        (h : g.drawing.lines = above ++ .box number method :: below),
        (boxLabel h : Quotation g.toDot).IsClosed)
    ∧ (∀ (above : List Line) (a : Arrow) (below : List Line)
        (h : g.drawing.lines = above ++ .arrow a :: below) (hguarded : a.edge.isGuarded = true),
        (arrowLabel h hguarded : Quotation g.toDot).IsClosed
          ↔ QuotesStandFree a.edge.conditions.render.toList)
    ∧ (g.drawing.ArrowLabelsClosed
        ↔ ∀ e ∈ g.storedEdges, e.isGuarded = true → QuotesStandFree e.conditions.render.toList)
    ∧ ((∀ e ∈ g.storedEdges, ∀ c ∈ e.conditions, ∀ token ∈ c, '\\' ∉ token.text.toList) →
        g.drawing.ArrowLabelsClosed) := by
  have hshows : g.drawing.Shows g.storedEdges := shows_ofEdges g.storedEdges
  have hclosed : g.drawing.ArrowLabelsClosed
      ↔ ∀ e ∈ g.storedEdges, e.isGuarded = true →
          QuotesStandFree e.conditions.render.toList := by
    constructor
    · intro hall e he hguarded
      rw [← hshows.edges_eq] at he
      obtain ⟨a, ha, rfl⟩ := List.mem_map.mp he
      obtain ⟨above, below, h⟩ := mem_arrows_iff.mp (Array.mem_toList_iff.mp ha)
      exact (isClosed_arrowLabel_iff h hguarded).mp (hall above a below h hguarded)
    · intro hall above a below h hguarded
      have ha : a ∈ g.drawing.arrows := mem_arrows_iff.mpr ⟨above, below, h⟩
      have hedge : a.edge ∈ g.storedEdges := by
        rw [← hshows.edges_eq]
        exact List.mem_map_of_mem (Array.mem_toList_iff.mpr ha)
      exact (isClosed_arrowLabel_iff h hguarded).mpr (hall a.edge hedge hguarded)
  refine ⟨fun above number method below h => isClosed_boxLabel h,
    fun above a below h hguarded => isClosed_arrowLabel_iff h hguarded, hclosed, ?_⟩
  intro hplain
  rw [hclosed]
  intro e he _
  refine quotesStandFree_of_slash_not_mem fun hslash => ?_
  obtain ⟨c, hc, token, htoken, htext⟩ := Conditions.exists_token_of_slash_mem hslash
  exact hplain e he c hc token htoken htext

/-- A method whose name needs both kinds of protection is called if a quoted text is equal. -/
def quotingCalls : List Operation :=
  [.record ⟨"<app.Main: void run()>", "<app.Main: void \"on\\off\"()>"⟩
    (.ofList [.holds "mode == \"on\""])]

/-- Both labels are closed. -/
theorem labels_closed_quoting :
    (∃ h : (built quotingCalls).drawing.lines
        = [.opening, .box 0 "<app.Main: void run()>"]
          ++ .box 1 "<app.Main: void \"on\\off\"()>"
          :: ((built quotingCalls).drawing.lines.drop 3),
      (boxLabel h : Quotation (built quotingCalls).toDot).IsClosed)
    ∧ (∀ e ∈ (built quotingCalls).storedEdges, ∀ c ∈ e.conditions, ∀ token ∈ c,
        '\\' ∉ token.text.toList)
    ∧ (built quotingCalls).countGuarded = 1 ∧ (built quotingCalls).drawing.ArrowLabelsClosed := by
  obtain ⟨hboxes, _, _, harrows⟩ := labels_closed (built quotingCalls)
  have hlines : (built quotingCalls).drawing.lines
      = [.opening, .box 0 "<app.Main: void run()>"]
        ++ .box 1 "<app.Main: void \"on\\off\"()>"
        :: ((built quotingCalls).drawing.lines.drop 3) := by
    decide +kernel
  have hplain : ∀ e ∈ (built quotingCalls).storedEdges, ∀ c ∈ e.conditions.toList,
      ∀ token ∈ c.toList, '\\' ∉ token.text.toList := by
    decide +kernel
  exact ⟨⟨hlines, hboxes _ _ _ _ hlines⟩, hplain, by decide +kernel, harrows hplain⟩

/-- A method is called if a local is zero whose name ends with a backslash and a quote. -/
def backslashCalls : List Operation :=
  [.record ⟨"<app.Main: void run()>", "<app.Main: void stop()>"⟩ (.ofList [.holds "x\\\" == 0"])]

/-- The label of the call ends inside the name of the local. -/
theorem label_not_closed :
    ∃ (a : Arrow)
      (h : (built backslashCalls).drawing.lines
        = [.opening, .box 0 "<app.Main: void run()>", .box 1 "<app.Main: void stop()>"]
          ++ .arrow a :: [.closing])
      (hguarded : a.edge.isGuarded = true),
      ¬ (arrowLabel h hguarded : Quotation (built backslashCalls).toDot).IsClosed := by
  refine ⟨⟨0, 1, ⟨"<app.Main: void run()>", "<app.Main: void stop()>"⟩,
    .ofList [.ofList [.holds "x\\\" == 0"]]⟩, ?_, ?_, ?_⟩
  · decide +kernel
  · decide +kernel
  · decide +kernel

end CallGraph

end ApiGuard
