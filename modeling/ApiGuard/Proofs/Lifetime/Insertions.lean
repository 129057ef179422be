/-
  ApiGuard.Proofs.Lifetime.Insertions
  ───────────────────────────────────
  Tables that are read from a text and changed by insertions.

  The keys of a table are canonical at first, and each insertion adds a canonical one, so
  that the table is a map from canonical signatures whatever its history is.  Its keys are
  the canonical spellings of the signatures that it was given, by the text or by an insertion:

      IsCanonical.insert     an insertion keeps keys canonical
      IsBuilt.mem_keys       the keys are what the table was given
      map_modulo_spelling    what the table is as a map
-/
import ApiGuard.Proofs.Lifetime.Table
import ApiGuard.Proofs.Lifetime.Texts
import Mathlib.Data.Set.Card

namespace ApiGuard.LifetimeTable

open LifetimeLine Signature Text

variable {table : LifetimeTable} {s t key text : String} {min max : ApiLevel}
  {life : Lifetime} {entries : List LifetimeEntry} {ls : List (List Char)}

/-! ## §1. Canonical keys. -/

/-- The keys of the table are canonical. -/
def IsCanonical (table : LifetimeTable) : Prop :=
  ∀ key ∈ table.entries.keys, canonical key = key

theorem isCanonical_empty : IsCanonical ∅ := by
  intro key hkey
  cases hkey

/-- An insertion adds a canonical key. -/
theorem IsCanonical.insert (h : table.IsCanonical) (s : String) (min max : ApiLevel) :
    (table.insert s min max).IsCanonical := by
  intro key hkey
  rcases mem_keys_insert.mp hkey with hkey | rfl
  · exact h key hkey
  · exact canonical_canonical s

/-! ## §2. What a table is given. -/

/-- Insert entries one after the other. -/
def insertAll (table : LifetimeTable) (entries : List LifetimeEntry) : LifetimeTable :=
  entries.foldl (fun table e => table.insert e.signature e.min e.max) table

/-- The table is read from the text and then changed by the insertions. -/
def IsBuilt (text : String) (entries : List LifetimeEntry) (table : LifetimeTable) : Prop :=
  ∃ read, parse text = .ok read ∧ table = read.insertAll entries

/-- The key is the canonical spelling of a signature in the text or in the insertions. -/
def IsGiven (text : String) (entries : List LifetimeEntry) (key : String) : Prop :=
  (∃ line ∈ lines text.toList, ∃ e, Says line e ∧ canonical e.signature = key)
    ∨ ∃ e ∈ entries, canonical e.signature = key

theorem insertAll_concat (table : LifetimeTable) (entries : List LifetimeEntry)
    (e : LifetimeEntry) :
    table.insertAll (entries ++ [e])
      = (table.insertAll entries).insert e.signature e.min e.max := by
  unfold insertAll
  rw [List.foldl_append]
  rfl

theorem IsCanonical.insertAll (h : table.IsCanonical) (entries : List LifetimeEntry) :
    (table.insertAll entries).IsCanonical := by
  induction entries using List.reverseRecOn with
  | nil => exact h
  | append_singleton entries e ih =>
      rw [insertAll_concat]
      exact ih.insert _ _ _

theorem mem_keys_insertAll :
    key ∈ (table.insertAll entries).entries.keys
      ↔ key ∈ table.entries.keys ∨ ∃ e ∈ entries, canonical e.signature = key := by
  induction entries using List.reverseRecOn with
  | nil => simp [insertAll]
  | append_singleton entries e ih =>
      rw [insertAll_concat, mem_keys_insert, ih]
      simp only [List.mem_append, List.mem_singleton]
      grind

/-- A line inserts what it says. -/
theorem mem_keys_enterLine {line : List Char} :
    key ∈ (table.enterLine line).entries.keys
      ↔ key ∈ table.entries.keys ∨ ∃ e, Says line e ∧ canonical e.signature = key := by
  unfold enterLine
  simp only [← ofChars_eq_entry_iff]
  cases ofChars line with
  | blank => simp
  | malformed => simp
  | entry e =>
      rw [mem_keys_insert]
      simp [eq_comm]

theorem IsCanonical.enterLine (h : table.IsCanonical) (line : List Char) :
    (table.enterLine line).IsCanonical := by
  unfold LifetimeTable.enterLine
  cases ofChars line with
  | blank => exact h
  | malformed => exact h
  | entry e => exact h.insert _ _ _

theorem isCanonical_entered (ls : List (List Char)) : (entered ls).IsCanonical := by
  induction ls using List.reverseRecOn with
  | nil => exact isCanonical_empty
  | append_singleton ls line ih =>
      rw [entered_concat]
      exact ih.enterLine line

theorem mem_keys_entered :
    key ∈ (entered ls).entries.keys
      ↔ ∃ line ∈ ls, ∃ e, Says line e ∧ canonical e.signature = key := by
  induction ls using List.reverseRecOn with
  | nil =>
      refine iff_of_false (by rintro ⟨⟩) ?_
      rintro ⟨line, hline, _⟩
      cases hline
  | append_singleton ls line ih =>
      rw [entered_concat, mem_keys_enterLine, ih]
      simp only [List.mem_append, List.mem_singleton]
      grind

theorem eq_entered_of_parse (h : parse text = .ok table) :
    table = entered (lines text.toList) := by
  rcases wellFormed_or_exists_first (lines text.toList)
    with hlines | ⟨before, line, after, heq, hbefore, hline⟩
  · rw [parse_eq_ok hlines] at h
    exact (Except.ok.inj h).symm
  · rw [parse_eq_error heq hbefore hline] at h
    cases h

theorem IsBuilt.isCanonical (h : IsBuilt text entries table) : table.IsCanonical := by
  obtain ⟨read, hread, rfl⟩ := h
  rw [eq_entered_of_parse hread]
  exact (isCanonical_entered _).insertAll entries

/-- The keys are the canonical spellings of what the table was given. -/
theorem IsBuilt.mem_keys (h : IsBuilt text entries table) :
    key ∈ table.entries.keys ↔ IsGiven text entries key := by
  obtain ⟨read, hread, rfl⟩ := h
  rw [eq_entered_of_parse hread, mem_keys_insertAll, mem_keys_entered]
  rfl

/-! ## §3. Counting. -/

/-- The members of a list without repetitions are as many as it is long. -/
theorem encard_setOf_mem {α : Type*} {l : List α} (h : l.Nodup) :
    {a | a ∈ l}.encard = l.length := by
  classical
  rw [← List.toFinset_card_of_nodup h, ← Set.encard_coe_eq_coe_finsetCard]
  congr 1
  ext a
  simp

theorem nodup_toList (table : LifetimeTable) : table.toList.Nodup :=
  .of_map Lifetime.signature <| by
    rw [map_signature_toList]
    exact table.entries.nodup_keys

theorem encard_keys (table : LifetimeTable) :
    {key | key ∈ table.entries.keys}.encard = table.size := by
  rw [encard_setOf_mem table.entries.nodup_keys]
  unfold SortedMap.keys size SortedMap.size
  rw [List.length_map]

/-- Counted are the lifetimes with two known bounds, since no entry is listed twice. -/
theorem encard_known (table : LifetimeTable) :
    {life | life ∈ table.toList ∧ ∃ first last, life.min = .known first
      ∧ life.max = .known last}.encard = table.countKnown := by
  have hknown : ∀ life : Lifetime, life.bounds?.isSome = true
      ↔ ∃ first last, life.min = .known first ∧ life.max = .known last := by
    intro life
    rw [Option.isSome_iff_exists]
    simp only [Prod.exists, Lifetime.bounds?_eq_some_iff]
  have hfilter : {life | life ∈ table.toList ∧ ∃ first last, life.min = .known first
      ∧ life.max = .known last}
        = {life | life ∈ table.toList.filter fun life => life.bounds?.isSome} := by
    ext life
    simp only [Set.mem_ofPred_eq, List.mem_filter, hknown]
  unfold countKnown
  rw [hfilter, encard_setOf_mem ((nodup_toList table).filter _), List.countP_eq_length_filter]

/-! ## §4. The map. -/

/-- A table that is read from a text and changed by insertions is a map from canonical
signatures, which have no dollar sign.  It lists its lifetimes in the order of their
signatures, and what is found for a signature of the table is what is listed for its
canonical spelling, so that spellings of one signature cannot be told apart.  An insertion
changes what is found for the spellings of its signature.  There are as many entries as
canonical spellings of what the table was given, and as many known ones as listed lifetimes
of which both bounds are known. -/
theorem map_modulo_spelling (h : IsBuilt text entries table) :
    ((∀ key ∈ table.entries.keys, '$' ∉ key.toList)
      ∧ (table.toList.Pairwise fun life life' => life.signature < life'.signature)
      ∧ (∀ life ∈ table.toList, canonical life.signature = life.signature))
    ∧ ((∀ s, table.contains s = true →
          table.lookup s ∈ table.toList ∧ (table.lookup s).signature = canonical s)
      ∧ (∀ s, ∀ life ∈ table.toList, life.signature = canonical s →
          table.contains s = true ∧ table.lookup s = life)
      ∧ (∀ s t, canonical s = canonical t ↔ AreSpellings s t)
      ∧ (∀ s t, AreSpellings s t → table.lookup s = table.lookup t
          ∧ table.contains s = table.contains t
          ∧ ∀ min max, table.insert s min max = table.insert t min max))
    ∧ (∀ s min max t,
        (canonical t = canonical s → (table.insert s min max).lookup t = ⟨canonical t, min, max⟩)
        ∧ (canonical t ≠ canonical s → (table.insert s min max).lookup t = table.lookup t))
    ∧ {key | IsGiven text entries key}.encard = table.size
    ∧ {life | life ∈ table.toList ∧ ∃ first last, life.min = .known first
        ∧ life.max = .known last}.encard = table.countKnown := by
  have hkeys := h.isCanonical
  refine ⟨⟨fun key hkey => ?_, pairwise_toList table, fun life hlife => ?_⟩,
    ⟨fun s hs => ⟨lookup_mem_toList hs, signature_lookup table s⟩,
      fun s life hlife hs => lookup_of_mem_toList hlife hs.symm,
      fun s t => canonical_eq_canonical_iff, fun s t hspellings => ?_⟩,
    fun s min max t => ⟨fun heq => ?_, fun hne => ?_⟩, ?_, encard_known table⟩
  · rw [← hkeys key hkey]
    exact dollar_not_mem_canonical key
  · refine hkeys _ ?_
    rw [← map_signature_toList]
    exact List.mem_map_of_mem hlife
  · have hsame := canonical_eq_canonical_iff.mpr hspellings
    exact ⟨lookup_congr hsame, contains_congr hsame, insert_congr hsame⟩
  · rw [lookup_insert, if_pos heq]
  · rw [lookup_insert, if_neg hne]
  · simp only [← h.mem_keys]
    exact encard_keys table

/-- Insertions of a signature that the text has in both spellings, and of another one. -/
def respelled : List LifetimeEntry :=
  [⟨"<A$B()>", .known 1, .unknown⟩, ⟨"<C$D()>", .known 2, .known 3⟩]

/-- The insertion into a table that is read changes what is found for both spellings. -/
theorem map_modulo_spelling_respelled :
    ∃ table, IsBuilt renamed respelled table
      ∧ table.lookup "<A.B()>" = table.lookup "<A$B()>"
      ∧ (table.insert "<A$B()>" (.known 5) .unknown).lookup "<A.B()>"
          = ⟨"<A.B()>", .known 5, .unknown⟩
      ∧ (table.insert "<A$B()>" (.known 5) .unknown).lookup "<C.D()>" = table.lookup "<C.D()>" := by
  have hlines : ∀ line ∈ lines renamed.toList, IsWellFormed line := by decide +kernel
  have hbuilt : IsBuilt renamed respelled _ := ⟨_, parse_eq_ok hlines, rfl⟩
  have hself : canonical "<A.B()>" = "<A.B()>" := by decide +kernel
  have hsame : canonical "<A.B()>" = canonical "<A$B()>" := by decide +kernel
  have hother : canonical "<C.D()>" ≠ canonical "<A$B()>" := by decide +kernel
  obtain ⟨_, ⟨_, _, hspellings, hequal⟩, hinsert, _, _⟩ := map_modulo_spelling hbuilt
  have hfound := (hinsert "<A$B()>" (.known 5) .unknown "<A.B()>").1 hsame
  rw [hself] at hfound
  exact ⟨_, hbuilt, (hequal _ _ ((hspellings _ _).mp hsame)).1, hfound,
    (hinsert _ _ _ _).2 hother⟩

end ApiGuard.LifetimeTable
