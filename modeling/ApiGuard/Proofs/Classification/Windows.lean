/-
  ApiGuard.Proofs.Classification.Windows
  ──────────────────────────────────────
  Wider windows have more findings.

  A window only decides on which sides a method is missing.  What is known of the callers,
  and whether they are protected, does not depend on it.  If one window lies in another, the
  findings for it are thus found for the other one as well, unchanged and in the same order:

      missingSides_eq_nil_iff   no side is missing if all levels have the method
      sublist_missingSides      a wider window lacks a method on no fewer sides
      sublist_findings          what is found for a method is found in a wider window
      classify_window_mono      the buckets, and what it takes to be missing on no side
-/
import ApiGuard.Proofs.Classification.Buckets

namespace ApiGuard

variable {life : Lifetime} {w w' : LevelWindow} {first last : Nat}

/-! ## §1. Missing sides. -/

theorem missingSides_of_known (hmin : life.min = .known first) (hmax : life.max = .known last)
    (w : LevelWindow) :
    missingSides life w = (if last < w.max then [.forward] else [])
      ++ (if w.min < first ∧ 1 < first then [.backward] else []) := by
  unfold missingSides
  rw [Lifetime.bounds?_eq_some_iff.mpr ⟨hmin, hmax⟩]

/-- A method is missing on no side just if all levels of the window have it.  Levels start
with 1, also in a window from 0 on. -/
theorem missingSides_eq_nil_iff (hmin : life.min = .known first) (hmax : life.max = .known last)
    (hlevels : max 1 w.min ≤ w.max) :
    missingSides life w = []
      ↔ ∀ level, max 1 w.min ≤ level → level ≤ w.max → first ≤ level ∧ level ≤ last := by
  have hsides : missingSides life w = [] ↔ w.max ≤ last ∧ first ≤ max 1 w.min := by
    rw [missingSides_of_known hmin hmax, List.append_eq_nil_iff, ite_eq_right_iff,
      ite_eq_right_iff]
    simp only [List.cons_ne_nil, imp_false]
    omega
  rw [hsides]
  constructor
  · rintro ⟨hlast, hfirst⟩ level hge hle
    exact ⟨hfirst.trans hge, hle.trans hlast⟩
  · -- both ends of the window are levels of it, whichever bound of the method comes first
    intro hall
    exact ⟨(hall w.max hlevels le_rfl).2, (hall (max 1 w.min) le_rfl hlevels).1⟩

theorem sublist_ite {α : Type} {p q : Prop} [Decidable p] [Decidable q] (h : p → q)
    (l : List α) : (if p then l else []).Sublist (if q then l else []) := by
  by_cases hp : p
  · rw [if_pos hp, if_pos (h hp)]
  · rw [if_neg hp]
    exact List.nil_sublist _

/-- A wider window lacks a method on no fewer sides. -/
theorem sublist_missingSides (hmin : w'.min ≤ w.min) (hmax : w.max ≤ w'.max) (life : Lifetime) :
    (missingSides life w).Sublist (missingSides life w') := by
  unfold missingSides
  split
  next => exact List.nil_sublist _
  next first last _ =>
    have hforward : last < w.max → last < w'.max := fun h => h.trans_le hmax
    have hbackward : w.min < first ∧ 1 < first → w'.min < first ∧ 1 < first :=
      And.imp_left hmin.trans_lt
    exact (sublist_ite hforward _).append (sublist_ite hbackward _)

/-! ## §2. Findings. -/

namespace Grounds

/-- What is found for a method is found in a wider window. -/
theorem sublist_findings (k : Grounds) (hmin : w'.min ≤ w.min) (hmax : w.max ≤ w'.max)
    (api : String) : (k.findings w api).Sublist (k.findings w' api) := by
  rw [findings_eq, findings_eq]
  exact (sublist_missingSides hmin hmax _).map _

/-- Two windows, one in the other, have the same number of methods of which a bound is
unknown.  Each bucket of the wider one has the findings of the narrower one, unchanged and
in order, and perhaps more between them.

A method with known bounds has no finding in a window just if all of its levels have the
method. -/
theorem classify_window_mono :
    (∀ (k : Grounds) (apis : List String) (w w' : LevelWindow),
      w'.min ≤ w.min → w.max ≤ w'.max →
        (k.classify apis w').unknown = (k.classify apis w).unknown
        ∧ ∀ side p,
          ((k.classify apis w).bucket side p).Sublist ((k.classify apis w').bucket side p))
    ∧ ∀ (life : Lifetime) (first last : Nat) (w : LevelWindow),
        life.min = .known first → life.max = .known last → max 1 w.min ≤ w.max →
          (missingSides life w = []
            ↔ ∀ level, max 1 w.min ≤ level → level ≤ w.max → first ≤ level ∧ level ≤ last) := by
  constructor
  · intro k apis w w' hmin hmax
    have hfindings : (k.classify apis w).findings.Sublist (k.classify apis w').findings :=
      List.Sublist.flatMap_right apis fun api _ => sublist_findings k hmin hmax api
    exact ⟨rfl, fun side p => hfindings.filter _⟩
  · intro life first last w hmin hmax hlevels
    exact missingSides_eq_nil_iff hmin hmax hlevels

/-- A finding is found with two more levels below and above.  A method from level 1 on that
outlasts a window from 0 on is not missing in it.  One whose bounds are the wrong way round is
on no level, so that it is missing in a window of these two. -/
theorem classify_window_mono_channel :
    (∃ f ∈ (channelGrounds.classify ["<android.app.Channel: void open()>"]
          ⟨19, 36⟩).bucket .backward .guarded,
        f.callers.map CallerFacts.caller
          = ["<app.Notifier: void show()>", "<lib.Compat: void show()>"])
    ∧ missingSides ⟨"<android.app.Channel: void open()>", .known 1, .known 34⟩ ⟨0, 34⟩ = []
    ∧ missingSides ⟨"<android.app.Channel: void open()>", .known 30, .known 29⟩ ⟨29, 30⟩ ≠ [] := by
  obtain ⟨hwindows, hlevels⟩ := classify_window_mono
  refine ⟨?_, ?_, ?_⟩
  · have hfound : ∃ f ∈ (channelGrounds.classify ["<android.app.Channel: void open()>"]
          ⟨21, 34⟩).bucket .backward .guarded,
        f.callers.map CallerFacts.caller
          = ["<app.Notifier: void show()>", "<lib.Compat: void show()>"] := by
      decide +kernel
    obtain ⟨f, hf, hcallers⟩ := hfound
    obtain ⟨_, hbuckets⟩ := hwindows channelGrounds ["<android.app.Channel: void open()>"]
      ⟨21, 34⟩ ⟨19, 36⟩ (by decide) (by decide)
    exact ⟨f, (hbuckets .backward .guarded).subset hf, hcallers⟩
  · rw [hlevels _ 1 34 _ rfl rfl (by decide)]
    intro level hge hle
    exact ⟨(le_max_left 1 0).trans hge, hle⟩
  · rw [Ne, hlevels _ 30 29 _ rfl rfl (by decide)]
    intro hall
    exact absurd (hall 29 (by decide) (by decide)).1 (by decide)

end Grounds

end ApiGuard
