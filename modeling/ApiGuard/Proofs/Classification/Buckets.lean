/-
  ApiGuard.Proofs.Classification.Buckets
  ──────────────────────────────────────
  What is in each bucket of a classification.

  A bucket has one finding for each listed method that falls in it, in the order of the
  list, and the buckets have all findings between them.  Whether a method falls in a
  bucket is read off its two bounds and its guarded callers:

      bucket_classify     the findings of a bucket are those of the methods that fall in it
      fallsIn_iff         what it takes to fall in a bucket, by levels and callers
      byBucket_perm       no finding is lost or put twice
-/
import ApiGuard.Proofs.Classification.Protection
import ApiGuard.Proofs.Lifetime.Table

namespace ApiGuard

/-! ## §1. Sides. -/

/-- A method that comes with level `first` and goes with level `last` is missing on the
side. -/
def LevelWindow.Lacks (w : LevelWindow) (first last : Nat) : Side → Prop
  | .forward => last < w.max
  | .backward => w.min < first ∧ 1 < first

variable {life : Lifetime} {w : LevelWindow} {side : Side}

/-- A method is missing on a side only if both of its bounds are known. -/
theorem mem_missingSides :
    side ∈ missingSides life w
      ↔ ∃ first last, life.min = .known first ∧ life.max = .known last
        ∧ w.Lacks first last side := by
  simp only [← and_assoc, ← Lifetime.bounds?_eq_some_iff]
  unfold missingSides
  cases life.bounds? with
  | none => simp
  | some bounds =>
      obtain ⟨first, last⟩ := bounds
      simp only [Option.some.injEq, Prod.mk.injEq, and_assoc]
      unfold LevelWindow.Lacks
      cases side <;> simp [List.mem_append]

theorem nodup_missingSides (life : Lifetime) (w : LevelWindow) : (missingSides life w).Nodup := by
  unfold missingSides
  split
  next => exact .nil
  next => split <;> split <;> decide

/-! ## §2. Buckets. -/

/-- All findings are in the buckets, each in one. -/
theorem Classification.byBucket_perm (c : Classification) : c.byBucket.Perm c.findings := by
  have hsplit : ∀ (l : List Finding) (one other : Finding → Bool), (∀ f, other f = !one f) →
      (l.filter one ++ l.filter other).Perm l := by
    intro l one other hother
    obtain rfl : other = fun f => !one f := funext hother
    exact List.filter_append_perm one l
  -- the findings of a side are those of either protection
  have hside : ∀ side : Side, (c.bucket side .guarded ++ c.bucket side .problematic).Perm
      (c.findings.filter fun f => f.side = side) := by
    intro side
    have hbucket : ∀ p, c.bucket side p
        = (c.findings.filter fun f => f.side = side).filter fun f => f.protection = p := by
      intro p
      rw [List.filter_filter]
      exact List.filter_congr fun f _ => Bool.and_comm _ _
    rw [hbucket, hbucket]
    exact hsplit _ _ _ fun f => by cases f.protection <;> rfl
  unfold byBucket
  rw [List.append_assoc]
  exact ((hside .forward).append (hside .backward)).trans
    (hsplit _ _ _ fun f => by cases f.side <;> rfl)

namespace Grounds

variable {k : Grounds} {api : String} {p : Protection}

/-- The method falls in the bucket: it is missing on the side, and its callers are
protected in this way. -/
def fallsIn (k : Grounds) (w : LevelWindow) (side : Side) (p : Protection) (api : String) : Bool :=
  side ∈ missingSides (k.table.lookup api) w && protectionOf (k.callerFacts api) = p

/-- The finding for a method that is missing on the side. -/
def findingOn (k : Grounds) (side : Side) (api : String) : Finding :=
  ⟨k.table.lookup api, side, protectionOf (k.callerFacts api), k.callerFacts api⟩

/-- The callers of a method are protected if the call or a way is guarded for one of them. -/
theorem protectionOf_callerFacts_eq_guarded_iff :
    protectionOf (k.callerFacts api) = .guarded
      ↔ ∃ caller ∈ k.callers.callersOf api, k.isGuarded caller api = true := by
  rw [protectionOf_eq_guarded_iff]
  unfold callerFacts
  simp only [List.mem_map]
  constructor
  · rintro ⟨_, ⟨caller, hcaller, rfl⟩, hguard⟩
    exact ⟨caller, hcaller, hguard⟩
  · rintro ⟨caller, hcaller, hguard⟩
    exact ⟨_, ⟨caller, hcaller, rfl⟩, hguard⟩

/-- A method falls in a bucket if both of its bounds are known, the window lacks it on the
side and some caller is guarded, or else none. -/
theorem fallsIn_iff :
    k.fallsIn w side p api = true
      ↔ (∃ first last, (k.table.lookup api).min = .known first
          ∧ (k.table.lookup api).max = .known last ∧ w.Lacks first last side)
        ∧ (p = .guarded ↔ ∃ caller ∈ k.callers.callersOf api, k.isGuarded caller api = true) := by
  unfold fallsIn
  rw [Bool.and_eq_true, decide_eq_true_eq, decide_eq_true_eq, mem_missingSides,
    ← protectionOf_callerFacts_eq_guarded_iff]
  refine and_congr_right fun _ => ?_
  cases p <;> cases protectionOf (k.callerFacts api) <;> simp

/-- What one method puts in a bucket. -/
theorem filter_findings (k : Grounds) (w : LevelWindow) (side : Side) (p : Protection)
    (api : String) :
    (k.findings w api).filter (fun f => f.side = side && f.protection = p)
      = if k.fallsIn w side p api then [k.findingOn side api] else [] := by
  -- a method is missing on a side once at most, so that it puts one finding there
  have hside : (missingSides (k.table.lookup api) w).filter (· = side)
      = if side ∈ missingSides (k.table.lookup api) w then [side] else [] := by
    rw [List.filter_eq, (nodup_missingSides _ w).count]
    split <;> rfl
  have hfindings : k.findings w api
      = (missingSides (k.table.lookup api) w).map (k.findingOn · api) := findings_eq k w api
  rw [hfindings, List.filter_map]
  unfold fallsIn
  by_cases hp : protectionOf (k.callerFacts api) = p
  · have hsame : (fun f : Finding => f.side = side && f.protection = p) ∘ (k.findingOn · api)
        = fun s => decide (s = side) := by
      funext s
      simp [findingOn, hp]
    rw [hsame, hside]
    split
    next hmissing => simp [hmissing, hp]
    next hmissing => simp [hmissing]
  · have hnone : (fun f : Finding => f.side = side && f.protection = p) ∘ (k.findingOn · api)
        = fun _ => false := by
      funext s
      simp [findingOn, hp]
    rw [hnone]
    simp [hp]

/-- A bucket has one finding for each listed method that falls in it, in order. -/
theorem bucket_classify (k : Grounds) (apis : List String) (w : LevelWindow) (side : Side)
    (p : Protection) :
    (k.classify apis w).bucket side p
      = (apis.filter (k.fallsIn w side p)).map (k.findingOn side) := by
  show (apis.flatMap (k.findings w)).filter _ = _
  induction apis with
  | nil => rfl
  | cons api rest ih =>
      rw [List.flatMap_cons, List.filter_append, filter_findings, ih, List.filter_cons]
      split
      next => rfl
      next => rfl

/-- The findings are those of the listed methods that are missing on some side. -/
theorem mem_findings_classify {apis : List String} {f : Finding} :
    f ∈ (k.classify apis w).findings
      ↔ ∃ api ∈ apis, ∃ side ∈ missingSides (k.table.lookup api) w, f = k.findingOn side api := by
  show f ∈ apis.flatMap (k.findings w) ↔ _
  simp only [List.mem_flatMap, findings_eq, List.mem_map, eq_comm (a := f)]
  rfl

/-- Counted are the listed methods of which a bound is unknown. -/
theorem unknown_classify (k : Grounds) (apis : List String) (w : LevelWindow) :
    (k.classify apis w).unknown
      = (apis.filter fun api =>
          (k.table.lookup api).min = .unknown ∨ (k.table.lookup api).max = .unknown).length := by
  show apis.countP _ = _
  rw [← List.countP_eq_length_filter]
  refine List.countP_congr fun api _ => ?_
  rw [Option.isNone_iff_eq_none, Lifetime.bounds?_eq_none_iff, decide_eq_true_eq]

end Grounds

end ApiGuard
