/-
  ApiGuard.Proofs.Analysis.Findings
  ─────────────────────────────────
  The findings of an analysis, by bucket.

  Used methods are noted by their canonical signatures, in increasing order, and only if
  the table at hand has them.  So if an analysis is classified with the one table that was
  at hand all along, each bucket is in order and no method is in two of one side:

      of_mem_used       what is used has its entry in the table
      buckets_exact     the buckets of any classification, and of an analysis
-/
import ApiGuard.Proofs.Analysis.Operations
import ApiGuard.Proofs.Classification.Buckets
import ApiGuard.Proofs.Hierarchy.Inherited

namespace ApiGuard

namespace ApiUsage

/-- The used methods are in increasing order. -/
theorem pairwise_used (u : ApiUsage) : u.used.Pairwise fun api api' => compare api api' = .lt :=
  List.pairwise_map.mpr u.callers.increasing

end ApiUsage

namespace Analysis

open ApiUsage

variable {config : AnalysisConfig} {ops : List Operation} {table : LifetimeTable}

/-! ## §1. Used methods. -/

/-- If the table was at hand all along, what is used are canonical signatures that it has. -/
theorem of_mem_used (htable : ∀ op ∈ ops, op.table = table) {api : String}
    (hapi : api ∈ (performed config ops).usage.used) :
    api ∈ table.entries.keys ∧ Signature.canonical api = api := by
  rw [performed_eq] at hapi
  obtain ⟨use, huse, rfl⟩ := (reflects_taken _).mem_used.mp hapi
  obtain ⟨i, hi, huse⟩ := List.mem_flatMap.mp huse
  obtain ⟨op, hop, hat⟩ := exists_operation_of_mem_intakesOf hi
  obtain ⟨_, _, _, hstands⟩ := mem_usesOf.mp huse
  rw [hat, htable op hop] at hstands
  exact of_platformMethod?_eq_some hstands

/-- The grounds on which an analysis is classified once it is finished. -/
def groundsOf (a : Analysis) (table : LifetimeTable) (isLibrary : String → Bool) : Grounds :=
  ⟨a.finish.graph, a.usage.callSites, table, isLibrary⟩

theorem signature_findingOn (htable : ∀ op ∈ ops, op.table = table) {isLibrary : String → Bool}
    {side : Side} {api : String} (hapi : api ∈ (performed config ops).usage.used) :
    (((performed config ops).groundsOf table isLibrary).findingOn side api).lifetime.signature
      = api :=
  (table.signature_lookup api).trans (of_mem_used htable hapi).2

/-! ## §2. Buckets. -/

/-- A bucket has one finding for each listed method that falls in it, in the order of the
list; all findings are in the buckets, each in one.  A method falls in a bucket if both of
its bounds are known, the window lacks it on the side and some caller is guarded, or else
none.  Counted are the methods of which a bound is unknown.  All findings for one method
have one protection and the same callers.

If an analysis is classified with the table that was at hand all along, each bucket is
strictly increasing, the findings are of canonical signatures that the table has, and those
of one signature have one protection. -/
theorem buckets_exact :
    (∀ (k : Grounds) (apis : List String) (w : LevelWindow),
      (∀ side p, (k.classify apis w).bucket side p
        = (apis.filter (k.fallsIn w side p)).map (k.findingOn side))
      ∧ (∀ side p api, k.fallsIn w side p api = true
        ↔ (∃ first last, (k.table.lookup api).min = .known first
            ∧ (k.table.lookup api).max = .known last ∧ w.Lacks first last side)
          ∧ (p = .guarded
            ↔ ∃ caller ∈ k.callers.callersOf api, k.isGuarded caller api = true))
      ∧ (k.classify apis w).byBucket.Perm (k.classify apis w).findings
      ∧ (k.classify apis w).unknown
          = (apis.filter fun api =>
              (k.table.lookup api).min = .unknown ∨ (k.table.lookup api).max = .unknown).length
      ∧ ∀ api, ∀ f ∈ k.findings w api, ∀ f' ∈ k.findings w api,
          f.protection = f'.protection ∧ f.callers = f'.callers)
    ∧ ∀ config ops table isLibrary w, (∀ op ∈ ops, op.table = table) →
      (∀ side p,
        (((performed config ops).finish.classify table isLibrary w).bucket side p).Pairwise
          fun f f' => compare f.lifetime.signature f'.lifetime.signature = .lt)
      ∧ (∀ f ∈ ((performed config ops).finish.classify table isLibrary w).findings,
        f.lifetime.signature ∈ table.entries.keys
          ∧ Signature.canonical f.lifetime.signature = f.lifetime.signature)
      ∧ ∀ f ∈ ((performed config ops).finish.classify table isLibrary w).findings,
          ∀ f' ∈ ((performed config ops).finish.classify table isLibrary w).findings,
          f.lifetime.signature = f'.lifetime.signature → f.protection = f'.protection := by
  refine ⟨fun k apis w => ⟨k.bucket_classify apis w, fun _ _ _ => Grounds.fallsIn_iff,
    Classification.byBucket_perm _, k.unknown_classify apis w, fun api f hf f' hf' => ?_⟩,
    fun config ops table isLibrary w htable => ?_⟩
  · rw [Grounds.findings_eq] at hf hf'
    obtain ⟨_, _, rfl⟩ := List.mem_map.mp hf
    obtain ⟨_, _, rfl⟩ := List.mem_map.mp hf'
    exact ⟨rfl, rfl⟩
  · have hclassify : (performed config ops).finish.classify table isLibrary w
        = ((performed config ops).groundsOf table isLibrary).classify
            (performed config ops).usage.used w := rfl
    rw [hclassify]
    refine ⟨fun side p => ?_, fun f hf => ?_, fun f hf f' hf' hsame => ?_⟩
    · -- findings are in the order of the used methods, whose names they bear
      rw [Grounds.bucket_classify, List.pairwise_map]
      refine ((pairwise_used _).filter _).imp_of_mem fun {api api'} hapi hapi' hlt => ?_
      rw [signature_findingOn htable (List.mem_of_mem_filter hapi),
        signature_findingOn htable (List.mem_of_mem_filter hapi')]
      exact hlt
    · obtain ⟨api, hapi, side, _, rfl⟩ := Grounds.mem_findings_classify.mp hf
      rw [signature_findingOn htable hapi]
      exact of_mem_used htable hapi
    · -- findings of one signature are of one method, whose protection is the same on both sides
      obtain ⟨api, hapi, _, _, rfl⟩ := Grounds.mem_findings_classify.mp hf
      obtain ⟨api', hapi', _, _, rfl⟩ := Grounds.mem_findings_classify.mp hf'
      rw [signature_findingOn htable hapi, signature_findingOn htable hapi'] at hsame
      subst hsame
      rfl

/-- The notifier is entered alone, and then its caller in a unit. -/
def notifierOperations : List Operation :=
  [.enter ∅ channelInputs.table true notifier,
    .enterUnit ∅ channelInputs.table ⟨false, [notifySwitch]⟩]

/-- The used method is missing on both sides of the window, with one protection. -/
theorem buckets_exact_notifier :
    (∀ op ∈ notifierOperations, op.table = channelInputs.table)
    ∧ ∃ f ∈ ((performed {} notifierOperations).finish.classify channelInputs.table
          (fun _ => false) ⟨21, 35⟩).findings,
      ∃ f' ∈ ((performed {} notifierOperations).finish.classify channelInputs.table
          (fun _ => false) ⟨21, 35⟩).findings,
        f.side = .forward ∧ f'.side = .backward
        ∧ f.lifetime.signature = "<android.app.Channel: void open()>"
        ∧ f'.lifetime.signature = "<android.app.Channel: void open()>"
        ∧ "<android.app.Channel: void open()>" ∈ channelInputs.table.entries.keys
        ∧ f.protection = f'.protection := by
  have htable : ∀ op ∈ notifierOperations, op.table = channelInputs.table := by
    intro op hop
    rcases List.mem_pair.mp hop with rfl | rfl
    · rfl
    · rfl
  have hused : "<android.app.Channel: void open()>"
      ∈ (performed {} notifierOperations).usage.used := by
    decide +kernel
  have hsides : missingSides (channelInputs.table.lookup "<android.app.Channel: void open()>")
      ⟨21, 35⟩ = [.forward, .backward] := by
    decide +kernel
  have hfinding : ∀ side,
      ((performed {} notifierOperations).groundsOf channelInputs.table fun _ => false).findingOn
          side "<android.app.Channel: void open()>"
        ∈ ((performed {} notifierOperations).finish.classify channelInputs.table
          (fun _ => false) ⟨21, 35⟩).findings := by
    intro side
    refine Grounds.mem_findings_classify.mpr ⟨_, hused, side, ?_, rfl⟩
    show side ∈ missingSides (channelInputs.table.lookup _) _
    rw [hsides]
    cases side <;> simp
  have hsignature : ∀ side,
      (((performed {} notifierOperations).groundsOf channelInputs.table fun _ => false).findingOn
          side "<android.app.Channel: void open()>").lifetime.signature
        = "<android.app.Channel: void open()>" :=
    fun side => signature_findingOn htable hused
  obtain ⟨_, hkeys, hprotection⟩ := buckets_exact.2 {} notifierOperations channelInputs.table
    (fun _ => false) ⟨21, 35⟩ htable
  refine ⟨htable, _, hfinding .forward, _, hfinding .backward, rfl, rfl, hsignature _,
    hsignature _, ?_, hprotection _ (hfinding _) _ (hfinding _) ?_⟩
  · exact hsignature .forward ▸ (hkeys _ (hfinding .forward)).1
  · rw [hsignature, hsignature]

end Analysis

end ApiGuard
