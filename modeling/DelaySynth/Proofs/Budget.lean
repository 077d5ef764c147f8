import DelaySynth.Proofs.Reach.Answered
import DelaySynth.Proofs.Timing

/-!
# Larger budgets

With more instructions flat sequences last longer, and a body that they can last as long as is sought
among them alone. So a larger budget may lose a loop in a loop: the inner one is no longer sought once
flat sequences reach the lower end of the window for it, even if none of them lies in the window.
`Overtaken` says that this has come to pass at some depth of a loop, and nothing else is ever lost.

* `LoopFound.grow`, `MainFound.grow`: what a budget admits, a larger one admits in place of it, or it is
  overtaken.
* `larger_budget`: a request that is met with some budget is met with a larger one, unless the search
  takes too many steps or the loop that was found is overtaken at every attempt.
* `larger_budget_loses`: a request that is met with eight instructions and not with nine.
-/

namespace DelaySynth.Synthesizer

open SearchM

variable {y : Synthesizer} {memory : List String} {budget budget' depth : Nat} {window : Window}
  {granted : ResourceSet} {c : Counter} {o : LoopOverhead} {l : Loop Code}

/-- At some depth of a loop, flat sequences reach the lower end of the window for its body, which is a
loop, and none of them lies in that window. -/
inductive Overtaken (y : Synthesizer) (memory : List String) :
    (budget : Nat) → Window → ResourceSet → (depth : Nat) → Loop Code → Prop
  | here {budget : Nat} {window : Window} {granted : ResourceSet} {depth : Nat} {c : Counter}
      {o : LoopOverhead} {l inner : Loop Code}
      (shape : y.LoopShape memory budget window granted depth c o l)
      (body : l.body = .loop inner)
      (within : (bodyWindow window o l.iterations).min ≤
        (Reach.ofKey y.machine.catalog (c.bodyKey memory budget granted)).top)
      (missed : (Reach.ofKey y.machine.catalog (c.bodyKey memory budget granted)).lookupWindow
        (bodyWindow window o l.iterations) = none) :
      Overtaken y memory (budget + 3) window granted depth l
  | inside {budget : Nat} {window : Window} {granted : ResourceSet} {depth : Nat} {c : Counter}
      {o : LoopOverhead} {l inner : Loop Code}
      (shape : y.LoopShape memory budget window granted depth c o l)
      (body : l.body = .loop inner)
      (below : Overtaken y memory budget (bodyWindow window o l.iterations)
        (granted.eraseAll c.registers) (depth + 1) inner) :
      Overtaken y memory (budget + 3) window granted depth l

/-- What a loop is besides its body does not depend on the budget. -/
theorem LoopShape.grow (h : y.LoopShape memory budget window granted depth c o l) (budget' : Nat)
    (body : Code) : y.LoopShape memory budget' window granted depth c o { l with body } :=
  { h with
    counted := { h.counted with }
    tried := by
      have := h.tried
      simpa only [LoopGoal.maxIterations, LoopGoal.on] using this
    hopeful := h.hopeful }

/-- A loop that a budget admits is admitted by a larger one, with other fillers, or it is overtaken. -/
theorem LoopFound.grow (h : y.LoopFound memory budget window granted depth l)
    (hle : budget ≤ budget') : (∃ l', y.LoopFound memory budget' window granted depth l') ∨
      y.Overtaken memory budget' window granted depth l := by
  induction h generalizing budget' with
  | @flat budget window granted depth c o l g shape body within found =>
    obtain ⟨budget', rfl⟩ : ∃ b, budget' = b + 3 := ⟨budget' - 3, by omega⟩
    have hle : budget ≤ budget' := by omega
    obtain ⟨g', hg'⟩ := Reach.lookupWindow_mono hle found
    exact .inl ⟨_, .flat (shape.grow budget' (.group g')) rfl
      (Reach.le_top_mono hle within) hg'⟩
  | @nested budget window granted depth c o l inner shape body beyond found ih =>
    obtain ⟨budget', rfl⟩ : ∃ b, budget' = b + 3 := ⟨budget' - 3, by omega⟩
    have hle : budget ≤ budget' := by omega
    have hshape : y.LoopShape memory budget' window granted depth c o l := shape.grow budget' l.body
    by_cases hwithin : (bodyWindow window o l.iterations).min ≤
        (Reach.ofKey y.machine.catalog (c.bodyKey memory budget' granted)).top
    · cases hlookup : (Reach.ofKey y.machine.catalog
          (c.bodyKey memory budget' granted)).lookupWindow (bodyWindow window o l.iterations) with
      | some g => exact .inl ⟨_, .flat (shape.grow budget' (.group g)) rfl hwithin hlookup⟩
      | none => exact .inr (.here hshape body hwithin hlookup)
    · rcases ih hle with ⟨inner', hinner⟩ | hinner
      · exact .inl ⟨_, .nested (shape.grow budget' (.loop inner')) rfl (Int.not_le.mp hwithin) hinner⟩
      · exact .inr (.inside hshape body hinner)

theorem MainFound.grow {main : Code} (h : y.MainFound memory budget window granted main)
    (hle : budget ≤ budget') : (∃ main', y.MainFound memory budget' window granted main') ∨
      ∃ l, main = .loop l ∧ y.Overtaken memory budget' window granted 0 l := by
  cases h with
  | flat nonneg within found =>
    obtain ⟨g', hg'⟩ := Reach.lookupWindow_mono hle found
    exact .inl ⟨_, .flat nonneg (Reach.le_top_mono hle within) hg'⟩
  | loop nonneg found =>
    rcases found.grow hle with ⟨l', hl'⟩ | hl
    · exact .inl ⟨_, .loop nonneg hl'⟩
    · exact .inr ⟨_, rfl, hl⟩

/-- If attempts from a larger budget on find nothing, then none of them has the budget with which
something was found, and each of them is with a larger one. -/
theorem MainFound.overtaken {main : Code} {attempt tries : Nat}
    (h : y.MainFound memory (min (budget + attempt) maxBudget) window granted main)
    (hattempt : attempt ≤ tries) (hle : budget ≤ budget')
    (hnone : ∀ k ≤ tries, ∀ main',
      ¬y.MainFound memory (min (budget' + k) maxBudget) window granted main') :
    ∃ l, main = .loop l ∧
      ∀ k ≤ tries, y.Overtaken memory (min (budget' + k) maxBudget) window granted 0 l := by
  have hgrow (k : Nat) (hk : k ≤ tries) :
      ∃ l, main = .loop l ∧ y.Overtaken memory (min (budget' + k) maxBudget) window granted 0 l := by
    by_cases hlarger : budget + attempt ≤ budget' + k
    · exact (h.grow (by omega)).resolve_left fun ⟨main', hmain'⟩ => hnone k hk main' hmain'
    · have heq : budget' + (budget + attempt - budget') = budget + attempt := by omega
      exact absurd (heq.symm ▸ h) (hnone (budget + attempt - budget') (by omega) main)
  obtain ⟨l, rfl, -⟩ := hgrow 0 (Nat.zero_le _)
  refine ⟨l, rfl, fun k hk => ?_⟩
  obtain ⟨_, ⟨⟩, hl⟩ := hgrow k hk
  exact hl

/-- A request that is met with some budget is met with every larger one, or the search with the larger
one takes more steps than its limit, or the main part that was found is a loop which is overtaken at
every attempt with the larger budget. -/
theorem larger_budget (y : Synthesizer) (test : SpillTest) (r : Request) {budget : Nat}
    {routine : Routine Code} {stats : Stats}
    (hcounters : ∀ c ∈ y.machine.target.counters, ∃ o, y.machine.overhead c.width c.name = .ok o)
    (hmin : -(bound64 : Int) ≤ 2 * r.min) (hmax : 2 * r.max < bound64) (hle : r.budget ≤ budget)
    (h : y.buildWith test r = .ok (some routine, stats)) :
    ∃ found stats', y.buildWith test { r with budget } = .ok (found, stats') ∧
      (found.isSome = true ∨ y.config.stepLimit < stats'.steps ∨
        ∃ f s l, (y.freeRegisters? test (r.innerWindow routine.ret?) (Register.count + 1)
            { resources := r.resources }).run {} = .ok (some f) s ∧
          routine.main = .loop l ∧
          ∀ attempt ≤ y.config.budgetRetries, y.Overtaken (Resource.addresses f.resources)
            (min (Request.mainBudget { r with budget } routine.ret? f + attempt) maxBudget)
            ((r.innerWindow routine.ret?).minus (f.save.duration + f.restore.duration))
            (ResourceSet.ofResources f.resources) 0 l) := by
  have hwindow : ¬(r.max < r.min ∨ r.max < 0) := by
    intro hinvalid
    unfold buildWith at h
    rw [if_pos hinvalid] at h
    cases h
  obtain ⟨f, hfound⟩ := routineFound_of_build h
  obtain ⟨s, hframe⟩ := hfound.frame
  obtain ⟨attempt, hattempt, hmain⟩ := hfound.main
  have hfaithful : s.Faithful y.machine.catalog :=
    ((finds_freeRegisters? _ _ _).of_ok Session.faithful_empty hframe).1
  have hlacks : y.machine.LoopsLack fun _ => False := by
    intro c hc e he
    obtain ⟨o, ho⟩ := hcounters c hc
    cases ho.symm.trans he
  -- Up to the search for the main part nothing depends on the budget.
  have hrest := run_routine?_of_frame (r := { r with budget })
    (run_returnFor?_of_included hfound.included hfound.returns {}) hframe
  have hsearch := finds_mainFor? (r := { r with budget }) hlacks routine.ret? f
  rw [EStateM.run_bind] at hrest
  cases hrun : (y.mainFor? { r with budget } routine.ret? f).run s with
  | error e t =>
    rw [hrun] at hrest
    have hends := (hsearch.of_error hfaithful hrun).2
    cases e with
    | searchLimit limit =>
      exact ⟨none, t.stats, buildWith_of_searchLimit hwindow hrest, .inr (.inl hends)⟩
    | incompatibleCatalog e => exact hends.elim
    | invalidWindow min max => exact hends.elim
    | unknownTarget name => exact hends.elim
    | timingMismatch duration min max => exact hends.elim
  | ok main? t =>
    rw [hrun] at hrest
    have hanswers := (hsearch.of_ok hfaithful hrun).2
    cases main? with
    | some main =>
      obtain ⟨f', hfound'⟩ := routineFound_of_run hrest
      exact ⟨_, t.stats, buildWith_of_some hwindow hrest (hfound'.contains hmin hmax), .inl rfl⟩
    | none =>
      refine ⟨none, t.stats, buildWith_of_none hwindow hrest, .inr (.inr ?_)⟩
      have hless : r.mainBudget routine.ret? f ≤
          Request.mainBudget { r with budget } routine.ret? f := by
        simp only [Request.mainBudget]
        omega
      obtain ⟨l, hl, hovertaken⟩ := hmain.overtaken hattempt hless fun k hk main' hmain' =>
        hanswers.complete rfl main' ⟨k, hk, hmain'⟩
      exact ⟨f, s, l, hframe, hl, hovertaken⟩

/-! ## A budget that loses -/

/-- A search that makes a single attempt. -/
def singleAttempt : Synthesizer := { machine := I8085.machine, config := { budgetRetries := 0 } }

/-- A request for 153 cycles with two register pairs. Two iterations of a loop leave 59 cycles for its body.
Five fillers last 50 cycles at most. Six may last 60, but none of them last 59. -/
def awkwardRequest (budget : Nat) : Request where
  min := 153
  max := 153
  resources := ["B", "C", "D", "E"].map Resource.register
  budget := budget
  includeReturn := false

set_option maxRecDepth 100000 in
theorem exists_built_eight : ∃ routine stats,
    singleAttempt.build (awkwardRequest 8) = .ok (some routine, stats) :=
  exists_of_isSome_built? (by decide +kernel)

set_option maxRecDepth 100000 in
theorem exists_unbuilt_nine : ∃ stats,
    singleAttempt.build (awkwardRequest 9) = .ok (none, stats) ∧
      stats.steps ≤ singleAttempt.config.stepLimit :=
  exists_of_endsWithin (by decide +kernel)

theorem larger_budget_overtaken : ∃ routine stats,
    singleAttempt.build (awkwardRequest 8) = .ok (some routine, stats) ∧
    ∃ f s l, (singleAttempt.freeRegisters? singleAttempt.spillTest
        ((awkwardRequest 8).innerWindow routine.ret?) (Register.count + 1)
        { resources := (awkwardRequest 8).resources }).run {} = .ok (some f) s ∧
      routine.main = .loop l ∧
      singleAttempt.Overtaken (Resource.addresses f.resources)
        (min ((awkwardRequest 9).mainBudget routine.ret? f + 0) maxBudget)
        (((awkwardRequest 8).innerWindow routine.ret?).minus (f.save.duration + f.restore.duration))
        (ResourceSet.ofResources f.resources) 0 l := by
  obtain ⟨routine, stats, h⟩ := exists_built_eight
  obtain ⟨stats', hnone, hsteps⟩ := exists_unbuilt_nine
  refine ⟨routine, stats, h, ?_⟩
  obtain ⟨found, stats'', hfound, hend⟩ := larger_budget singleAttempt singleAttempt.spillTest
    (awkwardRequest 8) I8085.exists_overhead (by decide) (by decide)
    (show (awkwardRequest 8).budget ≤ 9 by decide) h
  have hboth : (found, stats'') = (none, stats') := Except.ok.inj (hfound.symm.trans hnone)
  obtain ⟨rfl, rfl⟩ := Prod.mk.inj hboth
  rcases hend with hsome | hmore | ⟨f, s, l, hframe, hl, hovertaken⟩
  · cases hsome
  · omega
  · exact ⟨f, s, l, hframe, hl, hovertaken 0 (Nat.zero_le _)⟩

/-- The request is met with eight instructions, and with nine it is given up within the limit of
steps. -/
theorem larger_budget_loses :
    (∃ routine stats, singleAttempt.build (awkwardRequest 8) = .ok (some routine, stats)) ∧
    ∃ stats, singleAttempt.build (awkwardRequest 9) = .ok (none, stats) ∧
      stats.steps ≤ singleAttempt.config.stepLimit :=
  ⟨exists_built_eight, exists_unbuilt_nine⟩

end DelaySynth.Synthesizer
