import DelaySynth.Proofs.Search.SingleLoop

/-!
# Wider windows

A wider window leaves a wider one for every body, and it has room for at least as many iterations. So
what does for the narrow window does for the wide one, but for the way in which a body is sought: the
lower end may come down to where flat sequences reach, and then the body is no longer sought among
loops. In that case the narrow window lies above all flat sequences and the wide one does not, so the
longest flat sequence lies in the wide one.

* `LoopShape.widen`: a number of iterations that is tried for a window is tried for a wider one.
* `LoopFound.widen`: a window that admits a loop does not lose it when it is widened.
* `wider_window`: so the search does not end without a loop, unless it fails.
-/

namespace DelaySynth

namespace Synthesizer

variable {y : Synthesizer} {memory : List String} {budget depth : Nat} {window window' : Window}
  {granted : ResourceSet} {c : Counter} {o : LoopOverhead} {l : Loop Code}

theorem bodyWindow_min_le {n : Nat} (hn : 0 < n) (o : LoopOverhead) (h : window'.min ≤ window.min) :
    (bodyWindow window' o n).min ≤ (bodyWindow window o n).min := by
  apply Window.body_min_le hn
  show window'.min - signedCycles o.init ≤ window.min - signedCycles o.init
  omega

theorem le_bodyWindow_max {n : Nat} (hn : 0 < n) (o : LoopOverhead) (h : window.max ≤ window'.max) :
    (bodyWindow window o n).max ≤ (bodyWindow window' o n).max := by
  apply Window.le_body_max hn
  show window.max - signedCycles o.init ≤ window'.max - signedCycles o.init
  omega

theorem LoopShape.iterations_pos (h : y.LoopShape memory budget window granted depth c o l) :
    0 < l.iterations :=
  Nat.lt_of_lt_of_le Nat.two_pos h.counted.two_le

/-- An iteration of a loop that is tried costs something. -/
theorem LoopShape.perIteration_pos (hrows : ∀ row ∈ y.machine.catalog.rows, row.duration < bound32)
    (h : y.LoopShape memory budget window granted depth c o l) : 0 < signedCycles o.perIteration := by
  have hstarted := h.started
  have hper := signedCycles_of_lt (overhead_lt hrows h.overhead).2
  omega

/-- What a loop is besides its body, it is for a wider window as well. -/
theorem LoopShape.widen (hrows : ∀ row ∈ y.machine.catalog.rows, row.duration < bound32)
    (h : y.LoopShape memory budget window granted depth c o l) (hmin : window'.min ≤ window.min)
    (hmax : window.max ≤ window'.max) (body : Code) :
    y.LoopShape memory budget window' granted depth c o { l with body } := by
  have hcost := h.perIteration_pos hrows
  have hstarted := h.started
  have hwider : (window.minus o.init).max ≤ (window'.minus o.init).max := by
    show window.max - signedCycles o.init ≤ window'.max - signedCycles o.init
    omega
  have htried : l.iterations ≤
      (LoopGoal.on memory budget window' granted depth c o).maxIterations y.machine.target := by
    apply Nat.le_trans h.tried
    apply LoopGoal.maxIterations_mono
    · rfl
    · rfl
    · simpa only [LoopGoal.on] using hcost
    · simp only [LoopGoal.on]
      omega
    · simpa only [LoopGoal.on] using hwider
  have hlow := bodyWindow_min_le h.iterations_pos o hmin
  have hhigh := le_bodyWindow_max h.iterations_pos o hmax
  have hhopeful := h.hopeful
  exact
    { h with
      counted := { h.counted with }
      started := by omega
      tried := htried
      hopeful := by
        unfold Window.Hopeless at hhopeful ⊢
        show ¬((bodyWindow window' o l.iterations).max < (bodyWindow window' o l.iterations).min ∨
          (bodyWindow window' o l.iterations).max < 0)
        omega }

/-- A window that admits a loop admits one, if not the same, when it is widened. -/
theorem LoopFound.widen (hrows : ∀ row ∈ y.machine.catalog.rows, row.duration < bound32)
    (h : y.LoopFound memory budget window granted depth l) (hmin : window'.min ≤ window.min)
    (hmax : window.max ≤ window'.max) :
    ∃ l', y.LoopFound memory budget window' granted depth l' := by
  -- The windows for the bodies lie inside each other again, so the induction goes down the levels.
  induction h generalizing window' with
  | @flat budget window granted depth c o l g shape body within found =>
    have hlow := bodyWindow_min_le shape.iterations_pos o hmin
    have hhigh := le_bodyWindow_max shape.iterations_pos o hmax
    obtain ⟨d, items, hitems, -, hd, hd'⟩ := Reach.lookupWindow_eq_some found
    obtain ⟨g', hg'⟩ := Reach.lookupWindow_of_reaches (Reach.reaches_of_sequence? hitems)
      (Int.le_trans hlow hd) (Int.le_trans hd' hhigh)
    exact ⟨_, .flat (shape.widen hrows hmin hmax (.group g')) rfl (Int.le_trans hlow within) hg'⟩
  | @nested budget window granted depth c o l inner shape body beyond found ih =>
    have hlow := bodyWindow_min_le shape.iterations_pos o hmin
    have hhigh := le_bodyWindow_max shape.iterations_pos o hmax
    by_cases hwithin : (bodyWindow window' o l.iterations).min ≤
        (Reach.ofKey y.machine.catalog (c.bodyKey memory budget granted)).top
    · -- Only the wide window comes down to the longest flat sequence, so that one lies in it.
      have hhopeful := shape.hopeful
      unfold Window.Hopeless at hhopeful
      have htop : ((Reach.ofKey y.machine.catalog (c.bodyKey memory budget granted)).top : Int) ≤
          (bodyWindow window' o l.iterations).max := by omega
      obtain ⟨g', hg'⟩ := Reach.lookupWindow_of_reaches (Reach.layer_ofFillers _ _).top hwithin htop
      exact ⟨_, .flat (shape.widen hrows hmin hmax (.group g')) rfl hwithin hg'⟩
    · obtain ⟨inner', hinner⟩ := ih hlow hhigh
      exact ⟨_, .nested (shape.widen hrows hmin hmax (.loop inner')) rfl (Int.not_le.mp hwithin)
        hinner⟩

/-- If the search for a loop in a window returns one, then the search in a wider window returns one as
well, or it ends with an error: the catalog lists no instruction of a template that loops need, or the
steps run out. -/
theorem wider_window (y : Synthesizer) (memory : List String) (budget : Nat) (granted : ResourceSet)
    (depth : Nat) {window window' : Window} {s s' t : Session} {l : Loop Code}
    (hrows : ∀ row ∈ y.machine.catalog.rows, row.duration < bound32)
    (hs : s.Faithful y.machine.catalog) (hs' : s'.Faithful y.machine.catalog)
    (hsub : window ⊆ window')
    (h : (y.loop? memory budget window granted depth).run s = .ok (some l) t) :
    (∃ l' t', (y.loop? memory budget window' granted depth).run s' = .ok (some l') t') ∨
    ∃ e t', (y.loop? memory budget window' granted depth).run s' = .error e t' ∧
      e.EndsSearch y.config.stepLimit y.machine.catalog.Lacks t' := by
  have hfound : y.LoopFound memory budget window granted depth l :=
    ((finds_loop? y.machine.loopsLack_lacks _ _ _ _).of_ok hs h).2.sound l rfl
  -- The loop lasts as long as the narrow window says, so that one is not empty.
  obtain ⟨hlow, hhigh⟩ := hfound.bounds hrows
  obtain ⟨hmin, hmax⟩ := (Window.subset_iff (Int.le_trans hlow hhigh)).mp hsub
  obtain ⟨l', hl'⟩ := hfound.widen hrows hmin hmax
  exact run_loop?_of_loopFound hs' hl'

set_option maxRecDepth 100000 in
/-- Twenty thousand cycles need a loop in a loop, and in the wider window one loop is enough. -/
theorem wider_window_flipped : ∃ l t,
    (I8085.synthesizer.loop? [] 12 ⟨20000, 20010⟩
      (ResourceSet.ofResources [.register "B", .register "D"]) 0).run {} = .ok (some l) t ∧
    (l.body matches .loop _) = true ∧ (⟨20000, 20010⟩ : Window) ⊆ ⟨15000, 20010⟩ ∧
    ((∃ l' t', (I8085.synthesizer.loop? [] 12 ⟨15000, 20010⟩
        (ResourceSet.ofResources [.register "B", .register "D"]) 0).run {} = .ok (some l') t') ∨
      ∃ e t', (I8085.synthesizer.loop? [] 12 ⟨15000, 20010⟩
          (ResourceSet.ofResources [.register "B", .register "D"]) 0).run {} = .error e t' ∧
        e.EndsSearch 2000000 I8085.machine.catalog.Lacks t') := by
  have hfound : (found? <| (I8085.synthesizer.loop? [] 12 ⟨20000, 20010⟩
      (ResourceSet.ofResources [.register "B", .register "D"]) 0).run {}).any
        (fun l => l.body matches .loop _) = true := by
    decide +kernel
  obtain ⟨l, t, h, hbody⟩ := exists_of_any_found? hfound
  have hsub : (⟨20000, 20010⟩ : Window) ⊆ ⟨15000, 20010⟩ :=
    (Window.subset_iff (by decide)).mpr (by decide)
  exact ⟨l, t, h, hbody, hsub, wider_window I8085.synthesizer [] 12 _ 0 I8085.duration_lt
    Session.faithful_empty Session.faithful_empty hsub h⟩

end Synthesizer

end DelaySynth
