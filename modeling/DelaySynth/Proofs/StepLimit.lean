import DelaySynth.Proofs.SideBySide
import DelaySynth.Proofs.Target.I8085

/-!
# What a limit of steps changes

A limit of steps stops a search and changes nothing else. Steps are counted before the limit is looked
at, and they are never taken back, so a run that returns tells by the steps it has taken what becomes of
it under another limit: it is the same run if the limit has room for them, and otherwise it is stopped.

More attempts at a main part come after those that are made anyway, so they change nothing once one of
these has succeeded.

* `Cut`, `CutOff`: what a run that returned becomes under another limit.
* `cutOff_routine?`: all runs of a search for a routine are cut off like that.
* `step_limit_cuts_off`: what this means for builds.
-/

namespace DelaySynth

open SearchM

/-! ## Runs under another limit -/

/-- A limit has room for the steps that have been taken, and so has a word. -/
structure Session.Within (limit : Nat) (s : Session) : Prop where
  le_limit : s.stats.steps ≤ limit
  le_max : s.stats.steps ≤ maxSteps

/-- A run under `limit` that took `s` to `t` and returned `a` has this to do with the computation `x'`
under `limit'`: it is a run of it if its steps are within that limit, and else that limit stops it. -/
structure Cut {α : Type} (limit limit' : Nat) (x' : SearchM α) (s : Session) (a : α) (t : Session) :
    Prop where
  grows : s.stats.steps ≤ t.stats.steps
  within : t.Within limit
  same : t.stats.steps ≤ limit' → x'.run s = .ok a t
  stopped : s.stats.steps ≤ limit' → limit' < t.stats.steps →
    ∃ u, x'.run s = .error (.searchLimit limit') u ∧ limit' < u.stats.steps

/-- All that the second computation does otherwise than the first is to stop at its own limit. -/
def CutOff {α : Type} (limit limit' : Nat) (x x' : SearchM α) : Prop :=
  ∀ s a t, s.Within limit → x.run s = .ok a t → Cut limit limit' x' s a t

namespace CutOff

variable {limit limit' : Nat} {α β : Type}

/-- A computation that takes no step runs alike under both limits. -/
theorem of_steps {x : SearchM α}
    (h : ∀ s a t, x.run s = .ok a t → t.stats.steps = s.stats.steps) : CutOff limit limit' x x := by
  intro s a t hs hrun
  have hsteps := h s a t hrun
  exact
    { grows := Nat.le_of_eq hsteps.symm
      within := ⟨hsteps ▸ hs.le_limit, hsteps ▸ hs.le_max⟩
      same := fun _ => hrun
      stopped := fun hle hlt => by omega }

theorem pure (a : α) : CutOff limit limit' (pure a) (pure a) :=
  of_steps fun s b t h => by
    obtain ⟨-, rfl⟩ := run_pure_eq_ok.mp h
    rfl

theorem modify {f : Session → Session} (hf : ∀ s, (f s).stats.steps = s.stats.steps) :
    CutOff limit limit' (modify f) (modify f) :=
  of_steps fun s a t h => by
    obtain rfl := run_modify_eq_ok.mp h
    exact hf s

theorem record {f : Stats → Stats} (hf : ∀ s, (f s).steps = s.steps) :
    CutOff limit limit' (record f) (record f) :=
  modify fun s => hf s.stats

theorem get : CutOff limit limit' (get : SearchM Session) (get : SearchM Session) :=
  of_steps fun s a t h => by
    obtain ⟨rfl, rfl⟩ := run_get_eq_ok.mp h
    rfl

theorem charge (count : Nat) : CutOff limit limit' (charge limit count) (charge limit' count) := by
  intro s a t hs hrun
  obtain ⟨rfl, hle⟩ := run_charge_eq_ok hrun
  have hmax := hs.le_max
  have hsteps : (s.charged count).stats.steps = min (s.stats.steps + count) maxSteps := rfl
  refine ⟨by omega, ⟨hle, by omega⟩, fun hroom => ?_, fun _ hmore => ⟨_, ?_, hmore⟩⟩
  · rw [run_charge, if_neg (Nat.not_lt.mpr hroom)]
  · rw [run_charge, if_pos hmore]

theorem bind {x x' : SearchM α} {f f' : α → SearchM β} (hx : CutOff limit limit' x x')
    (hf : ∀ a, CutOff limit limit' (f a) (f' a)) : CutOff limit limit' (x >>= f) (x' >>= f') := by
  intro s b t hs hrun
  obtain ⟨a, u, hfirst, hsecond⟩ := run_bind_eq_ok.mp hrun
  have hcut := hx s a u hs hfirst
  have hrest := hf a u b t hcut.within hsecond
  refine ⟨Nat.le_trans hcut.grows hrest.grows, hrest.within, fun hroom => ?_, fun hstart hmore => ?_⟩
  · rw [run_bind_of_ok (hcut.same (Nat.le_trans hrest.grows hroom))]
    exact hrest.same hroom
  · by_cases hbetween : u.stats.steps ≤ limit'
    · rw [run_bind_of_ok (hcut.same hbetween)]
      exact hrest.stopped hbetween hmore
    · -- The limit stops the first part already, and its failure is that of the whole.
      obtain ⟨v, hstop, hv⟩ := hcut.stopped hstart (Nat.lt_of_not_le hbetween)
      exact ⟨v, by rw [EStateM.run_bind, hstop], hv⟩

theorem searchRelation : SearchRelation limit limit' (CutOff limit limit') where
  pure := pure
  ofCatalog x := of_steps fun s a t h => by
    obtain ⟨-, rfl⟩ := run_ofCatalog_eq_ok.mp h
    rfl
  record hf := record hf.steps
  charge := charge
  bind := bind

/-- A table that is kept is found under every limit, and without any step. -/
theorem obtain (keep : Bool) (c : Catalog) (key : TableKey) :
    CutOff limit limit' (Reach.obtain keep limit c key) (Reach.obtain keep limit' c key) :=
  searchRelation.toLoopRelation.obtain get (record fun _ => rfl) (record fun _ => rfl)
    (fun _ _ => modify fun _ => rfl) keep c key

end CutOff

/-! ## Builds under another limit -/

namespace Synthesizer

/-- The synthesizer with another limit of steps. -/
def limited (y : Synthesizer) (limit : Nat) : Synthesizer :=
  { y with config := { y.config with stepLimit := limit } }

/-- The synthesizer with another number of attempts after the first one. -/
def retrying (y : Synthesizer) (retries : Nat) : Synthesizer :=
  { y with config := { y.config with budgetRetries := retries } }

variable {y : Synthesizer} {test : SpillTest} {r : Request} {limit limit' retries : Nat}
  {found : Option (Routine Code)} {stats : Stats}

theorem related_limited (y : Synthesizer) (limit limit' : Nat) :
    Related (y.limited limit) (y.limited limit') (CutOff limit limit') where
  toSearchRelation := CutOff.searchRelation
  machine := rfl
  table key := CutOff.obtain _ _ key

theorem cutOff_routine? :
    CutOff limit limit' ((y.limited limit).routine? test r) ((y.limited limit').routine? test r) :=
  (related_limited y limit limit').routine? rfl test r

/-- What a search that was not stopped becomes under another limit. -/
theorem cut_of_buildWith (limit' : Nat) (h : (y.limited limit).buildWith test r = .ok (found, stats))
    (hsteps : stats.steps ≤ limit) : ¬(r.max < r.min ∨ r.max < 0) ∧
      (∀ routine ∈ found, r.window.Contains routine.duration) ∧
      ∃ s, s.stats = stats ∧ Cut limit limit' ((y.limited limit').routine? test r) {} found s := by
  obtain ⟨hwindow, s, rfl, ⟨hrun, hcontains⟩ | ⟨-, hstopped, -⟩⟩ := run_of_buildWith h
  · exact ⟨hwindow, hcontains, s, rfl,
      cutOff_routine? _ _ _ ⟨Nat.zero_le _, Nat.zero_le _⟩ hrun⟩
  · exact absurd hstopped (Nat.not_lt.mpr hsteps)

/-- Under a limit that has room for the steps that were taken, the answer is the same. -/
theorem buildWith_limited_of_le (h : (y.limited limit).buildWith test r = .ok (found, stats))
    (hsteps : stats.steps ≤ limit) (hle : stats.steps ≤ limit') :
    (y.limited limit').buildWith test r = .ok (found, stats) := by
  obtain ⟨hwindow, hcontains, s, rfl, hcut⟩ := cut_of_buildWith limit' h hsteps
  exact buildWith_of_ok hwindow (hcut.same hle) hcontains

/-- Under a smaller limit the search is stopped. -/
theorem buildWith_limited_of_lt (h : (y.limited limit).buildWith test r = .ok (found, stats))
    (hsteps : stats.steps ≤ limit) (hlt : limit' < stats.steps) :
    ∃ stats', (y.limited limit').buildWith test r = .ok (none, stats') ∧ limit' < stats'.steps := by
  obtain ⟨hwindow, -, s, rfl, hcut⟩ := cut_of_buildWith limit' h hsteps
  obtain ⟨u, hrun, hmore⟩ := hcut.stopped (Nat.zero_le _) hlt
  exact ⟨u.stats, buildWith_of_searchLimit hwindow hrun, hmore⟩

theorem steps_le_of_buildWith {routine : Routine Code}
    (h : y.buildWith test r = .ok (some routine, stats)) : stats.steps ≤ y.config.stepLimit := by
  obtain ⟨-, s, rfl, ⟨hrun, -⟩ | ⟨⟨⟩, -⟩⟩ := run_of_buildWith h
  have hcut : CutOff y.config.stepLimit y.config.stepLimit (y.routine? test r) (y.routine? test r) :=
    cutOff_routine? (y := y)
  exact (hcut _ _ _ ⟨Nat.zero_le _, Nat.zero_le _⟩ hrun).within.le_limit

/-! ## More attempts -/

theorem related_retrying (y : Synthesizer) (retries : Nat) :
    Related y (y.retrying retries) fun x x' => x = x' where
  pure _ := rfl
  ofCatalog _ := rfl
  record _ := rfl
  charge _ := rfl
  bind hx hf := by rw [hx, funext hf]
  machine := rfl
  table _ := rfl

/-- An attempt that has succeeded is not followed by another one. -/
theorem run_attempts?_mono {seek : Nat → SearchM (Option Code)} {budget n m attempt : Nat}
    {main : Code} {s t : Session} (hle : n ≤ m)
    (h : (attempts? seek budget n attempt).run s = .ok (some main) t) :
    (attempts? seek budget m attempt).run s = .ok (some main) t := by
  induction n generalizing m attempt s with
  | zero =>
    cases m with
    | zero => exact h
    | succ m => exact run_bind_of_ok h
  | succ n ih =>
    obtain ⟨m, rfl⟩ : ∃ k, m = k + 1 := ⟨m - 1, by omega⟩
    obtain ⟨found, u, hfirst, hrest⟩ := run_bind_eq_ok.mp h
    refine (run_bind_of_ok hfirst).trans ?_
    cases found with
    | some _ => exact hrest
    | none => exact ih (Nat.le_of_succ_le_succ hle) hrest

theorem run_routine?_retrying {routine : Routine Code} {s t : Session}
    (hle : y.config.budgetRetries ≤ retries) (h : (y.routine? test r).run s = .ok (some routine) t) :
    ((y.retrying retries).routine? test r).run s = .ok (some routine) t := by
  have hsame := related_retrying y retries
  obtain ⟨ret?, u, hret, h⟩ := run_bind_eq_ok.mp h
  obtain ⟨f?, v, hframe, h⟩ := run_bind_eq_ok.mp h
  rw [hsame.returnFor?] at hret
  rw [hsame.freeRegisters?] at hframe
  refine (run_bind_of_ok hret).trans ((run_bind_of_ok hframe).trans ?_)
  cases f? with
  | none => exact h
  | some f =>
    obtain ⟨main?, w, hmain, h⟩ := run_bind_eq_ok.mp h
    cases main? with
    | none => cases h
    | some main =>
      rw [funext (hsame.loopsRelated.main? _ _ _)] at hmain
      exact (run_bind_of_ok (run_attempts?_mono hle hmain)).trans h

theorem buildWith_retrying {routine : Routine Code} (hle : y.config.budgetRetries ≤ retries)
    (h : y.buildWith test r = .ok (some routine, stats)) :
    (y.retrying retries).buildWith test r = .ok (some routine, stats) := by
  obtain ⟨hwindow, s, rfl, ⟨hrun, hcontains⟩ | ⟨⟨⟩, -⟩⟩ := run_of_buildWith h
  exact buildWith_of_ok hwindow (run_routine?_retrying hle hrun) hcontains

/-! ## Builds -/

/-- A build that was not stopped by its limit of steps answers the same under every limit with room for
the steps it took, and under every smaller limit it is stopped and answers nothing. A routine is never
returned beyond the limit. And the answer stays the same with more attempts, if it is a routine. -/
theorem step_limit_cuts_off (y : Synthesizer) (r : Request) :
    (∀ limit limit' found stats,
      (y.limited limit).build r = .ok (found, stats) → stats.steps ≤ limit →
        (stats.steps ≤ limit' → (y.limited limit').build r = .ok (found, stats)) ∧
        (limit' < stats.steps → ∃ stats', (y.limited limit').build r = .ok (none, stats') ∧
          limit' < stats'.steps)) ∧
    (∀ routine stats, y.build r = .ok (some routine, stats) → stats.steps ≤ y.config.stepLimit) ∧
    ∀ retries routine stats, y.config.budgetRetries ≤ retries →
      y.build r = .ok (some routine, stats) →
        (y.retrying retries).build r = .ok (some routine, stats) := by
  refine ⟨fun limit limit' found stats h hsteps => ⟨?_, ?_⟩, fun routine stats => ?_, ?_⟩
  · exact buildWith_limited_of_le h hsteps
  · exact buildWith_limited_of_lt h hsteps
  · exact steps_le_of_buildWith
  · exact fun retries routine stats hle h => buildWith_retrying hle h

/-- A request that a loop on one register meets. -/
def loopRequest : Request where
  min := 300
  max := 303
  resources := [.register "B"]
  budget := 6

set_option maxRecDepth 100000 in
/-- The loop is found in one hundred and forty-three steps. -/
theorem step_limit_cuts_off_loop : ∃ routine stats,
    I8085.synthesizer.build loopRequest = .ok (some routine, stats) ∧ stats.steps = 143 ∧
    (I8085.synthesizer.limited 143).build loopRequest = .ok (some routine, stats) ∧
    (∃ stats', (I8085.synthesizer.limited 142).build loopRequest = .ok (none, stats') ∧
      142 < stats'.steps) ∧
    (I8085.synthesizer.retrying 40).build loopRequest = .ok (some routine, stats) := by
  obtain ⟨routine, stats, h⟩ := exists_of_isSome_built?
    (show (built? (I8085.synthesizer.build loopRequest)).isSome = true by decide +kernel)
  have htaken : stepsTaken? (I8085.synthesizer.build loopRequest) = some 143 := by decide +kernel
  have hsteps : stats.steps = 143 := by
    rw [h] at htaken
    exact Option.some.inj htaken
  obtain ⟨hlimits, -, hretries⟩ := step_limit_cuts_off I8085.synthesizer loopRequest
  refine ⟨routine, stats, h, hsteps, ?_, ?_, hretries 40 routine stats (by decide) h⟩
  · exact (hlimits 2000000 143 _ stats h (by omega)).1 (by omega)
  · exact (hlimits 2000000 142 _ stats h (by omega)).2 (by omega)

end Synthesizer

end DelaySynth
