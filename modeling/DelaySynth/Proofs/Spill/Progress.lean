import DelaySynth.Proofs.Build

/-!
# One register at a time

An attempt to free a register that succeeds grants one register more, the lowest one that was missing,
and all other attempts leave the resources alone. So registers are freed one by one for as long as one
is asked for, and at most as many times as there are registers missing. The bound on the number of
attempts that `freeRegisters?` is given is therefore never met.

* `Frame.Gains`: what a successful attempt changes of the grant.
* `Synthesizer.attempted_of_run`: what each outcome of an attempt leaves behind.
* `Synthesizer.Turns`: the repetition of attempts, without a bound on their number.
* `Synthesizer.Freed`: how the repetition ends.
* `Synthesizer.exists_freed`: it does, whatever is asked.
-/

namespace DelaySynth

open Resource

/-- The number of registers that have been freed. -/
def Stats.registersFreed (s : Stats) : Nat :=
  s.memorySpills + s.stackSpills

/-! ## An attempt -/

namespace Frame

/-- The frame `g` grants what `f` does and one register more, the lowest one that was missing. -/
structure Gains (f g : Frame) (r : Register) : Prop where
  named : r.Named
  missing : r ∉ ResourceSet.ofResources f.resources
  lowest : ∀ q : Register, q.number < r.number → q ∈ ResourceSet.ofResources f.resources
  granted : ∀ q : Register, q ∈ ResourceSet.ofResources g.resources ↔
    q ∈ ResourceSet.ofResources f.resources ∨ q = r
  stack : (ResourceSet.ofResources g.resources).hasStack =
    (ResourceSet.ofResources f.resources).hasStack

theorem Step.gains {m : Machine} {f g : Frame} {outcome : SpillOutcome} {r : Register}
    (h : Step m f outcome g) (hr : outcome.freed? = some r) : f.Gains g r := by
  obtain ⟨hnamed, hmissing, hlower⟩ := lowestUngranted?_eq_some (h.lowest hr)
  refine ⟨hnamed, hmissing, hlower, fun q => h.mem_ofResources hr, ?_⟩
  rw [ResourceSet.hasStack_ofResources, ResourceSet.hasStack_ofResources, h.any_offersStack]

theorem Gains.registerCount_eq {f g : Frame} {r : Register} (h : f.Gains g r) :
    (ResourceSet.ofResources g.resources).registerCount =
      (ResourceSet.ofResources f.resources).registerCount + 1 :=
  ResourceSet.registerCount_of_mem_iff h.missing h.granted

end Frame

namespace Synthesizer

variable {y : Synthesizer} {test : SpillTest} {window : Window}

/-- What an attempt to free a register makes of a frame and a session, by its outcome. -/
def Attempted (f : Frame) (s : Session) (g : Frame) (t : Session) :
    Except CatalogError SpillOutcome → Prop
  | .ok (.memory r) => f.Gains g r ∧
    (addresses f.resources).length = (addresses g.resources).length + 1 ∧
    t = { s with stats := { s.stats with memorySpills := s.stats.memorySpills + 1 } }
  | .ok (.stack r) => f.Gains g r ∧
    (addresses f.resources).length = (addresses g.resources).length ∧
    t = { s with stats := { s.stats with stackSpills := s.stats.stackSpills + 1 } }
  | .ok .nothingToFree => g = f ∧ t = s
  | .ok .infeasible => g = f ∧ t = s
  | .error _ => g.resources = f.resources ∧ t = s

theorem run_spill (y : Synthesizer) (f : Frame) (s : Session) :
    (y.spill f).run s =
      match (Frame.spill y.machine).run f with
      | .ok outcome g => .ok (.ok outcome, g) { s with stats := s.stats.addSpill outcome }
      | .error e g => .ok (.error e, g) s := by
  unfold spill
  cases (Frame.spill y.machine).run f <;> rfl

theorem attempted_of_run {f g : Frame} {s t : Session} {result : Except CatalogError SpillOutcome}
    (h : (y.spill f).run s = .ok (result, g) t) : Attempted f s g t result := by
  rw [run_spill] at h
  split at h
  · rename_i outcome _ hrun
    cases h
    have hstep := Frame.step_of_run hrun
    cases outcome with
    | memory r =>
      refine ⟨hstep.gains rfl, ?_, rfl⟩
      cases hstep with
      | primary _ exchanged => rw [Frame.addresses_exchange exchanged, List.length_cons]
      | copied _ exchanged => rw [Frame.addresses_exchange exchanged, List.length_cons]
    | stack r =>
      refine ⟨hstep.gains rfl, ?_, rfl⟩
      cases hstep
      simp [addresses, Resource.register, address?]
    | nothingToFree =>
      cases hstep
      exact ⟨rfl, rfl⟩
    | infeasible =>
      cases hstep
      exact ⟨rfl, rfl⟩
  · rename_i _ _ hrun
    cases h
    exact ⟨Frame.resources_of_run_error hrun, rfl⟩

/-- There is nothing to free if and only if all registers are granted. -/
theorem nothingToFree_iff {f g : Frame} {s t : Session} {result : Except CatalogError SpillOutcome}
    (h : (y.spill f).run s = .ok (result, g) t) : result = .ok .nothingToFree ↔
      ∀ q : Register, q.Named → q ∈ ResourceSet.ofResources f.resources := by
  constructor
  · rintro rfl
    have hstep := Frame.step_of_run (run_spill_eq_ok h)
    cases hstep with
    | nothingToFree lowest => exact fun q hq => Frame.lowestUngranted?_eq_none lowest hq
  · intro hall
    have hlowest : Frame.lowestUngranted? (ResourceSet.ofResources f.resources) = none := by
      simpa [Frame.lowestUngranted?] using hall
    have hrun : (Frame.spill y.machine).run f = .ok .nothingToFree f := by
      unfold Frame.spill
      rw [run_bind_of_ok (EStateM.run_get f), hlowest]
      rfl
    rw [run_spill, hrun] at h
    cases h
    rfl

/-! ## Attempts one after the other -/

/-- Where the freeing of registers stands after an attempt. -/
inductive Turn where
  /-- A register has been freed, and the freeing goes on from this frame. -/
  | onward (f : Frame)
  /-- The freeing is over, with the frame for the main part unless there is none. -/
  | done (f? : Option Frame)

/-- Where the freeing of registers stands after an attempt that did not fail and left a frame. -/
def Turn.after (f : Frame) : SpillOutcome → Turn
  | .memory _ | .stack _ => .onward f
  | .nothingToFree => .done (some f)
  | .infeasible => .done none

/-- Asks whether a register is to be freed from a frame on. -/
def asks (test : SpillTest) (window : Window) (f : Frame) : Except CatalogError Bool :=
  test (window.minus (f.save.duration + f.restore.duration)).min (ResourceSet.ofResources f.resources)

/-- Frees a register if `test` asks for one. -/
def turn (y : Synthesizer) (test : SpillTest) (window : Window) (f : Frame) : SearchM Turn := do
  if ← SearchM.ofCatalog (asks test window f) then
    let (outcome, f) ← y.spill f
    return .after f (← SearchM.ofCatalog outcome)
  else return .done (some f)

/-- The turn in which the freeing of registers is over. It leaves the session alone, and what it answers
with is the frame that it began with, or nothing, or an error. -/
inductive Last (y : Synthesizer) (test : SpillTest) (window : Window) (f : Frame) (s : Session) :
    EStateM.Result SynthError Session (Option Frame) → Prop
  | enough (ends : (y.turn test window f).run s = .ok (.done (some f)) s) :
      Last y test window f s (.ok (some f) s)
  | infeasible (ends : (y.turn test window f).run s = .ok (.done none) s) :
      Last y test window f s (.ok none s)
  | failure {e : SynthError} (ends : (y.turn test window f).run s = .error e s) :
      Last y test window f s (.error e s)

/-- Turns one after the other, each of which frees a register. -/
inductive Turns (y : Synthesizer) (test : SpillTest) (window : Window) :
    Frame → Session → Nat → Frame → Session → Prop
  | refl (f : Frame) (s : Session) : Turns y test window f s 0 f s
  | head {f g h : Frame} {s t u : Session} {n : Nat}
      (first : (y.turn test window f).run s = .ok (.onward g) t)
      (rest : Turns y test window g t n h u) : Turns y test window f s (n + 1) h u

theorem freeRegisters?_succ (n : Nat) (f : Frame) : y.freeRegisters? test window (n + 1) f = do
    match ← y.turn test window f with
    | .onward g => y.freeRegisters? test window n g
    | .done f? => return f? := by
  unfold turn
  rw [freeRegisters?]
  simp only [bind_assoc]
  refine bind_congr fun asked => ?_
  cases asked with
  | false => simp
  | true =>
    simp only [if_true, bind_assoc]
    refine bind_congr fun p => bind_congr fun outcome => ?_
    cases outcome <;> simp [Turn.after]

theorem exists_run_spill (y : Synthesizer) (f : Frame) (s : Session) :
    ∃ result g t, (y.spill f).run s = .ok (result, g) t := by
  rw [run_spill]
  split
  · exact ⟨_, _, _, rfl⟩
  · exact ⟨_, _, _, rfl⟩

theorem run_turn_of_unasked {f : Frame} (hasks : asks test window f = .ok false) (s : Session) :
    (y.turn test window f).run s = .ok (.done (some f)) s := by
  unfold turn
  rw [hasks]
  rfl

theorem run_turn_of_unanswered {f : Frame} {e : CatalogError} (hasks : asks test window f = .error e)
    (s : Session) : (y.turn test window f).run s = .error (.incompatibleCatalog e) s := by
  unfold turn
  rw [hasks]
  rfl

theorem run_turn_of_spill {f g : Frame} {s t : Session} {result : Except CatalogError SpillOutcome}
    (hasks : asks test window f = .ok true) (hspill : (y.spill f).run s = .ok (result, g) t) :
    (y.turn test window f).run s = match result with
      | .ok outcome => .ok (.after g outcome) t
      | .error e => .error (.incompatibleCatalog e) t := by
  have hturn : (y.turn test window f).run s =
      (Turn.after g <$> SearchM.ofCatalog result : SearchM Turn).run t := by
    unfold turn
    rw [hasks, map_eq_pure_bind]
    exact run_bind_of_ok hspill
  rw [hturn]
  cases result <;> rfl

/-- What a turn can do: it frees a register and counts it, or the freeing is over. -/
theorem turn_cases (y : Synthesizer) (test : SpillTest) (window : Window) (f : Frame) (s : Session) :
    (∃ g t, (y.turn test window f).run s = .ok (.onward g) t ∧
      (ResourceSet.ofResources g.resources).registerCount =
        (ResourceSet.ofResources f.resources).registerCount + 1 ∧
      t.stats.registersFreed = s.stats.registersFreed + 1) ∨
    ∃ result, y.Last test window f s result := by
  cases hasks : asks test window f with
  | error e => exact .inr ⟨_, .failure (run_turn_of_unanswered hasks s)⟩
  | ok asked =>
  cases asked with
  | false => exact .inr ⟨_, .enough (run_turn_of_unasked hasks s)⟩
  | true =>
  obtain ⟨result, g, t, hspill⟩ := exists_run_spill y f s
  have hturn := run_turn_of_spill hasks hspill
  have hattempted := attempted_of_run hspill
  cases result with
  | error e =>
    obtain ⟨-, rfl⟩ := hattempted
    exact .inr ⟨_, .failure hturn⟩
  | ok outcome =>
  cases outcome with
  | memory r =>
    obtain ⟨hgains, -, rfl⟩ := hattempted
    refine .inl ⟨g, _, hturn, hgains.registerCount_eq, ?_⟩
    show s.stats.memorySpills + 1 + s.stats.stackSpills = _
    rw [Stats.registersFreed]
    omega
  | stack r =>
    obtain ⟨hgains, -, rfl⟩ := hattempted
    exact .inl ⟨g, _, hturn, hgains.registerCount_eq, rfl⟩
  | nothingToFree =>
    obtain ⟨rfl, rfl⟩ := hattempted
    exact .inr ⟨_, .enough hturn⟩
  | infeasible =>
    obtain ⟨rfl, rfl⟩ := hattempted
    exact .inr ⟨_, .infeasible hturn⟩

theorem Last.run_freeRegisters? {f : Frame} {s : Session}
    {result : EStateM.Result SynthError Session (Option Frame)} (h : y.Last test window f s result)
    (n : Nat) : (y.freeRegisters? test window (n + 1) f).run s = result := by
  rw [freeRegisters?_succ, EStateM.run_bind]
  cases h with
  | enough ends => rw [ends]; rfl
  | infeasible ends => rw [ends]; rfl
  | failure ends => rw [ends]

/-- A bound on the attempts that is not met makes no difference. -/
theorem Turns.run_freeRegisters? {f g : Frame} {s t : Session} {n : Nat}
    (h : y.Turns test window f s n g t) {result : EStateM.Result SynthError Session (Option Frame)}
    (hlast : y.Last test window g t result) {fuel : Nat} (hfuel : n < fuel) :
    (y.freeRegisters? test window fuel f).run s = result := by
  induction h generalizing fuel with
  | refl f s =>
    obtain ⟨fuel, rfl⟩ : ∃ k, fuel = k + 1 := ⟨fuel - 1, by omega⟩
    exact hlast.run_freeRegisters? fuel
  | @head f g h s t u n first rest ih =>
    obtain ⟨fuel, rfl⟩ : ∃ k, fuel = k + 1 := ⟨fuel - 1, by omega⟩
    rw [freeRegisters?_succ, run_bind_of_ok first]
    exact ih hlast (by omega)

/-- How the freeing of registers ends that begins with a frame and a session: after `n` turns that each
free a register, with the answer `result`. -/
structure Freed (y : Synthesizer) (test : SpillTest) (window : Window) (f : Frame) (s : Session)
    (n : Nat) (g : Frame) (t : Session)
    (result : EStateM.Result SynthError Session (Option Frame)) : Prop where
  turns : y.Turns test window f s n g t
  last : y.Last test window g t result
  gained : (ResourceSet.ofResources g.resources).registerCount =
    (ResourceSet.ofResources f.resources).registerCount + n
  counted : t.stats.registersFreed = s.stats.registersFreed + n

theorem Freed.le {f g : Frame} {s t : Session} {n : Nat}
    {result : EStateM.Result SynthError Session (Option Frame)}
    (h : y.Freed test window f s n g t result) :
    n ≤ Register.count - (ResourceSet.ofResources f.resources).registerCount := by
  have hle := (ResourceSet.ofResources g.resources).registerCount_le
  have hgained := h.gained
  omega

/-- The freeing of registers comes to an end, for each turn leaves one register less to be freed. -/
theorem exists_freed (y : Synthesizer) (test : SpillTest) (window : Window) (f : Frame)
    (s : Session) : ∃ n g t result, y.Freed test window f s n g t result := by
  obtain ⟨missing, hmissing⟩ : ∃ missing, missing =
    Register.count - (ResourceSet.ofResources f.resources).registerCount := ⟨_, rfl⟩
  induction missing using Nat.strongRecOn generalizing f s with
  | ind missing ih =>
    rcases turn_cases y test window f s with ⟨g, t, hturn, hgained, hcounted⟩ | ⟨result, hlast⟩
    · have hle := (ResourceSet.ofResources g.resources).registerCount_le
      obtain ⟨n, h, u, result, hfreed⟩ := ih _ (by omega) g t rfl
      refine ⟨n + 1, h, u, result, .head hturn hfreed.turns, hfreed.last, ?_, ?_⟩
      · rw [hfreed.gained, hgained]
        omega
      · rw [hfreed.counted, hcounted]
        omega
    · exact ⟨0, f, s, result, .refl f s, hlast, rfl, rfl⟩

end Synthesizer

end DelaySynth
