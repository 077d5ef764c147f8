import DelaySynth.Proofs.Machine
import DelaySynth.Proofs.Reach.Kept
import DelaySynth.Proofs.ResourceSet

/-!
# What the loop search finds

`Synthesizer.LoopFound` says which loops the search may return: at each depth the most preferred
counter that is granted, control instructions of the machine, an iteration count that is tried, and a
body that is a flat sequence for the window that is left, if flat sequences can last that long, and
another loop found for it, one level deeper, if they cannot. Facts about found loops are inductions on
it, and the session plays no part in them.

* `finds_loop?`: the search returns one of these loops, and nothing only if there is none.
* `run_loop?_of_loopFound`: where there is such a loop, a search that does not fail ends with one.
-/

namespace DelaySynth

/-- A picked counter is one of the target's, it is granted, and the body is not. -/
theorem Target.pickCounter?_eq_some {t : Target} {granted rest : ResourceSet} {width : CounterWidth}
    {name : Register} (h : t.pickCounter? granted width = some (name, rest)) :
    ∃ c ∈ t.counters, c.width = width ∧ c.name = name ∧ rest = granted.eraseAll c.registers ∧
      ∀ q ∈ c.registers, q ∈ granted := by
  cases width with
  | wide =>
    obtain ⟨⟨high, low⟩, hfind, heq⟩ := Option.map_eq_some_iff.mp h
    have hgranted := List.find?_some hfind
    have hmem := List.mem_of_find?_eq_some hfind
    cases heq
    refine ⟨.wide high low, ?_, rfl, rfl, rfl, ?_⟩
    · exact List.mem_append_left _ (List.mem_map.mpr ⟨(high, low), hmem, rfl⟩)
    · simpa [Counter.registers] using hgranted
  | narrow =>
    obtain ⟨r, hfind, heq⟩ := Option.map_eq_some_iff.mp h
    have hgranted := List.find?_some hfind
    have hmem := List.mem_of_find?_eq_some hfind
    cases heq
    refine ⟨.narrow name, ?_, rfl, rfl, rfl, ?_⟩
    · exact List.mem_append_right _ (List.mem_map.mpr ⟨name, hmem, rfl⟩)
    · simpa [Counter.registers] using hgranted

/-- The loop is counted by a counter, at the nesting depth that its label tells. -/
structure Loop.CountedBy (m : Machine) (depth : Nat) (c : Counter) (l : Loop Code) : Prop where
  offered : c ∈ m.target.counters
  init : m.loopInit c.width c.name l.iterations = .ok l.init
  decrement : m.decrement c.width c.name = .ok l.decrement
  branch : m.branch l.label = .ok l.branch
  label : l.label = m.target.loopLabel depth
  two_le : 2 ≤ l.iterations
  le_max : l.iterations ≤ m.target.maxIterations c.width

namespace Synthesizer

/-- The window that is left for the body of a loop. -/
def bodyWindow (window : Window) (o : LoopOverhead) (iterations : Nat) : Window :=
  (window.minus o.init).body iterations (signedCycles o.perIteration)

end Synthesizer

/-- What the table for the body of a loop on a counter is computed from. -/
def Counter.bodyKey (c : Counter) (memory : List String) (budget : Nat) (granted : ResourceSet) :
    TableKey :=
  { budget, granted := granted.eraseAll c.registers, memory }

/-- The loop that is sought with a counter whose loops cost `o`. -/
def LoopGoal.on (memory : List String) (budget : Nat) (window : Window) (granted : ResourceSet)
    (depth : Nat) (c : Counter) (o : LoopOverhead) : LoopGoal where
  width := c.width
  counter := c.name
  perIteration := signedCycles o.perIteration
  window := window.minus o.init
  bodyKey := c.bodyKey memory budget granted
  depth := depth

theorem LoopGoal.body_on (memory : List String) (budget : Nat) (window : Window)
    (granted : ResourceSet) (depth : Nat) (c : Counter) (o : LoopOverhead) (n : Nat) :
    (on memory budget window granted depth c o).window.body n
      (on memory budget window granted depth c o).perIteration =
        Synthesizer.bodyWindow window o n := by
  simp only [Synthesizer.bodyWindow, on]

namespace Synthesizer

/-- The bodies for a window that is not hopeless: a flat sequence, or a loop with `P` if flat sequences
are too short. -/
inductive BodyFound (y : Synthesizer) (P : Loop Code → Prop) (key : TableKey) (w : Window) :
    Code → Prop
  | flat {g : Group Code} (hopeful : ¬w.Hopeless)
      (within : w.min ≤ (Reach.ofKey y.machine.catalog key).top)
      (found : (Reach.ofKey y.machine.catalog key).lookupWindow w = some g) :
      BodyFound y P key w (.group g)
  | nested {inner : Loop Code} (hopeful : ¬w.Hopeless)
      (beyond : (Reach.ofKey y.machine.catalog key).top < w.min) (found : P inner) :
      BodyFound y P key w (.loop inner)

theorem BodyFound.hopeful {y : Synthesizer} {P : Loop Code → Prop} {key : TableKey} {w : Window}
    {body : Code} (h : y.BodyFound P key w body) : ¬w.Hopeless := by
  cases h <;> assumption

/-- What a loop is, its body aside, that is found for a window under a grant. -/
structure LoopShape (y : Synthesizer) (memory : List String) (budget : Nat) (window : Window)
    (granted : ResourceSet) (depth : Nat) (c : Counter) (o : LoopOverhead) (l : Loop Code) : Prop where
  counted : l.CountedBy y.machine depth c
  picked : y.machine.target.pickCounter? granted c.width =
    some (c.name, granted.eraseAll c.registers)
  overhead : y.machine.overhead c.width c.name = .ok o
  started : ¬((window.minus o.init).max < 0 ∨ signedCycles o.perIteration = 0)
  tried : l.iterations ≤
    (LoopGoal.on memory budget window granted depth c o).maxIterations y.machine.target
  hopeful : ¬(bodyWindow window o l.iterations).Hopeless
  granted : ∀ q ∈ c.registers, q ∈ granted

/-- The loops that a budget admits for a window under a grant. -/
inductive LoopFound (y : Synthesizer) (memory : List String) :
    (budget : Nat) → Window → ResourceSet → (depth : Nat) → Loop Code → Prop
  | flat {budget : Nat} {window : Window} {granted : ResourceSet} {depth : Nat} {c : Counter}
      {o : LoopOverhead} {l : Loop Code} {g : Group Code}
      (shape : y.LoopShape memory budget window granted depth c o l)
      (body : l.body = .group g)
      (within : (bodyWindow window o l.iterations).min ≤
        (Reach.ofKey y.machine.catalog (c.bodyKey memory budget granted)).top)
      (found : (Reach.ofKey y.machine.catalog (c.bodyKey memory budget granted)).lookupWindow
        (bodyWindow window o l.iterations) = some g) :
      LoopFound y memory (budget + 3) window granted depth l
  | nested {budget : Nat} {window : Window} {granted : ResourceSet} {depth : Nat} {c : Counter}
      {o : LoopOverhead} {l inner : Loop Code}
      (shape : y.LoopShape memory budget window granted depth c o l)
      (body : l.body = .loop inner)
      (beyond : (Reach.ofKey y.machine.catalog (c.bodyKey memory budget granted)).top <
        (bodyWindow window o l.iterations).min)
      (found : LoopFound y memory budget (bodyWindow window o l.iterations)
        (granted.eraseAll c.registers) (depth + 1) inner) :
      LoopFound y memory (budget + 3) window granted depth l

end Synthesizer

/-- A search that keeps its tables faithful and ends as `SynthError.EndsSearch` says if it fails. -/
abbrev Synthesizer.Finds {α : Type} (y : Synthesizer) (lacks : CatalogError → Prop) (x : SearchM α)
    (P : α → Prop) : Prop :=
  SearchM.Finds y.machine.catalog y.config.stepLimit lacks x P

/-! ## Goals -/

namespace LoopGoal

open SearchM

/-- The loop closes a body with the control instructions for the goal. -/
structure Closes (y : Synthesizer) (g : LoopGoal) (l : Loop Code) : Prop where
  init : y.machine.loopInit g.width g.counter l.iterations = .ok l.init
  decrement : y.machine.decrement g.width g.counter = .ok l.decrement
  branch : y.machine.branch l.label = .ok l.branch
  label : l.label = y.machine.target.loopLabel g.depth

/-- The loops with a body that is found, of at most `n` iterations. -/
structure Closed (y : Synthesizer) (P : Window → Loop Code → Prop) (g : LoopGoal) (n : Nat)
    (l : Loop Code) : Prop where
  closes : g.Closes y l
  body : y.BodyFound (P (g.window.body l.iterations g.perIteration)) g.bodyKey
    (g.window.body l.iterations g.perIteration) l.body
  two_le : 2 ≤ l.iterations
  le : l.iterations ≤ n

theorem Closed.two_le_bound {y : Synthesizer} {P : Window → Loop Code → Prop} {g : LoopGoal} {n : Nat}
    {l : Loop Code} (h : g.Closed y P n l) : 2 ≤ n :=
  Nat.le_trans h.two_le h.le

theorem maxIterations_le (g : LoopGoal) (t : Target) :
    g.maxIterations t ≤ t.maxIterations g.width :=
  Nat.min_le_left _ _

variable {y : Synthesizer} {lacks : CatalogError → Prop}
  {nested : Window → SearchM (Option (Loop Code))} {P : Window → Loop Code → Prop}

theorem finds_body? (hnested : ∀ w, y.Finds lacks (nested w) (Answers (P w))) (g : LoopGoal)
    (n : Nat) : y.Finds lacks (g.body? y nested n)
      (Answers (y.BodyFound (P (g.window.body n g.perIteration)) g.bodyKey
        (g.window.body n g.perIteration))) := by
  refine (finds_charge _).bind fun _ _ => (finds_record _).bind fun _ _ => ?_
  simp only
  split
  · rename_i hhopeless
    exact .of_pure (.of_none fun body hbody => hbody.hopeful hhopeless)
  rename_i hhopeful
  refine (Reach.finds_obtain _ _).bind fun table htable => ?_
  subst htable
  split
  · rename_i hwithin
    cases hlookup : (Reach.ofKey y.machine.catalog g.bodyKey).lookupWindow
        (g.window.body n g.perIteration) with
    | some flat => exact .of_pure (.of_some (.flat hhopeful hwithin hlookup))
    | none =>
      refine .of_pure (.of_none fun body hbody => ?_)
      cases hbody with
      | flat _ _ found => exact Option.some_ne_none _ (found.symm.trans hlookup)
      | nested _ beyond _ => omega
  · rename_i hbeyond
    refine (hnested _).bind fun found hfound => ?_
    cases found with
    | none =>
      refine .of_pure (.of_none fun body hbody => ?_)
      cases hbody with
      | flat _ within _ => exact hbeyond within
      | nested _ _ found => exact hfound.complete rfl _ found
    | some inner =>
      refine (finds_record _).bind fun _ _ => .of_pure (.of_some ?_)
      exact .nested hhopeful (Int.not_le.mp hbeyond) (hfound.sound inner rfl)

/-- Where the cost of the loop is known, closing it does not fail. -/
theorem finds_close (g : LoopGoal) {o : LoopOverhead}
    (ho : y.machine.overhead g.width g.counter = .ok o) (body : Code) (n : Nat) :
    y.Finds lacks (g.close y body n) fun l => g.Closes y l ∧ l.body = body ∧ l.iterations = n := by
  obtain ⟨_, _, _, hinitOk, hdecrementOk, hbranchOk⟩ :=
    Machine.control_of_overhead ho n (y.machine.target.loopLabel g.depth)
  refine (finds_ofCatalog _ (by simp [hinitOk])).bind fun _ hinit => ?_
  refine (finds_ofCatalog _ (by simp [hdecrementOk])).bind fun _ hdecrement => ?_
  refine (finds_ofCatalog _ (by simp [hbranchOk])).bind fun _ hbranch => ?_
  exact .of_pure ⟨⟨hinit, hdecrement, hbranch, rfl⟩, rfl, rfl⟩

theorem finds_countDown (hnested : ∀ w, y.Finds lacks (nested w) (Answers (P w))) (g : LoopGoal)
    {o : LoopOverhead} (ho : y.machine.overhead g.width g.counter = .ok o) (n : Nat) :
    y.Finds lacks (g.countDown y nested n) (Answers (g.Closed y P n)) := by
  induction n with
  | zero => exact .of_pure (.of_none fun l hl => absurd hl.two_le_bound (by decide))
  | succ n ih =>
    cases n with
    | zero => exact .of_pure (.of_none fun l hl => absurd hl.two_le_bound (by decide))
    | succ n =>
      refine (finds_body? hnested g (n + 2)).bind fun found hfound => ?_
      cases found with
      | none =>
        refine ih.mono fun found h => h.congr fun l => ?_
        refine ⟨fun hl => { hl with le := by have := hl.le; omega }, fun hl => { hl with le := ?_ }⟩
        -- The largest number of iterations has no body.
        by_contra hlt
        have hn : l.iterations = n + 2 := by
          have := hl.le
          omega
        exact hfound.complete rfl l.body (hn ▸ hl.body)
      | some body =>
        refine (finds_close g ho body (n + 2)).map fun l hl => .of_some ?_
        obtain ⟨hcloses, rfl, hn⟩ := hl
        exact ⟨hcloses, hn.symm ▸ hfound.sound _ rfl, by omega, by omega⟩

end LoopGoal

/-! ## The search -/

namespace Synthesizer

open SearchM

variable {y : Synthesizer} {lacks : CatalogError → Prop} {memory : List String}
  {budget depth : Nat} {window : Window} {granted : ResourceSet}

/-- The loops whose counter has a width: they close a body that is found. -/
def LoopOfWidth (y : Synthesizer) (memory : List String) (budget : Nat) (window : Window)
    (granted : ResourceSet) (depth : Nat) (width : CounterWidth) (l : Loop Code) : Prop :=
  ∃ c o, c.width = width ∧ y.LoopShape memory budget window granted depth c o l ∧
    y.BodyFound (y.LoopFound memory budget (bodyWindow window o l.iterations)
        (granted.eraseAll c.registers) (depth + 1)) (c.bodyKey memory budget granted)
      (bodyWindow window o l.iterations) l.body

theorem loopFound_iff {l : Loop Code} : y.LoopFound memory (budget + 3) window granted depth l ↔
    ∃ width, y.LoopOfWidth memory budget window granted depth width l := by
  constructor
  · intro h
    cases h with
    | flat shape body within found =>
      refine ⟨_, _, _, rfl, shape, ?_⟩
      rw [body]
      exact .flat shape.hopeful within found
    | nested shape body beyond found =>
      refine ⟨_, _, _, rfl, shape, ?_⟩
      rw [body]
      exact .nested shape.hopeful beyond found
  · rintro ⟨width, c, o, -, shape, hbody⟩
    generalize hcode : l.body = body at hbody
    cases hbody with
    | flat _ within found => exact .flat shape hcode within found
    | nested _ beyond found => exact .nested shape hcode beyond found

/-- The grant and the width decide on the counter, and so on what is sought. -/
theorem LoopShape.goal_eq {c c' : Counter} {o o' : LoopOverhead} {l : Loop Code}
    (h : y.LoopShape memory budget window granted depth c o l) (hwidth : c.width = c'.width)
    (hpick : y.machine.target.pickCounter? granted c'.width =
      some (c'.name, granted.eraseAll c'.registers))
    (ho : y.machine.overhead c'.width c'.name = .ok o') :
    c.name = c'.name ∧ granted.eraseAll c.registers = granted.eraseAll c'.registers ∧ o = o' := by
  have hpicked := h.picked
  rw [hwidth, hpick] at hpicked
  obtain ⟨hname, hrest⟩ := Prod.mk.inj (Option.some.inj hpicked)
  have hoverhead := h.overhead
  rw [hwidth, ← hname, ho] at hoverhead
  exact ⟨hname.symm, hrest.symm, (Except.ok.inj hoverhead).symm⟩

/-- With the counter that the grant and the width decide on, a loop closes a body within the tried
numbers of iterations exactly if it is one of the loops of that width. -/
theorem closed_iff {c : Counter} {o : LoopOverhead} {l : Loop Code}
    (hoffered : c ∈ y.machine.target.counters)
    (hpick : y.machine.target.pickCounter? granted c.width =
      some (c.name, granted.eraseAll c.registers))
    (hgranted : ∀ q ∈ c.registers, q ∈ granted)
    (ho : y.machine.overhead c.width c.name = .ok o)
    (hstarted : ¬((window.minus o.init).max < 0 ∨ signedCycles o.perIteration = 0)) :
    (LoopGoal.on memory budget window granted depth c o).Closed y
        (fun w => y.LoopFound memory budget w (granted.eraseAll c.registers) (depth + 1))
        ((LoopGoal.on memory budget window granted depth c o).maxIterations y.machine.target) l ↔
      y.LoopOfWidth memory budget window granted depth c.width l := by
  constructor
  · intro hl
    have hcounted : l.CountedBy y.machine depth c :=
      { offered := hoffered, init := hl.closes.init, decrement := hl.closes.decrement
        branch := hl.closes.branch, label := hl.closes.label, two_le := hl.two_le
        le_max := Nat.le_trans hl.le (LoopGoal.maxIterations_le _ _) }
    have hbody := hl.body
    rw [LoopGoal.body_on] at hbody
    exact ⟨c, o, rfl, ⟨hcounted, hpick, ho, hstarted, hl.le, hbody.hopeful, hgranted⟩, hbody⟩
  · rintro ⟨c', o', hwidth, shape, hbody⟩
    obtain ⟨hname, hrest, rfl⟩ := shape.goal_eq hwidth hpick ho
    have hsame : LoopGoal.on memory budget window granted depth c' o' =
        LoopGoal.on memory budget window granted depth c o' := by
      unfold LoopGoal.on Counter.bodyKey
      rw [hwidth, hname, hrest]
    rw [← hsame]
    exact
      { closes := ⟨shape.counted.init, shape.counted.decrement, shape.counted.branch,
          shape.counted.label⟩
        body := by rwa [LoopGoal.body_on, ← hrest]
        two_le := shape.counted.two_le
        le := shape.tried }

theorem finds_loopOfWidth? {nested : ResourceSet → Window → SearchM (Option (Loop Code))}
    (hlacks : y.machine.LoopsLack lacks)
    (hnested : ∀ granted w, y.Finds lacks (nested granted w)
      (Answers (y.LoopFound memory budget w granted (depth + 1))))
    (window : Window) (granted : ResourceSet) (width : CounterWidth) :
    y.Finds lacks (y.loopOfWidth? nested memory budget window granted depth width)
      (Answers (y.LoopOfWidth memory budget window granted depth width)) := by
  unfold loopOfWidth?
  split
  case h_2 hpick =>
    refine .of_pure (.of_none ?_)
    rintro l ⟨c, o, rfl, shape, -⟩
    exact hpick _ _ shape.picked
  case h_1 name rest hpick =>
    obtain ⟨c, hoffered, rfl, rfl, rfl, hgranted⟩ := Target.pickCounter?_eq_some hpick
    refine (finds_recordLoop _).bind fun _ _ => (finds_ofCatalog _ (hlacks c hoffered)).bind ?_
    intro o ho
    simp only
    split
    · rename_i hstarted
      refine .of_pure (.of_none ?_)
      rintro l ⟨c', o', hwidth, shape, -⟩
      obtain ⟨-, -, rfl⟩ := shape.goal_eq hwidth hpick ho
      exact shape.started hstarted
    · rename_i hstarted
      have hgoal : LoopGoal.on memory budget window granted depth c o =
        { width := c.width, counter := c.name, depth
          perIteration := signedCycles o.perIteration
          window := window.minus o.init
          bodyKey := { budget, granted := granted.eraseAll c.registers, memory } } := rfl
      rw [← hgoal]
      exact (LoopGoal.finds_countDown (hnested _) _ ho _).mono fun found h =>
        h.congr fun l => closed_iff hoffered hpick hgranted ho hstarted

theorem finds_loop? (hlacks : y.machine.LoopsLack lacks) (budget : Nat) (window : Window)
    (granted : ResourceSet) (depth : Nat) :
    y.Finds lacks (y.loop? memory budget window granted depth)
      (Answers (y.LoopFound memory budget window granted depth)) := by
  fun_induction loop? y memory budget window granted depth with
  | case1 bodyBudget window granted depth nested ih =>
    refine (finds_loopOfWidth? hlacks ih window granted .wide).bind fun found hwide => ?_
    cases found with
    | some l => exact .of_pure (.of_some (loopFound_iff.mpr ⟨.wide, hwide.sound l rfl⟩))
    | none =>
      refine (finds_loopOfWidth? hlacks ih window granted .narrow).mono fun found hnarrow => ?_
      refine hnarrow.congr fun l => Iff.trans ⟨fun hl => ⟨.narrow, hl⟩, ?_⟩ loopFound_iff.symm
      rintro ⟨width, hl⟩
      cases width with
      | wide => exact absurd hl (hwide.complete rfl l)
      | narrow => exact hl
  | case2 budget window granted depth hbudget =>
    refine .of_pure (.of_none fun l hl => ?_)
    cases hl <;> exact hbudget _ rfl

/-- Where a budget admits a loop, the search ends with one, or it fails for want of a row or of steps. -/
theorem run_loop?_of_loopFound {s : Session} (hs : s.Faithful y.machine.catalog) {l : Loop Code}
    (hl : y.LoopFound memory budget window granted depth l) :
    (∃ l t, (y.loop? memory budget window granted depth).run s = .ok (some l) t) ∨
    ∃ e t, (y.loop? memory budget window granted depth).run s = .error e t ∧
      e.EndsSearch y.config.stepLimit y.machine.catalog.Lacks t := by
  have hfinds : y.Finds y.machine.catalog.Lacks (y.loop? memory budget window granted depth)
      (Answers (y.LoopFound memory budget window granted depth)) :=
    finds_loop? y.machine.loopsLack_lacks _ _ _ _
  cases hrun : (y.loop? memory budget window granted depth).run s with
  | ok found t =>
    cases found with
    | some l => exact .inl ⟨l, t, rfl⟩
    | none =>
      have hanswers := (hfinds.of_ok hs hrun).2
      exact absurd hl (hanswers.complete rfl l)
  | error e t => exact .inr ⟨e, t, rfl, (hfinds.of_error hs hrun).2⟩

end Synthesizer

end DelaySynth
