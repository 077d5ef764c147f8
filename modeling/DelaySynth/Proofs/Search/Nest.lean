import DelaySynth.Proofs.Reach.Exact
import DelaySynth.Proofs.Timing

/-!
# Loops inside each other

A loop that is found has a flat sequence as its body, or another loop that was found one level deeper.
So it is a chain of loops around a flat sequence. `Chain` cuts code into these loops, the outermost one
first.

Each level takes three instructions out of the budget and its counter out of the grant, so there are
not more levels than either of them admits.

* `LoopFound.length_le`: a loop that is found holds at most as many instructions as its budget admits.
* `LoopFound.chain`: the levels of a loop that is found, their counters and their number.
* `loop_nests`: both for whatever the search returns, together with its duration.
-/

namespace DelaySynth

/-! ## Chains -/

/-- The code consists of loops, each of them the body of the one before it, around an unordered group of
instructions. -/
inductive Chain : Code → List (Loop Code) → Prop
  | flat (items : List Instruction) : Chain (.group (.unordered (items.map Code.instr))) []
  | loop {l : Loop Code} {links : List (Loop Code)} (rest : Chain l.body links) :
      Chain (.loop l) (l :: links)

theorem Chain.three_mul_length_le {code : Code} {links : List (Loop Code)} (h : Chain code links) :
    3 * links.length ≤ code.length := by
  induction h with
  | flat items => simp
  | loop rest ih =>
    rw [Code.length_loop, Loop.length_eq, List.length_cons]
    omega

/-- The loops are counted by counters of the target, at nesting depths that follow each other. -/
def CountedFrom (m : Machine) (depth : Nat) (links : List (Loop Code)) : Prop :=
  ∀ j (link : Loop Code), links[j]? = some link → ∃ c, link.CountedBy m (depth + j) c

theorem CountedFrom.cons {m : Machine} {depth : Nat} {c : Counter} {l : Loop Code}
    {links : List (Loop Code)} (h : l.CountedBy m depth c)
    (hlinks : CountedFrom m (depth + 1) links) : CountedFrom m depth (l :: links) := by
  intro j link hlink
  cases j with
  | zero =>
    obtain rfl : l = link := Option.some.inj hlink
    exact ⟨c, h⟩
  | succ j =>
    have hdepth : depth + (j + 1) = depth + 1 + j := by omega
    rw [hdepth]
    exact hlinks j link hlink

/-- The number that an operand stands for, unless it is a text. -/
def Operand.number? : Operand → Option Nat
  | byte value => some value.toNat
  | word value => some value.toNat
  | address _ | label _ => none

/-- The counter is loaded with the number of iterations, and none of its bits is lost. -/
def Loop.Loads (m : Machine) (c : Counter) (l : Loop Code) : Prop :=
  ∃ operand : Operand, operand.number? = some l.iterations ∧
    m.instruction (m.target.initTemplate c.width c.name) (some operand) = .ok l.init

theorem Loop.CountedBy.loads {m : Machine} {depth : Nat} {c : Counter} {l : Loop Code}
    (h : l.CountedBy m depth c) (hwide : m.target.maxIterations .wide ≤ 65535)
    (hnarrow : m.target.maxIterations .narrow ≤ 255) : l.Loads m c := by
  have hmax := h.le_max
  cases c with
  | wide high low =>
    refine ⟨.word (UInt16.ofNat l.iterations), ?_, h.init⟩
    have hlt : l.iterations < 65536 := Nat.lt_succ_of_le (Nat.le_trans hmax hwide)
    simpa [Operand.number?] using hlt
  | narrow r =>
    refine ⟨.byte (UInt8.ofNat l.iterations), ?_, h.init⟩
    have hlt : l.iterations < 256 := Nat.lt_succ_of_le (Nat.le_trans hmax hnarrow)
    simpa [Operand.number?] using hlt

/-! ## Registers that are left -/

theorem Counter.name_mem_registers (c : Counter) : c.name ∈ c.registers := by
  cases c <;> exact List.mem_cons_self

/-- Taking registers out of a set that holds one of them leaves fewer. -/
theorem ResourceSet.registerCount_eraseAll_lt {s : ResourceSet} {q : Register} {rs : List Register}
    (hq : q ∈ rs) (hs : q ∈ s) : (s.eraseAll rs).registerCount < s.registerCount := by
  have hsub : (s.eraseAll rs).registers.Sublist s.registers :=
    List.monotone_filter_right _ fun r hr =>
      decide_eq_true (mem_eraseAll.mp (of_decide_eq_true hr)).1
  refine Nat.lt_of_le_of_ne hsub.length_le fun hlength => ?_
  have hsame : (s.eraseAll rs).registers = s.registers := hsub.eq_of_length hlength
  have hmem : q ∈ (s.eraseAll rs).registers := hsame ▸ mem_registers.mpr hs
  exact (mem_eraseAll.mp (mem_registers.mp hmem)).2 hq

/-! ## Found loops -/

/-- What a window is answered with holds no more fillers than the budget of the table. -/
theorem Reach.length_lookupWindow_le {c : Catalog} {key : TableKey} {w : Window} {g : Group Code}
    (h : (ofKey c key).lookupWindow w = some g) : ∃ items : List Instruction,
      g = .unordered (items.map Code.instr) ∧ items.length ≤ key.budget := by
  obtain ⟨d, items, hitems, rfl, -⟩ := lookupWindow_eq_some h
  obtain ⟨-, -, hlength, -⟩ := shortest_of_sequence? hitems
  exact ⟨items, rfl, hlength⟩

namespace Synthesizer

open SearchM

variable {y : Synthesizer} {memory : List String} {budget depth : Nat} {window : Window}
  {granted : ResourceSet} {l : Loop Code}

theorem LoopFound.length_le (h : y.LoopFound memory budget window granted depth l) :
    l.length ≤ budget := by
  induction h with
  | flat shape body within found =>
    obtain ⟨items, rfl, hlength⟩ := Reach.length_lookupWindow_le found
    rw [Loop.length_eq, body, Code.length_group, Group.length_instructions, Nat.add_comm]
    exact Nat.add_le_add_right hlength 3
  | nested shape body beyond found ih =>
    rw [Loop.length_eq, body, Code.length_loop]
    omega

theorem LoopFound.chain (h : y.LoopFound memory budget window granted depth l) :
    ∃ links, Chain (.loop l) links ∧ CountedFrom y.machine depth links ∧
      links.length ≤ granted.registerCount := by
  induction h with
  | @flat budget window granted depth c o l g shape body within found =>
    obtain ⟨items, rfl, -⟩ := Reach.length_lookupWindow_le found
    have hfewer := ResourceSet.registerCount_eraseAll_lt c.name_mem_registers
      (shape.granted c.name c.name_mem_registers)
    refine ⟨[l], .loop (body ▸ .flat items), .cons shape.counted ?_, ?_⟩
    · intro j link hlink
      cases hlink
    · exact Nat.lt_of_le_of_lt (Nat.zero_le _) hfewer
  | @nested budget window granted depth c o l inner shape body beyond found ih =>
    obtain ⟨links, hchain, hcounted, hlength⟩ := ih
    have hfewer := ResourceSet.registerCount_eraseAll_lt c.name_mem_registers
      (shape.granted c.name c.name_mem_registers)
    exact ⟨l :: links, .loop (body ▸ hchain), .cons shape.counted hcounted,
      Nat.lt_of_le_of_lt hlength hfewer⟩

/-- What the search returns lasts as long as the window says, in exact integers, and holds at most as
many instructions as the budget. It is a chain of loops around a flat sequence. From the outermost one
on they bear the labels of the depths that follow each other and branch to them, they run at least
twice and at most as often as their counters can count, and their counters are loaded with just that
number. There is one counter for each of them among the granted registers, and there are three
instructions. -/
theorem loop_nests (y : Synthesizer) (memory : List String) (budget : Nat) (window : Window)
    (granted : ResourceSet) (depth : Nat) {s t : Session} {l : Loop Code}
    (hrows : ∀ row ∈ y.machine.catalog.rows, row.duration < bound32)
    (hwide : y.machine.target.maxIterations .wide ≤ 65535)
    (hnarrow : y.machine.target.maxIterations .narrow ≤ 255)
    (hs : s.Faithful y.machine.catalog)
    (h : (y.loop? memory budget window granted depth).run s = .ok (some l) t) :
    (window.min ≤ l.duration ∧ l.duration ≤ window.max) ∧ l.length ≤ budget ∧
    ∃ links, Chain (.loop l) links ∧ links.length ≤ min (budget / 3) granted.registerCount ∧
      ∀ j (link : Loop Code), links[j]? = some link →
        ∃ c, link.CountedBy y.machine (depth + j) c ∧ link.Loads y.machine c := by
  have hlacks : y.machine.LoopsLack fun _ => True := fun _ _ _ _ => trivial
  have hfound : y.LoopFound memory budget window granted depth l :=
    ((finds_loop? hlacks budget window granted depth).of_ok hs h).2.sound l rfl
  obtain ⟨links, hchain, hcounted, hregisters⟩ := hfound.chain
  have hlength := hchain.three_mul_length_le
  rw [Code.length_loop] at hlength
  have hbudget := hfound.length_le
  refine ⟨hfound.bounds hrows, hbudget, links, hchain, by omega, fun j link hlink => ?_⟩
  obtain ⟨c, hc⟩ := hcounted j link hlink
  exact ⟨c, hc, hc.loads hwide hnarrow⟩

set_option maxRecDepth 100000 in
/-- Two registers count twenty thousand cycles as a loop in a loop. -/
theorem loop_nests_two : ∃ l inner t,
    (I8085.synthesizer.loop? [] 12 ⟨20000, 20010⟩
      (ResourceSet.ofResources [.register "B", .register "D"]) 0).run {} = .ok (some l) t ∧
    l.body = .loop inner ∧ (20000 ≤ (l.duration : Int) ∧ (l.duration : Int) ≤ 20010) ∧
    l.length ≤ 12 ∧ ∃ links, Chain (.loop l) links ∧ links.length ≤ 2 ∧
      ∀ j (link : Loop Code), links[j]? = some link →
        ∃ c, link.CountedBy I8085.machine (0 + j) c ∧ link.Loads I8085.machine c := by
  have hfound : (found? <| (I8085.synthesizer.loop? [] 12 ⟨20000, 20010⟩
      (ResourceSet.ofResources [.register "B", .register "D"]) 0).run {}).any
        (fun l => l.body matches .loop _) = true := by
    decide +kernel
  obtain ⟨l, t, h, hbody⟩ := exists_of_any_found? hfound
  obtain ⟨inner, hinner⟩ : ∃ inner, l.body = .loop inner := by
    cases hcode : l.body with
    | loop inner => exact ⟨inner, rfl⟩
    | instr _ | group _ | routine _ => simp [hcode] at hbody
  obtain ⟨hbounds, hlength, links, hchain, hcount, hlinks⟩ := loop_nests I8085.synthesizer [] 12
    ⟨20000, 20010⟩ (ResourceSet.ofResources [.register "B", .register "D"]) 0 I8085.duration_lt
    (by decide) (by decide) Session.faithful_empty h
  exact ⟨l, inner, t, h, hinner, hbounds, hlength, links, hchain,
    Nat.le_trans hcount (by decide +kernel), hlinks⟩

end Synthesizer

end DelaySynth
