import DelaySynth.Proofs.Execution.Passing

/-!
# Passing through loops

A loop loads its counter and then goes round: each round visits the label, passes through the body and
takes one off the counter, and the jump leads back to the label until the counter is zero. The body
leaves the counter alone, and so do the loops inside it.

* `round`: what one round does.
* `rounds`: by induction, what is left to do from a value of the counter on.
* `passes_of_admitted`: admitted code is passed through in its duration and along its path.
-/

namespace DelaySynth

/-- The place of a label whose name is defined once. -/
theorem Item.findIdx?_label {listing : List Item} (hlabels : (Item.labels listing).Nodup) {k : Nat}
    {name : String} (h : listing[k]? = some (.label name)) :
    (listing.findIdx? fun item => item.label? = some name) = some k := by
  obtain ⟨hk, hitem⟩ := List.getElem?_eq_some_iff.mp h
  rw [List.findIdx?_eq_some_iff_getElem]
  refine ⟨hk, by simp [hitem, Item.label?], fun j hj => ?_⟩
  have hpair := List.pairwise_iff_getElem.mp (List.pairwise_filterMap.mp hlabels) j k (by omega) hk hj
  simp only [decide_eq_true_eq]
  intro hname
  exact hpair name hname name (by rw [hitem]; rfl) rfl

namespace I8085

instance (c : Counter) : Decidable c.Proper :=
  match c with
  | .wide high low => inferInstanceAs (Decidable (high ≠ low))
  | .narrow _ => inferInstanceAs (Decidable True)

/-- What the assembler texts of the control instructions mean agrees with what they are used for. -/
theorem counters_agree : ∀ c ∈ target.counters,
    loads.lookup (target.initTemplate c.width c.name) = some c ∧
    (Placeholder.find? (target.initTemplate c.width c.name)).isSome = true ∧
    counts.lookup (target.decrementTemplate c.width c.name) = some c ∧
    target.maxIterations c.width < c.size ∧ c.Proper := by
  decide +kernel

variable {listing : List Item} {choose : State → Choice} {s : State} {keep : List Register}
  {start depth v : Nat} {l : Loop Code} {c : Counter}

/-! ## Control instructions -/

theorem immediate?_init (h : l.CountedBy machine depth c) : immediate? l.init = some l.iterations := by
  obtain ⟨-, hplace, -, hmax, -⟩ := counters_agree c h.offered
  have hlt : l.iterations < c.size := Nat.lt_of_le_of_lt h.le_max hmax
  have hinit := h.init
  unfold Machine.loopInit at hinit
  unfold immediate?
  rw [Machine.operand?_of_instruction hplace hinit]
  cases c with
  | wide high low =>
    simp only [Counter.width, UInt16.toNat_ofNat', Option.some.injEq]
    exact Nat.mod_eq_of_lt hlt
  | narrow r =>
    simp only [Counter.width, UInt8.toNat_ofNat', Option.some.injEq]
    exact Nat.mod_eq_of_lt hlt

theorem step?_init (h : l.CountedBy machine depth c)
    (hat : listing[s.line]? = some (.instr .init l.init)) : step? listing choose s =
      some { s.advance l.init.duration with regs := c.set s.regs l.iterations } := by
  obtain ⟨row, hrow, hduration⟩ := Machine.lookup_of_instruction h.init
  have htemplate : l.init.template = target.initTemplate c.width c.name :=
    Machine.template_of_instruction h.init
  have hload : loads.lookup l.init.template = some c := by
    rw [htemplate]
    exact (counters_agree c h.offered).1
  rw [step?_instr hat hrow, hduration, effect, hload, immediate?_init h]
  rfl

theorem step?_decrement (h : l.CountedBy machine depth c)
    (hat : listing[s.line]? = some (.instr .decrement l.decrement)) : step? listing choose s =
      some { s.advance l.decrement.duration with
        regs := c.countDown s.regs, zero := decide (c.value (c.countDown s.regs) = 0) } := by
  obtain ⟨row, hrow, hduration⟩ := Machine.lookup_of_instruction h.decrement
  have htemplate : l.decrement.template = target.decrementTemplate c.width c.name :=
    Machine.template_of_instruction h.decrement
  have hcount : counts.lookup l.decrement.template = some c := by
    rw [htemplate]
    exact (counters_agree c h.offered).2.2.1
  rw [step?_instr hat hrow, hduration, effect, hcount]
  rfl

/-- The jump goes back to the label, or on if the counter has just become zero. -/
theorem step?_branch (h : l.CountedBy machine depth c)
    (hat : listing[s.line]? = some (.instr .branch l.branch))
    (hlabels : (Item.labels listing).Nodup) {k : Nat} (hk : listing[k]? = some (.label l.label)) :
    step? listing choose s =
      some (if s.zero then s.advance l.branch.duration
        else { s.advance l.branch.duration with line := k }) := by
  obtain ⟨row, hrow, hduration⟩ := Machine.lookup_of_instruction h.branch
  have htemplate : l.branch.template = jump := Machine.template_of_instruction h.branch
  have hline : labelLine? listing l.branch = some k := by
    unfold labelLine?
    rw [Machine.operand?_of_instruction (by decide +kernel) h.branch]
    exact Item.findIdx?_label hlabels hk
  rw [step?_instr hat hrow, hduration, effect, if_neg (not_not_intro htemplate), hline]
  show (if s.zero then _ else _) = _
  split
  · rfl
  · rfl

/-! ## Rounds -/

/-- What stands where in the listing of a loop. -/
structure LoopAt (listing : List Item) (start : Nat) (l : Loop Code) : Prop where
  init : listing[start]? = some (.instr .init l.init)
  label : listing[start + 1]? = some (.label l.label)
  body : At listing (start + 2) (l.body.tagged .filler)
  decrement : listing[start + 2 + l.body.lines.length]? = some (.instr .decrement l.decrement)
  branch : listing[start + 3 + l.body.lines.length]? = some (.instr .branch l.branch)

theorem loopAt_of_at (h : At listing start l.tagged) : LoopAt listing start l := by
  rw [l.tagged_eq] at h
  have hclose := h.next.next.after
  rw [Code.length_tagged] at hclose
  have hbranch := hclose.next.getElem?_eq
  have hline : start + 1 + 1 + l.body.lines.length + 1 = start + 3 + l.body.lines.length := by omega
  rw [hline] at hbranch
  exact ⟨h.getElem?_eq, h.next.getElem?_eq, h.next.next.before, hclose.getElem?_eq, hbranch⟩

/-- A round takes one off the counter and leads back to the label, or behind the loop if the counter
is then zero. -/
theorem round (hcounted : l.CountedBy machine depth c) (hat : LoopAt listing start l)
    (hlabels : (Item.labels listing).Nodup)
    (hbody : Passes listing choose (keep ++ c.registers) (start + 2) l.body.lines.length
      l.body.duration (l.body.path (start + 2)))
    (hapart : ∀ q ∈ keep, q ∉ c.registers) (hs : s.line = start + 1)
    (hvalue : c.value s.regs = v + 1) (hv : v < c.size) :
    ∃ t, Reaches listing choose s t ∧
      t.line = (if v = 0 then start + l.lines.length else start + 1) ∧
      t.cycles = s.cycles + l.iterationDuration ∧ t.visited = s.visited ++ l.round start ∧
      c.value t.regs = v ∧ ∀ q ∈ keep, t.regs q = s.regs q := by
  obtain ⟨-, -, -, -, hproper⟩ := counters_agree c hcounted.offered
  have hlabel : step? listing choose s = some (s.advance 0) := step?_label (hs ▸ hat.label)
  obtain ⟨t, hreaches, hline, hcycles, hvisited, hkeep⟩ :=
    hbody (s.advance 0) (congrArg (· + 1) hs)
  have hcounter : c.value t.regs = v + 1 := by
    rw [← hvalue]
    exact Counter.value_congr fun q hq => hkeep q (List.mem_append_right _ hq)
  have hdown : c.value (c.countDown t.regs) = v := Counter.value_countDown hproper hcounter hv
  -- The states after the body, after the decrement and after the jump.
  let u : State := { t.advance l.decrement.duration with
    regs := c.countDown t.regs, zero := decide (v = 0) }
  let w : State := { u.advance l.branch.duration with
    line := if v = 0 then start + l.lines.length else start + 1 }
  have hu : step? listing choose t = some u := by
    rw [step?_decrement hcounted (hline ▸ hat.decrement), hdown]
  have huline : u.line = start + 3 + l.body.lines.length := by
    show t.line + 1 = _
    rw [hline]
    show start + 2 + l.body.lines.length + 1 = _
    omega
  have hw : step? listing choose u = some w := by
    rw [step?_branch hcounted (huline ▸ hat.branch) hlabels hat.label]
    show some (if decide (v = 0) = true then _ else _) = some w
    by_cases hzero : v = 0
    · have hlast : (u.advance l.branch.duration).line = start + l.lines.length := by
        show u.line + 1 = _
        rw [huline, l.length_lines]
        omega
      simp only [hzero, decide_true, if_true, w, ← hlast]
    · simp only [hzero, decide_false, w, if_false, Bool.false_eq_true]
  refine ⟨w, .head hlabel (hreaches.tail hu |>.tail hw), rfl, ?_, ?_, hdown, fun q hq => ?_⟩
  · show t.cycles + l.decrement.duration + l.branch.duration = _
    rw [hcycles]
    show s.cycles + 0 + l.body.duration + l.decrement.duration + l.branch.duration = _
    unfold Loop.iterationDuration
    omega
  · show t.visited ++ [t.line] ++ [u.line] = _
    rw [hvisited, hline, huline]
    show s.visited ++ [s.line] ++ l.body.path (start + 2) ++ _ ++ _ = _
    rw [hs, Loop.round]
    simp
  · show c.countDown t.regs q = s.regs q
    rw [Counter.countDown, Counter.set_of_not_mem (hapart q hq)]
    exact hkeep q (List.mem_append_left _ hq)

/-- From a value of the counter on there are as many rounds left. -/
theorem rounds (hcounted : l.CountedBy machine depth c) (hat : LoopAt listing start l)
    (hlabels : (Item.labels listing).Nodup)
    (hbody : Passes listing choose (keep ++ c.registers) (start + 2) l.body.lines.length
      l.body.duration (l.body.path (start + 2)))
    (hapart : ∀ q ∈ keep, q ∉ c.registers) (hs : s.line = start + 1)
    (hvalue : c.value s.regs = v + 1) (hv : v < c.size) :
    ∃ t, Reaches listing choose s t ∧ t.line = start + l.lines.length ∧
      t.cycles = s.cycles + (v + 1) * l.iterationDuration ∧
      t.visited = s.visited ++ (List.replicate (v + 1) (l.round start)).flatten ∧
      ∀ q ∈ keep, t.regs q = s.regs q := by
  induction v generalizing s with
  | zero =>
    obtain ⟨t, hreaches, hline, hcycles, hvisited, -, hkeep⟩ :=
      round hcounted hat hlabels hbody hapart hs hvalue hv
    refine ⟨t, hreaches, hline, by omega, ?_, hkeep⟩
    simpa using hvisited
  | succ v ih =>
    obtain ⟨t, hreaches, hline, hcycles, hvisited, hleft, hkeep⟩ :=
      round hcounted hat hlabels hbody hapart hs hvalue hv
    obtain ⟨u, hreaches', hline', hcycles', hvisited', hkeep'⟩ := ih hline hleft (by omega)
    refine ⟨u, hreaches.trans hreaches', hline', ?_, ?_, fun q hq => ?_⟩
    · rw [hcycles', hcycles, Nat.add_mul (v + 1) 1]
      omega
    · rw [hvisited', hvisited, List.replicate_succ (n := v + 1), List.flatten_cons,
        List.append_assoc]
    · rw [hkeep' q hq, hkeep q hq]

/-! ## Admitted code -/

theorem passes_loop (hcounted : l.CountedBy machine depth c) (hat : LoopAt listing start l)
    (hlabels : (Item.labels listing).Nodup)
    (hbody : Passes listing choose (keep ++ c.registers) (start + 2) l.body.lines.length
      l.body.duration (l.body.path (start + 2)))
    (hapart : ∀ q ∈ keep, q ∉ c.registers) :
    Passes listing choose keep start l.lines.length l.duration (l.path start) := by
  intro s hs
  obtain ⟨-, -, -, hmax, hproper⟩ := counters_agree c hcounted.offered
  have htwo := hcounted.two_le
  have hlt : l.iterations < c.size := Nat.lt_of_le_of_lt hcounted.le_max hmax
  have hinit : step? listing choose s = _ := step?_init hcounted (hs ▸ hat.init)
  have hvalue : c.value (c.set s.regs l.iterations) = (l.iterations - 1) + 1 := by
    rw [Counter.value_set hproper, Nat.mod_eq_of_lt hlt]
    omega
  obtain ⟨t, hreaches, hline, hcycles, hvisited, hkeep⟩ :=
    rounds (s := { s.advance l.init.duration with regs := c.set s.regs l.iterations })
      hcounted hat hlabels hbody hapart (congrArg (· + 1) hs) hvalue (by omega)
  have hall : l.iterations - 1 + 1 = l.iterations := by omega
  rw [hall] at hcycles hvisited
  refine ⟨t, .head hinit hreaches, hline, ?_, ?_, fun q hq => ?_⟩
  · rw [hcycles, l.duration_eq]
    show s.cycles + l.init.duration + _ = _
    omega
  · rw [hvisited, l.path_eq]
    show s.visited ++ [s.line] ++ _ = _
    rw [hs, List.append_assoc]
    rfl
  · rw [hkeep q hq]
    exact Counter.set_of_not_mem (hapart q hq)

theorem passes_of_admitted {memory : List String} {granted : ResourceSet} {enclosing : List Counter}
    {code : Code} (h : Admitted machine memory granted enclosing code)
    (hlabels : (Item.labels listing).Nodup) (hat : At listing start (code.tagged .filler)) :
    Passes listing choose (Counter.allRegisters enclosing) start code.lines.length code.duration
      (code.path start) := by
  induction h generalizing start with
  | group fillers =>
    rw [Code.tagged] at hat
    rw [Code.lines, Code.duration, Code.path]
    refine passes_group (fun code hcode => ?_) hat
    obtain ⟨i, rfl, hoffers⟩ := fillers code hcode
    refine ⟨i, rfl, fun start => passes_filler hoffers fun q hq hmem => ?_⟩
    exact (ResourceSet.mem_eraseAll.mp hmem).2 hq
  | @loop enclosing l c counted inGrant apart body ih =>
    rw [Code.tagged] at hat
    rw [Code.lines, Code.duration, Code.path]
    have hloop := loopAt_of_at hat
    have hbody := ih hloop.body
    rw [Counter.allRegisters_append] at hbody
    refine passes_loop counted hloop hlabels hbody fun q hq hmem => ?_
    obtain ⟨e, he, hqe⟩ := List.mem_flatMap.mp hq
    exact apart e he q hmem hqe

end I8085

end DelaySynth
