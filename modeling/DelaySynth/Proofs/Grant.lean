import DelaySynth.Proofs.Build
import DelaySynth.Proofs.Rows
import DelaySynth.Proofs.Target.I8085

/-!
# What the main part touches

The grant is narrowed at every loop: the registers that count are taken out of it for the body.
`Admitted` says what this comes to for a piece of code inside some loops. Its fillers need nothing
that is not granted and no register that counts around them, and its own counters are granted and
none of them counts outside as well.

* `LoopFound.admitted`, `MainFound.admitted`: what the search finds is admitted.
* `main_admitted`: so is the main part of every routine, under the grant that the freeing of registers
  ends with. That grant holds the caller's registers and the freed ones, and no other memory or stack
  than the caller's.
-/

namespace DelaySynth

/-- The registers that count the loops around a piece of code. -/
def Counter.allRegisters (enclosing : List Counter) : List Register :=
  enclosing.flatMap Counter.registers

/-- An instruction that a catalog offers as filler under a grant. -/
def Catalog.Offers (c : Catalog) (granted : ResourceSet) (memory : List String) (i : Instruction) :
    Prop :=
  ∃ row ∈ c.rows, row.usable = true ∧ row.needs ⊆ granted ∧ i = row.filler memory

/-- Code of fillers and counted loops that a grant admits inside loops with the counters `enclosing`,
the outermost one first. -/
inductive Admitted (m : Machine) (memory : List String) (granted : ResourceSet) :
    (enclosing : List Counter) → Code → Prop
  | group {enclosing : List Counter} {g : Group Code}
      (fillers : ∀ code ∈ g.items, ∃ i, code = .instr i ∧
        m.catalog.Offers (granted.eraseAll (Counter.allRegisters enclosing)) memory i) :
      Admitted m memory granted enclosing (.group g)
  | loop {enclosing : List Counter} {l : Loop Code} {c : Counter}
      (counted : l.CountedBy m enclosing.length c)
      (inGrant : ∀ q ∈ c.registers, q ∈ granted)
      (apart : ∀ e ∈ enclosing, ∀ q ∈ c.registers, q ∉ e.registers)
      (body : Admitted m memory granted (enclosing ++ [c]) l.body) :
      Admitted m memory granted enclosing (.loop l)

theorem Counter.allRegisters_append (enclosing : List Counter) (c : Counter) :
    allRegisters (enclosing ++ [c]) = allRegisters enclosing ++ c.registers := by
  simp [allRegisters]

namespace Catalog

variable {c : Catalog} {granted : ResourceSet} {memory : List String}

theorem offers_of_mem_fillers {i : Instruction} (h : i ∈ c.fillers granted memory) :
    c.Offers granted memory i := by
  obtain ⟨row, hrow, rfl⟩ := List.mem_map.mp h
  obtain ⟨hmem, husable, hneeds⟩ := mem_admissible.mp ((available_sublist c granted).subset hrow)
  exact ⟨row, hmem, husable, hneeds, rfl⟩

end Catalog

/-- A flat sequence that a table of fillers answers with holds nothing but fillers. -/
theorem Reach.offers_of_lookupWindow {c : Catalog} {key : TableKey} {w : Window} {g : Group Code}
    (h : (Reach.ofKey c key).lookupWindow w = some g) :
    ∀ code ∈ g.items, ∃ i, code = .instr i ∧ c.Offers key.granted key.memory i := by
  obtain ⟨items, rfl, hsub, -⟩ := Reach.lookupWindow_ofFillers h
  intro code hcode
  obtain ⟨i, hi, rfl⟩ := List.mem_map.mp hcode
  exact ⟨i, rfl, Catalog.offers_of_mem_fillers (hsub hi)⟩

namespace Synthesizer

variable {y : Synthesizer} {memory : List String} {budget depth : Nat} {window : Window}
  {granted left : ResourceSet} {l : Loop Code} {enclosing : List Counter}

/-- What is left of a grant inside some loops holds none of their counters. -/
theorem LoopShape.apart {c : Counter} {o : LoopOverhead}
    (h : y.LoopShape memory budget window left depth c o l)
    (hleft : left = granted.eraseAll (Counter.allRegisters enclosing)) :
    (∀ q ∈ c.registers, q ∈ granted) ∧ ∀ e ∈ enclosing, ∀ q ∈ c.registers, q ∉ e.registers := by
  subst hleft
  have hcounter (q : Register) (hq : q ∈ c.registers) :=
    ResourceSet.mem_eraseAll.mp (h.granted q hq)
  refine ⟨fun q hq => (hcounter q hq).1, fun e he q hq hmem => ?_⟩
  exact (hcounter q hq).2 (List.mem_flatMap.mpr ⟨e, he, hmem⟩)

/-- A loop is admitted with its body, for which its counter is one more that counts around it. -/
theorem LoopShape.admitted {c : Counter} {o : LoopOverhead}
    (h : y.LoopShape memory budget window left depth c o l)
    (hleft : left = granted.eraseAll (Counter.allRegisters enclosing))
    (hdepth : depth = enclosing.length)
    (hbody : left.eraseAll c.registers =
        granted.eraseAll (Counter.allRegisters (enclosing ++ [c])) →
      Admitted y.machine memory granted (enclosing ++ [c]) l.body) :
    Admitted y.machine memory granted enclosing (.loop l) := by
  obtain ⟨hgranted, hapart⟩ := h.apart hleft
  refine .loop (hdepth ▸ h.counted) hgranted hapart (hbody ?_)
  rw [Counter.allRegisters_append, ResourceSet.eraseAll_append, hleft]

theorem LoopFound.admitted (h : y.LoopFound memory budget window left depth l)
    (hleft : left = granted.eraseAll (Counter.allRegisters enclosing))
    (hdepth : depth = enclosing.length) : Admitted y.machine memory granted enclosing (.loop l) := by
  induction h generalizing enclosing with
  | flat shape body _ found =>
    refine shape.admitted hleft hdepth fun hbody => ?_
    rw [body]
    refine .group ?_
    rw [← hbody]
    exact Reach.offers_of_lookupWindow found
  | nested shape body _ _ ih =>
    refine shape.admitted hleft hdepth fun hbody => ?_
    rw [body]
    exact ih hbody (by simp [hdepth])

theorem MainFound.admitted {main : Code} (h : y.MainFound memory budget window granted main) :
    Admitted y.machine memory granted [] main := by
  cases h with
  | flat _ _ found => exact .group (Reach.offers_of_lookupWindow found)
  | loop _ found => exact found.admitted rfl rfl

/-- The main part of a routine is admitted under the grant that the freeing of registers ends with.
The registers of this grant are those that the caller offers and those that were freed, and the
caller's own grant has all its other bits. -/
theorem main_admitted (y : Synthesizer) (test : SpillTest) (r : Request) {routine : Routine Code}
    {stats : Stats} (h : y.buildWith test r = .ok (some routine, stats)) :
    ∃ f freed s,
      (y.freeRegisters? test (r.window.minus ((routine.ret?.map Instruction.duration).getD 0))
        (Register.count + 1) { resources := r.resources }).run {} = .ok (some f) s ∧
      Frame.Spills y.machine { resources := r.resources } freed f ∧
      (∀ q, q ∈ ResourceSet.ofResources f.resources ↔
        (∃ p ∈ r.resources, p.register? = some q) ∨ q ∈ freed) ∧
      (∀ i, Register.count ≤ i →
        (ResourceSet.ofResources f.resources).bits.getLsbD i = true →
        (ResourceSet.ofResources r.resources).bits.getLsbD i = true) ∧
      Admitted y.machine (Resource.addresses f.resources) (ResourceSet.ofResources f.resources) []
        routine.main := by
  obtain ⟨f, hfound⟩ := routineFound_of_build h
  obtain ⟨freed, -, hspills⟩ := hfound.spills
  obtain ⟨s, hrun⟩ := hfound.frame
  obtain ⟨_, -, hmain⟩ := hfound.main
  refine ⟨f, freed, s, hrun, hspills, fun q => ?_, fun i hi hbit => ?_, hmain.admitted⟩
  · rw [hspills.mem_ofResources, ResourceSet.mem_ofResources]
  · exact hspills.getLsbD_ofResources hi hbit

set_option maxRecDepth 100000 in
theorem main_admitted_freed : ∃ routine stats,
    I8085.synthesizer.buildWith (fun _ granted => .ok (Register.a ∉ granted))
      { min := 200, max := 203, resources := [.memory "0x2000"], budget := 12 } =
      .ok (some routine, stats) ∧
    ∃ f freed, Frame.Spills I8085.machine { resources := [.memory "0x2000"] } freed f ∧
      Admitted I8085.machine (Resource.addresses f.resources)
        (ResourceSet.ofResources f.resources) [] routine.main := by
  have hbuilt : (built? <| I8085.synthesizer.buildWith (fun _ granted => .ok (Register.a ∉ granted))
      { min := 200, max := 203, resources := [.memory "0x2000"], budget := 12 }).isSome = true := by
    decide +kernel
  obtain ⟨routine, stats, h⟩ := exists_of_isSome_built? hbuilt
  obtain ⟨f, freed, _, -, hspills, -, -, hmain⟩ := main_admitted _ _ _ h
  exact ⟨routine, stats, h, f, freed, hspills, hmain⟩

end Synthesizer

end DelaySynth
