import DelaySynth.Proofs.Code
import DelaySynth.Proofs.Execution.Step

/-!
# Passing through straight code

`Passes` composes along the lines of a listing, and single instructions outside the control of loops
are passed in one step. A filler preserves the registers that are not granted to it.

* `Passes.append`: one piece of code after the other.
* `passes_group`: a group of instructions.
-/

namespace DelaySynth

namespace I8085

variable {listing : List Item} {choose : State → Choice} {s t : State} {keep : List Register}
  {start length length' cycles cycles' : Nat} {path path' : List Nat} {i : Instruction} {row : Row}

/-! ## Single steps -/

theorem step?_label {name : String} (h : listing[s.line]? = some (.label name)) :
    step? listing choose s = some (s.advance 0) := by
  unfold step?
  rw [h]
  rfl

theorem step?_instr {role : Role} (h : listing[s.line]? = some (.instr role i))
    (hrow : catalog.lookup i.template = .ok row) : step? listing choose s =
      effect listing row.needs i (choose s) (s.advance row.duration) role := by
  unfold step?
  rw [h]
  show ((catalog.lookup i.template).toOption.bind fun row => _) = _
  rw [hrow]
  rfl

/-! ## Composition -/

theorem Passes.refl : Passes listing choose keep start 0 0 [] := by
  intro s hs
  exact ⟨s, .refl, hs, rfl, (List.append_nil _).symm, fun _ _ => rfl⟩

theorem Passes.append (first : Passes listing choose keep start length cycles path)
    (second : Passes listing choose keep (start + length) length' cycles' path') :
    Passes listing choose keep start (length + length') (cycles + cycles') (path ++ path') := by
  intro s hs
  obtain ⟨t, hst, hline, hcycles, hvisited, hkeep⟩ := first s hs
  obtain ⟨u, htu, hline', hcycles', hvisited', hkeep'⟩ := second t hline
  refine ⟨u, hst.trans htu, by omega, by omega, ?_, fun q hq => ?_⟩
  · rw [hvisited', hvisited, List.append_assoc]
  · rw [hkeep' q hq, hkeep q hq]

theorem Passes.mono {keep' : List Register}
    (h : Passes listing choose keep start length cycles path) (hsub : keep' ⊆ keep) :
    Passes listing choose keep' start length cycles path := by
  intro s hs
  obtain ⟨t, hst, hline, hcycles, hvisited, hkeep⟩ := h s hs
  exact ⟨t, hst, hline, hcycles, hvisited, fun q hq => hkeep q (hsub hq)⟩

/-! ## Instructions that do not control loops -/

/-- The catalog lists the instruction with its duration. -/
def Listed (i : Instruction) : Prop :=
  ∃ row, catalog.lookup i.template = .ok row ∧ row.duration = i.duration

theorem passes_around (hi : Listed i) (h : listing[start]? = some (.instr .around i)) :
    Passes listing choose [] start 1 i.duration [start] := by
  rintro s rfl
  obtain ⟨row, hrow, hduration⟩ := hi
  refine ⟨_, .single (step?_instr h hrow), rfl, ?_, rfl, fun _ hq => nomatch hq⟩
  rw [← hduration]
  rfl

theorem passes_filler {granted : ResourceSet} {memory : List String}
    (hi : catalog.Offers granted memory i) (hkeep : ∀ q ∈ keep, q ∉ granted)
    (h : listing[start]? = some (.instr .filler i)) :
    Passes listing choose keep start 1 i.duration [start] := by
  rintro s rfl
  obtain ⟨row, hrow, -, hneeds, rfl⟩ := hi
  have hlookup : catalog.lookup (row.filler memory).template = .ok row := by
    rw [Row.template_filler]
    exact lookup_template hrow
  refine ⟨_, .single (step?_instr h hlookup), rfl, ?_, rfl, fun q hq => ?_⟩
  · rw [Row.duration_filler]
    rfl
  · exact if_neg fun hmem => hkeep q hq (ResourceSet.mem_of_subset hneeds hmem)

/-! ## Groups -/

theorem passes_allTagged {role : Role} {cs : List Code}
    (hcs : ∀ code ∈ cs, ∃ i, code = .instr i ∧ ∀ start, listing[start]? = some (.instr role i) →
      Passes listing choose keep start 1 i.duration [start])
    (hat : At listing start (Code.allTagged role cs)) :
    Passes listing choose keep start (Code.allLines cs).length (Code.totalDuration cs)
      (Code.allPaths start cs) := by
  induction cs generalizing start with
  | nil =>
    rw [Code.allLines, Code.totalDuration, Code.allPaths]
    exact .refl
  | cons c cs ih =>
    obtain ⟨i, rfl, hi⟩ := hcs c List.mem_cons_self
    rw [Code.allTagged, Code.tagged] at hat
    have hfirst := hi start hat.getElem?_eq
    have hrest := ih (fun code hcode => hcs code (List.mem_cons_of_mem _ hcode)) hat.next
    rw [Code.allLines, Code.totalDuration, Code.allPaths, Code.lines, Code.path, Code.duration,
      List.length_append]
    exact hfirst.append hrest

theorem passes_group {role : Role} {g : Group Code}
    (hg : ∀ code ∈ g.items, ∃ i, code = .instr i ∧ ∀ start, listing[start]? = some (.instr role i) →
      Passes listing choose keep start 1 i.duration [start])
    (hat : At listing start (g.tagged role)) :
    Passes listing choose keep start g.lines.length g.duration (g.path start) := by
  obtain ⟨items, ordered⟩ := g
  rw [Group.tagged] at hat
  rw [Group.lines, Group.duration, Group.path]
  exact passes_allTagged hg hat

end I8085

end DelaySynth
