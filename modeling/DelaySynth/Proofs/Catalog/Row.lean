import DelaySynth.Catalog.Table
import DelaySynth.Proofs.ResourceSet
import DelaySynth.Proofs.Text

/-!
# Rows of a written catalog

How a row is written, and what is wrong with a line that is no row. Both are said without reference to
the order in which a line is read, except that of several faults only one is blamed.

* `ResourceSet.OfColumns`: the set that three resource columns stand for.
* `Row.Written`: the row that a line stands for.
* `RowFault.Blames`: the fault of a line that stands for no row.
* `Row.ofLine_eq_ok_iff`, `Row.ofLine_eq_error_iff`: a line is read as it is written.
-/

namespace DelaySynth

/-! ## Resource columns -/

namespace ResourceSet

/-- The set is that of three resource columns: the letters of some registers, among which other letters
have no meaning, a number of memory cells up to two, and `0` or `1` for the stack. -/
structure OfColumns (s : ResourceSet) (registers : List Char) (cells : Nat) (stack : List Char) :
    Prop where
  cells_le : cells ≤ 2
  flag : stack = ['0'] ∨ stack = ['1']
  mem_iff : ∀ r : Register, r ∈ s ↔ ∃ c ∈ registers, Register.ofLetter? c = some r
  memory_iff : s.bits.getLsbD memoryBit = true ↔ 1 ≤ cells
  pair_iff : s.bits.getLsbD pairBit = true ↔ 2 ≤ cells
  stack_iff : s.bits.getLsbD stackBit = true ↔ stack = ['1']
  above : ∀ i, stackBit < i → s.bits.getLsbD i = false

variable {s t : ResourceSet} {registers memory stack : List Char} {cells : Nat}

/-- Columns stand for one set at most. -/
theorem OfColumns.unique (hs : s.OfColumns registers cells stack)
    (ht : t.OfColumns registers cells stack) : s = t := by
  refine ResourceSet.ext (BitVec.eq_of_getLsbD_eq fun i _ => ?_)
  rw [Bool.eq_iff_iff]
  rcases Nat.lt_or_ge i Register.count with hi | hi
  · have hiff := (hs.mem_iff ⟨i⟩).trans (ht.mem_iff ⟨i⟩).symm
    have hnamed : (⟨i⟩ : Register).Named := hi
    exact ⟨fun h => (hiff.mp ⟨hnamed, h⟩).2, fun h => (hiff.mpr ⟨hnamed, h⟩).2⟩
  · have hcases : i = memoryBit ∨ i = pairBit ∨ i = stackBit ∨ stackBit < i := by
      simp only [Register.count, memoryBit, pairBit, stackBit] at hi ⊢
      omega
    rcases hcases with rfl | rfl | rfl | habove
    · rw [hs.memory_iff, ht.memory_iff]
    · rw [hs.pair_iff, ht.pair_iff]
    · rw [hs.stack_iff, ht.stack_iff]
    · rw [hs.above i habove, ht.above i habove]

/-- The set that is read from the first two columns. -/
theorem ofColumns_addMemory (registers : List Char) (hcells : cells ≤ 2) :
    (((registers.filterMap Register.ofLetter?).foldl insert ∅).addMemory cells).OfColumns registers
      cells ['0'] := by
  have hupper {i : Nat} (hi : Register.count ≤ i) :=
    getLsbD_addMemory_foldl (n := cells) hi (registers.filterMap Register.ofLetter?)
  refine ⟨hcells, .inl rfl, fun r => ?_, ?_, ?_, ?_, fun i hi => ?_⟩
  · rw [mem_addMemory]
    exact mem_foldl_insert_filterMap fun _ _ => Register.named_of_ofLetter?
  · rw [hupper (by decide)]
    simp [memoryBit, pairBit, Nat.pos_iff_ne_zero, Nat.one_le_iff_ne_zero]
  · rw [hupper (by decide)]
    simp [memoryBit, pairBit, Nat.succ_le_iff]
  · rw [hupper (by decide)]
    simp [memoryBit, pairBit, stackBit]
  · simp only [stackBit] at hi
    rw [Bool.eq_false_iff, ne_eq, hupper (by simp only [Register.count]; omega)]
    simp only [memoryBit, pairBit]
    omega

theorem OfColumns.addStack (h : s.OfColumns registers cells ['0']) :
    s.addStack.OfColumns registers cells ['1'] := by
  have hbit (i : Nat) :
      s.addStack.bits.getLsbD i = (s.bits.getLsbD i || decide (i = stackBit)) :=
    getLsbD_addBit (by decide)
  refine ⟨h.cells_le, .inr rfl, fun r => ?_, ?_, ?_, ?_, fun i hi => ?_⟩
  · rw [mem_addStack, h.mem_iff]
  · rw [hbit, ← h.memory_iff]
    simp [memoryBit, stackBit]
  · rw [hbit, ← h.pair_iff]
    simp [pairBit, stackBit]
  · simp [hbit]
  · simpa [hbit, h.above i hi] using Nat.ne_of_gt hi

theorem ofColumns?_eq_some_iff (hmemory : Text.trim memory = memory)
    (hstack : Text.trim stack = stack) : ofColumns? registers memory stack = some s ↔
      ∃ cells, Text.Numeral memory cells ∧ s.OfColumns registers cells stack := by
  unfold ofColumns?
  rw [hmemory, hstack]
  constructor
  · intro h
    obtain ⟨cells, hcells, h⟩ := Option.bind_eq_some_iff.mp h
    obtain ⟨hnumeral, hlt⟩ := Text.natural?_eq_some_iff.mp hcells
    have hset := ofColumns_addMemory registers (Nat.le_of_lt_succ hlt)
    refine ⟨cells, hnumeral, ?_⟩
    split at h
    · cases h
      exact hset
    · cases h
      exact hset.addStack
    · cases h
  · rintro ⟨cells, hnumeral, h⟩
    have hcells := Text.natural?_eq_some_iff.mpr ⟨hnumeral, Nat.lt_succ_of_le h.cells_le⟩
    have hset := ofColumns_addMemory registers h.cells_le
    refine Option.bind_eq_some_iff.mpr ⟨cells, hcells, ?_⟩
    rcases h.flag with rfl | rfl
    · rw [h.unique hset]
      rfl
    · rw [h.unique hset.addStack]
      rfl

theorem exists_ofColumns (registers : List Char) (hcells : cells ≤ 2)
    (hflag : stack = ['0'] ∨ stack = ['1']) :
    ∃ s : ResourceSet, s.OfColumns registers cells stack := by
  rcases hflag with rfl | rfl
  · exact ⟨_, ofColumns_addMemory registers hcells⟩
  · exact ⟨_, (ofColumns_addMemory registers hcells).addStack⟩

theorem ofColumns?_eq_none_iff (hmemory : Text.trim memory = memory)
    (hstack : Text.trim stack = stack) : ofColumns? registers memory stack = none ↔
      (∀ n ≤ 2, ¬Text.Numeral memory n) ∨ stack ≠ ['0'] ∧ stack ≠ ['1'] := by
  rw [Option.eq_none_iff_forall_ne_some]
  simp only [ne_eq, ofColumns?_eq_some_iff hmemory hstack]
  constructor
  · intro h
    refine or_iff_not_imp_right.mpr fun hno n hn hnumeral => ?_
    have hflag : stack = ['0'] ∨ stack = ['1'] := by
      by_contra hother
      exact hno (not_or.mp hother)
    obtain ⟨s, hs⟩ := exists_ofColumns registers hn hflag
    exact h s ⟨n, hnumeral, hs⟩
  · rintro h s ⟨cells, hnumeral, hs⟩
    rcases h with hmemory | ⟨hzero, hone⟩
    · exact hmemory cells hs.cells_le hnumeral
    · exact hs.flag.elim hzero hone

end ResourceSet

/-! ## Rows -/

/-- The columns of a row, without the blanks around them. -/
structure Row.Columns where
  /-- The assembler text. -/
  template : List Char
  /-- The number of cycles. -/
  duration : List Char
  /-- The number of bytes. -/
  size : List Char
  /-- The registers that are changed. -/
  registers : List Char
  /-- The number of memory cells that are touched. -/
  memory : List Char
  /-- Whether the stack is used. -/
  stack : List Char
  /-- Whether the instruction may be used as filler. -/
  use : List Char

namespace Row

/-- The columns in the order in which they are written. -/
def Columns.toList (cols : Columns) : List (List Char) :=
  [cols.template, cols.duration, cols.size, cols.registers, cols.memory, cols.stack, cols.use]

/-- The row is that of some columns. -/
structure OfColumns (row : Row) (cols : Columns) : Prop where
  template_ne : cols.template ≠ []
  template : row.template = String.ofList cols.template
  duration : Text.Numeral cols.duration row.duration
  duration_pos : 1 ≤ row.duration
  duration_lt : row.duration < bound64
  size : Text.Numeral cols.size row.size
  size_lt : row.size < bound32
  needs : ∃ cells, Text.Numeral cols.memory cells ∧
    row.needs.OfColumns cols.registers cells cols.stack
  usable : row.usable = true ↔ cols.use ≠ ['-']

/-- The line stands for the row. -/
def Written (line : List Char) (row : Row) : Prop :=
  ∃ cols : Columns, Text.Fields ';' line cols.toList ∧ row.OfColumns cols

end Row

/-- What is wrong with a line that stands for no row. Of several faults, the first one in the order of
the columns is blamed. -/
inductive RowFault.Blames (line : List Char) : RowFault → Prop
  | fieldCount {fields : List (List Char)} (written : Text.Fields ';' line fields)
      (count : fields.length ≠ 7) : Blames line (.fieldCount fields.length)
  | emptyTemplate {cols : Row.Columns} (written : Text.Fields ';' line cols.toList)
      (template : cols.template = []) : Blames line .emptyTemplate
  | invalidDuration {cols : Row.Columns} (written : Text.Fields ';' line cols.toList)
      (template : cols.template ≠ []) (duration : ∀ n < bound64, ¬Text.Numeral cols.duration n) :
      Blames line (.invalidDuration (String.ofList cols.duration))
  | zeroDuration {cols : Row.Columns} (written : Text.Fields ';' line cols.toList)
      (template : cols.template ≠ []) (duration : Text.Numeral cols.duration 0) :
      Blames line (.zeroDuration (String.ofList cols.template))
  | invalidSize {cols : Row.Columns} (written : Text.Fields ';' line cols.toList)
      (template : cols.template ≠ [])
      (duration : ∃ n < bound64, Text.Numeral cols.duration n ∧ 1 ≤ n)
      (size : ∀ n < bound32, ¬Text.Numeral cols.size n) :
      Blames line (.invalidSize (String.ofList cols.size))
  | invalidResources {cols : Row.Columns} (written : Text.Fields ';' line cols.toList)
      (template : cols.template ≠ [])
      (duration : ∃ n < bound64, Text.Numeral cols.duration n ∧ 1 ≤ n)
      (size : ∃ n < bound32, Text.Numeral cols.size n)
      (resources : (∀ n ≤ 2, ¬Text.Numeral cols.memory n) ∨
        cols.stack ≠ ['0'] ∧ cols.stack ≠ ['1']) :
      Blames line (.invalidResources (String.ofList cols.memory) (String.ofList cols.stack))

namespace Row

variable {line : List Char} {row : Row} {fault : RowFault} {cols : Columns}

/-- How a line with seven columns is read. -/
theorem ofLine_eq (h : Text.Fields ';' line cols.toList) : ofLine line =
    if cols.template = [] then .error .emptyTemplate
    else match Text.natural? 10 bound64 cols.duration with
      | none => .error (.invalidDuration (String.ofList cols.duration))
      | some cycles =>
        if cycles = 0 then .error (.zeroDuration (String.ofList cols.template))
        else match Text.natural? 10 bound32 cols.size with
          | none => .error (.invalidSize (String.ofList cols.size))
          | some bytes =>
            match ResourceSet.ofColumns? cols.registers cols.memory cols.stack with
            | none =>
              .error (.invalidResources (String.ofList cols.memory) (String.ofList cols.stack))
            | some needs => .ok {
              template := String.ofList cols.template
              duration := cycles
              size := bytes
              needs
              usable := cols.use != ['-'] } := by
  unfold ofLine
  rw [Text.fields_iff.mp h, Columns.toList]
  simp only [List.isEmpty_iff]
  split
  · rfl
  · cases Text.natural? 10 bound64 cols.duration with
    | none => rfl
    | some cycles =>
      by_cases hzero : cycles = 0
      · simp only [if_pos hzero]
        rfl
      · simp only [if_neg hzero]
        cases Text.natural? 10 bound32 cols.size with
        | none => rfl
        | some bytes =>
          cases ResourceSet.ofColumns? cols.registers cols.memory cols.stack <;> rfl

theorem ofLine_of_count {fields : List (List Char)} (h : Text.Fields ';' line fields)
    (hcount : fields.length ≠ 7) : ofLine line = .error (.fieldCount fields.length) := by
  unfold ofLine
  rw [Text.fields_iff.mp h]
  split
  · exact absurd rfl hcount
  · rfl

theorem exists_columns : (fields : List (List Char)) → fields.length = 7 →
    ∃ cols : Columns, cols.toList = fields
  | [template, duration, size, registers, memory, stack, use], _ =>
    ⟨⟨template, duration, size, registers, memory, stack, use⟩, rfl⟩

/-- What is read from a line is right: the row that it stands for, or its fault. -/
def Reads (line : List Char) : Except RowFault Row → Prop
  | .ok row => Written line row
  | .error fault => fault.Blames line

theorem reads_ofLine (line : List Char) : Reads line (ofLine line) := by
  have hfields : Text.Fields ';' line ((line.splitOn ';').map Text.trim) :=
    Text.fields_iff.mpr rfl
  by_cases hcount : ((line.splitOn ';').map Text.trim).length = 7
  case neg =>
    rw [ofLine_of_count hfields hcount]
    exact .fieldCount hfields hcount
  obtain ⟨cols, hcols⟩ := exists_columns _ hcount
  rw [← hcols] at hfields
  have hmemory : Text.trim cols.memory = cols.memory := hfields.trim_eq (by simp [Columns.toList])
  have hstack : Text.trim cols.stack = cols.stack := hfields.trim_eq (by simp [Columns.toList])
  rw [ofLine_eq hfields]
  by_cases htemplate : cols.template = []
  · rw [if_pos htemplate]
    exact .emptyTemplate hfields htemplate
  rw [if_neg htemplate]
  cases hduration : Text.natural? 10 bound64 cols.duration with
  | none => exact .invalidDuration hfields htemplate (Text.natural?_eq_none_iff.mp hduration)
  | some cycles =>
  obtain ⟨hcycles, hcycles_lt⟩ := Text.natural?_eq_some_iff.mp hduration
  by_cases hzero : cycles = 0
  · subst hzero
    exact .zeroDuration hfields htemplate hcycles
  simp only [if_neg hzero]
  have hpos : 1 ≤ cycles := Nat.pos_of_ne_zero hzero
  cases hsize : Text.natural? 10 bound32 cols.size with
  | none =>
    exact .invalidSize hfields htemplate ⟨cycles, hcycles_lt, hcycles, hpos⟩
      (Text.natural?_eq_none_iff.mp hsize)
  | some bytes =>
  obtain ⟨hbytes, hbytes_lt⟩ := Text.natural?_eq_some_iff.mp hsize
  cases hneeds : ResourceSet.ofColumns? cols.registers cols.memory cols.stack with
  | none =>
    exact .invalidResources hfields htemplate ⟨cycles, hcycles_lt, hcycles, hpos⟩
      ⟨bytes, hbytes_lt, hbytes⟩ ((ResourceSet.ofColumns?_eq_none_iff hmemory hstack).mp hneeds)
  | some needs =>
    exact ⟨cols, hfields, htemplate, rfl, hcycles, hpos, hcycles_lt, hbytes, hbytes_lt,
      (ResourceSet.ofColumns?_eq_some_iff hmemory hstack).mp hneeds, by simp⟩

theorem ofLine_of_written (h : Written line row) : ofLine line = .ok row := by
  obtain ⟨cols, hfields, hrow⟩ := h
  have hneeds := (ResourceSet.ofColumns?_eq_some_iff (hfields.trim_eq (by simp [Columns.toList]))
    (hfields.trim_eq (by simp [Columns.toList]))).mpr hrow.needs
  have huse : (cols.use != ['-']) = row.usable := by
    rw [Bool.eq_iff_iff, bne_iff_ne, hrow.usable]
  rw [ofLine_eq hfields, if_neg hrow.template_ne,
    Text.natural?_eq_some_iff.mpr ⟨hrow.duration, hrow.duration_lt⟩]
  simp only [if_neg (Nat.ne_of_gt hrow.duration_pos)]
  rw [Text.natural?_eq_some_iff.mpr ⟨hrow.size, hrow.size_lt⟩, hneeds, huse, ← hrow.template]

theorem ofLine_of_blames (h : fault.Blames line) : ofLine line = .error fault := by
  cases h with
  | fieldCount written count => exact ofLine_of_count written count
  | emptyTemplate written template => rw [ofLine_eq written, if_pos template]
  | invalidDuration written template duration =>
    rw [ofLine_eq written, if_neg template, Text.natural?_eq_none_iff.mpr duration]
  | zeroDuration written template duration =>
    rw [ofLine_eq written, if_neg template,
      Text.natural?_eq_some_iff.mpr ⟨duration, Nat.two_pow_pos 64⟩]
    rfl
  | invalidSize written template duration size =>
    obtain ⟨cycles, hlt, hcycles, hpos⟩ := duration
    rw [ofLine_eq written, if_neg template, Text.natural?_eq_some_iff.mpr ⟨hcycles, hlt⟩]
    simp only [if_neg (Nat.ne_of_gt hpos)]
    rw [Text.natural?_eq_none_iff.mpr size]
  | invalidResources written template duration size resources =>
    obtain ⟨cycles, hlt, hcycles, hpos⟩ := duration
    obtain ⟨bytes, hbytes_lt, hbytes⟩ := size
    rw [ofLine_eq written, if_neg template, Text.natural?_eq_some_iff.mpr ⟨hcycles, hlt⟩]
    simp only [if_neg (Nat.ne_of_gt hpos)]
    rw [Text.natural?_eq_some_iff.mpr ⟨hbytes, hbytes_lt⟩,
      (ResourceSet.ofColumns?_eq_none_iff (written.trim_eq (by simp [Columns.toList]))
        (written.trim_eq (by simp [Columns.toList]))).mpr resources]

/-- A line is read as a row if and only if it stands for that row. -/
theorem ofLine_eq_ok_iff : ofLine line = .ok row ↔ Written line row := by
  refine ⟨fun h => ?_, ofLine_of_written⟩
  have hreads := reads_ofLine line
  rwa [h] at hreads

/-- A line is refused if and only if it has a fault, and the fault is told. -/
theorem ofLine_eq_error_iff : ofLine line = .error fault ↔ fault.Blames line := by
  refine ⟨fun h => ?_, ofLine_of_blames⟩
  have hreads := reads_ofLine line
  rwa [h] at hreads

end Row

end DelaySynth
