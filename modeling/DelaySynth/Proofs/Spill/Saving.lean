import DelaySynth.Proofs.Spill.Resources
import DelaySynth.Proofs.Spill.Transfer

/-!
# Freed registers are given back

On the Intel 8085 the code around a main part gives every register that the caller did not grant its
value back, whatever the main part does to the freed registers and to the cells that are still
granted.

The steps nest: each appends to the saving code and puts something in front of the restoring code, and
what it adds brackets the main part (`Brackets`). A second register of a pushed pair adds nothing.
Therefore `Loose` also counts the registers of all pushed units as changed by the main part, and
`Paired` keeps the pushes and pops of a frame in step.

* `saved_registers_restored`: the registers, the stack pointer and the cells after any number of steps.
-/

namespace DelaySynth.I8085

open Resource

variable {κ : Type} [DecidableEq κ] {locate : String → κ}

/-! ## Changes of the contents -/

/-- Only some registers, some cells and the flags are changed. -/
structure Contents.Changed (P : Register → Prop) (cells : List κ) (s t : Contents κ) : Prop where
  regs : ∀ q, ¬P q → t.regs q = s.regs q
  cells : ∀ k, k ∉ cells → t.cells k = s.cells k
  stack : t.stack = s.stack
  sp : t.sp = s.sp

/-- Code before and after a part of a routine that may change `P` and `cells`. What is changed of the
contents altogether is at most `P'` and `cells'`. The code before stores in `cells'` alone, and the
code after in no cell. -/
def Brackets (locate : String → κ) (P P' : Register → Prop) (cells cells' : List κ)
    (before after : List Code) : Prop :=
  ∀ s : Contents κ, ∃ t, s.run? locate before = some t ∧
    (∀ k, k ∉ cells' → t.cells k = s.cells k) ∧
    ∀ t', t.Changed P cells t' → ∃ u, t'.run? locate after = some u ∧
      s.Changed P' cells' u ∧ u.cells = t'.cells

variable {P P' P'' : Register → Prop} {cells cells' cells'' : List κ} {xs ys before after : List Code}

theorem brackets_nil : Brackets locate P P cells cells [] [] :=
  fun s => ⟨s, rfl, fun _ _ => rfl, fun t h => ⟨t, rfl, h, rfl⟩⟩

theorem Brackets.nest (outer : Brackets locate P' P'' cells' cells'' xs ys)
    (inner : Brackets locate P P' cells cells' before after)
    (hcells : ∀ k, k ∈ cells' → k ∈ cells'') :
    Brackets locate P P'' cells cells'' (xs ++ before) (after ++ ys) := by
  intro s
  obtain ⟨t, hxs, hstored, houter⟩ := outer s
  obtain ⟨t', hbefore, hstored', hinner⟩ := inner t
  refine ⟨t', ?_, fun k hk => ?_, fun u hu => ?_⟩
  · rw [Contents.run?_append_of_eq_some hxs, hbefore]
  · rw [hstored' k fun h => hk (hcells k h), hstored k hk]
  · obtain ⟨v, hafter, hchanged, hv⟩ := hinner u hu
    obtain ⟨w, hys, hchanged', hw⟩ := houter v hchanged
    refine ⟨w, ?_, hchanged', hw.trans hv⟩
    rw [Contents.run?_append_of_eq_some hafter, hys]

theorem Brackets.mono (h : Brackets locate P' P'' cells cells'' before after)
    (hP : ∀ q, P q → P' q) : Brackets locate P P'' cells cells'' before after := by
  intro s
  obtain ⟨t, hbefore, hstored, hinner⟩ := h s
  refine ⟨t, hbefore, hstored, fun u hu => hinner u ?_⟩
  exact { hu with regs := fun q hq => hu.regs q fun hPq => hq (hP q hPq) }

/-! ## What a step adds -/

section Added

variable {r : Register} {address : String} {store load out back push pop : Instruction}
  {u : StackUnit}

theorem brackets_primary (hstore : decode? store = some (.store address))
    (hload : decode? load = some (.load address)) (hcell : locate address ∉ cells)
    (hP : ∀ q, P q → P' q ∨ q = Register.a) :
    Brackets locate P P' cells (locate address :: cells) [.instr store] [.instr load] := by
  intro s
  refine ⟨_, Contents.run?_cons_of_decode? hstore rfl, fun k hk => ?_, fun t ht => ?_⟩
  · exact Function.update_of_ne (List.ne_of_not_mem_cons hk) _ _
  · have hkept : t.cells (locate address) = s.regs Register.a := by
      rw [ht.cells _ hcell]
      exact Function.update_self _ _ _
    refine ⟨_, Contents.run?_cons_of_decode? hload rfl, ⟨fun q hq => ?_, fun k hk => ?_, ht.stack,
      ht.sp⟩, rfl⟩
    · by_cases hqa : q = Register.a
      · subst hqa
        rw [Contents.regs_set_self, hkept]
      · rw [Contents.regs_set_of_ne hqa, ht.regs q fun hPq => (hP q hPq).elim hq hqa]
    · show t.cells k = s.cells k
      rw [ht.cells k (List.not_mem_of_not_mem_cons hk)]
      exact Function.update_of_ne (List.ne_of_not_mem_cons hk) _ _

theorem brackets_copied (hout : decode? out = some (.copy Register.a r))
    (hstore : decode? store = some (.store address))
    (hback : decode? back = some (.copy r Register.a))
    (hload : decode? load = some (.load address)) (hcell : locate address ∉ cells)
    (hP : ∀ q, P q → P' q ∨ q = r) (ha : P' Register.a) :
    Brackets locate P P' cells (locate address :: cells) [.instr out, .instr store]
      [.instr load, .instr back] := by
  intro s
  refine ⟨_, (Contents.run?_cons_of_decode? hout rfl).trans
    (Contents.run?_cons_of_decode? hstore rfl), fun k hk => ?_, fun t ht => ?_⟩
  · exact Function.update_of_ne (List.ne_of_not_mem_cons hk) _ _
  · have hkept : t.cells (locate address) = s.regs r := by
      rw [ht.cells _ hcell]
      exact (Function.update_self _ _ _).trans Contents.regs_set_self
    refine ⟨_, (Contents.run?_cons_of_decode? hload rfl).trans
      (Contents.run?_cons_of_decode? hback rfl), ⟨fun q hq => ?_, fun k hk => ?_, ht.stack,
      ht.sp⟩, rfl⟩
    · have hqa : q ≠ Register.a := by
        rintro rfl
        exact hq ha
      by_cases hqr : q = r
      · subst hqr
        rw [Contents.regs_set_self, Contents.regs_set_self, hkept]
      · rw [Contents.regs_set_of_ne hqr, Contents.regs_set_of_ne hqa,
          ht.regs q fun hPq => (hP q hPq).elim hq hqr]
        exact Contents.regs_set_of_ne hqa
    · show t.cells k = s.cells k
      rw [ht.cells k (List.not_mem_of_not_mem_cons hk)]
      exact Function.update_of_ne (List.ne_of_not_mem_cons hk) _ _

theorem brackets_stacked (hpush : decode? push = some (.push u)) (hpop : decode? pop = some (.pop u))
    (hP : ∀ q, P q → P' q ∨ q ∈ u.registers) :
    Brackets locate P P' cells cells [.instr push] [.instr pop] := by
  intro s
  refine ⟨_, Contents.run?_cons_of_decode? hpush rfl, fun _ _ => rfl, fun t ht => ?_⟩
  have hstack : t.stack = s.read u :: s.stack := ht.stack
  have hpopped : t.transfer? locate (.pop u) =
      some { t.write (s.read u) u with stack := s.stack, sp := t.sp + 2 } := by
    rw [Contents.transfer?, hstack]
  refine ⟨_, Contents.run?_cons_of_decode? hpop hpopped, ⟨fun q hq => ?_, fun k hk => ?_, rfl, ?_⟩,
    ?_⟩
  · by_cases hqu : q ∈ u.registers
    · exact Contents.regs_write_read hqu
    · refine (Contents.regs_write_of_not_mem hqu).trans ?_
      exact ht.regs q fun hPq => (hP q hPq).elim hq hqu
  · show (t.write (s.read u) u).cells k = s.cells k
    rw [Contents.cells_write]
    exact ht.cells k hk
  · show t.sp + 2 = s.sp
    rw [ht.sp]
    exact BitVec.sub_add_cancel s.sp 2
  · exact Contents.cells_write

end Added

/-! ## Frames -/

/-- The registers that may change between the saving and the restoring part of a frame: those that
are granted and those that have been pushed. -/
def Loose (f : Frame) (q : Register) : Prop :=
  q ∈ ResourceSet.ofResources f.resources ∨
    ∃ u i, Code.instr i ∈ f.save.items ∧ decode? i = some (.push u) ∧ q ∈ u.registers

/-- A unit is pushed by a frame if and only if it is popped. -/
def Paired (f : Frame) : Prop :=
  ∀ (u : StackUnit) (push pop : Instruction),
    machine.instruction ("PUSH " ++ u.name) none = .ok push →
    machine.instruction ("POP " ++ u.name) none = .ok pop →
    (Code.instr push ∈ f.save.items ↔ Code.instr pop ∈ f.restore.items)

/-- The cells that a list of resources offers. -/
def cellsOf (locate : String → κ) (rs : List Resource) : List κ :=
  (addresses rs).map locate

section Steps

variable {f g : Frame} {r : Register} {rs : List Resource} {push pop : Instruction}

theorem paired_of_no_resources : Paired { resources := rs } := by
  intro u push pop _ _
  simp

/-- Code that is added to a frame by a step that uses memory. -/
structure Adds (f g : Frame) (save restore : List Code) : Prop where
  save_eq : g.save.items = f.save.items ++ save
  restore_eq : g.restore.items = restore ++ f.restore.items
  no_push : ∀ i, Code.instr i ∈ save → ∀ u, decode? i ≠ some (.push u)
  no_pop : ∀ i, Code.instr i ∈ restore → ∀ u, decode? i ≠ some (.pop u)

variable {save restore : List Code}

theorem Adds.paired (h : Adds f g save restore) (hf : Paired f) : Paired g := by
  intro u push pop pushOk popOk
  have hnoPush : Code.instr push ∉ save := fun hmem => h.no_push push hmem u (decode?_push pushOk)
  have hnoPop : Code.instr pop ∉ restore := fun hmem => h.no_pop pop hmem u (decode?_pop popOk)
  rw [h.save_eq, h.restore_eq, List.mem_append, List.mem_append, hf u push pop pushOk popOk]
  simp [hnoPush, hnoPop]

theorem Adds.loose (h : Adds f g save restore) {outcome : SpillOutcome}
    (hstep : Frame.Step machine f outcome g) (hr : outcome.freed? = some r) {q : Register}
    (hq : Loose g q) : Loose f q ∨ q = r := by
  rcases hq with hq | ⟨u, i, hi, hdecode, hq⟩
  · exact ((hstep.mem_ofResources hr).mp hq).imp_left .inl
  · rw [h.save_eq, List.mem_append] at hi
    rcases hi with hi | hi
    · exact .inl (.inr ⟨u, i, hi, hdecode, hq⟩)
    · exact absurd hdecode (h.no_push i hi u)

/-- The invariant of a frame that starts with the resources `rs`. -/
structure Sound (locate : String → κ) (rs : List Resource) (f : Frame) : Prop where
  offered : (addresses f.resources).Sublist (addresses rs)
  brackets : Brackets locate (Loose f) (· ∈ ResourceSet.ofResources rs) (cellsOf locate f.resources)
    (cellsOf locate rs) f.save.items f.restore.items
  paired : Paired f

theorem sound_start : Sound locate rs { resources := rs } := by
  refine ⟨.refl _, brackets_nil.mono fun q hq => ?_, paired_of_no_resources⟩
  rcases hq with hq | ⟨_, _, hi, -⟩
  · exact hq
  · cases hi

/-- A step that uses memory keeps the invariant if what it adds brackets the rest. -/
theorem Sound.extend (hf : Sound locate rs f) (hadds : Adds f g save restore)
    (hoffered : (addresses g.resources).Sublist (addresses f.resources))
    (hinner : Brackets locate (Loose g) (Loose f) (cellsOf locate g.resources)
      (cellsOf locate f.resources) save restore) : Sound locate rs g := by
  refine ⟨hoffered.trans hf.offered, ?_, hadds.paired hf.paired⟩
  rw [hadds.save_eq, hadds.restore_eq]
  exact hf.brackets.nest hinner (hf.offered.map locate).subset

omit [DecidableEq κ] in
theorem cellsOf_exchange {name address : String} {rs qs : List Resource}
    (h : Frame.exchangeMemory? name rs = some (address, qs)) :
    cellsOf locate rs = locate address :: cellsOf locate qs := by
  rw [cellsOf, Frame.addresses_exchange h]
  rfl

/-- A push and a pop keep a frame paired, whether they are there already or not. -/
theorem Paired.stacked (hf : Paired f) (hr : r.Named) (pushOk : machine.push? r = .ok (some push))
    (popOk : machine.pop? r = .ok (some pop)) (hsave : g.save = f.withPush push)
    (hrestore : g.restore = f.withPop pop) : Paired g := by
  intro u push' pop' pushOk' popOk'
  have hpush := push?_eq_ok hr pushOk
  have hpop := pop?_eq_ok hr popOk
  have hpushUnit : push' = push ↔ u = StackUnit.ofRegister r :=
    eq_iff_unit_eq (fun _ _ => Transfer.push.inj) (fun _ _ => decode?_push) pushOk' hpush
  have hpopUnit : pop' = pop ↔ u = StackUnit.ofRegister r :=
    eq_iff_unit_eq (fun _ _ => Transfer.pop.inj) (fun _ _ => decode?_pop) popOk' hpop
  rw [hsave, hrestore, Frame.mem_withPush, Frame.mem_withPop, hf u push' pop' pushOk' popOk', Code.instr.injEq,
    Code.instr.injEq, hpushUnit, hpopUnit]

theorem Sound.stacked (hf : Sound locate rs f) (hr : r.Named)
    (pushOk : machine.push? r = .ok (some push)) (popOk : machine.pop? r = .ok (some pop)) :
    Sound locate rs { resources := f.resources ++ [Resource.register r.name]
                      save := f.withPush push, restore := f.withPop pop } := by
  have hoffered : addresses (f.resources ++ [Resource.register r.name]) = addresses f.resources := by
    simp [addresses, Resource.register, address?]
  refine ⟨hoffered ▸ hf.offered, ?_, hf.paired.stacked hr pushOk popOk rfl rfl⟩
  have hpush := push?_eq_ok hr pushOk
  have hpop := pop?_eq_ok hr popOk
  have hunit := mem_registers_ofRegister r (Register.mem_all.mpr hr)
  have hpaired := hf.paired _ push pop hpush hpop
  have hcells : cellsOf locate (f.resources ++ [Resource.register r.name]) =
      cellsOf locate f.resources := congrArg (List.map locate) hoffered
  rw [hcells]
  by_cases hmem : Code.instr push ∈ f.save.items
  · have hsave : f.withPush push = f.save := if_pos (List.contains_iff_mem.mpr hmem)
    have hrestore : f.withPop pop = f.restore :=
      if_pos (List.contains_iff_mem.mpr (hpaired.mp hmem))
    rw [hsave, hrestore]
    refine hf.brackets.mono fun q hq => ?_
    rcases hq with hq | hq
    · rcases (Frame.mem_ofResources_append hr).mp hq with hq | rfl
      · exact .inl hq
      · exact .inr ⟨_, push, hmem, decode?_push hpush, hunit⟩
    · exact .inr hq
  · have hsave : f.withPush push = f.save.append push :=
      if_neg fun h => hmem (List.contains_iff_mem.mp h)
    have hrestore : f.withPop pop = f.restore.prepend pop :=
      if_neg fun h => hmem (hpaired.mpr (List.contains_iff_mem.mp h))
    rw [hsave, hrestore]
    refine hf.brackets.nest (brackets_stacked (decode?_push hpush) (decode?_pop hpop)
      fun q hq => ?_) (hf.offered.map locate).subset
    rcases hq with hq | ⟨u, i, hi, hdecode, hq⟩
    · rcases (Frame.mem_ofResources_append hr).mp hq with hq | rfl
      · exact .inl (.inl hq)
      · exact .inr hunit
    · rcases List.mem_append.mp hi with hi | hi
      · exact .inl (.inr ⟨u, i, hi, hdecode, hq⟩)
      · cases List.mem_singleton.mp hi
        cases hdecode.symm.trans (decode?_push hpush)
        exact .inr hq

theorem Sound.step (hf : Sound locate rs f) {outcome : SpillOutcome}
    (h : Frame.Step machine f outcome g) (hr : outcome.freed? = some r)
    (hcells : (cellsOf locate rs).Nodup) : Sound locate rs g := by
  have hstep := h
  have hnodup : (cellsOf locate f.resources).Nodup := (hf.offered.map locate).nodup hcells
  obtain ⟨hnamed, -, hlower⟩ := Frame.lowestUngranted?_eq_some (h.lowest hr)
  cases h with
  | nothingToFree => cases hr
  | infeasible => cases hr
  | @primary _ address resources store load lowest exchanged isPrimary storeOk loadOk =>
    cases hr
    obtain rfl : r = Register.a := isPrimary
    have hstore := decode?_store storeOk
    have hload := decode?_load loadOk
    have hadds : Adds f { resources, save := f.save.append store, restore := f.restore.prepend load }
        [.instr store] [.instr load] :=
      { save_eq := rfl
        restore_eq := rfl
        no_push := by simp [hstore]
        no_pop := by simp [hload] }
    rw [cellsOf_exchange exchanged] at hnodup
    refine hf.extend hadds hstep.addresses_sublist ?_
    rw [cellsOf_exchange exchanged]
    exact brackets_primary hstore hload (List.nodup_cons.mp hnodup).1
      fun q hq => hadds.loose hstep rfl hq
  | @copied _ address resources out store back load lowest exchanged notPrimary outOk storeOk backOk
      loadOk =>
    cases hr
    have hout := decode?_move (by decide) hnamed outOk
    have hstore := decode?_store storeOk
    have hback := decode?_move hnamed (by decide) backOk
    have hload := decode?_load loadOk
    have hadds : Adds f { resources, save := (f.save.append out).append store
                          restore := (f.restore.prepend back).prepend load }
        [.instr out, .instr store] [.instr load, .instr back] :=
      { save_eq := by simp [Group.append]
        restore_eq := rfl
        no_push := by simp [hout, hstore]
        no_pop := by simp [hload, hback] }
    rw [cellsOf_exchange exchanged] at hnodup
    refine hf.extend hadds hstep.addresses_sublist ?_
    rw [cellsOf_exchange exchanged]
    -- The accumulator has the lowest number, so it is granted when another register is freed.
    have ha : Register.a ∈ ResourceSet.ofResources f.resources := by
      refine hlower _ (Nat.pos_of_ne_zero fun hzero => notPrimary ?_)
      exact Register.ext hzero
    exact brackets_copied hout hstore hback hload (List.nodup_cons.mp hnodup).1
      (fun q hq => hadds.loose hstep rfl hq) (.inl ha)
  | stacked _ _ _ pushOk popOk =>
    cases hr
    exact hf.stacked hnamed pushOk popOk

end Steps

/-! ## Any number of steps -/

theorem sound_of_spills {rs : List Resource} {freed : List Register} {f : Frame}
    (h : Frame.Spills machine { resources := rs } freed f) (hcells : (cellsOf locate rs).Nodup) :
    Sound locate rs f := by
  induction h with
  | refl => exact sound_start
  | tail before last success ih => exact ih.step (Frame.step_of_run last) success hcells

/-- The saving part runs from all contents and stores in cells of the caller alone. After it, let the
registers and cells that are then granted be changed in any way, and the flags too. Then the restoring
part runs, stores in no cell, and leaves the stack and every register that the caller did not grant as
they were before the saving part. -/
theorem saved_registers_restored (locate : String → κ) {rs : List Resource} {freed : List Register}
    {f : Frame} (hcells : ((addresses rs).map locate).Nodup)
    (h : Frame.Spills machine { resources := rs } freed f) (s : Contents κ) :
    ∃ t, s.run? locate f.save.items = some t ∧
      (∀ k, k ∉ (addresses rs).map locate → t.cells k = s.cells k) ∧
      ∀ t', t.Changed (· ∈ ResourceSet.ofResources f.resources)
        ((addresses f.resources).map locate) t' →
        ∃ u, t'.run? locate f.restore.items = some u ∧ u.cells = t'.cells ∧
          (∀ q, q ∉ ResourceSet.ofResources rs → u.regs q = s.regs q) ∧
          u.sp = s.sp ∧ u.stack = s.stack := by
  have hsound : Sound locate rs f := sound_of_spills h hcells
  obtain ⟨t, hsave, hstored, hrest⟩ := (hsound.brackets.mono fun q hq => .inl hq) s
  refine ⟨t, hsave, hstored, fun t' ht' => ?_⟩
  obtain ⟨u, hrestore, hchanged, hu⟩ := hrest t' ht'
  exact ⟨u, hrestore, hu, hchanged.regs, hchanged.sp, hchanged.stack⟩

theorem saved_registers_restored_mixed : ∃ f : Frame,
    Frame.Spills machine { resources := [.memory "0x2000", .stack] } [Register.a, Register.b] f ∧
    ∀ s : Contents String, ∃ t, s.run? id f.save.items = some t ∧
      ∀ t', t.Changed (· ∈ ResourceSet.ofResources f.resources) [] t' →
        ∃ u, t'.run? id f.restore.items = some u ∧ u.regs Register.a = s.regs Register.a ∧
          u.regs Register.c = s.regs Register.c ∧ u.sp = s.sp := by
  have first : (Frame.spill machine).run { resources := [.memory "0x2000", .stack] } =
      .ok (.memory Register.a)
        { resources := [.register "A", .stack]
          save := { items := [.instr ⟨"STA 16b", some .word, some (.address "0x2000"), 13⟩] }
          restore := { items := [.instr ⟨"LDA 16b", some .word, some (.address "0x2000"), 13⟩] } } :=
    rfl
  have second : (Frame.spill machine).run
      { resources := [.register "A", .stack]
        save := { items := [.instr ⟨"STA 16b", some .word, some (.address "0x2000"), 13⟩] }
        restore := { items := [.instr ⟨"LDA 16b", some .word, some (.address "0x2000"), 13⟩] } } =
      .ok (.stack Register.b)
        { resources := [.register "A", .stack, .register "B"]
          save := { items := [.instr ⟨"STA 16b", some .word, some (.address "0x2000"), 13⟩,
            .instr ⟨"PUSH B", none, none, 12⟩] }
          restore := { items := [.instr ⟨"POP B", none, none, 10⟩,
            .instr ⟨"LDA 16b", some .word, some (.address "0x2000"), 13⟩] } } :=
    rfl
  have hspills := Frame.Spills.tail (.tail .refl first rfl) second rfl
  refine ⟨_, hspills, fun s => ?_⟩
  obtain ⟨t, hsave, -, hrest⟩ := saved_registers_restored id (by decide) hspills s
  refine ⟨t, hsave, fun t' ht' => ?_⟩
  obtain ⟨u, hrestore, -, hregs, hsp, -⟩ := hrest t' ht'
  exact ⟨u, hrestore, hregs _ (by decide), hregs _ (by decide), hsp⟩

end DelaySynth.I8085
