import DelaySynth.Proofs.Grant

/-!
# Listings with roles

What an instruction means in a routine depends on what it is there for: the same text may spend cycles
or count a loop. A tagged listing is a listing whose instructions carry their roles.

* `Routine.line_tagged`: without the roles it is the listing.
* `At`: a part of a listing, by the number of its first line.
* `Code.path`: the lines that a run through a piece of code visits, each loop body as often as the loop
  says.
* `Admitted.labels_tagged`: the labels of admitted code, which belong to the nesting depths in order.
-/

namespace DelaySynth

/-- What an instruction of a routine is there for. -/
inductive Role where
  /-- Saves or restores a register, or returns. -/
  | around
  /-- Spends cycles. -/
  | filler
  /-- Loads a loop counter. -/
  | init
  /-- Counts a loop counter down. -/
  | decrement
  /-- Closes a loop. -/
  | branch
deriving DecidableEq

/-- A line of a listing, with the role of its instruction. -/
inductive Item where
  /-- A label. -/
  | label (name : String)
  /-- An instruction. -/
  | instr (role : Role) (i : Instruction)

namespace Item

/-- The line without the role. -/
def line : Item → Line
  | label name => .label name
  | instr _ i => .instr i

/-- The label that the line defines. -/
def label? : Item → Option String
  | label name => some name
  | instr _ _ => none

end Item

mutual

/-- The lines of a piece of code. Instructions outside the control of a loop have the role `role`. -/
def Code.tagged (role : Role) : Code → List Item
  | .instr i => [.instr role i]
  | .group g => g.tagged role
  | .loop l => l.tagged
  | .routine r => r.tagged

/-- The lines of a group. -/
def Group.tagged (role : Role) : Group Code → List Item
  | ⟨items, _⟩ => Code.allTagged role items

/-- The lines of a loop, whose body spends cycles. -/
def Loop.tagged : Loop Code → List Item
  | ⟨init, body, decrement, branch, label, _⟩ =>
    .instr .init init :: .label label ::
      (body.tagged .filler ++ [.instr .decrement decrement, .instr .branch branch])

/-- The lines of a routine. -/
def Routine.tagged : Routine Code → List Item
  | ⟨save, main, restore, ret?⟩ =>
    save.tagged .around ++ main.tagged .filler ++ restore.tagged .around ++
      ret?.toList.map (.instr .around)

/-- The lines of a list of pieces. -/
def Code.allTagged (role : Role) : List Code → List Item
  | [] => []
  | c :: cs => c.tagged role ++ Code.allTagged role cs

end

mutual

theorem Code.line_tagged (role : Role) : (c : Code) → (c.tagged role).map Item.line = c.lines
  | .instr i => by rw [Code.tagged, Code.lines]; rfl
  | .group g => by rw [Code.tagged, Code.lines, Group.line_tagged]
  | .loop l => by rw [Code.tagged, Code.lines, Loop.line_tagged]
  | .routine r => by rw [Code.tagged, Code.lines, Routine.line_tagged]

theorem Group.line_tagged (role : Role) : (g : Group Code) → (g.tagged role).map Item.line = g.lines
  | ⟨items, _⟩ => by rw [Group.tagged, Group.lines, Code.line_allTagged]

theorem Loop.line_tagged : (l : Loop Code) → l.tagged.map Item.line = l.lines
  | ⟨init, body, decrement, branch, label, n⟩ => by
    rw [Loop.tagged, Loop.lines, List.map_cons, List.map_cons, List.map_append, Code.line_tagged]
    rfl

theorem Routine.line_tagged : (r : Routine Code) → r.tagged.map Item.line = r.lines
  | ⟨save, main, restore, ret?⟩ => by
    rw [Routine.tagged, Routine.lines]
    simp only [List.map_append, Group.line_tagged, Code.line_tagged, List.map_map]
    rfl

theorem Code.line_allTagged (role : Role) :
    (cs : List Code) → (Code.allTagged role cs).map Item.line = Code.allLines cs
  | [] => by rw [Code.allTagged, Code.allLines]; rfl
  | c :: cs => by
    rw [Code.allTagged, Code.allLines, List.map_append, Code.line_tagged, Code.line_allTagged]

end

theorem Code.length_tagged (role : Role) (c : Code) : (c.tagged role).length = c.lines.length := by
  rw [← c.line_tagged role, List.length_map]

theorem Loop.tagged_eq (l : Loop Code) : l.tagged = .instr .init l.init :: .label l.label ::
    (l.body.tagged .filler ++ [.instr .decrement l.decrement, .instr .branch l.branch]) := by
  cases l
  rw [Loop.tagged]

theorem Loop.length_lines (l : Loop Code) : l.lines.length = l.body.lines.length + 4 := by
  cases l
  rw [Loop.lines]
  simp

theorem Routine.tagged_eq (r : Routine Code) : r.tagged = r.save.tagged .around ++
    r.main.tagged .filler ++ r.restore.tagged .around ++ r.ret?.toList.map (.instr .around) := by
  cases r
  rw [Routine.tagged]

theorem Group.length_tagged (role : Role) (g : Group Code) :
    (g.tagged role).length = g.lines.length := by
  rw [← g.line_tagged role, List.length_map]

/-! ## Parts of a listing -/

/-- The lines of a listing from number `start` on begin with `items`. -/
def At (listing : List Item) (start : Nat) (items : List Item) : Prop :=
  ∃ rest, listing.drop start = items ++ rest

namespace At

variable {listing items xs ys : List Item} {start : Nat} {item : Item}

theorem whole (listing : List Item) : At listing 0 listing :=
  ⟨[], (List.append_nil listing).symm⟩

theorem getElem?_eq (h : At listing start (item :: items)) : listing[start]? = some item := by
  obtain ⟨rest, h⟩ := h
  have hdrop : (listing.drop start)[0]? = listing[start + 0]? := List.getElem?_drop
  rw [h, Nat.add_zero] at hdrop
  exact hdrop.symm

theorem before (h : At listing start (xs ++ ys)) : At listing start xs := by
  obtain ⟨rest, h⟩ := h
  exact ⟨ys ++ rest, by rw [h, List.append_assoc]⟩

theorem after (h : At listing start (xs ++ ys)) : At listing (start + xs.length) ys := by
  obtain ⟨rest, h⟩ := h
  refine ⟨rest, ?_⟩
  have hdrop : listing.drop (start + xs.length) = (xs ++ (ys ++ rest)).drop xs.length := by
    rw [← List.append_assoc, ← h, List.drop_drop]
  rw [hdrop, List.drop_left]

theorem next (h : At listing start (item :: items)) : At listing (start + 1) items := by
  have hcons : At listing start ([item] ++ items) := h
  exact hcons.after

end At

/-! ## Runs through a listing -/

mutual

/-- The lines that a run through a piece of code visits if its first line has the number `start`. -/
def Code.path (start : Nat) : Code → List Nat
  | .instr _ => [start]
  | .group g => g.path start
  | .loop l => l.path start
  | .routine r => r.path start

/-- The lines of a run through a group. -/
def Group.path (start : Nat) : Group Code → List Nat
  | ⟨items, _⟩ => Code.allPaths start items

/-- The line that loads the counter, and as often as the loop says the label, a run through the body
and the two lines that close the loop. -/
def Loop.path (start : Nat) : Loop Code → List Nat
  | ⟨_, body, _, _, _, iterations⟩ =>
    start :: (List.replicate iterations ((start + 1) :: (body.path (start + 2) ++
      [start + 2 + body.lines.length, start + 3 + body.lines.length]))).flatten

/-- The lines of a run through all parts. -/
def Routine.path (start : Nat) : Routine Code → List Nat
  | ⟨save, main, restore, ret?⟩ =>
    let mainStart := start + save.lines.length
    let restoreStart := mainStart + main.lines.length
    let retStart := restoreStart + restore.lines.length
    save.path start ++ main.path mainStart ++ restore.path restoreStart ++
      List.range' retStart ret?.toList.length

/-- The lines of a run through a list of pieces. -/
def Code.allPaths (start : Nat) : List Code → List Nat
  | [] => []
  | c :: cs => c.path start ++ Code.allPaths (start + c.lines.length) cs

end

/-- The lines of one iteration of a loop. -/
def Loop.round (start : Nat) (l : Loop Code) : List Nat :=
  (start + 1) :: (l.body.path (start + 2) ++
    [start + 2 + l.body.lines.length, start + 3 + l.body.lines.length])

theorem Loop.path_eq (start : Nat) (l : Loop Code) :
    l.path start = start :: (List.replicate l.iterations (l.round start)).flatten := by
  cases l
  rw [Loop.path, Loop.round]

/-! ## Labels -/

/-- The labels that some lines define. -/
def Item.labels (items : List Item) : List String :=
  items.filterMap Item.label?

@[simp] theorem Item.labels_instr (role : Role) (i : Instruction) (items : List Item) :
    Item.labels (.instr role i :: items) = Item.labels items := rfl

@[simp] theorem Item.labels_label (name : String) (items : List Item) :
    Item.labels (.label name :: items) = name :: Item.labels items := rfl

@[simp] theorem Item.labels_nil : Item.labels [] = [] := rfl

@[simp] theorem Item.labels_append (xs ys : List Item) :
    Item.labels (xs ++ ys) = Item.labels xs ++ Item.labels ys :=
  List.filterMap_append

theorem Code.labels_allTagged {role : Role} {cs : List Code}
    (h : ∀ code ∈ cs, ∃ i, code = .instr i) : Item.labels (Code.allTagged role cs) = [] := by
  induction cs with
  | nil => rw [Code.allTagged]; rfl
  | cons c cs ih =>
    obtain ⟨i, rfl⟩ := h c List.mem_cons_self
    rw [Code.allTagged, Item.labels_append, ih fun code hcode => h code (List.mem_cons_of_mem _ hcode),
      Code.tagged]
    rfl

/-- The labels of admitted code are those of the nesting depths from its own on. -/
theorem Admitted.labels_tagged {m : Machine} {memory : List String} {granted : ResourceSet}
    {enclosing : List Counter} {code : Code} (h : Admitted m memory granted enclosing code) :
    ∃ n, Item.labels (code.tagged .filler) =
      (List.range' enclosing.length n).map m.target.loopLabel := by
  induction h with
  | @group _ g fillers =>
    refine ⟨0, ?_⟩
    obtain ⟨items, ordered⟩ := g
    rw [Code.tagged, Group.tagged]
    refine Code.labels_allTagged fun code hcode => ?_
    obtain ⟨i, hi, -⟩ := fillers code hcode
    exact ⟨i, hi⟩
  | @loop enclosing l c counted _ _ _ ih =>
    obtain ⟨n, hn⟩ := ih
    refine ⟨n + 1, ?_⟩
    obtain ⟨init, body, decrement, branch, label, iterations⟩ := l
    have hlabel : label = m.target.loopLabel enclosing.length := counted.label
    rw [List.length_append, List.length_singleton] at hn
    rw [Code.tagged, Loop.tagged, List.range'_succ, List.map_cons, ← hn, ← hlabel]
    simp

end DelaySynth
