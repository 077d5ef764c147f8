import Mathlib.Data.List.Forall2
import DelaySynth.Proofs.Catalog.Row

/-!
# Texts of catalogs

What a written catalog is, and what is wrong with a text that is none: no line opens the table, or there
is a line that stands for no row, or there are no rows. The first line that stands for no row is blamed,
by its number in the whole text.

* `Catalog.Layout`: a text with a table, cut into what is before the table, the table and the rest.
* `Catalog.Written`: what a text stands for.
* `Row.Written.wellFormed`: what holds of every row that is written.
* `Catalog.read_as_written`: a text is read as it is written, and the table alone decides.
-/

namespace DelaySynth

/-! ## Reading one after the other -/

section

variable {ε α β : Type} {f : α → Except ε β}

theorem mapM_cons_of_ok {a : α} {b : β} (h : f a = .ok b) (as : List α) :
    (a :: as).mapM f = (as.mapM f).map (b :: ·) := by
  rw [List.mapM_cons, h]
  cases as.mapM f <;> rfl

theorem mapM_cons_of_error {a : α} {e : ε} (h : f a = .error e) (as : List α) :
    (a :: as).mapM f = .error e := by
  rw [List.mapM_cons, h]
  rfl

theorem map_cons_eq_ok_iff {b : β} {bs : List β} {result : Except ε (List β)} :
    result.map (b :: ·) = .ok bs ↔ ∃ cs, result = .ok cs ∧ bs = b :: cs := by
  cases result with
  | ok cs => simp [Except.map, eq_comm]
  | error e => simp [Except.map]

theorem mapM_eq_ok_iff {as : List α} {bs : List β} :
    as.mapM f = .ok bs ↔ List.Forall₂ (fun a b => f a = .ok b) as bs := by
  induction as generalizing bs with
  | nil =>
    rw [List.mapM_nil, List.forall₂_nil_left_iff]
    exact ⟨fun h => (Except.ok.inj h).symm, fun h => h ▸ rfl⟩
  | cons a as ih =>
    rw [List.forall₂_cons_left_iff]
    cases ha : f a with
    | error e => simp [mapM_cons_of_error ha]
    | ok b =>
      rw [mapM_cons_of_ok ha, map_cons_eq_ok_iff]
      simp [ih]

/-- Reading one after the other fails where the first failure is. -/
theorem mapM_eq_error_iff {as : List α} {e : ε} : as.mapM f = .error e ↔
    ∃ before a after, as = before ++ a :: after ∧ (∀ x ∈ before, ∃ b, f x = .ok b) ∧
      f a = .error e := by
  constructor
  · intro h
    induction as with
    | nil => cases h
    | cons a as ih =>
      cases ha : f a with
      | error e' =>
        rw [mapM_cons_of_error ha] at h
        cases h
        exact ⟨[], a, as, rfl, nofun, ha⟩
      | ok b =>
        rw [mapM_cons_of_ok ha] at h
        have hrest : as.mapM f = .error e := by
          cases hrest : as.mapM f with
          | ok cs =>
            rw [hrest] at h
            cases h
          | error e' =>
            rw [hrest] at h
            cases h
            rfl
        obtain ⟨before, a', after, rfl, hbefore, hfails⟩ := ih hrest
        exact ⟨a :: before, a', after, rfl, List.forall_mem_cons.mpr ⟨⟨b, ha⟩, hbefore⟩, hfails⟩
  · rintro ⟨before, a, after, rfl, hbefore, hfails⟩
    induction before with
    | nil => exact mapM_cons_of_error hfails after
    | cons x before ih =>
      obtain ⟨⟨b, hx⟩, hbefore⟩ := List.forall_mem_cons.mp hbefore
      rw [List.cons_append, mapM_cons_of_ok hx, ih hbefore]
      rfl

end

/-! ## Lines of the table -/

namespace Catalog

/-- A line is meant as a row if at least four bytes are left without the blanks at its end, and what is
left does not begin with `#`, blanks aside. -/
def MeantAsRow (line : List Char) : Prop :=
  4 ≤ (String.ofList (Text.trimEnd line)).utf8ByteSize ∧
    (Text.trimStart (Text.trimEnd line)).head? ≠ some '#'

instance (line : List Char) : Decidable (MeantAsRow line) :=
  inferInstanceAs (Decidable (_ ∧ _))

/-- The lines of a text before the table, the one that opens it, those of the table and the rest. -/
structure Layout (text : List Char) where
  /-- The lines before the table. -/
  header : List (List Char)
  /-- The line that opens the table. -/
  opening : List Char
  /-- The lines of the table. -/
  table : List (List Char)
  /-- The lines from the one that closes the table on, which may be missing. -/
  rest : List (List Char)
  lines_eq : Text.lines text = header ++ opening :: (table ++ rest)
  header_free : ∀ l ∈ header, Text.trim l ≠ ['B', 'E', 'G', 'I', 'N']
  opens : Text.trim opening = ['B', 'E', 'G', 'I', 'N']
  table_free : ∀ l ∈ table, Text.trim l ≠ ['E', 'N', 'D']
  closes : ∀ l ∈ rest.head?, Text.trim l = ['E', 'N', 'D']

variable {text : List Char}

/-- The lines that are meant as rows, with their numbers in the whole text, counted from one. -/
def Layout.rows (p : Layout text) : List (List Char × Nat) :=
  (p.table.zipIdx (p.header.length + 2)).filter fun l => MeantAsRow l.1

/-- What a text stands for: a catalog, or the reason why it is none. -/
inductive Written (text : List Char) : Except CatalogError Catalog → Prop
  | missingBegin (missing : ∀ l ∈ Text.lines text, Text.trim l ≠ ['B', 'E', 'G', 'I', 'N']) :
      Written text (.error .missingBegin)
  | malformedRow (p : Layout text) {before after : List (List Char × Nat)} {line : List Char}
      {number : Nat} {fault : RowFault} (rows_eq : p.rows = before ++ (line, number) :: after)
      (written : ∀ l ∈ before, ∃ row, Row.Written (Text.trimEnd l.1) row)
      (malformed : fault.Blames (Text.trimEnd line)) :
      Written text (.error (.malformedRow number fault.message))
  | noInstructions (p : Layout text) (rows_eq : p.rows = []) :
      Written text (.error .noInstructions)
  | rows (p : Layout text) {rows : List Row}
      (written : List.Forall₂ (fun l row => Row.Written (Text.trimEnd l.1) row) p.rows rows)
      (nonempty : rows ≠ []) : Written text (.ok ⟨rows⟩)

theorem tableLines?_of_missing
    (h : ∀ l ∈ Text.lines text, Text.trim l ≠ ['B', 'E', 'G', 'I', 'N']) :
    tableLines? text = none := by
  have hnone : ((Text.lines text).zipIdx 1).dropWhile
      (fun l => Text.trim l.1 != ['B', 'E', 'G', 'I', 'N']) = [] :=
    List.dropWhile_eq_nil_iff.mpr fun l hl => bne_iff_ne.mpr (h l.1 (List.fst_mem_of_mem_zipIdx hl))
  simp only [tableLines?, hnone]

theorem isRow_trimEnd (line : List Char) :
    isRow (Text.trimEnd line) = decide (MeantAsRow line) := by
  rw [Bool.eq_iff_iff, decide_eq_true_iff, isRow, MeantAsRow, Bool.and_eq_true, bne_iff_ne,
    decide_eq_true_iff]

theorem tableLines?_of_layout (p : Layout text) :
    tableLines? text = some (p.rows.map fun l => (Text.trimEnd l.1, l.2)) := by
  have hheader : ∀ l ∈ p.header.zipIdx 1,
      (Text.trim l.1 != ['B', 'E', 'G', 'I', 'N']) = true := fun l hl =>
    bne_iff_ne.mpr (p.header_free l.1 (List.fst_mem_of_mem_zipIdx hl))
  have htable : ∀ n, ∀ l ∈ p.table.zipIdx n, (Text.trim l.1 != ['E', 'N', 'D']) = true :=
    fun n l hl => bne_iff_ne.mpr (p.table_free l.1 (List.fst_mem_of_mem_zipIdx hl))
  have hrest : ∀ n, (p.rest.zipIdx n).takeWhile (fun l => Text.trim l.1 != ['E', 'N', 'D']) = [] := by
    intro n
    cases hr : p.rest with
    | nil => rfl
    | cons l rest =>
      have hend := p.closes l (by rw [hr]; rfl)
      rw [List.zipIdx_cons, List.takeWhile_cons_of_neg (by simp [hend])]
  have hdrop : ((Text.lines text).zipIdx 1).dropWhile
      (fun l => Text.trim l.1 != ['B', 'E', 'G', 'I', 'N']) =
      (p.opening, 1 + p.header.length) :: (p.table ++ p.rest).zipIdx (1 + p.header.length + 1) := by
    rw [p.lines_eq, List.zipIdx_append, List.dropWhile_append_of_pos hheader, List.zipIdx_cons,
      List.dropWhile_cons_of_neg (by simp [p.opens])]
  have hstart : 1 + p.header.length + 1 = p.header.length + 2 := by omega
  simp only [tableLines?, hdrop]
  rw [List.zipIdx_append, List.takeWhile_append_of_pos (htable _), hrest, List.append_nil,
    List.filter_map, hstart]
  simp only [Function.comp_def, isRow_trimEnd]
  rfl

/-- A list is cut at the first element with `p`. -/
theorem exists_cut {α : Type} {p : α → Prop} [DecidablePred p] {xs : List α}
    (h : ∃ x ∈ xs, p x) : ∃ before x after, xs = before ++ x :: after ∧ p x ∧ ∀ y ∈ before, ¬p y := by
  obtain ⟨x, hx, hp⟩ := h
  have hfound : (xs.find? fun x => decide (p x)).isSome := by
    rw [List.find?_isSome]
    exact ⟨x, hx, decide_eq_true hp⟩
  obtain ⟨y, hy⟩ := Option.isSome_iff_exists.mp hfound
  obtain ⟨hpy, before, after, rfl, hbefore⟩ := List.find?_eq_some_iff_append.mp hy
  exact ⟨before, y, after, rfl, of_decide_eq_true hpy, fun z hz => by simpa using hbefore z hz⟩

theorem exists_layout (h : ∃ l ∈ Text.lines text, Text.trim l = ['B', 'E', 'G', 'I', 'N']) :
    Nonempty (Layout text) := by
  obtain ⟨header, opening, body, hlines, hopens, hheader⟩ := exists_cut h
  by_cases hend : ∃ l ∈ body, Text.trim l = ['E', 'N', 'D']
  · obtain ⟨table, closing, rest, rfl, hcloses, htable⟩ := exists_cut hend
    refine ⟨header, opening, table, closing :: rest, hlines, hheader, hopens, htable, ?_⟩
    rintro _ ⟨⟩
    exact hcloses
  · refine ⟨header, opening, body, [], ?_, hheader, hopens, fun l hl hl' => hend ⟨l, hl, hl'⟩, nofun⟩
    rw [List.append_nil, hlines]

/-! ## Reading -/

theorem rowOfLine_eq_ok_iff {l : List Char × Nat} {row : Row} :
    rowOfLine l = .ok row ↔ Row.Written l.1 row := by
  rw [← Row.ofLine_eq_ok_iff, rowOfLine]
  cases Row.ofLine l.1 <;> simp

theorem rowOfLine_eq_error_iff {l : List Char × Nat} {e : CatalogError} : rowOfLine l = .error e ↔
    ∃ fault, RowFault.Blames l.1 fault ∧ e = .malformedRow l.2 fault.message := by
  simp only [← Row.ofLine_eq_error_iff, rowOfLine]
  cases Row.ofLine l.1 <;> simp [eq_comm]

/-- How a text with a table is read: its lines one after the other, if there are any. -/
theorem rowsOfText_of_layout (p : Layout text) : rowsOfText text =
    match p.rows.mapM fun l => rowOfLine (Text.trimEnd l.1, l.2) with
    | .error e => .error e
    | .ok rows => if rows.isEmpty then .error .noInstructions else .ok rows := by
  unfold rowsOfText
  rw [tableLines?_of_layout p]
  simp only [List.mapM_map, Function.comp_def]
  cases p.rows.mapM fun l => rowOfLine (Text.trimEnd l.1, l.2) with
  | error e => rfl
  | ok rows =>
    cases rows <;> rfl

theorem rowsOfText_of_missing
    (h : ∀ l ∈ Text.lines text, Text.trim l ≠ ['B', 'E', 'G', 'I', 'N']) :
    rowsOfText text = .error .missingBegin := by
  unfold rowsOfText
  rw [tableLines?_of_missing h]
  rfl

/-- A text is read as it is written. -/
theorem map_rowsOfText_eq_iff {result : Except CatalogError Catalog} :
    (rowsOfText text).map Catalog.mk = result ↔ Written text result := by
  constructor
  · rintro rfl
    by_cases hmissing : ∀ l ∈ Text.lines text, Text.trim l ≠ ['B', 'E', 'G', 'I', 'N']
    · rw [rowsOfText_of_missing hmissing]
      exact .missingBegin hmissing
    have hopens : ∃ l ∈ Text.lines text, Text.trim l = ['B', 'E', 'G', 'I', 'N'] := by
      simpa using hmissing
    obtain ⟨p⟩ := exists_layout hopens
    rw [rowsOfText_of_layout p]
    cases hread : p.rows.mapM fun l => rowOfLine (Text.trimEnd l.1, l.2) with
    | error e =>
      obtain ⟨before, ⟨line, number⟩, after, hrows, hbefore, hfails⟩ := mapM_eq_error_iff.mp hread
      obtain ⟨fault, hblames, rfl⟩ := rowOfLine_eq_error_iff.mp hfails
      exact .malformedRow p hrows
        (fun l hl => (hbefore l hl).imp fun _ h => rowOfLine_eq_ok_iff.mp h) hblames
    | ok rows =>
      have hwritten : List.Forall₂ (fun l row => Row.Written (Text.trimEnd l.1) row) p.rows rows :=
        (mapM_eq_ok_iff.mp hread).imp fun _ _ h => rowOfLine_eq_ok_iff.mp h
      cases rows with
      | nil => exact .noInstructions p (List.forall₂_nil_right_iff.mp hwritten)
      | cons row rows => exact .rows p hwritten (List.cons_ne_nil row rows)
  · intro h
    cases h with
    | missingBegin missing =>
      rw [rowsOfText_of_missing missing]
      rfl
    | @malformedRow p before after line number fault rows_eq written malformed =>
      have hread : (p.rows.mapM fun l => rowOfLine (Text.trimEnd l.1, l.2)) =
          .error (.malformedRow number fault.message) :=
        mapM_eq_error_iff.mpr ⟨before, (line, number), after, rows_eq,
          fun l hl => (written l hl).imp fun _ h => rowOfLine_eq_ok_iff.mpr h,
          rowOfLine_eq_error_iff.mpr ⟨fault, malformed, rfl⟩⟩
      rw [rowsOfText_of_layout p, hread]
      rfl
    | noInstructions p rows_eq =>
      rw [rowsOfText_of_layout p, rows_eq]
      rfl
    | @rows p rows written nonempty =>
      have hread : (p.rows.mapM fun l => rowOfLine (Text.trimEnd l.1, l.2)) = .ok rows :=
        mapM_eq_ok_iff.mpr (written.imp fun _ _ h => rowOfLine_eq_ok_iff.mpr h)
      rw [rowsOfText_of_layout p, hread]
      simp [nonempty, Except.map]

/-! ## Rows that are read -/

end Catalog

/-- What holds of every row that is written: it has a template of one column, takes time, and needs
nothing that a set of resources has no bit for, nor a second memory cell without a first. -/
structure Row.WellFormed (row : Row) : Prop where
  template_ne : row.template ≠ ""
  template_free : ';' ∉ row.template.toList
  duration_pos : 1 ≤ row.duration
  above : ∀ i, ResourceSet.stackBit < i → row.needs.bits.getLsbD i = false
  pair : row.needs.bits.getLsbD ResourceSet.pairBit = true →
    row.needs.bits.getLsbD ResourceSet.memoryBit = true

theorem Row.Written.wellFormed {line : List Char} {row : Row} (h : Row.Written line row) :
    row.WellFormed := by
  obtain ⟨cols, hfields, hrow⟩ := h
  obtain ⟨cells, -, hneeds⟩ := hrow.needs
  refine ⟨?_, ?_, hrow.duration_pos, hneeds.above, fun hpair => ?_⟩
  · rw [hrow.template]
    exact fun hempty => hrow.template_ne (String.ofList_eq_empty_iff.mp hempty)
  · rw [hrow.template, String.toList_ofList]
    exact hfields.notMem (by simp [Columns.toList])
  · have htwo := hneeds.pair_iff.mp hpair
    exact hneeds.memory_iff.mpr (by omega)

namespace Catalog

theorem wellFormed_of_written {text : List Char} {c : Catalog} (h : Written text (.ok c)) :
    c.rows ≠ [] ∧ ∀ row ∈ c.rows, row.WellFormed := by
  cases h with
  | rows p written nonempty =>
    refine ⟨nonempty, fun row hrow => ?_⟩
    obtain ⟨i, hi, rfl⟩ := List.getElem_of_mem hrow
    have hi' : i < p.rows.length := written.length_eq ▸ hi
    exact (written.get hi' hi).wellFormed

/-- Texts with the same table are read alike if as many lines are before it, whatever else they hold. -/
theorem rowsOfText_congr {text text' : List Char} (p : Layout text) (p' : Layout text')
    (hheader : p.header.length = p'.header.length) (htable : p.table = p'.table) :
    rowsOfText text = rowsOfText text' := by
  have hrows : p.rows = p'.rows := by rw [Layout.rows, Layout.rows, hheader, htable]
  rw [rowsOfText_of_layout p, rowsOfText_of_layout p', hrows]

/-- A text is read as it is written (`Written`), and the rows of a catalog are well-formed. What is
before the table and what is after it makes no difference, except for the number of lines before it. -/
theorem read_as_written :
    (∀ text result, ofText text = result ↔ Written text.toList result) ∧
    (∀ text c, ofText text = .ok c → c.rows ≠ [] ∧ ∀ row ∈ c.rows, row.WellFormed) ∧
    ∀ (text text' : String) (p : Layout text.toList) (p' : Layout text'.toList),
      p.header.length = p'.header.length → p.table = p'.table → ofText text = ofText text' := by
  refine ⟨fun text result => map_rowsOfText_eq_iff, fun text c h => ?_,
    fun text text' p p' hheader htable => ?_⟩
  · exact wellFormed_of_written (map_rowsOfText_eq_iff.mp h)
  · exact congrArg (Except.map Catalog.mk) (rowsOfText_congr p p' hheader htable)

/-- A text that goes on after its table. -/
def textWithRest : String :=
  "8085\nBEGIN\nNOP;4;1;-;0;0;+\nRET;10;1;-;0;1;-\nEND\nHLT;5;1;-;0;0;-"

/-- A text that ends with the same table. -/
def textWithoutRest : String :=
  "BEGIN here\n\tBEGIN\r\nNOP;4;1;-;0;0;+\nRET;10;1;-;0;1;-"

theorem read_as_written_twice :
    ∃ (p : Layout textWithRest.toList) (p' : Layout textWithoutRest.toList),
      p.header.length = p'.header.length ∧ p.table = p'.table ∧ ∃ c,
        ofText textWithRest = .ok c ∧ ofText textWithoutRest = .ok c ∧
        Written textWithRest.toList (.ok c) ∧ ∀ row ∈ c.rows, row.WellFormed := by
  let table := ["NOP;4;1;-;0;0;+".toList, "RET;10;1;-;0;1;-".toList]
  let p : Layout textWithRest.toList := {
    header := ["8085".toList], opening := "BEGIN".toList, table
    rest := ["END".toList, "HLT;5;1;-;0;0;-".toList]
    lines_eq := by decide +kernel, header_free := by decide +kernel, opens := by decide +kernel
    table_free := by decide +kernel, closes := by decide +kernel }
  let p' : Layout textWithoutRest.toList := {
    header := ["BEGIN here".toList], opening := "\tBEGIN".toList, table, rest := []
    lines_eq := by decide +kernel, header_free := by decide +kernel, opens := by decide +kernel
    table_free := by decide +kernel, closes := nofun }
  have hread : ofText textWithRest =
      .ok ⟨[⟨"NOP", 4, 1, ∅, true⟩, ⟨"RET", 10, 1, ResourceSet.addStack ∅, false⟩]⟩ := by
    decide +kernel
  obtain ⟨hwritten, hwellFormed, hsame⟩ := read_as_written
  have hread' := (hsame _ _ p p' rfl rfl).symm.trans hread
  exact ⟨p, p', rfl, rfl, _, hread, hread', (hwritten _ _).mp hread, (hwellFormed _ _ hread).2⟩

example : ofText "a\nBEGIN\nNOP;4;1;-;0;0;+\n#\nINR A;four;1;A;0;0;+\nEND\n" =
    .error (.malformedRow 5 "invalid duration 'four'") := by
  decide +kernel

end Catalog

end DelaySynth
