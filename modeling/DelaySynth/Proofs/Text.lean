import Mathlib.Data.List.DropRight
import Mathlib.Data.List.TakeWhile
import Mathlib.Data.Nat.Digits.Defs
import Mathlib.Tactic.IntervalCases
import DelaySynth.Text.Blank
import DelaySynth.Text.Lines
import DelaySynth.Text.Numeral

/-!
# Lines, blanks, fields and numerals

What reading a text makes of it, said by how the text is written.

* `lines_append_newline`: the line up to the first line feed, and the rest.
* `getLast?_trimEnd`: a text ends in its last character that is not blank, blanks at the end aside.
* `Fields`, `fields_iff`: a line that is written as fields with a separator in between.
* `Numeral`, `natural?_eq_some_iff`: a decimal numeral and its value.
-/

namespace DelaySynth.Text

/-! ## Lines -/

/-- What is left of a line that ends in a line feed: one carriage return right before it belongs to the
ending. -/
def withoutReturn (cs : List Char) : List Char :=
  if cs.getLast? = some '\r' then cs.dropLast else cs

theorem withoutReturn_cons_cons (c d : Char) (cs : List Char) :
    withoutReturn (c :: d :: cs) = c :: withoutReturn (d :: cs) := by
  simp only [withoutReturn, List.getLast?_cons_cons, List.dropLast_cons_cons]
  split <;> rfl

theorem withoutReturn_cons_ne_nil {c : Char} (hc : c ≠ '\r') (cs : List Char) :
    withoutReturn (c :: cs) ≠ [] := by
  cases cs with
  | nil => simp [withoutReturn, hc]
  | cons d cs =>
    rw [withoutReturn_cons_cons]
    exact List.cons_ne_nil _ _

/-- A character that begins no line ending belongs to the line that follows it. -/
theorem lines_cons {c : Char} {cs l : List Char} {ls : List (List Char)} (hc : c ≠ '\n')
    (hreturn : c = '\r' → cs.head? ≠ some '\n') (h : lines cs = l :: ls) :
    lines (c :: cs) = (c :: l) :: ls := by
  rw [lines]
  · rw [h]
  · exact hc
  · rintro ds rfl rfl
    exact hreturn rfl rfl

theorem lines_append_newline {cs : List Char} (h : '\n' ∉ cs) (rest : List Char) :
    lines (cs ++ '\n' :: rest) = withoutReturn cs :: lines rest := by
  induction cs with
  | nil => rfl
  | cons c cs ih =>
    obtain ⟨hc, hcs⟩ := List.ne_and_not_mem_of_not_mem_cons h
    cases cs with
    | nil =>
      by_cases hreturn : c = '\r'
      · subst hreturn
        rfl
      · have hkept : withoutReturn [c] = [c] := by simp [withoutReturn, hreturn]
        rw [hkept]
        exact lines_cons hc.symm (fun h => absurd h hreturn) (ih hcs)
    | cons d cs =>
      rw [withoutReturn_cons_cons]
      refine lines_cons hc.symm (fun _ hd => hcs ?_) (ih hcs)
      rw [← Option.some_inj.mp hd]
      exact List.mem_cons_self

/-! ## Blanks -/

theorem getLast?_trimEnd (cs : List Char) :
    (trimEnd cs).getLast? = cs.reverse.find? fun c => !isBlank c := by
  rw [trimEnd, List.getLast?_reverse, trimStart, List.find?_not_eq_head?_dropWhile]

/-- The ending of a line is blank. -/
theorem getLast?_trimEnd_withoutReturn (cs : List Char) :
    (trimEnd (withoutReturn cs)).getLast? = (trimEnd cs).getLast? := by
  unfold withoutReturn
  split
  · rename_i hreturn
    obtain ⟨ds, rfl⟩ := List.getLast?_eq_some_iff.mp hreturn
    have hblank : isBlank '\r' = true := by decide
    rw [List.dropLast_concat, getLast?_trimEnd, getLast?_trimEnd, List.reverse_concat,
      List.find?_cons_of_neg (by simp [hblank])]
  · rfl

/-- A blank in front does not become the end of a text. -/
theorem getLast?_trimEnd_cons {c : Char} (hc : isBlank c = true) (cs : List Char) :
    (trimEnd (c :: cs)).getLast? = (trimEnd cs).getLast? := by
  rw [getLast?_trimEnd, getLast?_trimEnd, List.reverse_cons, List.find?_append]
  simp [hc]

/-- Trimming again changes nothing. -/
theorem trim_trim (cs : List Char) : trim (trim cs) = trim cs := by
  have hend (ds : List Char) : trimEnd ds = ds.rdropWhile isBlank := rfl
  have hstart : trimStart (trim cs) = trim cs := by
    refine List.dropWhile_eq_self_iff.mpr fun hpos => ?_
    -- The first character of what is left was there before the end was trimmed.
    have hfront : trim cs <+: trimStart cs := List.rdropWhile_prefix _ _
    rw [hfront.getElem hpos]
    exact List.dropWhile_get_zero_not _ _ _
  rw [trim, hstart]
  show trimEnd (trimEnd (trimStart cs)) = trimEnd (trimStart cs)
  rw [hend, hend, List.rdropWhile_idempotent]

theorem mem_of_mem_trim {c : Char} {cs : List Char} (h : c ∈ trim cs) : c ∈ cs :=
  (List.dropWhile_sublist _).subset ((List.rdropWhile_prefix _ _).subset h)

/-! ## Fields -/

/-- The line is written as some parts with `sep` in between, and the fields are these parts without the
blanks around them. -/
def Fields (sep : Char) (line : List Char) (fields : List (List Char)) : Prop :=
  ∃ parts, parts ≠ [] ∧ (∀ part ∈ parts, sep ∉ part) ∧ [sep].intercalate parts = line ∧
    parts.map trim = fields

theorem notMem_of_mem_splitOn {sep : Char} {cs part : List Char} (h : part ∈ cs.splitOn sep) :
    sep ∉ part := by
  induction cs generalizing part with
  | nil =>
    rw [List.splitOn_nil, List.mem_singleton] at h
    simp [h]
  | cons c cs ih =>
    rw [List.splitOn_cons_eq_if_modifyHead] at h
    obtain ⟨first, rest, hsplit⟩ := List.exists_cons_of_ne_nil (List.splitOn_ne_nil sep cs)
    split at h
    · rcases List.mem_cons.mp h with rfl | h
      · exact List.not_mem_nil
      · exact ih h
    · rename_i hc
      rw [hsplit, List.modifyHead_cons] at h
      rcases List.mem_cons.mp h with rfl | h
      · have hfirst : sep ∉ first := ih (hsplit ▸ List.mem_cons_self)
        rw [List.mem_cons, not_or]
        exact ⟨fun heq => hc (beq_iff_eq.mpr heq.symm), hfirst⟩
      · exact ih (hsplit ▸ List.mem_cons_of_mem _ h)

theorem fields_iff {sep : Char} {line : List Char} {fields : List (List Char)} :
    Fields sep line fields ↔ (line.splitOn sep).map trim = fields := by
  constructor
  · rintro ⟨parts, hne, hparts, rfl, rfl⟩
    rw [List.splitOn_intercalate sep hparts hne]
  · rintro rfl
    exact ⟨line.splitOn sep, List.splitOn_ne_nil _ _, fun _ => notMem_of_mem_splitOn,
      List.intercalate_splitOn sep, rfl⟩

/-- No field is written with the separator. -/
theorem Fields.notMem {sep : Char} {line field : List Char} {fields : List (List Char)}
    (h : Fields sep line fields) (hfield : field ∈ fields) : sep ∉ field := by
  obtain ⟨parts, -, hparts, -, rfl⟩ := h
  obtain ⟨part, hpart, rfl⟩ := List.mem_map.mp hfield
  exact fun hmem => hparts part hpart (mem_of_mem_trim hmem)

theorem Fields.trim_eq {sep : Char} {line field : List Char} {fields : List (List Char)}
    (h : Fields sep line fields) (hfield : field ∈ fields) : trim field = field := by
  obtain ⟨parts, -, -, -, rfl⟩ := h
  obtain ⟨part, -, rfl⟩ := List.mem_map.mp hfield
  exact trim_trim part

/-! ## Numerals -/

/-- The number is written in decimal digits, possibly behind a plus sign. Zeros in front are allowed. -/
def Numeral (cs : List Char) (n : Nat) : Prop :=
  ∃ ds : List Nat, ds ≠ [] ∧ (∀ d ∈ ds, d < 10) ∧ Nat.ofDigits 10 ds.reverse = n ∧
    (cs = ds.map Nat.digitChar ∨ cs = '+' :: ds.map Nat.digitChar)

theorem digit?_eq_some_iff {c : Char} {d : Nat} :
    digit? 10 c = some d ↔ d < 10 ∧ c = d.digitChar := by
  constructor
  · intro h
    obtain ⟨hvalue, hlt⟩ := Option.filter_eq_some_iff.mp h
    have hd : d < 10 := of_decide_eq_true hlt
    refine ⟨hd, Char.toNat_inj.mp ?_⟩
    rw [Nat.toNat_digitChar_of_lt_ten hd]
    -- A letter stands for ten at least.
    split at hvalue
    · rename_i hdigit
      have hzero : 48 ≤ c.toNat := hdigit.1
      have hsome : c.toNat - 48 = d := Option.some_inj.mp hvalue
      omega
    · split at hvalue
      · have hsome : _ + 10 = d := Option.some_inj.mp hvalue
        omega
      · split at hvalue
        · have hsome : _ + 10 = d := Option.some_inj.mp hvalue
          omega
        · cases hvalue
  · rintro ⟨hd, rfl⟩
    interval_cases d <;> rfl

/-- Digits that follow a number `n` are read behind it. -/
theorem foldlM_digit?_eq_some_iff {n m : Nat} {cs : List Char} :
    cs.foldlM (fun n c => (digit? 10 c).map (10 * n + ·)) n = some m ↔
      ∃ ds : List Nat, (∀ d ∈ ds, d < 10) ∧ cs = ds.map Nat.digitChar ∧
        ds.foldl (fun n d => d + 10 * n) n = m := by
  induction cs generalizing n with
  | nil =>
    rw [List.foldlM_nil]
    constructor
    · intro h
      exact ⟨[], nofun, rfl, Option.some_inj.mp h⟩
    · rintro ⟨ds, -, hds, rfl⟩
      rw [List.map_eq_nil_iff.mp hds.symm]
      rfl
  | cons c cs ih =>
    rw [List.foldlM_cons, Option.bind_eq_bind, Option.bind_eq_some_iff]
    simp only [Option.map_eq_some_iff, digit?_eq_some_iff, ih]
    constructor
    · rintro ⟨_, ⟨d, ⟨hd, rfl⟩, rfl⟩, ds, hds, rfl, rfl⟩
      refine ⟨d :: ds, List.forall_mem_cons.mpr ⟨hd, hds⟩, rfl, ?_⟩
      rw [List.foldl_cons, Nat.add_comm d]
    · rintro ⟨_ | ⟨d, ds⟩, hds, hcs, rfl⟩
      · cases hcs
      obtain ⟨hd, hds⟩ := List.forall_mem_cons.mp hds
      obtain ⟨rfl, rfl⟩ := List.cons_eq_cons.mp hcs
      refine ⟨_, ⟨d, ⟨hd, rfl⟩, rfl⟩, ds, hds, rfl, ?_⟩
      rw [List.foldl_cons, Nat.add_comm d]

theorem digits?_eq_some_iff {n : Nat} {cs : List Char} :
    digits? 10 cs = some n ↔ ∃ ds : List Nat, ds ≠ [] ∧ (∀ d ∈ ds, d < 10) ∧
      Nat.ofDigits 10 ds.reverse = n ∧ cs = ds.map Nat.digitChar := by
  have hvalue (ds : List Nat) : Nat.ofDigits 10 ds.reverse = ds.foldl (fun n d => d + 10 * n) 0 := by
    rw [Nat.ofDigits_eq_foldr, List.foldr_reverse]
    rfl
  cases cs with
  | nil =>
    simp only [digits?, reduceCtorEq, false_iff]
    rintro ⟨ds, hne, -, -, hds⟩
    exact hne (List.map_eq_nil_iff.mp hds.symm)
  | cons c cs =>
    rw [digits?, foldlM_digit?_eq_some_iff]
    · constructor
      · rintro ⟨ds, hds, hcs, rfl⟩
        refine ⟨ds, ?_, hds, hvalue ds, hcs⟩
        rintro rfl
        cases hcs
      · rintro ⟨ds, -, hds, rfl, hcs⟩
        exact ⟨ds, hds, hcs, (hvalue ds).symm⟩
    · exact List.cons_ne_nil c cs

theorem plus_notMem_digits {ds : List Nat} (hds : ∀ d ∈ ds, d < 10) :
    '+' ∉ ds.map Nat.digitChar := by
  intro h
  obtain ⟨d, hd, hplus⟩ := List.mem_map.mp h
  have hcode := Nat.toNat_digitChar_of_lt_ten (hds d hd)
  rw [hplus] at hcode
  have hplus : '+'.toNat = 43 := rfl
  omega

theorem natural?_eq_some_iff {bound n : Nat} {cs : List Char} :
    natural? 10 bound cs = some n ↔ Numeral cs n ∧ n < bound := by
  unfold natural? Numeral
  rw [Option.filter_eq_some_iff, decide_eq_true_eq]
  refine and_congr_left fun _ => ?_
  split
  · rename_i cs
    rw [digits?_eq_some_iff]
    refine exists_congr fun ds => and_congr_right fun _ => and_congr_right fun hds =>
      and_congr_right fun _ => ?_
    constructor
    · rintro rfl
      exact .inr rfl
    · rintro (hsign | hrest)
      · exact absurd (hsign ▸ List.mem_cons_self) (plus_notMem_digits hds)
      · exact (List.cons_eq_cons.mp hrest).2
  · rename_i hsign
    rw [digits?_eq_some_iff]
    refine exists_congr fun ds => and_congr_right fun _ => and_congr_right fun _ =>
      and_congr_right fun _ => (or_iff_left fun h => hsign _ h).symm

theorem natural?_eq_none_iff {bound : Nat} {cs : List Char} :
    natural? 10 bound cs = none ↔ ∀ n < bound, ¬Numeral cs n := by
  rw [Option.eq_none_iff_forall_ne_some]
  refine forall_congr' fun n => ?_
  rw [ne_eq, natural?_eq_some_iff, not_and', imp_congr_right]
  exact fun _ => Iff.rfl

end DelaySynth.Text
