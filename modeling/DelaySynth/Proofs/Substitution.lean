import DelaySynth.Catalog.Basic
import Mathlib.Data.List.Basic

/-!
# Whole words and placeholders

A word stands in a text as a whole if the text does not go on with a letter or a digit on either side
of it. Finding a placeholder and filling it work on the cut of a text into words, and both come to the
same as looking for a whole word in the text itself.

* `cut_ofText`, `Cut.ofText_toText`: which lists of pieces are cuts, and of which text.
* `ofText_of_standsIn`, `standsIn_of_cut`: a whole word of the text is a piece of its cut.
* `replaceWord_of_hasWord`: the first whole word is replaced, and nothing else changes.
* `text_instantiate`: what this means for the instruction of a row with an operand.
-/

namespace DelaySynth.Text

/-! ## Whole words -/

/-- A text of letters and digits only. -/
structure IsWord (w : List Char) : Prop where
  ne_nil : w ≠ []
  alphanum : ∀ c ∈ w, c.isAlphanum = true

/-- The token stands in the text as a whole word, between `before` and `after`. -/
structure StandsIn (token cs before after : List Char) : Prop where
  split : cs = before ++ (token ++ after)
  left : ∀ c ∈ before.getLast?, c.isAlphanum = false
  right : ∀ c ∈ after.head?, c.isAlphanum = false

/-- The token stands somewhere in the text as a whole word. -/
def Occurs (token cs : List Char) : Prop :=
  ∃ before after, StandsIn token cs before after

namespace Segment

/-! ## Cuts -/

/-- The pieces are those of a text: words hold letters and digits only, no other piece does, and no
word follows a word. -/
inductive Cut : List Segment → Prop
  | nil : Cut []
  | other {c : Char} {ss : List Segment} (apart : c.isAlphanum = false) (rest : Cut ss) :
      Cut (.other c :: ss)
  | word {w : List Char} {ss : List Segment} (isWord : IsWord w)
      (ends : ∀ c ∈ (toText ss).head?, c.isAlphanum = false) (rest : Cut ss) : Cut (.word w :: ss)

@[simp] theorem toText_nil : toText [] = [] := rfl

@[simp] theorem toText_cons (s : Segment) (ss : List Segment) :
    toText (s :: ss) = s.chars ++ toText ss := by
  rw [toText, toText, List.flatMap_cons]

@[simp] theorem toText_append (ss ts : List Segment) : toText (ss ++ ts) = toText ss ++ toText ts := by
  rw [toText, toText, toText, List.flatMap_append]

theorem Cut.consWord {c : Char} {ss : List Segment} (hc : c.isAlphanum = true) (h : Cut ss) :
    Cut (consWord c ss) := by
  have halone : IsWord [c] := ⟨List.cons_ne_nil _ _, by simpa using hc⟩
  cases h with
  | nil => exact .word halone nofun .nil
  | other apart rest => exact .word halone (by simpa [chars] using apart) (.other apart rest)
  | word isWord ends rest =>
    exact .word ⟨List.cons_ne_nil _ _, List.forall_mem_cons.mpr ⟨hc, isWord.alphanum⟩⟩ ends rest

theorem cut_ofText (cs : List Char) : Cut (ofText cs) := by
  induction cs with
  | nil => exact .nil
  | cons c cs ih =>
    rw [ofText]
    split
    · rename_i hc
      exact ih.consWord hc
    · rename_i hc
      exact .other (by simpa using hc) ih

theorem ofText_cons_other {c : Char} (hc : c.isAlphanum = false) (cs : List Char) :
    ofText (c :: cs) = .other c :: ofText cs := by
  rw [ofText, if_neg (by simp [hc])]

/-- A word that the text does not go on with is a piece of its own. -/
theorem ofText_word_append {w rest : List Char} (hw : IsWord w)
    (hrest : ∀ c ∈ rest.head?, c.isAlphanum = false) :
    ofText (w ++ rest) = .word w :: ofText rest := by
  obtain ⟨hne, hall⟩ := hw
  induction w with
  | nil => exact absurd rfl hne
  | cons c w ih =>
    obtain ⟨hc, hw⟩ := List.forall_mem_cons.mp hall
    rw [List.cons_append, ofText, if_pos hc]
    cases w with
    | nil =>
      -- The rest begins no word that the letter could join.
      cases rest with
      | nil => rfl
      | cons d rest =>
        rw [List.nil_append, ofText_cons_other (hrest d rfl)]
        rfl
    | cons d w =>
      rw [ih (List.cons_ne_nil _ _) hw]
      rfl

/-- The pieces of a text are cut from it again. -/
theorem Cut.ofText_toText {ss : List Segment} (h : Cut ss) : ofText (toText ss) = ss := by
  induction h with
  | nil => rfl
  | other apart rest ih =>
    rw [toText_cons, chars, List.singleton_append, ofText_cons_other apart, ih]
  | word isWord ends rest ih => rw [toText_cons, chars, ofText_word_append isWord ends, ih]

theorem Cut.left {ss ts : List Segment} (h : Cut (ss ++ ts)) : Cut ss := by
  induction ss with
  | nil => exact .nil
  | cons s ss ih =>
    cases h with
    | other apart rest => exact .other apart (ih rest)
    | word isWord ends rest =>
      refine .word isWord (fun c hc => ends c ?_) (ih rest)
      show c ∈ (toText (ss ++ ts)).head?
      rw [toText_append, List.head?_append, hc]
      rfl

theorem Cut.toText_ne_nil {s : Segment} {ss : List Segment} (h : Cut (s :: ss)) :
    toText (s :: ss) ≠ [] := by
  cases h with
  | other apart rest => simp [chars]
  | word isWord ends rest => simp [chars, isWord.ne_nil]

/-- In a cut there is no letter or digit right before a word. -/
theorem Cut.getLast?_toText {w : List Char} {ss ts : List Segment} (h : Cut (ss ++ .word w :: ts)) :
    ∀ c ∈ (toText ss).getLast?, c.isAlphanum = false := by
  induction ss with
  | nil => exact nofun
  | cons s ss ih =>
    intro c hc
    cases ss with
    | cons s' ss =>
      have hrest : Cut (s' :: ss ++ .word w :: ts) := by
        cases h <;> assumption
      rw [toText_cons, List.getLast?_append_of_ne_nil _ hrest.left.toText_ne_nil] at hc
      exact ih hrest c hc
    | nil =>
      cases h with
      | other apart rest =>
        obtain rfl : _ = c := by simpa [chars] using hc
        exact apart
      | word isWord ends rest =>
        -- A word does not follow a word.
        cases rest with
        | word isWord' ends' rest =>
          obtain ⟨d, w', rfl⟩ := List.exists_cons_of_ne_nil isWord'.ne_nil
          have hd := ends d (by simp [chars])
          have hd' := isWord'.alphanum d List.mem_cons_self
          rw [hd] at hd'
          cases hd'

/-! ## Words in a text and in its cut -/

theorem ofText_append_other {c : Char} (hc : c.isAlphanum = false) (before after : List Char) :
    ofText (before ++ c :: after) = ofText before ++ .other c :: ofText after := by
  have hcut : Cut (ofText before ++ .other c :: ofText after) := by
    have hbefore := cut_ofText before
    generalize ofText before = ss at hbefore
    induction hbefore with
    | nil => exact .other hc (cut_ofText after)
    | other apart rest ih => exact .other apart ih
    | @word w ss isWord ends rest ih =>
      refine .word isWord (fun d hd => ?_) ih
      cases ss with
      | nil =>
        obtain rfl : c = d := by simpa [chars] using hd
        exact hc
      | cons s ss =>
        change d ∈ (toText (s :: ss ++ .other c :: ofText after)).head? at hd
        rw [toText_append, List.head?_append_of_ne_nil _ rest.toText_ne_nil] at hd
        exact ends d hd
  rw [← hcut.ofText_toText]
  simp [chars]

theorem ofText_of_standsIn {token cs before after : List Char} (htoken : IsWord token)
    (h : StandsIn token cs before after) :
    ofText cs = ofText before ++ .word token :: ofText after := by
  obtain ⟨rfl, hleft, hright⟩ := h
  rcases List.eq_nil_or_concat' before with rfl | ⟨before, c, rfl⟩
  · exact ofText_word_append htoken hright
  · have hc : c.isAlphanum = false := hleft c (by simp)
    rw [List.append_assoc, List.singleton_append, ofText_append_other hc, ofText_append_other hc,
      ofText_word_append htoken hright]
    simp [ofText]

theorem standsIn_of_cut {token cs : List Char} {ss ts : List Segment}
    (h : ofText cs = ss ++ .word token :: ts) : StandsIn token cs (toText ss) (toText ts) := by
  have hcut : Cut (ss ++ .word token :: ts) := h ▸ cut_ofText cs
  have hafter : Cut (.word token :: ts) := by
    clear h
    induction ss with
    | nil => exact hcut
    | cons s ss ih => cases hcut <;> exact ih ‹_›
  refine ⟨?_, hcut.getLast?_toText, ?_⟩
  · rw [← toText_ofText cs, h, toText_append, toText_cons, chars]
  · cases hafter with
    | word isWord ends rest => exact ends

theorem replaceFirst_append {token value : List Char} {ss ts : List Segment}
    (h : .word token ∉ ss) :
    replaceFirst token value (ss ++ .word token :: ts) = toText ss ++ (value ++ toText ts) := by
  induction ss with
  | nil => exact if_pos rfl
  | cons s ss ih =>
    obtain ⟨hs, hss⟩ := List.ne_and_not_mem_of_not_mem_cons h
    rw [List.cons_append, replaceFirst, if_neg hs.symm, ih hss, toText_cons, List.append_assoc]

end Segment

open Segment

variable {token cs : List Char}

theorem hasWord_iff (htoken : IsWord token) : hasWord token cs = true ↔ Occurs token cs := by
  rw [hasWord, List.contains_iff_mem]
  constructor
  · intro h
    obtain ⟨ss, ts, hcut⟩ := List.append_of_mem h
    exact ⟨_, _, standsIn_of_cut hcut⟩
  · rintro ⟨before, after, h⟩
    rw [ofText_of_standsIn htoken h]
    exact List.mem_append_right _ List.mem_cons_self

/-- The value takes the place of the first whole word that is the token. -/
theorem replaceWord_of_hasWord (htoken : IsWord token) (h : hasWord token cs = true)
    (value : List Char) : ∃ before after, StandsIn token cs before after ∧ ¬Occurs token before ∧
      replaceWord token value cs = before ++ (value ++ after) := by
  rw [hasWord, List.contains_iff_mem] at h
  obtain ⟨ss, ts, hcut, hfirst⟩ := List.eq_append_cons_of_mem h
  have hss : Cut ss := (hcut ▸ cut_ofText cs).left
  refine ⟨_, _, standsIn_of_cut hcut, fun hoccurs => ?_, ?_⟩
  · have hmem := (hasWord_iff htoken).mpr hoccurs
    rw [hasWord, List.contains_iff_mem, hss.ofText_toText] at hmem
    exact hfirst hmem
  · rw [replaceWord, hcut, replaceFirst_append hfirst]

end DelaySynth.Text

namespace DelaySynth

open Text

/-! ## Placeholders -/

theorem Placeholder.isWord_token (p : Placeholder) : IsWord p.token.toList := by
  cases p <;> exact ⟨by decide, List.all_eq_true.mp (by decide)⟩

/-- Which placeholder a template has is told by the whole words in it. -/
theorem Placeholder.find?_eq_some_iff {template : String} {p : Placeholder} :
    find? template = some p ↔ Occurs p.token.toList template.toList ∧
      (p = byte → ¬Occurs word.token.toList template.toList) := by
  rw [find?, ← hasWord_iff p.isWord_token, ← hasWord_iff word.isWord_token]
  cases p <;> grind

theorem Placeholder.find?_eq_none_iff {template : String} :
    find? template = none ↔ ∀ p : Placeholder, ¬Occurs p.token.toList template.toList := by
  rw [Option.eq_none_iff_forall_ne_some]
  constructor
  · intro h p hp
    by_cases hword : Occurs word.token.toList template.toList
    · exact h word (find?_eq_some_iff.mpr ⟨hword, nofun⟩)
    · exact h p (find?_eq_some_iff.mpr ⟨hp, fun _ => hword⟩)
  · intro h p hp
    exact h p (find?_eq_some_iff.mp hp).1

theorem Placeholder.find?_eq_word_iff {template : String} :
    find? template = some word ↔ Occurs word.token.toList template.toList := by
  rw [find?_eq_some_iff]
  exact and_iff_left nofun

theorem Placeholder.find?_eq_byte_iff {template : String} :
    find? template = some byte ↔ Occurs byte.token.toList template.toList ∧
      ¬Occurs word.token.toList template.toList := by
  rw [find?_eq_some_iff]
  exact and_congr_right' ⟨fun h => h rfl, fun h _ => h⟩

namespace Row

/-- Without a placeholder an instruction reads as its template, whatever operand it was given. -/
theorem toList_text_of_placeholder?_eq_none {r : Row} (h : r.placeholder? = none) (v : Operand) :
    (r.instantiate (some v)).text.toList = r.template.toList := by
  rw [Instruction.text, instantiate, h]

theorem toList_text_of_placeholder?_eq_some {r : Row} {p : Placeholder}
    (h : r.placeholder? = some p) (v : Operand) : (r.instantiate (some v)).text.toList =
      replaceWord p.token.toList v.text.toList r.template.toList := by
  rw [Instruction.text, instantiate, h]
  exact String.toList_ofList

/-- Longer words that hold the token are passed over, and so are a token behind the first one and the
word for the shorter operand. -/
example : (({ template := "X16bY 8b,16b;16b", duration := 0, size := 0, needs := {} } :
    Row).instantiate (some (.label "L"))).text = "X16bY 8b,L;16b" := by decide +kernel

end Row

end DelaySynth
