import DelaySynth.Proofs.Code
import DelaySynth.Reach.Memo

/-!
# The marks of a reach table

A mark other than the origin names its last filler and the shorter duration before it, and that
duration is marked as well. So the marks lead from every reached duration down to zero, and the
fillers on the way last as long as the duration says.

* `Reach.ofFillers` is the table that `Reach.compute` fills when no limit stops it.
* `Sweep.extend_cases`: what one extension does; `linked_round`: a round keeps the marks linked.
* `Linked.exists_leads`: linked marks lead from every reached duration down to zero.
* `sequence?_ofFillers`: the sequence of a reached duration holds fillers and lasts that long.
* `lookupWindow_eq_some_iff`: a window is answered with the first reached duration in it.
* `lookupWindow_ofFillers`: what a window is answered with lasts between its ends.
-/

namespace DelaySynth.Reach

/-- The duration is reached under some marks. -/
def Reached (marks : Array Mark) (d : Nat) : Prop :=
  isReached (marks.getD d .unreached) = true

instance (marks : Array Mark) (d : Nat) : Decidable (Reached marks d) :=
  inferInstanceAs (Decidable (_ = true))

/-- Every mark is the origin at zero, or it leads by a filler to a shorter reached duration. -/
structure Linked (fillers : List Instruction) (marks : Array Mark) : Prop where
  origin : ∀ d, marks.getD d .unreached = .origin → d = 0
  step : ∀ d previous last, marks.getD d .unreached = .step previous last →
    last ∈ fillers ∧ previous + last.duration = d ∧ previous < d ∧ Reached marks previous

variable {fillers : List Instruction}

/-! ## Rounds keep marks linked -/

theorem linked_start (budget bound : Nat) : Linked fillers (start budget bound).marks := by
  have mark (d : Nat) : (start budget bound).marks.getD d .unreached = .unreached ∨
      (start budget bound).marks.getD d .unreached = .origin ∧ d = 0 := by
    simp only [start, Array.getD_eq_getD_getElem?, Array.getElem?_setIfInBounds,
      Array.getElem?_replicate]
    grind
  constructor
  · intro d hd
    have := mark d
    grind
  · intro d previous last hd
    have := mark d
    grind

theorem getD_setIfInBounds {marks : Array Mark} {d : Nat} {mark : Mark} (hd : d < marks.size)
    (e : Nat) : (marks.setIfInBounds d mark).getD e .unreached =
      if e = d then mark else marks.getD e .unreached := by
  simp only [Array.getD_eq_getD_getElem?, Array.getElem?_setIfInBounds]
  grind

/-- Marking a duration adds it to those that are reached. -/
theorem reached_setIfInBounds {marks : Array Mark} {d previous : Nat} {last : Instruction}
    (hd : d < marks.size) {e : Nat} :
    Reached (marks.setIfInBounds d (.step previous last)) e ↔ e = d ∨ Reached marks e := by
  rw [Reached, getD_setIfInBounds hd]
  split
  · simp [*, isReached]
  · simp [*, Reached]

namespace Sweep

/-- An extension marks the duration that it leads to, if there is a free place for it, and nothing else
changes. -/
theorem extend_cases (base : Nat) (s : Sweep) (filler : Instruction) :
    (base + filler.duration < s.marks.size ∧ ¬Reached s.marks (base + filler.duration) ∧
      s.extend base filler =
        { marks := s.marks.setIfInBounds (base + filler.duration) (.step base filler)
          top := max s.top (base + filler.duration)
          changed := true }) ∨
    (base + filler.duration < s.marks.size → Reached s.marks (base + filler.duration)) ∧
      s.extend base filler = s := by
  unfold extend Reached
  simp only [Array.getD_eq_getD_getElem?]
  split
  · rename_i hmark
    obtain ⟨hlt, -⟩ := Array.getElem?_eq_some_iff.mp hmark
    exact .inl ⟨hlt, by simp [hmark, isReached], rfl⟩
  · rename_i hmark
    refine .inr ⟨fun hlt => ?_, rfl⟩
    rw [Array.getElem?_eq_getElem hlt] at hmark ⊢
    rw [Option.getD_some]
    cases hcase : s.marks[base + filler.duration] with
    | unreached => exact absurd (congrArg some hcase) hmark
    | origin => rfl
    | step previous last => rfl

variable {s : Sweep} {base d : Nat} {filler : Instruction}

@[simp] theorem size_extend (base : Nat) (s : Sweep) (filler : Instruction) :
    (s.extend base filler).marks.size = s.marks.size := by
  rcases extend_cases base s filler with ⟨-, -, hextend⟩ | ⟨-, hextend⟩ <;> simp [hextend]

/-- A mark that has been set stays as it is. -/
theorem getD_extend_of_reached (hd : Reached s.marks d) :
    (s.extend base filler).marks.getD d .unreached = s.marks.getD d .unreached := by
  rcases extend_cases base s filler with ⟨hlt, hfree, hextend⟩ | ⟨-, hextend⟩
  · have hne : d ≠ base + filler.duration := by
      rintro rfl
      exact hfree hd
    rw [hextend, getD_setIfInBounds hlt, if_neg hne]
  · rw [hextend]

theorem reached_extend_of_reached (hd : Reached s.marks d) :
    Reached (s.extend base filler).marks d := by
  rw [Reached, getD_extend_of_reached hd]
  exact hd

/-- What is marked after an extension was marked before it, or it is what the extension leads to. -/
theorem of_reached_extend (hd : Reached (s.extend base filler).marks d) : Reached s.marks d ∨
    ¬Reached s.marks d ∧ base + filler.duration = d ∧
      (s.extend base filler).marks.getD d .unreached = .step base filler := by
  rcases extend_cases base s filler with ⟨hlt, hfree, hextend⟩ | ⟨-, hextend⟩
  · rw [hextend] at hd ⊢
    rcases (reached_setIfInBounds hlt).mp hd with rfl | hd
    · exact .inr ⟨hfree, rfl, by rw [getD_setIfInBounds hlt, if_pos rfl]⟩
    · exact .inl hd
  · rw [hextend] at hd
    exact .inl hd

theorem reached_extend (h : base + filler.duration < s.marks.size) :
    Reached (s.extend base filler).marks (base + filler.duration) := by
  rcases extend_cases base s filler with ⟨hlt, -, hextend⟩ | ⟨hplace, hextend⟩
  · rw [hextend]
    exact (reached_setIfInBounds hlt).mpr (.inl rfl)
  · rw [hextend]
    exact hplace h

theorem le_top_extend (htop : ∀ d, Reached s.marks d → d ≤ s.top)
    (hd : Reached (s.extend base filler).marks d) : d ≤ (s.extend base filler).top := by
  rcases extend_cases base s filler with ⟨hlt, -, hextend⟩ | ⟨-, hextend⟩
  · rw [hextend] at hd ⊢
    rcases (reached_setIfInBounds hlt).mp hd with rfl | hd
    · exact Nat.le_max_right _ _
    · exact Nat.le_trans (htop d hd) (Nat.le_max_left _ _)
  · rw [hextend] at hd ⊢
    exact htop d hd

theorem linked_extend (hs : Linked fillers s.marks) (hbase : Reached s.marks base)
    (hfiller : filler ∈ fillers) : Linked fillers (s.extend base filler).marks := by
  constructor
  · intro d hd
    have hreached : Reached (s.extend base filler).marks d := by
      rw [Reached, hd]
      rfl
    rcases of_reached_extend hreached with hold | ⟨-, -, hmark⟩
    · exact hs.origin d ((getD_extend_of_reached hold).symm.trans hd)
    · cases hmark.symm.trans hd
  · intro d previous last hd
    have hreached : Reached (s.extend base filler).marks d := by
      rw [Reached, hd]
      rfl
    rcases of_reached_extend hreached with hold | ⟨hfree, hsum, hmark⟩
    · obtain ⟨hlast, hsum, hlt, hprevious⟩ :=
        hs.step d previous last ((getD_extend_of_reached hold).symm.trans hd)
      exact ⟨hlast, hsum, hlt, reached_extend_of_reached hprevious⟩
    · cases hmark.symm.trans hd
      have hne : base ≠ d := by
        rintro rfl
        exact hfree hbase
      exact ⟨hfiller, hsum, by omega, reached_extend_of_reached hbase⟩

theorem linked_foldl_extend {base : Nat} (added : List Instruction) (hadded : added ⊆ fillers)
    {s : Sweep} (hs : Linked fillers s.marks) (hbase : Reached s.marks base) :
    Linked fillers (added.foldl (extend base) s).marks := by
  induction added generalizing s with
  | nil => exact hs
  | cons filler added ih =>
    obtain ⟨hfiller, hadded⟩ := List.cons_subset.mp hadded
    exact ih hadded (linked_extend hs hbase hfiller) (reached_extend_of_reached hbase)

theorem linked_down (n : Nat) {s : Sweep} (hs : Linked fillers s.marks) :
    Linked fillers (down fillers n s).marks := by
  induction n generalizing s with
  | zero => exact hs
  | succ n ih =>
    apply ih
    unfold extendAll
    split
    · rename_i hbase
      exact linked_foldl_extend fillers (List.Subset.refl _) hs hbase
    · exact hs

end Sweep

theorem linked_round {t : Reach} (ht : Linked fillers t.marks) :
    Linked fillers (t.round fillers).1.marks :=
  Sweep.linked_down _ ht

/-! ## The finished table -/

/-- The table after up to `n` rounds, and no more once a round has marked nothing. -/
def fill (fillers : List Instruction) : (n : Nat) → Reach → Reach
  | 0, t => t
  | n + 1, t =>
    match t.round fillers with
    | (t, true) => fill fillers n t
    | (t, false) => t

/-- The table of the sequences of at most `budget` fillers. -/
def ofFillers (fillers : List Instruction) (budget : Nat) : Reach :=
  fill fillers budget (start budget (room fillers budget))

theorem linked_fill (n : Nat) {t : Reach} (ht : Linked fillers t.marks) :
    Linked fillers (fill fillers n t).marks := by
  induction n generalizing t with
  | zero => exact ht
  | succ n ih =>
    have hround := linked_round ht
    rw [fill]
    cases h : t.round fillers with
    | mk u changed =>
      rw [h] at hround
      cases changed with
      | true => exact ih hround
      | false => exact hround

theorem linked_ofFillers (fillers : List Instruction) (budget : Nat) :
    Linked fillers (ofFillers fillers budget).marks :=
  linked_fill budget (linked_start budget _)

/-! ## Sequences -/

/-- The marks lead from a duration down to zero, and what they name on the way, from the shortest
duration to the longest, is a sequence of fillers. -/
inductive Leads (marks : Array Mark) : (d : Nat) → List Instruction → Prop
  | origin (h : marks.getD 0 .unreached = .origin) : Leads marks 0 []
  | step {d previous : Nat} {last : Instruction} {items : List Instruction}
      (h : marks.getD d .unreached = .step previous last) (before : Leads marks previous items) :
      Leads marks d (items ++ [last])

variable {marks : Array Mark} {d : Nat} {items : List Instruction}

/-- Following the marks goes all the way, if it may take as many steps. -/
theorem Leads.follow_eq (h : Leads marks d items) {fuel : Nat} (hfuel : items.length ≤ fuel)
    (found : List Instruction) : follow marks fuel d found = items ++ found := by
  induction h generalizing fuel found with
  | origin hmark =>
    cases fuel with
    | zero => rfl
    | succ fuel => rw [follow, hmark, List.nil_append]
  | @step d previous last items hmark _ ih =>
    cases fuel with
    | zero => simp at hfuel
    | succ fuel =>
      rw [List.length_append] at hfuel
      rw [follow, hmark]
      simp only
      rw [ih (Nat.le_of_succ_le_succ hfuel), List.append_assoc, List.singleton_append]

/-- From every reached duration linked marks lead down to zero. The fillers on the way last that long, and
there are no more of them than cycles. -/
theorem Linked.exists_leads (hm : Linked fillers marks) (hd : Reached marks d) :
    ∃ items, Leads marks d items ∧ items.length ≤ d ∧
      Code.totalDuration (items.map Code.instr) = d ∧ items ⊆ fillers := by
  induction d using Nat.strongRecOn with
  | ind d ih =>
    cases hmark : marks.getD d .unreached with
    | unreached => simp [Reached, hmark, isReached] at hd
    | origin =>
      obtain rfl := hm.origin d hmark
      exact ⟨[], .origin hmark, Nat.le_refl 0, rfl, List.nil_subset _⟩
    | step previous last =>
      obtain ⟨hlast, hsum, hlt, hprevious⟩ := hm.step d previous last hmark
      obtain ⟨items, hitems, hlength, hduration, hsub⟩ := ih previous hlt hprevious
      refine ⟨items ++ [last], .step hmark hitems, ?_, ?_, ?_⟩
      · rw [List.length_append, List.length_singleton]
        omega
      · simp [hduration, hsum]
      · exact List.append_subset.mpr ⟨hsub, by simpa using hlast⟩

theorem reaches_of_sequence? {t : Reach}
    (h : t.sequence? d = some items) : t.reaches d = true := by
  unfold sequence? at h
  split at h
  · assumption
  · cases h

theorem sequence?_ofFillers {budget : Nat} (h : (ofFillers fillers budget).sequence? d = some items) :
    Code.totalDuration (items.map Code.instr) = d ∧ items ⊆ fillers := by
  unfold sequence? at h
  split at h
  · rename_i hd
    cases h
    obtain ⟨items, hitems, hlength, hduration, hsub⟩ :=
      (linked_ofFillers fillers budget).exists_leads hd
    rw [hitems.follow_eq hlength, List.append_nil]
    exact ⟨hduration, hsub⟩
  · cases h

/-! ## Windows -/

theorem firstReached?_eq_some_iff {t : Reach} {count low d : Nat} :
    t.firstReached? count low = some d ↔ low ≤ d ∧ d < low + count ∧ t.reaches d = true ∧
      ∀ e, low ≤ e → e < d → t.reaches e = false := by
  induction count generalizing low with
  | zero =>
    rw [firstReached?]
    constructor
    · intro h
      cases h
    · rintro ⟨hlow, hhigh, -⟩
      omega
  | succ count ih =>
    rw [firstReached?]
    split
    · rename_i hreached
      constructor
      · rintro ⟨⟩
        exact ⟨Nat.le_refl _, by omega, hreached, fun e hle hlt => by omega⟩
      · rintro ⟨hle, -, -, hbelow⟩
        rcases Nat.eq_or_lt_of_le hle with rfl | hlt
        · rfl
        · rw [hbelow low (Nat.le_refl _) hlt] at hreached
          cases hreached
    · rename_i hfree
      rw [ih]
      constructor
      · rintro ⟨hle, hlt, hreached, hbelow⟩
        refine ⟨by omega, by omega, hreached, fun e hle hlt => ?_⟩
        rcases Nat.eq_or_lt_of_le hle with rfl | hle
        · exact Bool.eq_false_iff.mpr hfree
        · exact hbelow e hle hlt
      · rintro ⟨hle, hlt, hreached, hbelow⟩
        have hne : low ≠ d := by
          rintro rfl
          exact hfree hreached
        exact ⟨by omega, by omega, hreached, fun e hle hlt => hbelow e (by omega) hlt⟩

/-- A window is answered with the sequence of the first reached duration in it. -/
theorem lookupWindow_eq_some_iff {t : Reach} {w : Window} {g : Group Code} :
    t.lookupWindow w = some g ↔ ∃ d items, t.sequence? d = some items ∧
      g = .unordered (items.map Code.instr) ∧ w.min ≤ d ∧ d ≤ w.max ∧ d ≤ t.top ∧
        ∀ e : Nat, w.min ≤ e → e < d → t.reaches e = false := by
  unfold lookupWindow
  simp only
  split
  · constructor
    · intro h
      cases h
    · rintro ⟨d, items, -, -, hmin, hmax, -⟩
      omega
  · simp only [Option.bind_eq_bind, Option.bind_eq_some_iff, Option.pure_def, Option.some.injEq,
      firstReached?_eq_some_iff]
    constructor
    · rintro ⟨d, ⟨hlow, hhigh, -, hbelow⟩, items, hitems, rfl⟩
      exact ⟨d, items, hitems, rfl, by omega, by omega, by omega,
        fun e hmin hlt => hbelow e (by omega) hlt⟩
    · rintro ⟨d, items, hitems, rfl, hmin, hmax, htop, hbelow⟩
      exact ⟨d, ⟨by omega, by omega, reaches_of_sequence? hitems,
        fun e hle hlt => hbelow e (by omega) hlt⟩, items, hitems, rfl⟩

theorem lookupWindow_eq_some {t : Reach} {w : Window} {g : Group Code}
    (h : t.lookupWindow w = some g) : ∃ d items, t.sequence? d = some items ∧
      g = .unordered (items.map Code.instr) ∧ w.min ≤ d ∧ d ≤ w.max := by
  obtain ⟨d, items, hitems, hg, hmin, hmax, -⟩ := lookupWindow_eq_some_iff.mp h
  exact ⟨d, items, hitems, hg, hmin, hmax⟩

theorem lookupWindow_ofFillers {budget : Nat} {w : Window} {g : Group Code}
    (h : (ofFillers fillers budget).lookupWindow w = some g) :
    ∃ items, g = .unordered (items.map Code.instr) ∧ items ⊆ fillers ∧
      w.min ≤ g.duration ∧ g.duration ≤ w.max := by
  obtain ⟨d, items, hitems, rfl, hmin, hmax⟩ := lookupWindow_eq_some h
  obtain ⟨hduration, hsub⟩ := sequence?_ofFillers hitems
  rw [Group.duration_unordered, hduration]
  exact ⟨items, rfl, hsub, hmin, hmax⟩

end DelaySynth.Reach
