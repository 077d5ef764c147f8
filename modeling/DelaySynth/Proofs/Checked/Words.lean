import DelaySynth.Proofs.Code
import DelaySynth.Proofs.Window

/-!
# Arithmetic within words

The arithmetic of windows and of durations with a check after every operation. A result that its word
does not hold is no result: words of 64 bits hold the ends of windows with a sign, and durations
without one, and words of 32 bits hold iteration counts and budgets.

* `Checked.Signed.minus`, `Checked.body_eq`: which windows leave room to take cycles off them.
* `Checked.groupDuration_eq`, `Checked.loopDuration_eq`, `Checked.routineDuration_eq`: no sum on the
  way to a duration is above the duration itself, so only that has to fit its word.
-/

namespace DelaySynth.Checked

/-! ## Words -/

/-- A number that a word of 64 bits with a sign holds. -/
def signed (i : Int) : Option Int :=
  if -(bound64 : Int) ≤ 2 * i ∧ 2 * i < bound64 then some i else none

/-- A number that a word of 64 bits holds. -/
def word (n : Nat) : Option Nat :=
  if n < bound64 then some n else none

/-- A number that a word of 32 bits holds. -/
def short (i : Int) : Option Nat :=
  if 0 ≤ i ∧ i < bound32 then some i.toNat else none

theorem signed_eq {i : Int} (hlow : -(bound64 : Int) ≤ 2 * i) (hhigh : 2 * i < bound64) :
    signed i = some i :=
  if_pos ⟨hlow, hhigh⟩

theorem word_eq {n : Nat} (h : n < bound64) : word n = some n :=
  if_pos h

theorem short_eq {n : Nat} (h : n < bound32) : short n = some n :=
  if_pos ⟨Int.natCast_nonneg n, Int.ofNat_lt.mpr h⟩

/-! ## Windows -/

/-- The window for what is left when some cycles are spent. -/
def minus (w : Window) (cycles : Nat) : Option Window := do
  let spent ← signed cycles
  return ⟨← signed (w.min - spent), ← signed (w.max - spent)⟩

/-- The window for the body of a loop. The dividend and the quotient of the lower end are negated. -/
def body (w : Window) (n : Nat) (perIteration : Int) : Option Window := do
  let quotient ← signed ((← signed (-w.min)) / n)
  let low ← signed (-quotient)
  let high ← signed (w.max / n)
  return ⟨← signed (low - perIteration), ← signed (high - perIteration)⟩

/-- A window with both ends among the words with a sign, and in order. -/
structure Signed (w : Window) : Prop where
  low : -(bound64 : Int) ≤ 2 * w.min
  le : w.min ≤ w.max
  lt : 2 * w.max < bound64

/-- What can be taken off the lower end can be taken off the window. -/
theorem Signed.minus {w : Window} (h : Signed w) {cycles : Nat} (hcycles : 2 * cycles < bound64)
    (hmin : -(bound64 : Int) ≤ 2 * (w.min - cycles)) :
    Checked.minus w cycles = some (w.minus cycles) ∧ Signed (w.minus cycles) := by
  have hle := h.le
  have hlt := h.lt
  rw [Window.minus_of_lt hcycles]
  constructor
  · rw [Checked.minus, signed_eq (by omega) (by omega)]
    simp only [Option.bind_eq_bind, Option.bind_some]
    rw [signed_eq hmin (by omega), signed_eq (by omega) (by omega)]
    rfl
  · exact ⟨hmin, by simp only; omega, by simp only; omega⟩

/-- A window whose lower end falls below the words with a sign has none left. -/
theorem minus_eq_none {w : Window} {cycles : Nat} (hcycles : 2 * cycles < bound64)
    (hmin : 2 * (w.min - cycles) < -(bound64 : Int)) : minus w cycles = none := by
  have hsigned : signed (w.min - cycles) = none := if_neg (by omega)
  rw [minus, signed_eq (by omega) (by omega)]
  simp only [Option.bind_eq_bind, Option.bind_some, hsigned, Option.bind_none]

/-- The quotient of a number that is not far below zero lies between the number and zero. -/
theorem ediv_bounds {a : Int} {n : Nat} (hn : 0 < n) :
    (0 ≤ a → 0 ≤ a / n ∧ a / n ≤ a) ∧ (a ≤ 0 → a ≤ a / n ∧ a / n ≤ 0) := by
  have hn' : (0 : Int) < n := Int.natCast_pos.mpr hn
  refine ⟨fun ha => ⟨Int.ediv_nonneg ha hn'.le, Int.ediv_le_self _ ha⟩, fun ha => ⟨?_, ?_⟩⟩
  · have hmul : a * n ≤ a * 1 := Int.mul_le_mul_of_nonpos_left ha hn'
    exact (Int.le_ediv_iff_mul_le hn').mpr (by omega)
  · have hlt : a / n < 1 ↔ a < 1 * n := Int.ediv_lt_iff_lt_mul hn'
    omega

theorem body_eq {w : Window} {n perIteration : Nat} (hn : 0 < n)
    (hper : 4 * perIteration < bound64)
    (hmin : -(bound64 : Int) < 4 * w.min) (hmin' : 2 * w.min < bound64)
    (hmax : -(bound64 : Int) < 4 * w.max) (hmax' : 2 * w.max < bound64) :
    body w n perIteration = some (w.body n perIteration) := by
  have hlow := ediv_bounds (a := -w.min) hn
  have hhigh := ediv_bounds (a := w.max) hn
  rw [body, signed_eq (by omega) (by omega)]
  simp only [Option.bind_eq_bind, Option.bind_some]
  rw [signed_eq (by omega) (by omega)]
  simp only [Option.bind_some]
  rw [signed_eq (by omega) (by omega), signed_eq (by omega) (by omega)]
  simp only [Option.bind_some]
  rw [signed_eq (by omega) (by omega), signed_eq (by omega) (by omega)]
  rfl

/-! ## Durations -/

mutual

/-- The number of cycles that the code takes. -/
def duration : Code → Option Nat
  | .instr i => some i.duration
  | .group g => groupDuration g
  | .loop l => loopDuration l
  | .routine r => routineDuration r

/-- The number of cycles that the pieces take one after the other. -/
def groupDuration : Group Code → Option Nat
  | ⟨items, _⟩ => totalDuration 0 items

/-- The cycles that load the counter, and those of each iteration. -/
def loopDuration : Loop Code → Option Nat
  | ⟨init, body, decrement, branch, _, iterations⟩ => do
    let perIteration ← word ((← word ((← duration body) + decrement.duration)) + branch.duration)
    word (init.duration + (← word (iterations * perIteration)))

/-- The number of cycles from the first instruction to the return. -/
def routineDuration : Routine Code → Option Nat
  | ⟨save, main, restore, ret?⟩ => do
    let saved ← groupDuration save
    let waited ← word (saved + (← duration main))
    let restored ← word (waited + (← groupDuration restore))
    word (restored + (ret?.map Instruction.duration).getD 0)

/-- The number of cycles that a list of pieces adds to those before it. -/
def totalDuration : (before : Nat) → List Code → Option Nat
  | before, [] => some before
  | before, c :: cs => do totalDuration (← word (before + (← duration c))) cs

end

theorem totalDuration_eq {before : Nat} {cs : List Code} (hcs : ∀ c ∈ cs, ∃ i, c = .instr i)
    (h : before + Code.totalDuration cs < bound64) :
    totalDuration before cs = some (before + Code.totalDuration cs) := by
  induction cs generalizing before with
  | nil => simp [totalDuration]
  | cons c cs ih =>
    obtain ⟨⟨i, rfl⟩, hrest⟩ := List.forall_mem_cons.mp hcs
    rw [Code.totalDuration_cons, ← Nat.add_assoc] at h ⊢
    rw [totalDuration, duration]
    simp only [Option.bind_eq_bind, Option.bind_some]
    rw [Code.duration_instr] at h ⊢
    rw [word_eq (by omega), Option.bind_some]
    exact ih hrest h

/-- A sequence of instructions. -/
theorem groupDuration_eq {g : Group Code} (hg : ∀ c ∈ g.items, ∃ i, c = .instr i)
    (h : g.duration < bound64) : groupDuration g = some g.duration := by
  cases g with
  | mk items ordered =>
    rw [Group.duration_eq] at h ⊢
    rw [groupDuration, totalDuration_eq hg (by omega), Nat.zero_add]

/-- A loop that runs at least once. -/
theorem loopDuration_eq {l : Loop Code} (hpos : 0 < l.iterations)
    (hbody : l.body.duration < bound64 → duration l.body = some l.body.duration)
    (h : l.duration < bound64) : loopDuration l = some l.duration := by
  rw [Loop.duration_eq] at h ⊢
  have hone : l.iterationDuration ≤ l.iterations * l.iterationDuration :=
    Nat.le_mul_of_pos_left _ hpos
  cases l with
  | mk init body decrement branch label iterations =>
    simp only [Loop.iterationDuration] at hbody h hone ⊢
    rw [loopDuration, hbody (by omega)]
    simp only [Option.bind_eq_bind, Option.bind_some]
    rw [word_eq (by omega), Option.bind_some, word_eq (by omega), Option.bind_some,
      word_eq (by omega), Option.bind_some, word_eq (by omega)]

theorem routineDuration_eq {r : Routine Code} (hsave : ∀ c ∈ r.save.items, ∃ i, c = .instr i)
    (hmain : r.main.duration < bound64 → duration r.main = some r.main.duration)
    (hrestore : ∀ c ∈ r.restore.items, ∃ i, c = .instr i) (h : r.duration < bound64) :
    routineDuration r = some r.duration := by
  rw [Routine.duration_eq] at h ⊢
  cases r with
  | mk save main restore ret? =>
    simp only at hsave hmain hrestore h ⊢
    rw [routineDuration, groupDuration_eq hsave (by omega), hmain (by omega),
      groupDuration_eq hrestore (by omega)]
    simp only [Option.bind_eq_bind, Option.bind_some]
    rw [word_eq (by omega), Option.bind_some, word_eq (by omega), Option.bind_some,
      word_eq (by omega)]

end DelaySynth.Checked
