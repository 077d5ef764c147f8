import DelaySynth.Proofs.Reach.Lookup
import DelaySynth.Proofs.Rows

/-!
# Tables with the same durations

Which durations a table reaches, and with how many instructions, depends on the durations of its fillers
and not on the fillers. So two tables are compared by the durations of their rows. That there are more
rows of a duration, or other ones, in another order, makes no difference.

* `Reach.Dominates`: a table does whatever another one does, and no worse.
* `dominates_of_durations`: it does if its fillers last as long as those of the other one, and perhaps
  in other ways as well, and its budget is no smaller.
* `one_row_per_duration`: the table of the kept rows does the same as that of all admitted rows.
* `more_hardware_reaches_more`: a larger grant with a larger budget does no worse.
-/

namespace DelaySynth

/-- The table `t'` does whatever `t` does: it has the durations of `t`, with sequences that are no longer,
and answers the windows that `t` answers, no later. -/
structure Reach.Dominates (t' t : Reach) : Prop where
  bound : t.bound ≤ t'.bound
  reached : ∀ d, t.reachesInt d = true → t'.reachesInt d = true
  shorter : ∀ d items, t.sequenceInt? d = some items →
    ∃ items', t'.sequenceInt? d = some items' ∧ items'.length ≤ items.length
  top : t.top ≤ t'.top
  earlier : ∀ w g, t.lookupWindow w = some g →
    ∃ g', t'.lookupWindow w = some g' ∧ g'.duration ≤ g.duration

namespace Reach

/-! ## Fillers -/

variable {fillers fillers' : List Instruction} {budget budget' n d : Nat} {w : Window}

/-- A sequence is matched filler by filler. -/
theorem Within.of_durations
    (hsub : fillers.map Instruction.duration ⊆ fillers'.map Instruction.duration)
    (h : Within fillers n d) : Within fillers' n d := by
  obtain ⟨items, hitems, hlength, rfl⟩ := h
  obtain ⟨items', hitems', hsame, heq⟩ := exists_match_of_subset hsub hitems
  exact ⟨items', hitems', hsame ▸ hlength, by rw [heq]⟩

theorem longest_le_of_durations
    (hsub : fillers.map Instruction.duration ⊆ fillers'.map Instruction.duration) :
    longest fillers ≤ longest fillers' := by
  have hle : ∀ d ∈ fillers.map Instruction.duration, d ≤ longest fillers' := by
    intro d hd
    obtain ⟨other, hother, rfl⟩ := List.mem_map.mp (hsub hd)
    exact duration_le_longest hother
  rw [longest, List.foldl_eq_foldr]
  exact List.max_le_of_forall_le _ _ hle

theorem room_le_of_durations
    (hsub : fillers.map Instruction.duration ⊆ fillers'.map Instruction.duration)
    (hle : budget ≤ budget') : room fillers budget ≤ room fillers' budget' := by
  have := Nat.mul_le_mul hle (longest_le_of_durations hsub)
  simp only [room_eq_min]
  omega

theorem reaches_of_durations
    (hsub : fillers.map Instruction.duration ⊆ fillers'.map Instruction.duration)
    (hle : budget ≤ budget') (h : (ofFillers fillers budget).reaches d = true) :
    (ofFillers fillers' budget').reaches d = true := by
  obtain ⟨hroom, hd⟩ := reaches_ofFillers.mp h
  exact reaches_ofFillers.mpr
    ⟨Nat.lt_of_lt_of_le hroom (room_le_of_durations hsub hle), (hd.mono hle).of_durations hsub⟩

/-- Its sequence is among those that the other table chooses the shortest from. -/
theorem sequence?_of_durations
    (hsub : fillers.map Instruction.duration ⊆ fillers'.map Instruction.duration)
    (hle : budget ≤ budget') {items : List Instruction}
    (h : (ofFillers fillers budget).sequence? d = some items) :
    ∃ items', (ofFillers fillers' budget').sequence? d = some items' ∧
      items'.length ≤ items.length := by
  obtain ⟨hitems, hsum, -, -⟩ := shortest_of_sequence? h
  have hwithin : Within fillers items.length d := ⟨items, hitems, Nat.le_refl _, hsum⟩
  obtain ⟨items', hitems', -, -, hshortest⟩ :=
    sequence?_of_reaches (reaches_of_durations hsub hle (reaches_of_sequence? h))
  exact ⟨items', hitems', hshortest _ (hwithin.of_durations hsub)⟩

theorem lookupWindow_of_durations
    (hsub : fillers.map Instruction.duration ⊆ fillers'.map Instruction.duration)
    (hle : budget ≤ budget') {g : Group Code}
    (h : (ofFillers fillers budget).lookupWindow w = some g) :
    ∃ g', (ofFillers fillers' budget').lookupWindow w = some g' ∧ g'.duration ≤ g.duration := by
  obtain ⟨d, items, hitems, rfl, hmin, hmax⟩ := lookupWindow_eq_some h
  rw [Group.duration_unordered, (sequence?_ofFillers hitems).1]
  exact lookupWindow_le_of_reaches
    (reaches_of_durations hsub hle (reaches_of_sequence? hitems)) hmin hmax

theorem dominates_of_durations
    (hsub : fillers.map Instruction.duration ⊆ fillers'.map Instruction.duration)
    (hle : budget ≤ budget') : (ofFillers fillers' budget').Dominates (ofFillers fillers budget) where
  bound := by
    simp only [bound, size_ofFillers]
    exact room_le_of_durations hsub hle
  reached
    | .ofNat _, h => reaches_of_durations hsub hle h
  shorter
    | .ofNat _, _, h => sequence?_of_durations hsub hle h
  top := le_top_of_reaches
    (reaches_of_durations hsub hle (layer_ofFillers fillers budget).top)
  earlier _ _ h := lookupWindow_of_durations hsub hle h

/-! ## Rows -/

variable {rows rows' : List Row} {memory memory' : List String} {limit limit' : Nat}
  {s s' u u' : Session} {t t' : Reach} {c : Catalog} {granted granted' : ResourceSet}

theorem durations_fillers (memory : List String) (rows : List Row) :
    (rows.map (Row.filler memory)).map Instruction.duration = rows.map Row.duration := by
  rw [List.map_map]
  exact List.map_congr_left fun row _ => Row.duration_filler memory row

theorem dominates_of_computed (hsub : rows.map Row.duration ⊆ rows'.map Row.duration)
    (hle : budget ≤ budget') (h : (compute limit rows budget memory).run s = .ok t u)
    (h' : (compute limit' rows' budget' memory').run s' = .ok t' u') : t'.Dominates t := by
  obtain ⟨rfl, -⟩ := run_compute_eq_ok h
  obtain ⟨rfl, -⟩ := run_compute_eq_ok h'
  exact dominates_of_durations (by simpa only [durations_fillers] using hsub) hle

/-- Tables that dominate each other have sequences of the same lengths. -/
theorem Dominates.length_eq (h : t'.Dominates t) (h' : t.Dominates t') (d : Int) :
    (t.sequenceInt? d).map List.length = (t'.sequenceInt? d).map List.length := by
  cases hitems : t.sequenceInt? d with
  | some items =>
    obtain ⟨items', hitems', hle⟩ := h.shorter d items hitems
    obtain ⟨_, hsame, hge⟩ := h'.shorter d items' hitems'
    cases hitems.symm.trans hsame
    rw [hitems']
    exact congrArg some (Nat.le_antisymm hge hle)
  | none =>
    cases hitems' : t'.sequenceInt? d with
    | none => rfl
    | some items' =>
      obtain ⟨_, hsome, -⟩ := h'.shorter d items' hitems'
      cases hitems.symm.trans hsome

/-- Of the rows that a grant admits those are kept, in the order of the table, whose duration no admitted
row before them has. The table that is computed of them does not differ in its durations from the one
that is computed of all admitted rows, nor in the lengths of its sequences. -/
theorem one_row_per_duration (c : Catalog) (granted : ResourceSet) :
    c.available granted =
      (c.rows.zipIdx.filter fun p => Catalog.FirstOfDuration c.rows granted p).map Prod.fst ∧
    ∀ {limit limit' budget : Nat} {memory : List String} {s s' u u' : Session} {t t' : Reach},
      (compute limit (c.available granted) budget memory).run s = .ok t u →
      (compute limit' (c.admissible granted) budget memory).run s' = .ok t' u' →
      t.bound = t'.bound ∧ (∀ d, t.reachesInt d = t'.reachesInt d) ∧ t.top = t'.top ∧
        ∀ d, (t.sequenceInt? d).map List.length = (t'.sequenceInt? d).map List.length := by
  refine ⟨c.available_eq granted, fun h h' => ?_⟩
  have hkept : (c.available granted).map Row.duration ⊆ (c.admissible granted).map Row.duration :=
    fun _ => Catalog.mem_durations_available.mp
  have hall : (c.admissible granted).map Row.duration ⊆ (c.available granted).map Row.duration :=
    fun _ => Catalog.mem_durations_available.mpr
  have hdominated := dominates_of_computed hkept (Nat.le_refl _) h h'
  have hdominates := dominates_of_computed hall (Nat.le_refl _) h' h
  refine ⟨Nat.le_antisymm hdominated.bound hdominates.bound, fun d => ?_,
    Nat.le_antisymm hdominated.top hdominates.top, hdominated.length_eq hdominates⟩
  exact Bool.eq_iff_iff.mpr ⟨hdominated.reached d, hdominates.reached d⟩

/-- A second row of four cycles is dropped, and nothing is lost. -/
theorem one_row_per_duration_copy : ∃ c : Catalog, c.available ∅ ≠ c.admissible ∅ ∧ ∃ t u t' u',
    (compute 100 (c.available ∅) 3 []).run {} = .ok t u ∧
    (compute 100 (c.admissible ∅) 3 []).run {} = .ok t' u' ∧
    t.bound = t'.bound ∧ (∀ d, t.reachesInt d = t'.reachesInt d) ∧ t.top = t'.top ∧
    ∀ d, (t.sequenceInt? d).map List.length = (t'.sequenceInt? d).map List.length := by
  let c : Catalog :=
    ⟨[⟨"NOP", 4, 1, ∅, true⟩, ⟨"CMP A", 4, 1, ∅, true⟩, ⟨"CPI 8b", 7, 2, ∅, true⟩]⟩
  have hkept : ∃ t u, (compute 100 (c.available ∅) 3 []).run {} = .ok t u :=
    exists_of_computed (by decide +kernel)
  have hall : ∃ t u, (compute 100 (c.admissible ∅) 3 []).run {} = .ok t u :=
    exists_of_computed (by decide +kernel)
  obtain ⟨t, u, h⟩ := hkept
  obtain ⟨t', u', h'⟩ := hall
  exact ⟨c, by decide +kernel, t, u, t', u', h, h', (one_row_per_duration c ∅).2 h h'⟩

/-- With more hardware and more instructions a table does whatever it does with less, although other
rows may be kept. -/
theorem more_hardware_reaches_more (hgranted : granted ⊆ granted') (hbudget : budget ≤ budget')
    (h : (compute limit (c.available granted) budget memory).run s = .ok t u)
    (h' : (compute limit' (c.available granted') budget' memory').run s' = .ok t' u') :
    t'.Dominates t :=
  dominates_of_computed (Catalog.durations_available_mono hgranted) hbudget h h'

/-- With the register B the first row of seven cycles is another one, so the two tables have no row in
common. -/
theorem more_hardware_reaches_more_disjoint : ∃ (c : Catalog) (granted : ResourceSet),
    ∅ ⊆ granted ∧ 2 ≤ 3 ∧ (∀ row ∈ c.available granted, row ∉ c.available ∅) ∧ ∃ t u t' u',
      (compute 100 (c.available ∅) 2 []).run {} = .ok t u ∧
      (compute 100 (c.available granted) 3 []).run {} = .ok t' u' ∧ t'.Dominates t := by
  let c : Catalog := ⟨[⟨"MVI B,8b", 7, 2, .insert ∅ .b, true⟩, ⟨"CPI 8b", 7, 2, ∅, true⟩]⟩
  have hless : ∃ t u, (compute 100 (c.available ∅) 2 []).run {} = .ok t u :=
    exists_of_computed (by decide +kernel)
  have hmore : ∃ t u, (compute 100 (c.available (.insert ∅ .b)) 3 []).run {} = .ok t u :=
    exists_of_computed (by decide +kernel)
  obtain ⟨t, u, h⟩ := hless
  obtain ⟨t', u', h'⟩ := hmore
  have hgranted : ∅ ⊆ ResourceSet.insert ∅ .b := by decide
  have hdisjoint : ∀ row ∈ c.available (.insert ∅ .b), row ∉ c.available ∅ := by decide +kernel
  exact ⟨c, _, hgranted, by decide, hdisjoint, t, u, t', u', h, h',
    more_hardware_reaches_more hgranted (by decide) h h'⟩

end Reach

end DelaySynth
