import DelaySynth.Resource

/-!
# Laws of resource sets

A set is read through its registers and its bits for memory and the stack. Inserting and erasing
registers leaves the upper bits alone, and granting memory or the stack leaves the registers alone.

* `registerCount_of_mem_iff`: with one register more, there is one register more.
* `mem_ofResources`: the registers that a list grants are those that it offers.
* `getLsbD_ofResources`: the other bits, likewise.
-/

namespace DelaySynth

theorem Register.named_of_ofLetter? {c : Char} {r : Register} (h : Register.ofLetter? c = some r) :
    r.Named := by
  obtain ⟨i, hi, rfl⟩ := Option.map_eq_some_iff.mp h
  exact (List.idxOf?_eq_some_iff.mp hi).1

theorem Register.named_of_ofName? {name : String} {r : Register}
    (h : Register.ofName? name = some r) : r.Named := by
  unfold Register.ofName? at h
  split at h
  · exact Register.named_of_ofLetter? h
  · cases h

namespace ResourceSet

variable {s t : ResourceSet} {r q : Register}

theorem mem_iff : q ∈ s ↔ q.Named ∧ s.bits.getLsbD q.number = true := Iff.rfl

@[simp] theorem not_mem_empty : q ∉ (∅ : ResourceSet) := by
  rw [mem_iff]
  show ¬(q.Named ∧ (0 : BitVec 16).getLsbD q.number = true)
  simp

theorem subset_iff : s ⊆ t ↔ ∀ i, s.bits.getLsbD i = true → t.bits.getLsbD i = true := by
  show s.bits &&& t.bits = s.bits ↔ _
  constructor
  · intro h i hi
    rw [← h, BitVec.getLsbD_and] at hi
    exact ((Bool.and_eq_true _ _).mp hi).2
  · intro h
    apply BitVec.eq_of_getLsbD_eq
    intro i _
    rw [BitVec.getLsbD_and]
    have := h i
    cases hs : s.bits.getLsbD i <;> simp_all

theorem mem_of_subset (h : s ⊆ t) (hq : q ∈ s) : q ∈ t :=
  ⟨hq.1, subset_iff.mp h _ hq.2⟩

/-! ## Registers -/

theorem getLsbD_addBit {i j : Nat} (hi : i < 16) :
    (s.addBit i).bits.getLsbD j = (s.bits.getLsbD j || decide (j = i)) := by
  rw [addBit, BitVec.getLsbD_or, BitVec.getLsbD_twoPow]
  by_cases hj : j = i
  · simp [hj, hi]
  · simp [hj, Ne.symm hj]

theorem mem_insert : q ∈ s.insert r ↔ q ∈ s ∨ q = r ∧ r.Named := by
  unfold insert
  split
  · rename_i hr
    have hlt : r.number < 16 := by
      have : r.number < Register.count := hr
      simp [Register.count] at this
      omega
    rw [mem_iff, mem_iff, getLsbD_addBit hlt, Register.ext_iff]
    simp only [Bool.or_eq_true, decide_eq_true_eq, hr, and_true]
    constructor
    · rintro ⟨hq, h | h⟩
      · exact .inl ⟨hq, h⟩
      · exact .inr h
    · rintro (⟨hq, h⟩ | h)
      · exact ⟨hq, .inl h⟩
      · refine ⟨?_, .inr h⟩
        rw [Register.ext h]
        exact hr
  · rename_i hr
    simp [hr]

theorem mem_erase : q ∈ s.erase r ↔ q ∈ s ∧ q ≠ r := by
  unfold erase
  split
  · rename_i hr
    rw [mem_iff, mem_iff, Ne, Register.ext_iff]
    simp only [BitVec.getLsbD_and, BitVec.getLsbD_not, BitVec.getLsbD_twoPow]
    constructor
    · rintro ⟨hq, h⟩
      simp only [Bool.and_eq_true, Bool.not_eq_true'] at h
      refine ⟨⟨hq, h.1⟩, fun heq => ?_⟩
      simp [heq] at h
      grind
    · rintro ⟨⟨hq, h⟩, hne⟩
      refine ⟨hq, ?_⟩
      have hlt := BitVec.lt_of_getLsbD h
      simp [h, hlt, Ne.symm hne]
  · rename_i hr
    constructor
    · intro h
      refine ⟨h, ?_⟩
      rintro rfl
      exact hr h.1
    · exact fun h => h.1

/-- The set without some registers. -/
def eraseAll (s : ResourceSet) (rs : List Register) : ResourceSet :=
  rs.foldl erase s

@[simp] theorem eraseAll_nil : s.eraseAll [] = s := rfl

theorem eraseAll_append (rs qs : List Register) :
    s.eraseAll (rs ++ qs) = (s.eraseAll rs).eraseAll qs :=
  List.foldl_append

theorem getLsbD_of_erase {i : Nat} (h : (s.erase r).bits.getLsbD i = true) :
    s.bits.getLsbD i = true := by
  unfold erase at h
  split at h
  · rw [BitVec.getLsbD_and] at h
    exact ((Bool.and_eq_true _ _).mp h).1
  · exact h

theorem eraseAll_subset (rs : List Register) : s.eraseAll rs ⊆ s := by
  refine subset_iff.mpr fun i hi => ?_
  induction rs generalizing s with
  | nil => exact hi
  | cons r rs ih => exact getLsbD_of_erase (ih hi)

theorem subset_trans {u : ResourceSet} (hst : s ⊆ t) (htu : t ⊆ u) : s ⊆ u :=
  subset_iff.mpr fun i hi => subset_iff.mp htu i (subset_iff.mp hst i hi)

theorem mem_eraseAll {rs : List Register} : q ∈ s.eraseAll rs ↔ q ∈ s ∧ q ∉ rs := by
  induction rs generalizing s with
  | nil => simp
  | cons r rs ih =>
    show q ∈ (s.erase r).eraseAll rs ↔ _
    rw [ih, mem_erase, List.mem_cons]
    grind

theorem registerCount_le (s : ResourceSet) : s.registerCount ≤ Register.count :=
  List.length_filter_le _ _

/-- With one register more, a set has one register more. -/
theorem registerCount_of_mem_iff {s t : ResourceSet} {r : Register} (hmissing : r ∉ s)
    (h : ∀ q : Register, q ∈ t ↔ q ∈ s ∨ q = r) : t.registerCount = s.registerCount + 1 := by
  have hnodup : Register.all.Nodup := by decide
  have ht : t.registers.Nodup := hnodup.filter _
  have hs : (r :: s.registers).Nodup :=
    List.nodup_cons.mpr ⟨by simpa using hmissing, hnodup.filter _⟩
  have hperm : t.registers.Perm (r :: s.registers) := by
    refine (List.perm_ext_iff_of_nodup ht hs).mpr fun q => ?_
    rw [mem_registers, h, List.mem_cons, mem_registers, or_comm]
  exact hperm.length_eq

theorem mem_foldl_insert {rs : List Register} :
    q ∈ rs.foldl insert s ↔ q ∈ s ∨ q ∈ rs ∧ q.Named := by
  induction rs generalizing s with
  | nil => simp
  | cons r rs ih =>
    rw [List.foldl_cons, ih, mem_insert, List.mem_cons]
    grind

/-! ## Memory and stack -/

theorem getLsbD_insert {i : Nat} (hi : Register.count ≤ i) :
    (s.insert r).bits.getLsbD i = s.bits.getLsbD i := by
  unfold insert
  split
  · rename_i hr
    have hlt : r.number < Register.count := hr
    rw [getLsbD_addBit (by simp [Register.count] at hlt; omega)]
    simp
    omega
  · rfl

theorem getLsbD_foldl_insert {i : Nat} (hi : Register.count ≤ i) (rs : List Register) :
    (rs.foldl insert s).bits.getLsbD i = s.bits.getLsbD i := by
  induction rs generalizing s with
  | nil => rfl
  | cons r rs ih => rw [List.foldl_cons, ih, getLsbD_insert hi]

theorem mem_addBit {i : Nat} (hi : Register.count ≤ i) (hlt : i < 16) :
    q ∈ s.addBit i ↔ q ∈ s := by
  rw [mem_iff, mem_iff, getLsbD_addBit hlt]
  constructor
  · rintro ⟨hq, h⟩
    have hne : q.number ≠ i := by
      have : q.number < Register.count := hq
      omega
    exact ⟨hq, by simpa [hne] using h⟩
  · rintro ⟨hq, h⟩
    exact ⟨hq, by simp [h]⟩

theorem mem_addMemory {n : Nat} : q ∈ s.addMemory n ↔ q ∈ s := by
  unfold addMemory
  split
  · rfl
  · exact mem_addBit (by decide) (by decide)
  · rw [mem_addBit (by decide) (by decide), mem_addBit (by decide) (by decide)]

theorem mem_addStack : q ∈ s.addStack ↔ q ∈ s :=
  mem_addBit (by decide) (by decide)

/-- The registers that are read from a list, where nothing else is read than registers with a name. -/
theorem mem_foldl_insert_filterMap {α : Type} {read : α → Option Register}
    (hread : ∀ x r, read x = some r → r.Named) {xs : List α} :
    q ∈ (xs.filterMap read).foldl insert ∅ ↔ ∃ x ∈ xs, read x = some q := by
  rw [mem_foldl_insert, List.mem_filterMap]
  simp only [not_mem_empty, false_or]
  exact ⟨fun h => h.1, fun h => ⟨h, h.elim fun x hx => hread x q hx.2⟩⟩

theorem named_of_register? {p : Resource} (h : p.register? = some r) : r.Named := by
  unfold Resource.register? at h
  split at h
  · exact Register.named_of_ofName? h
  · cases h

theorem mem_ofResources {rs : List Resource} :
    q ∈ ofResources rs ↔ ∃ p ∈ rs, p.register? = some q := by
  have hregisters : q ∈ (rs.filterMap Resource.register?).foldl insert ∅ ↔
      ∃ p ∈ rs, p.register? = some q :=
    mem_foldl_insert_filterMap fun _ _ => named_of_register?
  unfold ofResources
  simp only
  split
  · rw [mem_addStack, mem_addMemory, hregisters]
  · rw [mem_addMemory, hregisters]

theorem getLsbD_empty (i : Nat) : (∅ : ResourceSet).bits.getLsbD i = false :=
  BitVec.getLsbD_zero

theorem getLsbD_addMemory {n i : Nat} : (s.addMemory n).bits.getLsbD i = true ↔
    s.bits.getLsbD i = true ∨ i = memoryBit ∧ 0 < n ∨ i = pairBit ∧ 1 < n := by
  unfold addMemory
  split
  · simp
  · rw [getLsbD_addBit (by decide)]
    simp
  · rename_i h0 h1
    have hn : 1 < n := by
      have : n ≠ 0 := h0
      have : n ≠ 1 := h1
      omega
    have hn' : 0 < n := by omega
    rw [getLsbD_addBit (by decide), getLsbD_addBit (by decide)]
    simp [hn, hn', or_assoc]

/-- Registers have no part in the upper bits. -/
theorem getLsbD_addMemory_foldl {n i : Nat} (hi : Register.count ≤ i) (rs : List Register) :
    ((rs.foldl insert ∅).addMemory n).bits.getLsbD i = true ↔
      i = memoryBit ∧ 0 < n ∨ i = pairBit ∧ 1 < n := by
  rw [getLsbD_addMemory, getLsbD_foldl_insert hi, getLsbD_empty]
  simp

theorem cellsGranted_pos {addresses : List String} :
    0 < cellsGranted addresses ↔ addresses ≠ [] := by
  unfold cellsGranted
  split
  · rename_i h
    obtain ⟨a, ha⟩ := Option.isSome_iff_exists.mp h
    have hmem := List.mem_of_find?_eq_some ha
    simp only [Nat.zero_lt_succ, true_iff]
    exact List.ne_nil_of_mem hmem
  · cases addresses <;> simp

theorem one_lt_cellsGranted {addresses : List String} :
    1 < cellsGranted addresses ↔ (Address.adjacentPair? addresses).isSome := by
  unfold cellsGranted
  split
  · simp_all
  · rename_i h
    simp only [h, Bool.false_eq_true, iff_false]
    omega

/-- The bits above the registers: memory and the stack as the list offers them, and no others. -/
theorem getLsbD_ofResources {rs : List Resource} {i : Nat} (hi : Register.count ≤ i) :
    (ofResources rs).bits.getLsbD i = true ↔
      i = memoryBit ∧ Resource.addresses rs ≠ [] ∨
      i = pairBit ∧ (Address.adjacentPair? (Resource.addresses rs)).isSome ∨
      i = stackBit ∧ rs.any Resource.offersStack = true := by
  rw [← cellsGranted_pos, ← one_lt_cellsGranted]
  have hcells := getLsbD_addMemory_foldl (n := cellsGranted (Resource.addresses rs)) hi
    (rs.filterMap Resource.register?)
  unfold ofResources
  simp only
  split
  · rename_i hstack
    rw [addStack, getLsbD_addBit (by decide), Bool.or_eq_true, hcells, decide_eq_true_eq]
    simp [hstack, or_assoc]
  · rename_i hstack
    rw [hcells]
    simp [hstack]

theorem hasStack_ofResources (rs : List Resource) :
    (ofResources rs).hasStack = rs.any Resource.offersStack := by
  rw [Bool.eq_iff_iff]
  show (ofResources rs).bits.getLsbD stackBit = true ↔ _
  rw [getLsbD_ofResources (by decide)]
  simp [stackBit, memoryBit, pairBit]

/-- What lies side by side in a part of a list lies side by side in the whole. -/
theorem isSome_adjacentPair?_of_sublist {xs ys : List String} (h : xs.Sublist ys)
    (hx : (Address.adjacentPair? xs).isSome) : (Address.adjacentPair? ys).isSome := by
  unfold Address.adjacentPair? at hx ⊢
  rw [List.find?_isSome] at hx ⊢
  obtain ⟨a, ha, hnext⟩ := hx
  refine ⟨a, h.subset ha, ?_⟩
  rw [Option.any_eq_true] at hnext ⊢
  obtain ⟨v, hv, hany⟩ := hnext
  obtain ⟨b, hb, hvalue⟩ := List.any_eq_true.mp hany
  exact ⟨v, hv, List.any_eq_true.mpr ⟨b, h.subset hb, hvalue⟩⟩

/-- With fewer addresses and no new stack, a list grants nothing more than it did, registers
aside. -/
theorem getLsbD_ofResources_mono {rs qs : List Resource}
    (haddresses : (Resource.addresses rs).Sublist (Resource.addresses qs))
    (hstack : rs.any Resource.offersStack = true → qs.any Resource.offersStack = true) {i : Nat}
    (hi : Register.count ≤ i) (h : (ofResources rs).bits.getLsbD i = true) :
    (ofResources qs).bits.getLsbD i = true := by
  rw [getLsbD_ofResources hi] at h ⊢
  rcases h with ⟨rfl, h⟩ | ⟨rfl, h⟩ | ⟨rfl, h⟩
  · refine .inl ⟨rfl, fun hnil => h ?_⟩
    rw [hnil] at haddresses
    exact List.sublist_nil.mp haddresses
  · exact .inr (.inl ⟨rfl, isSome_adjacentPair?_of_sublist haddresses h⟩)
  · exact .inr (.inr ⟨rfl, hstack h⟩)

end ResourceSet

end DelaySynth
