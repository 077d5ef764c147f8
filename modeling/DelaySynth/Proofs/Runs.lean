import DelaySynth.Search.Session

/-!
# Runs of computations

The search and the saving of registers are computations that may fail and that change a state either
way. These views of their runs carry the proofs about them.

* `run_bind_eq_ok` and its companions take a run that returned apart, step by step.
* `Ensures I E x P` says that `x` keeps an invariant `I` of the state, also when it fails, that what it
  returns satisfies `P`, and that it fails with `E` only, which may also tell of the state that it is
  left in. It composes along `>>=` (`Ensures.bind`).
* `Agree S R x x'` says that `x` and `x'` run in lockstep from states that `S` relates, and return what
  `R` relates. It composes along `>>=` as well (`Agree.bind`).
* `Answers P found` says that a search has found something with `P` unless there is nothing.
-/

namespace DelaySynth

variable {ε σ α β : Type}

/-! ## Runs that return -/

theorem run_bind_eq_ok {x : EStateM ε σ α} {f : α → EStateM ε σ β} {s t : σ} {b : β} :
    (x >>= f).run s = .ok b t ↔ ∃ a u, x.run s = .ok a u ∧ (f a).run u = .ok b t := by
  rw [EStateM.run_bind]
  cases h : x.run s with
  | ok a u =>
    constructor
    · intro hf
      exact ⟨a, u, rfl, hf⟩
    · rintro ⟨_, _, ⟨⟩, hf⟩
      exact hf
  | error e u => simp

theorem run_bind_of_ok {x : EStateM ε σ α} {f : α → EStateM ε σ β} {s t : σ} {a : α}
    (h : x.run s = .ok a t) : (x >>= f).run s = (f a).run t := by
  rw [EStateM.run_bind, h]

theorem run_bind_eq_error {x : EStateM ε σ α} {f : α → EStateM ε σ β} {s t : σ} {e : ε} :
    (x >>= f).run s = .error e t ↔
      x.run s = .error e t ∨ ∃ a u, x.run s = .ok a u ∧ (f a).run u = .error e t := by
  rw [EStateM.run_bind]
  cases h : x.run s with
  | ok a u =>
    constructor
    · intro hf
      exact .inr ⟨a, u, rfl, hf⟩
    · rintro (⟨⟨⟩⟩ | ⟨_, _, ⟨⟩, hf⟩)
      exact hf
  | error e u => simp

theorem run_pure_eq_ok {s t : σ} {a b : α} :
    (pure a : EStateM ε σ α).run s = .ok b t ↔ a = b ∧ s = t := by
  rw [EStateM.run_pure]
  simp

theorem run_throw_ne_ok {e : ε} {s t : σ} {a : α} :
    (throw e : EStateM ε σ α).run s ≠ .ok a t := by
  intro h
  cases h

theorem run_get_eq_ok {s t u : σ} :
    (get : EStateM ε σ σ).run s = .ok t u ↔ s = t ∧ s = u := by
  rw [EStateM.run_get]
  simp

theorem run_modify_eq_ok {f : σ → σ} {s t : σ} {x : PUnit} :
    (modify f : EStateM ε σ PUnit).run s = .ok x t ↔ f s = t := by
  rw [EStateM.run_modify]
  simp

theorem SearchM.run_ofCatalog_eq_ok {e : Except CatalogError α} {s t : Session} {a : α} :
    (SearchM.ofCatalog e).run s = .ok a t ↔ e = .ok a ∧ s = t := by
  cases e with
  | ok b => rw [SearchM.ofCatalog, run_pure_eq_ok]; simp
  | error e => simpa [SearchM.ofCatalog] using run_throw_ne_ok

/-- The session when some more steps are counted. -/
def Session.charged (s : Session) (count : Nat) : Session :=
  { s with stats := { s.stats with steps := min (s.stats.steps + count) SearchM.maxSteps } }

theorem SearchM.run_charge (limit count : Nat) (s : Session) :
    (charge limit count).run s =
      if limit < (s.charged count).stats.steps then .error (.searchLimit limit) (s.charged count)
      else .ok () (s.charged count) := by
  have hrecord : (record fun s => { s with steps := min (s.steps + count) maxSteps }).run s =
      .ok () (s.charged count) := rfl
  unfold charge
  rw [run_bind_of_ok hrecord, EStateM.run_bind, EStateM.run_get]
  simp only [GT.gt]
  split <;> rfl

theorem SearchM.run_charge_eq_ok {limit count : Nat} {s t : Session} {u : Unit}
    (h : (charge limit count).run s = .ok u t) : t = s.charged count ∧ t.stats.steps ≤ limit := by
  rw [run_charge] at h
  split at h
  · cases h
  · rename_i hle
    cases h
    exact ⟨rfl, Nat.le_of_not_lt hle⟩

/-! ## Invariants of runs -/

/-- From a state with `I`, the computation ends in a state with `I`. What it returns satisfies `P`, or
it fails with an error that satisfies `E` together with that state. -/
def Ensures (I : σ → Prop) (E : ε → σ → Prop) (x : EStateM ε σ α) (P : α → Prop) : Prop :=
  ∀ s, I s → match x.run s with
    | .ok a t => I t ∧ P a
    | .error e t => I t ∧ E e t

namespace Ensures

variable {I : σ → Prop} {E : ε → σ → Prop} {x : EStateM ε σ α} {P Q : α → Prop}

theorem of_ok (h : Ensures I E x P) {s t : σ} {a : α} (hs : I s) (hx : x.run s = .ok a t) :
    I t ∧ P a := by
  have := h s hs
  rwa [hx] at this

theorem of_error (h : Ensures I E x P) {s t : σ} {e : ε} (hs : I s) (hx : x.run s = .error e t) :
    I t ∧ E e t := by
  have := h s hs
  rwa [hx] at this

theorem mono (h : Ensures I E x P) (hPQ : ∀ a, P a → Q a) : Ensures I E x Q := by
  intro s hs
  have := h s hs
  split at this
  · exact ⟨this.1, hPQ _ this.2⟩
  · exact this

theorem of_pure {a : α} (h : P a) : Ensures I E (pure a : EStateM ε σ α) P :=
  fun _ hs => ⟨hs, h⟩

theorem of_throw {e : ε} (h : ∀ s, I s → E e s) : Ensures I E (throw e : EStateM ε σ α) P :=
  fun s hs => ⟨hs, h s hs⟩

theorem of_get : Ensures I E (get : EStateM ε σ σ) I :=
  fun _ hs => ⟨hs, hs⟩

theorem of_modify {f : σ → σ} (h : ∀ s, I s → I (f s)) :
    Ensures I E (modify f : EStateM ε σ PUnit) fun _ => True :=
  fun s hs => ⟨h s hs, trivial⟩

theorem bind {f : α → EStateM ε σ β} {R : β → Prop} (hx : Ensures I E x P)
    (hf : ∀ a, P a → Ensures I E (f a) R) : Ensures I E (x >>= f) R := by
  intro s hs
  rw [EStateM.run_bind]
  cases h : x.run s with
  | ok a t =>
    obtain ⟨ht, ha⟩ := hx.of_ok hs h
    exact hf a ha t ht
  | error e t => exact hx.of_error hs h

theorem map {f : α → β} {R : β → Prop} (hx : Ensures I E x P) (hf : ∀ a, P a → R (f a)) :
    Ensures I E (f <$> x) R := by
  rw [map_eq_pure_bind]
  exact hx.bind fun a ha => of_pure (hf a ha)

end Ensures

namespace SearchM

variable {I : Session → Prop}

theorem ensures_ofCatalog (x : Except CatalogError α) :
    Ensures I (fun _ _ => True) (ofCatalog x) fun _ => True := by
  cases x with
  | ok a => exact .of_pure trivial
  | error e => exact .of_throw fun _ _ => trivial

/-- Steps are counted whether or not there are too many of them. -/
theorem ensures_charge (limit : Nat) {count : Nat} (hI : ∀ s, I s → I (s.charged count)) :
    Ensures I (fun _ _ => True) (charge limit count) fun _ => True := by
  intro s hs
  rw [run_charge]
  by_cases hlimit : limit < (s.charged count).stats.steps
  · rw [if_pos hlimit]
    exact ⟨hI s hs, trivial⟩
  · rw [if_neg hlimit]
    exact ⟨hI s hs, trivial⟩

end SearchM

/-! ## Two runs in lockstep -/

/-- Both runs return what `R` relates, or both fail with the same error. Either way they end in states
that `S` relates. -/
inductive Lockstep {α' : Type} (S : σ → σ → Prop) (R : α → α' → Prop) :
    EStateM.Result ε σ α → EStateM.Result ε σ α' → Prop
  | ok {a : α} {a' : α'} {s s' : σ} (state : S s s') (value : R a a') :
      Lockstep S R (.ok a s) (.ok a' s')
  | error {e : ε} {s s' : σ} (state : S s s') : Lockstep S R (.error e s) (.error e s')

/-- The runs of two computations from states that `S` relates are in lockstep. -/
def Agree {α' : Type} (S : σ → σ → Prop) (R : α → α' → Prop) (x : EStateM ε σ α)
    (x' : EStateM ε σ α') : Prop :=
  ∀ s s', S s s' → Lockstep S R (x.run s) (x'.run s')

namespace Agree

variable {α' β' : Type} {S : σ → σ → Prop} {R : α → α' → Prop} {Q : β → β' → Prop}

theorem of_pure {a : α} {a' : α'} (h : R a a') :
    Agree S R (pure a : EStateM ε σ α) (pure a' : EStateM ε σ α') :=
  fun _ _ hs => .ok hs h

theorem of_throw (e : ε) : Agree S R (throw e : EStateM ε σ α) (throw e : EStateM ε σ α') :=
  fun _ _ hs => .error hs

theorem of_get : Agree S S (get : EStateM ε σ σ) (get : EStateM ε σ σ) :=
  fun _ _ hs => .ok hs hs

theorem of_modify {f f' : σ → σ} (h : ∀ s s', S s s' → S (f s) (f' s')) :
    Agree S Eq (modify f : EStateM ε σ PUnit) (modify f' : EStateM ε σ PUnit) :=
  fun s s' hs => .ok (h s s' hs) rfl

/-- A computation runs in lockstep with itself. -/
theorem refl (x : EStateM ε σ α) : Agree Eq Eq x x := by
  rintro s _ rfl
  cases x.run s with
  | ok a t => exact .ok rfl rfl
  | error e t => exact .error rfl

theorem bind {x : EStateM ε σ α} {x' : EStateM ε σ α'} {f : α → EStateM ε σ β}
    {f' : α' → EStateM ε σ β'} (hx : Agree S R x x') (hf : ∀ a a', R a a' → Agree S Q (f a) (f' a')) :
    Agree S Q (x >>= f) (x' >>= f') := by
  intro s s' hs
  have hrun := hx s s' hs
  rw [EStateM.run_bind, EStateM.run_bind]
  generalize x.run s = result, x'.run s' = result' at hrun
  cases hrun with
  | ok state value => exact hf _ _ value _ _ state
  | error state => exact .error state

/-- Where nothing is told apart, the runs are the same. -/
theorem run_eq {x x' : EStateM ε σ α} (h : Agree Eq Eq x x') (s : σ) : x.run s = x'.run s := by
  have hrun := h s s rfl
  generalize x.run s = result, x'.run s = result' at hrun
  cases hrun with
  | ok state value => rw [state, value]
  | error state => rw [state]

end Agree

/-! ## Searches that leave nothing out -/

/-- What a search answers with satisfies `P`, and if there is no answer then nothing does. -/
structure Answers (P : α → Prop) (found : Option α) : Prop where
  sound : ∀ a ∈ found, P a
  complete : found = none → ∀ a, ¬P a

namespace Answers

variable {P Q : α → Prop} {found : Option α}

theorem of_some {a : α} (h : P a) : Answers P (some a) := by
  refine ⟨?_, nofun⟩
  rintro _ ⟨⟩
  exact h

theorem of_none (h : ∀ a, ¬P a) : Answers P none :=
  ⟨nofun, fun _ => h⟩

theorem congr (h : Answers P found) (heq : ∀ a, P a ↔ Q a) : Answers Q found :=
  ⟨fun a ha => (heq a).mp (h.sound a ha), fun hnone a ha => h.complete hnone a ((heq a).mpr ha)⟩

end Answers

end DelaySynth
