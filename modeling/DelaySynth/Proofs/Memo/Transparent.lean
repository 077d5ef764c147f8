import DelaySynth.Proofs.Memo.Operations
import DelaySynth.Proofs.StepLimit

/-!
# Kept tables are transparent

Tables are kept across all depths, counters, attempts and grants of a session. Since the key of a table
holds all that it is computed from, nothing but the number of steps depends on what is kept.

* `Follows`: a search without kept tables is followed by one with them, and that takes no more steps.
* `Session.Transparent`: how a session answers queries.
* `memo_transparent`: all sessions answer like that, and builds do not depend on what is kept.
-/

namespace DelaySynth

open SearchM

/-! ## Searches without kept tables -/

/-- The session `s` keeps faithful tables, and it has come as far as `s'`, which keeps none, in no more
steps. -/
structure Session.Ahead (c : Catalog) (limit : Nat) (s s' : Session) : Prop where
  faithful : s.Faithful c
  empty : s'.tables = []
  steps_le : s.stats.steps ≤ s'.stats.steps
  within : s'.Within limit

namespace Session.Ahead

variable {c : Catalog} {limit : Nat} {s s' : Session}

theorem initial (c : Catalog) (limit : Nat) : Session.Ahead c limit {} {} :=
  ⟨faithful_empty, rfl, Nat.le_refl _, Nat.zero_le _, Nat.zero_le _⟩

theorem lookup_eq_none (h : Session.Ahead c limit s s') (key : TableKey) :
    s'.tables.lookup key = none := by
  rw [h.empty]
  rfl

theorem computed (h : Session.Ahead c limit s s') (keep : Bool) (key : TableKey) :
    Session.Ahead c limit (s.computed keep key (Reach.ofKey c key))
      (s'.computed false key (Reach.ofKey c key)) :=
  ⟨h.faithful.computed keep key, h.empty, h.steps_le, h.within.le_limit, h.within.le_max⟩

end Session.Ahead

/-- Whatever `x'` does in a session without tables, `x` does in a session that is ahead of it, unless
the limit of steps stops `x'`. -/
structure Follows {α : Type} (c : Catalog) (limit : Nat) (x x' : SearchM α) : Prop where
  ok : ∀ {s s' a t'}, Session.Ahead c limit s s' → x'.run s' = .ok a t' →
    ∃ t, x.run s = .ok a t ∧ t.Ahead c limit t'
  error : ∀ {s s' e t'}, Session.Ahead c limit s s' → x'.run s' = .error e t' →
    (∃ n, e = .searchLimit n) ∨ ∃ t, x.run s = .error e t

namespace Follows

variable {c : Catalog} {limit : Nat} {α β : Type}

theorem pure (a : α) : Follows c limit (pure a) (pure a) where
  ok {s _ _ _} hs h := by
    obtain ⟨rfl, rfl⟩ := run_pure_eq_ok.mp h
    exact ⟨s, rfl, hs⟩
  error _ h := by cases h

theorem ofCatalog (x : Except CatalogError α) : Follows c limit (ofCatalog x) (ofCatalog x) := by
  cases x with
  | ok a => exact pure a
  | error e =>
    exact
      { ok := fun _ h => by cases h
        error := fun {s _ _ _} _ h => by
          cases h
          exact .inr ⟨s, rfl⟩ }

theorem record {f : Stats → Stats} (hf : Stats.Bookkeeping f) :
    Follows c limit (record f) (record f) where
  ok {s s' _ _} hs h := by
    obtain rfl := run_modify_eq_ok.mp h
    refine ⟨_, rfl, hs.faithful, hs.empty, ?_, ?_, ?_⟩ <;> simp only [hf.steps]
    · exact hs.steps_le
    · exact hs.within.le_limit
    · exact hs.within.le_max
  error _ h := by cases h

/-- What is not stopped with more steps is not stopped with fewer. -/
theorem charge (count : Nat) : Follows c limit (charge limit count) (charge limit count) where
  ok {s s' _ _} hs h := by
    obtain ⟨rfl, hle⟩ := run_charge_eq_ok h
    have hsteps : (s.charged count).stats.steps ≤ (s'.charged count).stats.steps := by
      have hbefore := hs.steps_le
      show min (s.stats.steps + count) maxSteps ≤ min (s'.stats.steps + count) maxSteps
      omega
    refine ⟨s.charged count, ?_, hs.faithful, hs.empty, hsteps, hle, Nat.min_le_right _ _⟩
    rw [run_charge, if_neg (Nat.not_lt.mpr (Nat.le_trans hsteps hle))]
  error _ h := by
    rw [run_charge] at h
    split at h <;> cases h
    exact .inl ⟨_, rfl⟩

theorem bind {x x' : SearchM α} {f f' : α → SearchM β} (hx : Follows c limit x x')
    (hf : ∀ a, Follows c limit (f a) (f' a)) : Follows c limit (x >>= f) (x' >>= f') where
  ok hs h := by
    obtain ⟨a, u', hfirst, hsecond⟩ := run_bind_eq_ok.mp h
    obtain ⟨u, hrun, hu⟩ := hx.ok hs hfirst
    rw [run_bind_of_ok hrun]
    exact (hf a).ok hu hsecond
  error {s s' e t'} hs h := by
    rw [EStateM.run_bind] at h
    cases hfirst : x'.run s' with
    | ok a u' =>
      rw [hfirst] at h
      obtain ⟨u, hrun, hu⟩ := hx.ok hs hfirst
      rw [run_bind_of_ok hrun]
      exact (hf a).error hu h
    | error e u' =>
      rw [hfirst] at h
      cases h
      refine (hx.error hs hfirst).imp id ?_
      rintro ⟨u, hrun⟩
      exact ⟨u, by rw [EStateM.run_bind, hrun]⟩

theorem searchRelation : SearchRelation limit limit (Follows c limit) where
  pure := pure
  ofCatalog := ofCatalog
  record := record
  charge := charge
  bind := bind

/-- A session without tables computes each of them, and it is still without tables then. -/
theorem compute_of_empty {key : TableKey} {t : Reach} {s u : Session} (hempty : s.tables = [])
    (hs : s.Within limit) (h : (Reach.computeFor limit c key).run s = .ok t u) :
    t = Reach.ofKey c key ∧ u.tables = [] ∧ s.stats.steps ≤ u.stats.steps ∧ u.Within limit := by
  have hkeeps := Reach.ensures_compute s.tables s.stats.tablesComputed limit
    (c.available key.granted) key.budget key.memory
  have hcut : CutOff limit limit (Reach.computeFor limit c key) (Reach.computeFor limit c key) :=
    CutOff.searchRelation.compute _ _ _
  obtain ⟨hgrows, hwithin, -, -⟩ := hcut s t u hs h
  exact ⟨Reach.eq_ofKey_of_computeFor (Session.faithful_of_empty hempty) h,
    (hkeeps.of_ok ⟨rfl, rfl⟩ h).1.1.trans hempty, hgrows, hwithin⟩

/-- A table that is kept is the one that is computed otherwise. -/
theorem obtain (keep : Bool) (key : TableKey) :
    Follows c limit (Reach.obtain keep limit c key) (Reach.obtain false limit c key) where
  ok {s s' a t'} hs h := by
    rw [Reach.run_obtain_of_none (hs.lookup_eq_none key)] at h
    cases hrun' : (Reach.computeFor limit c key).run s' with
    | error e u' =>
      rw [hrun'] at h
      cases h
    | ok t u' =>
      rw [hrun'] at h
      obtain ⟨rfl, rfl⟩ := EStateM.Result.ok.inj h
      obtain ⟨rfl, hempty, hgrows, hwithin⟩ := compute_of_empty hs.empty hs.within hrun'
      cases hlookup : s.tables.lookup key with
      | some kept =>
        obtain rfl := hs.faithful.of_lookup hlookup
        exact ⟨s.hit, Reach.run_obtain_of_some hlookup, hs.faithful, hempty,
          Nat.le_trans hs.steps_le hgrows, hwithin.le_limit, hwithin.le_max⟩
      | none =>
        obtain ⟨u, hrun, hu⟩ := (searchRelation.compute _ _ _).ok hs hrun'
        exact ⟨_, by rw [Reach.run_obtain_of_none hlookup, hrun], hu.computed keep key⟩
  error {s s' e t'} hs h := by
    have hfinds : SearchM.Finds c limit (fun _ => False) (Reach.obtain false limit c key)
        (· = Reach.ofKey c key) :=
      Reach.finds_obtain _ _
    have hends := (hfinds.of_error (Session.faithful_of_empty hs.empty) h).2
    cases e with
    | searchLimit n => exact .inl ⟨n, rfl⟩
    | incompatibleCatalog _ | invalidWindow _ _ | unknownTarget _ | timingMismatch _ _ _ =>
      cases hends

end Follows

/-! ## Builds without kept tables -/

namespace Synthesizer

/-- The synthesizer that keeps no tables. -/
def forgetful (y : Synthesizer) : Synthesizer :=
  { y with keepTables := false }

variable {y : Synthesizer} {test : SpillTest} {r : Request}

theorem related_forgetful (y : Synthesizer) :
    Related y y.forgetful (Follows y.machine.catalog y.config.stepLimit) where
  toSearchRelation := Follows.searchRelation
  machine := rfl
  table key := Follows.obtain _ key

/-- Where tables are computed anew and the limit does not stop that, keeping them makes no
difference. -/
theorem buildWith_forgetful (hstays : ∀ found stats,
      y.forgetful.buildWith test r = .ok (found, stats) → stats.steps ≤ y.config.stepLimit) :
    (y.buildWith test r).map Prod.fst = (y.forgetful.buildWith test r).map Prod.fst := by
  by_cases hwindow : r.max < r.min ∨ r.max < 0
  · unfold buildWith
    rw [if_pos hwindow, if_pos hwindow]
  have hfollows : Follows y.machine.catalog y.config.stepLimit (y.routine? test r)
      (y.forgetful.routine? test r) :=
    (related_forgetful y).routine? rfl test r
  have hahead := Session.Ahead.initial y.machine.catalog y.config.stepLimit
  cases hrun : (y.forgetful.routine? test r).run {} with
  | ok found t' =>
    obtain ⟨t, hsame, -⟩ := hfollows.ok hahead hrun
    unfold buildWith
    rw [if_neg hwindow, if_neg hwindow, hrun, hsame]
    cases found with
    | none => rfl
    | some routine =>
      simp only
      split <;> rfl
  | error e t' =>
    have hends := (finds_routine?.of_error Session.faithful_empty hrun).2
    rcases hfollows.error hahead hrun with ⟨n, rfl⟩ | ⟨t, hsame⟩
    · have hsteps := hstays none t'.stats (buildWith_of_searchLimit hwindow hrun)
      exact absurd hends (Nat.not_lt.mpr hsteps)
    · unfold buildWith
      rw [if_neg hwindow, if_neg hwindow, hrun, hsame]
      cases e <;> rfl

end Synthesizer

/-! ## Transparency -/

/-- A session answers queries with the tables that are computed from scratch. A query that fails leaves
the kept tables as they were, and one for a kept table takes no step. The keys of the kept tables are
as many as the tables that have been computed. -/
structure Session.Transparent (c : Catalog) (limit : Nat) (s : Session) : Prop where
  scratch : ∀ {key t u}, (Reach.obtain true limit c key).run s = .ok t u → Reach.FromScratch c key t
  failed : ∀ {key e u}, (Reach.obtain true limit c key).run s = .error e u → u.tables = s.tables
  hit : ∀ {key t}, s.tables.lookup key = some t → ∃ u,
    (Reach.obtain true limit c key).run s = .ok t u ∧ u.stats.steps = s.stats.steps ∧
      u.tables = s.tables
  counted : s.stats.tablesComputed = (s.tables.map Prod.fst).toFinset.card

theorem Session.Sound.transparent {c : Catalog} {s : Session} (h : s.Sound c) (limit : Nat) :
    s.Transparent c limit where
  scratch {key t u} hrun := by
    obtain rfl : t = Reach.ofKey c key := Reach.eq_ofKey_of_obtain h.faithful hrun
    exact Reach.fromScratch_ofKey c key
  failed {key e u} hrun := by
    cases hlookup : s.tables.lookup key with
    | some t =>
      rw [Reach.run_obtain_of_some hlookup] at hrun
      cases hrun
    | none =>
      rw [Reach.run_obtain_of_none hlookup] at hrun
      split at hrun <;> cases hrun
      rename_i hcompute
      exact ((Reach.ensures_compute s.tables s.stats.tablesComputed _ _ _ _).of_error ⟨rfl, rfl⟩
        hcompute).1.1
  hit hlookup := ⟨_, Reach.run_obtain_of_some hlookup, rfl, rfl⟩
  counted := h.tablesComputed_eq

/-- Whatever has been done in a session, its kept tables are transparent. So a build that keeps tables
answers with the same routine, or fails in the same way, as one that computes each of them anew, if
the limit of steps does not stop the latter. -/
theorem memo_transparent (c : Catalog) (config : Config) (ops : List Operation) :
    (Operation.play c config ops).Transparent c config.stepLimit ∧
    ∀ target r, (∀ found stats,
        (Synthesizer.mk ⟨c, target⟩ config true).forgetful.build r = .ok (found, stats) →
          stats.steps ≤ config.stepLimit) →
      ((Synthesizer.mk ⟨c, target⟩ config true).build r).map Prod.fst =
        ((Synthesizer.mk ⟨c, target⟩ config true).forgetful.build r).map Prod.fst :=
  ⟨(Operation.sound_play c config ops).transparent _,
    fun _ _ hstays => Synthesizer.buildWith_forgetful hstays⟩

/-- The session in which a loop of about three hundred cycles on register B has been sought. -/
def loopSession : Session :=
  Operation.play I8085.catalog {}
    [.seekLoop I8085.target [] 6 ⟨300, 303⟩ (ResourceSet.ofResources [.register "B"]) 0, .charge 5]

set_option maxRecDepth 100000 in
/-- The search has kept the table for the bodies of the loop, so a query for that table takes no step,
and building the loop comes to the same without kept tables. -/
theorem memo_transparent_loop :
    (∃ t u, (Reach.obtain true 2000000 I8085.catalog { budget := 3, granted := ∅, memory := [] }).run
        loopSession = .ok t u ∧ u.stats.steps = loopSession.stats.steps ∧
      Reach.FromScratch I8085.catalog { budget := 3, granted := ∅, memory := [] } t) ∧
    (I8085.synthesizer.build Synthesizer.loopRequest).map Prod.fst =
      (I8085.synthesizer.forgetful.build Synthesizer.loopRequest).map Prod.fst := by
  obtain ⟨htransparent, hbuild⟩ := memo_transparent I8085.catalog {}
    [.seekLoop I8085.target [] 6 ⟨300, 303⟩ (ResourceSet.ofResources [.register "B"]) 0, .charge 5]
  constructor
  · have hkept : (loopSession.tables.lookup { budget := 3, granted := ∅, memory := [] }).isSome =
        true := by
      decide +kernel
    obtain ⟨t, ht⟩ := Option.isSome_iff_exists.mp hkept
    obtain ⟨u, hrun, hsteps, -⟩ := htransparent.hit ht
    exact ⟨t, u, hrun, hsteps, htransparent.scratch hrun⟩
  · have htaken : (Synthesizer.stepsTaken?
        (I8085.synthesizer.forgetful.build Synthesizer.loopRequest)).all (· ≤ 2000000) = true := by
      decide +kernel
    refine hbuild I8085.target _ fun found stats h => ?_
    have hsame : I8085.synthesizer.forgetful.build Synthesizer.loopRequest = .ok (found, stats) := h
    rw [hsame] at htaken
    exact of_decide_eq_true htaken

end DelaySynth
