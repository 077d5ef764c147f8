import DelaySynth.Proofs.Reach.Query
import DelaySynth.Proofs.SideBySide
import Mathlib.Data.Finset.Card

/-!
# Sound sessions

A session keeps the tables that have been computed in it. Whatever is done in a session, each kept table
is the one of its key, and each key is kept and counted once.

* `Session.Sound`: the invariant.
* `Operation`: what can be done in a session.
* `sound_play`: sessions stay sound, also by what fails.
-/

namespace DelaySynth

open SearchM

/-- What only depends on the tables and their number is kept by whatever searches are put together
from. -/
theorem searchRelation_ensures {I : Session → Prop} {limit limit' : Nat}
    (hI : ∀ s stats, I s → stats.tablesComputed = s.stats.tablesComputed → I { s with stats }) :
    SearchRelation limit limit' fun x _ => Ensures I (fun _ _ => True) x fun _ => True where
  pure _ := .of_pure trivial
  ofCatalog := ensures_ofCatalog
  record hf := .of_modify fun s hs => hI s _ hs (hf.tablesComputed s.stats)
  charge _ := ensures_charge _ fun s hs => hI s _ hs rfl
  bind hx hf := hx.bind fun a _ => hf a

/-- Computing a table leaves the kept ones alone, also when it fails. -/
theorem Reach.ensures_compute (tables : List (TableKey × Reach)) (n limit : Nat) (rows : List Row)
    (budget : Nat) (memory : List String) :
    Ensures (fun s => s.tables = tables ∧ s.stats.tablesComputed = n) (fun _ _ => True)
      (compute limit rows budget memory) fun _ => True :=
  have hrelation : SearchRelation limit limit fun x _ =>
      Ensures (fun s => s.tables = tables ∧ s.stats.tablesComputed = n) (fun _ _ => True) x
        fun _ => True :=
    searchRelation_ensures fun _ _ hs hn => ⟨hs.1, hn.trans hs.2⟩
  hrelation.compute rows budget memory

/-- Each kept table is the table of its key, and each of the keys is kept once and has been counted. -/
structure Session.Sound (c : Catalog) (s : Session) : Prop where
  faithful : s.Faithful c
  nodup : (s.tables.map Prod.fst).Nodup
  counted : s.stats.tablesComputed = s.tables.length

namespace Session.Sound

variable {c : Catalog} {s u : Session} {key : TableKey}

theorem empty (c : Catalog) : Session.Sound c {} :=
  ⟨faithful_empty, List.nodup_nil, rfl⟩

theorem of_eq (h : s.Sound c) (htables : u.tables = s.tables)
    (hcounted : u.stats.tablesComputed = s.stats.tablesComputed) : u.Sound c where
  faithful p hp := h.faithful p (htables ▸ hp)
  nodup := htables ▸ h.nodup
  counted := by rw [hcounted, htables, h.counted]

theorem computed (h : s.Sound c) (hkey : s.tables.lookup key = none) :
    (s.computed true key (Reach.ofKey c key)).Sound c where
  faithful := h.faithful.computed true key
  nodup := by
    refine List.nodup_cons.mpr ⟨fun hmem => ?_, h.nodup⟩
    obtain ⟨p, hp, hfst⟩ := List.mem_map.mp hmem
    have := List.lookup_eq_none_iff.mp hkey p hp
    simp [hfst] at this
  counted := congrArg (· + 1) h.counted

/-- As many tables have been computed as there are keys. -/
theorem tablesComputed_eq (h : s.Sound c) :
    s.stats.tablesComputed = (s.tables.map Prod.fst).toFinset.card := by
  rw [List.toFinset_card_of_nodup h.nodup, List.length_map, h.counted]

end Session.Sound

/-- A computation that leaves sessions sound, also when it fails. -/
abbrev KeepsSound {α : Type} (c : Catalog) (x : SearchM α) : Prop :=
  Ensures (Session.Sound c) (fun _ _ => True) x fun _ => True

theorem keepsSound_obtain (c : Catalog) (limit : Nat) (key : TableKey) :
    KeepsSound c (Reach.obtain true limit c key) := by
  intro s hs
  cases hlookup : s.tables.lookup key with
  | some t =>
    rw [Reach.run_obtain_of_some hlookup]
    exact ⟨hs.of_eq rfl rfl, trivial⟩
  | none =>
    rw [Reach.run_obtain_of_none hlookup]
    have hkeeps := Reach.ensures_compute s.tables s.stats.tablesComputed limit
      (c.available key.granted) key.budget key.memory
    cases hrun : (Reach.computeFor limit c key).run s with
    | error e u =>
      obtain ⟨htables, hcounted⟩ := (hkeeps.of_error ⟨rfl, rfl⟩ hrun).1
      exact ⟨hs.of_eq htables hcounted, trivial⟩
    | ok t u =>
      obtain ⟨htables, hcounted⟩ := (hkeeps.of_ok ⟨rfl, rfl⟩ hrun).1
      obtain rfl : t = Reach.ofKey c key := Reach.eq_ofKey_of_computeFor hs.faithful hrun
      exact ⟨(hs.of_eq htables hcounted).computed (htables ▸ hlookup), trivial⟩

theorem related_keepsSound (m : Machine) (config : Config) :
    Synthesizer.Related ⟨m, config, true⟩ ⟨m, config, true⟩ fun x _ => KeepsSound m.catalog x where
  toSearchRelation := searchRelation_ensures fun _ _ hs hcounted => hs.of_eq rfl hcounted
  machine := rfl
  table key := keepsSound_obtain _ _ key

/-! ## Operations -/

/-- What can be done in a session. -/
inductive Operation where
  /-- Counts some steps. -/
  | charge (count : Nat)
  /-- Counts an attempt at a loop. -/
  | countLoop (width : CounterWidth)
  /-- Counts an examined iteration count. -/
  | countCandidate
  /-- Counts a loop built as the body of another. -/
  | countNested
  /-- Counts a repeated search. -/
  | countRetry
  /-- Counts a freed register. -/
  | countSpill (outcome : SpillOutcome)
  /-- Computes a table and does not keep it. -/
  | compute (rows : List Row) (budget : Nat) (memory : List String)
  /-- Asks for the table of a key. -/
  | query (key : TableKey)
  /-- Seeks a loop. -/
  | seekLoop (target : Target) (memory : List String) (budget : Nat) (window : Window)
    (granted : ResourceSet) (depth : Nat)
  /-- Attempts to free a register. -/
  | freeRegister (target : Target) (f : Frame)

/-- The state that a computation leaves behind, also when it fails. -/
def Session.after {α : Type} (s : Session) (x : SearchM α) : Session :=
  match x.run s with
  | .ok _ t => t
  | .error _ t => t

namespace Operation

/-- The computation that does what an operation says. -/
def search (c : Catalog) (config : Config) : Operation → SearchM Unit
  | charge count => SearchM.charge config.stepLimit count
  | countLoop width => recordLoop width
  | countCandidate => recordCandidate
  | countNested => recordNested
  | countRetry => recordRetry
  | countSpill outcome => record (·.addSpill outcome)
  | compute rows budget memory =>
    (fun _ => ()) <$> Reach.compute config.stepLimit rows budget memory
  | query key => (fun _ => ()) <$> Reach.obtain true config.stepLimit c key
  | seekLoop target memory budget window granted depth =>
    (fun _ => ()) <$> Synthesizer.loop? ⟨⟨c, target⟩, config, true⟩ memory budget window granted depth
  | freeRegister target f => (fun _ => ()) <$> Synthesizer.spill ⟨⟨c, target⟩, config, true⟩ f

/-- The session in which some operations have been done one after another. -/
def play (c : Catalog) (config : Config) (ops : List Operation) : Session :=
  ops.foldl (fun s op => s.after (op.search c config)) {}

/-- What a computation returns makes no difference to the session. -/
theorem keepsSound_discard {c : Catalog} {α : Type} {x : SearchM α} (h : KeepsSound c x) :
    KeepsSound c ((fun _ => ()) <$> x) :=
  Ensures.map h fun _ _ => trivial

theorem keepsSound_search (c : Catalog) (config : Config) (op : Operation) :
    KeepsSound c (op.search c config) := by
  have hsame := fun target => related_keepsSound ⟨c, target⟩ config
  have hrelation : SearchRelation config.stepLimit config.stepLimit fun x _ => KeepsSound c x :=
    searchRelation_ensures fun _ _ hs hcounted => hs.of_eq rfl hcounted
  cases op with
  | charge count => exact hrelation.charge count
  | countLoop width => exact hrelation.recordLoop width
  | countCandidate => exact hrelation.recordCandidate
  | countNested => exact hrelation.recordNested
  | countRetry => exact hrelation.recordRetry
  | countSpill outcome => exact hrelation.record (Stats.bookkeeping_addSpill outcome)
  | compute rows budget memory => exact keepsSound_discard (hrelation.compute rows budget memory)
  | query key => exact keepsSound_discard (keepsSound_obtain _ _ key)
  | seekLoop target memory budget window granted depth =>
    exact keepsSound_discard ((hsame target).loopsRelated.loop? memory budget window granted depth)
  | freeRegister target f => exact keepsSound_discard ((hsame target).spill f)

theorem sound_after {c : Catalog} {s : Session} {α : Type} {x : SearchM α} (hx : KeepsSound c x)
    (hs : s.Sound c) : (s.after x).Sound c := by
  unfold Session.after
  cases hrun : x.run s with
  | ok a t => exact (hx.of_ok hs hrun).1
  | error e t => exact (hx.of_error hs hrun).1

theorem sound_play (c : Catalog) (config : Config) (ops : List Operation) :
    (play c config ops).Sound c :=
  List.foldlRecOn ops _ (Session.Sound.empty c) fun _ hs op _ =>
    sound_after (keepsSound_search c config op) hs

end Operation

end DelaySynth
