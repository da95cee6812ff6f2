import CodeCompletion.Enrichment
import CodeCompletion.Proofs.Entry.KeyOrder
import CodeCompletion.Proofs.Stage.Descent

namespace CodeCompletion

def Progress.list (p : Progress) : List Entry × DeferredMap := (p.entries, p.deferred)

/-! ### One stage -/

namespace Stage

variable (stage : Stage) (r : Request) (p : Progress)

/-- What a stage makes of the list; nothing if it gives up or the checker breaks down. -/
def outcome : Outcome :=
  match (p.effects.replay r.checker (stage.run r p.entries).trace).2,
    (stage.run r p.entries).value with
  | none, .ok o => o
  | _, _ => .unchanged

theorem list_advance :
    (stage.advance r p).list = ((stage.outcome r p).entriesOr p.entries,
      p.deferred.mergeAll (stage.outcome r p).aside) := by
  unfold advance outcome
  dsimp only
  cases (p.effects.replay r.checker (stage.run r p.entries).trace).2 with
  | some message => rfl
  | none =>
    cases (stage.run r p.entries).value with
    | error e => rfl
    | ok o => cases o <;> rfl

theorem entries_advance :
    (stage.advance r p).entries = (stage.outcome r p).entriesOr p.entries :=
  congrArg Prod.fst (stage.list_advance r p)

theorem outcome_cases :
    stage.outcome r p = .unchanged ∨
      (stage.run r p.entries).value = .ok (stage.outcome r p) := by
  unfold outcome
  split
  · rename_i hvalue
    exact Or.inr hvalue
  · exact Or.inl rfl

theorem mem_advance (hmem : stage ∈ table) (e' : Entry)
    (he' : e' ∈ (stage.advance r p).entries) :
    (∃ e ∈ p.entries, e.Keeps (touchedBy stage.name) e') ∨
      stage.fromEmpty = true ∧ Suggests r e' := by
  rw [entries_advance] at he'
  rcases stage.outcome_cases r p with hsame | hvalue
  · rw [hsame] at he'
    exact Or.inl ⟨e', he', .refl e'⟩
  · exact (keeps_or_added r p.entries stage hmem _ hvalue e' he').imp_right And.right

end Stage

/-! ### Runs -/

/-- What every stage preserves holds after a run if it held before. -/
theorem runStages_preserves (r : Request) (P : List Entry → DeferredMap → Prop)
    (stages : List Stage)
    (hstep : ∀ stage ∈ stages, ∀ p : Progress, P p.entries p.deferred →
      P (stage.advance r p).entries (stage.advance r p).deferred)
    (p : Progress) (h : P p.entries p.deferred) :
    P (runStages r stages p).entries (runStages r stages p).deferred := by
  induction stages generalizing p with
  | nil => exact h
  | cons stage rest ih =>
    rw [runStages]
    split
    · exact h
    · refine ih (fun s hs => hstep s (List.mem_cons_of_mem _ hs)) _ ?_
      exact hstep stage (List.mem_cons_self ..) p h

theorem mem_table_of_mem_enabledStages (settings : Settings) (stage : Stage)
    (h : stage ∈ enabledStages settings) : stage ∈ Stage.table :=
  (List.mem_filter.mp h).1

theorem startsFromEmpty_congr (a b : Settings)
    (h : ∀ stage ∈ Stage.table, stage.fromEmpty = true → stage.enabled a = stage.enabled b) :
    (enabledStages a).any (·.fromEmpty) = (enabledStages b).any (·.fromEmpty) := by
  have hany (settings : Settings) : (enabledStages settings).any (·.fromEmpty) = true ↔
      ∃ stage ∈ Stage.table, stage.fromEmpty = true ∧ stage.enabled settings = true := by
    simp only [enabledStages, List.any_eq_true, List.mem_filter]
    exact exists_congr fun stage => and_right_comm.trans and_assoc
  rw [Bool.eq_iff_iff, hany, hany]
  refine exists_congr fun stage => and_congr_right fun hmem => and_congr_right fun hempty => ?_
  rw [h stage hmem hempty]

theorem runStages_of_cancelled (r : Request) (stages : List Stage) (p : Progress)
    (hp : p.effects.cancelled = true) :
    (runStages r stages p).list = p.list ∧
      (runStages r stages p).effects.cancelled = true ∧
      (runStages r stages p).effects.components = p.effects.components := by
  cases stages with
  | nil => exact ⟨rfl, hp, rfl⟩
  | cons stage rest =>
    rw [runStages, if_pos hp]
    exact ⟨rfl, hp, rfl⟩

theorem runStages_append (r : Request) (front back : List Stage) (p : Progress)
    (h : (runStages r (front ++ back) p).effects.cancelled = false) :
    runStages r (front ++ back) p = runStages r back (runStages r front p) := by
  induction front generalizing p with
  | nil => rfl
  | cons stage front ih =>
    rw [List.cons_append, runStages] at h ⊢
    rw [runStages]
    split
    · rename_i hcancelled
      rw [if_pos hcancelled] at h
      exact absurd hcancelled (by rw [← Bool.not_eq_true] at h; exact h)
    · rename_i hcancelled
      rw [if_neg hcancelled] at h
      exact ih _ h

theorem runStages_singleton (r : Request) (stage : Stage) (p : Progress)
    (h : (runStages r [stage] p).effects.cancelled = false) :
    runStages r [stage] p = stage.advance r p := by
  rw [runStages] at h ⊢
  split
  · rename_i hcancelled
    rw [if_pos hcancelled] at h
    exact absurd hcancelled (by rw [← Bool.not_eq_true] at h; exact h)
  · rfl

/-! ### Apart from the log -/

def Effects.unlogged (fx : Effects) : Effects := { fx with log := #[] }

theorem Effects.unlogged_reportAll (fx : Effects) (events : List Event) :
    (fx.reportAll events).unlogged = fx.unlogged := by
  induction events generalizing fx with
  | nil => rfl
  | cons e events ih => exact ih (fx.report e)

theorem unlogged_effects_finishList (r : Request) (p : Progress) :
    (finishList r p).effects.unlogged = p.effects.unlogged := by
  have hrules : (applyRules r p).effects.unlogged = p.effects.unlogged :=
    Effects.unlogged_reportAll p.effects _
  unfold finishList Progress.prune
  cases r.settings.replaceSuggestions.isEmpty <;> cases r.settings.correctSorting
  · exact hrules
  · exact hrules
  · rfl
  · rfl

/-! ### The last stage -/

def Stage.sortNormalize : Stage :=
  { name := "sort_normalize", enabled := fun _ => true, run := Stage.normalizeOrder }

theorem enabledStages_eq_append (settings : Settings) :
    enabledStages settings =
      Stage.table.dropLast.filter (·.enabled settings) ++ [Stage.sortNormalize] := by
  have htable : Stage.table = Stage.table.dropLast ++ [Stage.sortNormalize] := rfl
  conv => lhs; rw [enabledStages, htable]
  rw [List.filter_append]
  rfl

theorem entries_advance_sortNormalize (r : Request) (p : Progress) :
    (Stage.sortNormalize.advance r p).entries = Entry.sortByKey p.entries := by
  have hrun : (Stage.sortNormalize.run r p.entries) =
      ⟨.ok (.entriesIf (!Entry.isSortedByKey p.entries) (Entry.sortByKey p.entries)), []⟩ := rfl
  cases hsorted : Entry.isSortedByKey p.entries with
  | true =>
    have hkeep := Entry.sortByKey_of_sortedByKey _ ((Entry.isSortedByKey_iff _).mp hsorted)
    rw [Stage.advance, hrun, hsorted, hkeep]
    rfl
  | false =>
    rw [Stage.advance, hrun, hsorted]
    rfl

/-- After all stages the list is in the order of its keys, unless the request was cancelled. -/
theorem sortedByKey_runStages (r : Request) (p : Progress)
    (h : (runStages r (enabledStages r.settings) p).effects.cancelled = false) :
    Entry.SortedByKey (runStages r (enabledStages r.settings) p).entries := by
  rw [enabledStages_eq_append] at h ⊢
  have happend := runStages_append r _ _ p h
  rw [happend] at h ⊢
  rw [runStages_singleton r _ _ h, entries_advance_sortNormalize]
  exact Entry.sortedByKey_sortByKey _

/-! ### Checkers that only answer -/

/-- A checker that neither cancels requests nor breaks down. -/
def Checker.IsQuiet (c : Checker) : Prop := ∀ q, c.signals q = []

theorem Program.isQuiet_checker (program : Program) : program.checker.IsQuiet := fun _ => rfl

theorem Effects.replay_of_isQuiet (checker : Checker) (h : checker.IsQuiet) (acts : List Act)
    (fx : Effects) : (replay checker acts fx).2 = none ∧
      (replay checker acts fx).1.cancelled = fx.cancelled := by
  induction acts generalizing fx with
  | nil => exact ⟨rfl, rfl⟩
  | cons act acts ih =>
    cases act with
    | report event => exact ih _
    | remember key verdict => exact ih _
    | ask q =>
      rw [replay, h q]
      exact ih fx

theorem Stage.cancelled_advance_of_isQuiet (stage : Stage) (r : Request) (p : Progress)
    (h : r.checker.IsQuiet) :
    (stage.advance r p).effects.cancelled = p.effects.cancelled := by
  have hreplay := Effects.replay_of_isQuiet r.checker h (stage.run r p.entries).trace p.effects
  unfold Stage.advance
  dsimp only
  split <;> exact hreplay.2

theorem cancelled_runStages_of_isQuiet (r : Request) (stages : List Stage) (p : Progress)
    (h : r.checker.IsQuiet) (hp : p.effects.cancelled = false) :
    (runStages r stages p).effects.cancelled = false := by
  induction stages generalizing p with
  | nil => exact hp
  | cons stage rest ih =>
    rw [runStages, hp, if_neg Bool.false_ne_true]
    exact ih _ ((stage.cancelled_advance_of_isQuiet r p h).trans hp)

/-- Lists with entries, and all lists where a stage finds entries of its own, take the long way. -/
theorem enrich_eq_enrichInFull (r : Request) (entries : List Entry) (fx : Effects)
    (h : entries ≠ [] ∨ (enabledStages r.settings).any (·.fromEmpty) = true) :
    enrich r entries fx = enrichInFull r entries fx := by
  rw [enrich, if_neg]
  rw [Bool.and_eq_true, List.isEmpty_iff, Bool.not_eq_true']
  rintro ⟨hempty, hnone⟩
  rcases h with hne | hstart
  · exact hne hempty
  · rw [hnone] at hstart
    cases hstart

theorem cancelled_enrichInFull_of_isQuiet (r : Request) (entries : List Entry) (fx : Effects)
    (h : r.checker.IsQuiet) (hfx : fx.cancelled = false) :
    (enrichInFull r entries fx).cancelled = false := by
  unfold enrichInFull
  dsimp only
  rw [cancelled_runStages_of_isQuiet r _ _ h hfx]
  rfl

theorem cancelled_enrich_of_isQuiet (r : Request) (entries : List Entry) (fx : Effects)
    (h : r.checker.IsQuiet) (hfx : fx.cancelled = false) :
    (enrich r entries fx).cancelled = false := by
  unfold enrich
  split
  · rfl
  · exact cancelled_enrichInFull_of_isQuiet r entries fx h hfx

end CodeCompletion
