import CodeCompletion.Proofs.Enrichment.FinalKeys
import CodeCompletion.Proofs.Enrichment.Recall

namespace CodeCompletion

/-- What a stage makes of a list where the checker only answers; nothing if it gives up. -/
def StageRun.effect (run : StageRun) (r : Request) (entries : List Entry) : Outcome :=
  match (run r entries).value with
  | .error _ => .unchanged
  | .ok o => o

theorem StageRun.effect_of_eq (run : StageRun) (r r' : Request) (entries : List Entry)
    (h : run r entries = run r' entries) : run.effect r entries = run.effect r' entries := by
  rw [effect, effect, h]

theorem Stage.list_advance_effect (stage : Stage) (r : Request) (h : r.checker.IsQuiet)
    (p : Progress) :
    (stage.advance r p).list = ((stage.run.effect r p.entries).entriesOr p.entries,
      p.deferred.mergeAll (stage.run.effect r p.entries).aside) := by
  have hcrash := (Effects.replay_of_isQuiet r.checker h (stage.run r p.entries).trace p.effects).1
  rw [stage.list_advance, Stage.outcome, hcrash, StageRun.effect]
  cases (stage.run r p.entries).value <;> rfl

/-! ### The list as the effects of the stages -/

def Stage.effects (r : Request) (stages : List Stage) (entries : List Entry) : List Entry :=
  stages.foldl (fun entries stage => (stage.run.effect r entries).entriesOr entries) entries

theorem entries_runStages_of_isQuiet (r : Request) (h : r.checker.IsQuiet) (stages : List Stage)
    (p : Progress) (hp : p.effects.cancelled = false) :
    (runStages r stages p).entries = Stage.effects r stages p.entries := by
  induction stages generalizing p with
  | nil => rfl
  | cons stage rest ih =>
    rw [runStages, hp, if_neg Bool.false_ne_true,
      ih _ ((stage.cancelled_advance_of_isQuiet r p h).trans hp)]
    exact congrArg (Stage.effects r rest) (congrArg Prod.fst (stage.list_advance_effect r h p))

theorem entries_enrich_of_isQuiet (r : Request) (h : r.checker.IsQuiet) (entries : List Entry)
    (fx : Effects) (hne : entries ≠ []) (hfx : fx.cancelled = false)
    (hrules : r.settings.replaceSuggestions = []) (hsorting : r.settings.correctSorting = false) :
    (enrich r entries fx).entries = Stage.effects r (enabledStages r.settings) entries := by
  have hstages := entries_runStages_of_isQuiet r h (enabledStages r.settings)
    { entries, effects := fx } hfx
  rw [enrich_of_isQuiet r h entries fx hne hfx]
  dsimp only
  rw [entries_finishList, hsorting, if_neg Bool.false_ne_true, ruledEntries, hrules,
    if_pos List.isEmpty_nil, hstages]

/-! ### Requests with the same effects -/

/-- The stages have the same effect on every list in both requests. -/
structure Request.ActsLike (r r' : Request) : Prop where
  settings : r.settings = r'.settings
  document : r.document = r'.document
  quiet : r.checker.IsQuiet
  quiet' : r'.checker.IsQuiet
  effect : ∀ stage ∈ Stage.table, ∀ entries,
    stage.run.effect r entries = stage.run.effect r' entries

namespace Request.ActsLike

variable {r r' : Request} (h : r.ActsLike r')

include h

theorem list_advance (stage : Stage) (hstage : stage ∈ Stage.table) (p q : Progress)
    (hlist : p.list = q.list) : (stage.advance r p).list = (stage.advance r' q).list := by
  have hentries : p.entries = q.entries := congrArg Prod.fst hlist
  have hdeferred : p.deferred = q.deferred := congrArg Prod.snd hlist
  rw [stage.list_advance_effect r h.quiet, stage.list_advance_effect r' h.quiet', hentries,
    hdeferred, h.effect stage hstage]

theorem list_runStages (stages : List Stage) (hstages : ∀ stage ∈ stages, stage ∈ Stage.table)
    (p q : Progress) (hlist : p.list = q.list)
    (hcancelled : p.effects.cancelled = q.effects.cancelled) :
    (runStages r stages p).list = (runStages r' stages q).list ∧
      (runStages r stages p).effects.cancelled = (runStages r' stages q).effects.cancelled := by
  induction stages generalizing p q with
  | nil => exact ⟨hlist, hcancelled⟩
  | cons stage rest ih =>
    rw [runStages, runStages, ← hcancelled]
    split
    · exact ⟨hlist, hcancelled⟩
    · refine ih (fun s hs => hstages s (List.mem_cons_of_mem _ hs)) _ _ ?_ ?_
      · exact h.list_advance stage (hstages stage (List.mem_cons_self ..)) p q hlist
      · rw [stage.cancelled_advance_of_isQuiet r p h.quiet,
          stage.cancelled_advance_of_isQuiet r' q h.quiet', hcancelled]

theorem list_finishList (p q : Progress) (hlist : p.list = q.list) :
    (finishList r p).list = (finishList r' q).list := by
  obtain ⟨entries, deferred, fx⟩ := p
  obtain ⟨entries', deferred', fx'⟩ := q
  obtain ⟨rfl, rfl⟩ := Prod.mk.inj hlist
  unfold finishList applyRules
  rw [← h.settings, ← h.document]
  cases r.settings.replaceSuggestions.isEmpty <;> cases r.settings.correctSorting <;> rfl

theorem enrich_eq (entries : List Entry) (fx : Effects) :
    (enrich r entries fx).entries = (enrich r' entries fx).entries ∧
    (enrich r entries fx).deferred = (enrich r' entries fx).deferred ∧
    (enrich r entries fx).cancelled = (enrich r' entries fx).cancelled := by
  obtain ⟨hlist, hcancelled⟩ := h.list_runStages (enabledStages r.settings)
    (mem_table_of_mem_enabledStages r.settings) { entries, effects := fx }
    { entries, effects := fx } rfl rfl
  unfold enrich enrichInFull
  dsimp only
  rw [← h.settings, ← hcancelled]
  split
  · exact ⟨rfl, rfl, rfl⟩
  · split
    · exact ⟨congrArg Prod.fst hlist, congrArg Prod.snd hlist, rfl⟩
    · have hfinish := h.list_finishList _ _ hlist
      exact ⟨congrArg Prod.fst hfinish, congrArg Prod.snd hfinish, rfl⟩

end Request.ActsLike

end CodeCompletion
