import CodeCompletion.Proofs.Enrichment.Run
import CodeCompletion.Proofs.Stage.Memory

namespace CodeCompletion

/-! ### What a trace teaches -/

def learn (known : ComponentCache) : List Act → ComponentCache
  | [] => known
  | .remember key verdict :: acts => learn (known.insert key verdict) acts
  | _ :: acts => learn known acts

theorem learn_of_forgets {α : Type} (known : ComponentCache) (t : Traced α) (h : t.Forgets) :
    learn known t.trace = known := by
  obtain ⟨value, acts⟩ := t
  induction acts with
  | nil => rfl
  | cons act acts ih =>
    have hrest : (⟨value, acts⟩ : Traced α).Forgets := fun key v hmem =>
      h key v (List.mem_cons_of_mem _ hmem)
    cases act with
    | ask q => exact ih hrest
    | report e => exact ih hrest
    | remember key v => exact absurd (List.mem_cons_self ..) (h key v)

theorem learn_append (known : ComponentCache) (front back : List Act) :
    learn known (front ++ back) = learn (learn known front) back := by
  induction front generalizing known with
  | nil => rfl
  | cons act front ih =>
    cases act with
    | ask q => exact ih known
    | report e => exact ih known
    | remember key v => exact ih _

theorem known_learn (known : ComponentCache) (acts : List Act) (key : ComponentKey) (v : Bool)
    (h : (learn known acts)[key]? = some v) :
    known[key]? = some v ∨ .remember key v ∈ acts := by
  induction acts generalizing known with
  | nil => exact Or.inl h
  | cons act acts ih =>
    cases act with
    | ask q => exact (ih known h).imp_right (List.mem_cons_of_mem _)
    | report e => exact (ih known h).imp_right (List.mem_cons_of_mem _)
    | remember key' v' =>
      rcases ih _ h with hinsert | hlater
      · rw [Std.HashMap.getElem?_insert] at hinsert
        split at hinsert
        · rename_i hkey
          cases hinsert
          rw [eq_of_beq hkey]
          exact Or.inr (List.mem_cons_self ..)
        · exact Or.inl hinsert
      · exact Or.inr (List.mem_cons_of_mem _ hlater)

theorem learn_elements_singleton (r : Request) (e : Entry) (htag : Stage.atTag r = true)
    (hkind : Stage.elementByKind? e = none) (hnone : r.components[Stage.factKey r e]? = none)
    (known : ComponentCache) :
    (learn known (Stage.elements r [e]).trace)[Stage.factKey r e]? = some (Stage.verdict r e) := by
  have htrace : (Stage.elements r [e]).trace =
      (Stage.canBeElement r r.components e).trace ++ [] ++ [] := by
    rw [Stage.elements, if_pos htag]
    rfl
  rw [htrace, List.append_nil, List.append_nil, Stage.canBeElement, hkind]
  dsimp only
  rw [(Stage.value_isComponent_of_none r r.components e hnone).2, learn_append, learn_append,
    learn_of_forgets _ _ (r.forgets_declarationFile e),
    learn_of_forgets _ _ (r.forgets_entryType e)]
  exact Std.HashMap.getElem?_insert_self

/-! ### Parts of a run -/

def stagesBefore (settings : Settings) : List Stage :=
  (Stage.table.take 3).filter (·.enabled settings)

def stagesAfter (settings : Settings) : List Stage :=
  (Stage.table.drop 4).filter (·.enabled settings)

section Request

variable (r : Request)

theorem enabledStages_split (settings : Settings) :
    enabledStages settings = stagesBefore settings ++
      ((if settings.improveElementSuggestions then [Stage.elementStage] else []) ++
        stagesAfter settings) := by
  have helements : (if settings.improveElementSuggestions then [Stage.elementStage] else []) =
      [Stage.elementStage].filter (·.enabled settings) := by
    rw [List.filter_cons, List.filter_nil]
    rfl
  rw [helements, stagesBefore, stagesAfter, ← List.filter_append, ← List.filter_append]
  rfl

theorem mem_of_mem_stagesBefore (settings : Settings) (stage : Stage)
    (h : stage ∈ stagesBefore settings) : stage ∈ Stage.table.take 3 ++ Stage.table.drop 4 :=
  List.mem_append_left _ (List.mem_filter.mp h).1

theorem mem_of_mem_stagesAfter (settings : Settings) (stage : Stage)
    (h : stage ∈ stagesAfter settings) : stage ∈ Stage.table.take 3 ++ Stage.table.drop 4 :=
  List.mem_append_right _ (List.mem_filter.mp h).1

theorem subset_runStages_stagesBefore (p : Progress) :
    (runStages r (stagesBefore r.settings) p).entries ⊆ p.entries := by
  refine runStages_preserves r (fun entries _ => entries ⊆ p.entries) _ ?_ p (List.Subset.refl _)
  intro stage hstage q hq
  rw [stage.entries_advance]
  rcases stage.outcome_cases r q with hsame | hvalue
  · rw [hsame]
    exact hq
  · have hsub := Stage.subset_of_mem_take r q.entries stage (List.mem_filter.mp hstage).1 _ hvalue
    exact List.Subset.trans hsub hq

theorem components_finishList (p : Progress) :
    (finishList r p).effects.components = p.effects.components := by
  have hall := congrArg Effects.components (unlogged_effects_finishList r p)
  exact hall

theorem list_finishList_recalling (known : ComponentCache) (p q : Progress)
    (hlist : p.list = q.list) :
    (finishList r p).list = (finishList (r.recalling known) q).list := by
  obtain ⟨entries, deferred, fx⟩ := p
  obtain ⟨entries', deferred', fx'⟩ := q
  obtain ⟨rfl, rfl⟩ := Prod.mk.inj hlist
  show (finishList r ⟨entries, deferred, fx⟩).list = (finishList r ⟨entries, deferred, fx'⟩).list
  unfold finishList
  cases r.settings.replaceSuggestions.isEmpty <;> cases r.settings.correctSorting <;> rfl

end Request

/-! ### Checkers that only answer -/

section Quiet

variable (r : Request) (hquiet : r.checker.IsQuiet)

include hquiet

theorem components_replay_of_isQuiet (acts : List Act) (fx : Effects) :
    (fx.replay r.checker acts).1.components = learn fx.components acts := by
  induction acts generalizing fx with
  | nil => rfl
  | cons act acts ih =>
    cases act with
    | report event => exact ih _
    | remember key verdict => exact ih _
    | ask q =>
      rw [Effects.replay, hquiet q]
      exact ih fx

theorem Stage.components_advance_of_isQuiet (stage : Stage) (p : Progress) :
    (stage.advance r p).effects.components =
      learn p.effects.components (stage.run r p.entries).trace := by
  rw [← components_replay_of_isQuiet r hquiet]
  unfold Stage.advance
  dsimp only
  split <;> rfl

theorem Stage.list_advance_of_isQuiet (stage : Stage) (p : Progress) :
    (stage.advance r p).list =
      match (stage.run r p.entries).value with
      | .ok (.changed entries delta) => (entries, p.deferred.mergeAll delta)
      | _ => p.list := by
  have hcrash := (Effects.replay_of_isQuiet r.checker hquiet (stage.run r p.entries).trace
    p.effects).1
  rw [stage.list_advance, Stage.outcome, hcrash]
  cases (stage.run r p.entries).value with
  | error e => rfl
  | ok o =>
    cases o with
    | unchanged => rfl
    | changed entries delta => rfl

theorem Stage.list_advance_congr (stage : Stage) (known : ComponentCache) (p q : Progress)
    (hlist : p.list = q.list)
    (hvalue : (stage.run r p.entries).value =
      (stage.run (r.recalling known) p.entries).value) :
    (stage.advance r p).list = (stage.advance (r.recalling known) q).list := by
  have hentries : p.entries = q.entries := congrArg Prod.fst hlist
  have hdeferred : p.deferred = q.deferred := congrArg Prod.snd hlist
  rw [stage.list_advance_of_isQuiet r hquiet,
    Stage.list_advance_of_isQuiet (r.recalling known) hquiet, hvalue, hlist, hentries, hdeferred]

/-! ### Stages that do not look at what is known -/

theorem components_runStages_of_forgets (stages : List Stage)
    (hstages : ∀ stage ∈ stages, stage ∈ Stage.table.take 3 ++ Stage.table.drop 4)
    (p : Progress) : (runStages r stages p).effects.components = p.effects.components := by
  induction stages generalizing p with
  | nil => rfl
  | cons stage rest ih =>
    rw [runStages]
    split
    · rfl
    · have hforgets := Stage.forgets_run r p.entries stage (hstages _ (List.mem_cons_self ..))
      rw [ih (fun s hs => hstages s (List.mem_cons_of_mem _ hs)),
        Stage.components_advance_of_isQuiet r hquiet, learn_of_forgets _ _ hforgets]

theorem list_runStages_congr (known : ComponentCache) (stages : List Stage)
    (hstages : ∀ stage ∈ stages, stage ∈ Stage.table.take 3 ++ Stage.table.drop 4)
    (p q : Progress) (hlist : p.list = q.list) (hp : p.effects.cancelled = false)
    (hq : q.effects.cancelled = false) :
    (runStages r stages p).list = (runStages (r.recalling known) stages q).list := by
  induction stages generalizing p q with
  | nil => exact hlist
  | cons stage rest ih =>
    rw [runStages, runStages, hp, hq, if_neg Bool.false_ne_true, if_neg Bool.false_ne_true]
    apply ih (fun s hs => hstages s (List.mem_cons_of_mem _ hs))
    · apply stage.list_advance_congr r hquiet known p q hlist
      rw [Stage.run_recalling r p.entries stage (hstages _ (List.mem_cons_self ..))]
    · exact (stage.cancelled_advance_of_isQuiet r p hquiet).trans hp
    · exact (stage.cancelled_advance_of_isQuiet (r.recalling known) q hquiet).trans hq

/-! ### All stages -/

theorem runStages_enabledStages (p : Progress) (hp : p.effects.cancelled = false) :
    runStages r (enabledStages r.settings) p =
      runStages r (stagesAfter r.settings)
        (if r.settings.improveElementSuggestions
        then Stage.elementStage.advance r (runStages r (stagesBefore r.settings) p)
        else runStages r (stagesBefore r.settings) p) := by
  have hdone := cancelled_runStages_of_isQuiet r (enabledStages r.settings) p hquiet hp
  have hbefore := cancelled_runStages_of_isQuiet r (stagesBefore r.settings) p hquiet hp
  rw [enabledStages_split] at hdone ⊢
  have hfront := runStages_append r _ _ p hdone
  rw [hfront] at hdone ⊢
  rw [runStages_append r _ _ _ hdone]
  split
  · rw [runStages_singleton r]
    exact cancelled_runStages_of_isQuiet r _ _ hquiet hbefore
  · rfl

theorem known_runStages (p : Progress) (key : ComponentKey) (v : Bool)
    (h : (runStages r (enabledStages r.settings) p).effects.components[key]? = some v) :
    p.effects.components[key]? = some v ∨ Stage.atTag r = true ∧ ∃ e ∈ p.entries,
      Stage.elementByKind? e = none ∧ Stage.factKey r e = key ∧ Stage.verdict r e = v := by
  cases hp : p.effects.cancelled with
  | true =>
    rw [(runStages_of_cancelled r _ p hp).2.2] at h
    exact Or.inl h
  | false =>
    rw [runStages_enabledStages r hquiet p hp,
      components_runStages_of_forgets r hquiet _ (mem_of_mem_stagesAfter r.settings)] at h
    have hbefore := components_runStages_of_forgets r hquiet _
      (mem_of_mem_stagesBefore r.settings) p
    have hsub := subset_runStages_stagesBefore r p
    rw [← hbefore]
    split at h
    · rw [Stage.components_advance_of_isQuiet r hquiet] at h
      rcases known_learn _ _ key v h with hold | hnew
      · exact Or.inl hold
      · obtain ⟨htag, hmem⟩ := Stage.remember_mem_elements r _ key v hnew
        obtain ⟨e, he, hfact⟩ := Stage.remember_mem_elementsAmong r _ _ key v hmem
        exact Or.inr ⟨htag, e, hsub he, hfact⟩
    · exact Or.inl h

/-- The list after all stages is the same whatever is known, if the stage that looks for elements
finds the same ones. -/
theorem list_runStages_recalling (known : ComponentCache) (p q : Progress)
    (hlist : p.list = q.list) (hp : p.effects.cancelled = false)
    (hq : q.effects.cancelled = false)
    (helements : ∀ entries ⊆ p.entries, (Stage.elements r entries).value =
      (Stage.elements (r.recalling known) entries).value) :
    (runStages r (enabledStages r.settings) p).list =
      (runStages (r.recalling known) (enabledStages r.settings) q).list := by
  have hsplit : runStages (r.recalling known) (enabledStages r.settings) q = _ :=
    runStages_enabledStages (r.recalling known) hquiet q hq
  rw [runStages_enabledStages r hquiet p hp, hsplit]
  have hbefore := list_runStages_congr r hquiet known _ (mem_of_mem_stagesBefore r.settings) p q
    hlist hp hq
  have hp' := cancelled_runStages_of_isQuiet r (stagesBefore r.settings) p hquiet hp
  have hq' := cancelled_runStages_of_isQuiet (r.recalling known) (stagesBefore r.settings) q
    hquiet hq
  -- The stages behind do not look at what is known, so the lists in front of them decide.
  refine list_runStages_congr r hquiet known _ (mem_of_mem_stagesAfter r.settings) _ _ ?_ ?_ ?_
  · show _ = Progress.list (if r.settings.improveElementSuggestions then _ else _)
    split
    · exact Stage.elementStage.list_advance_congr r hquiet known _ _ hbefore
        (helements _ (subset_runStages_stagesBefore r p))
    · exact hbefore
  · split
    · rw [Stage.cancelled_advance_of_isQuiet _ r _ hquiet]
      exact hp'
    · exact hp'
  · split
    · rw [Stage.cancelled_advance_of_isQuiet _ (r.recalling known) _ hquiet]
      exact hq'
    · exact hq'

/-! ### The answer -/

theorem enrich_of_isQuiet (entries : List Entry) (fx : Effects) (hne : entries ≠ [])
    (hfx : fx.cancelled = false) :
    enrich r entries fx =
      let p := finishList r (runStages r (enabledStages r.settings) { entries, effects := fx })
      { entries := p.entries, deferred := p.deferred, cancelled := false, effects := p.effects } := by
  have hgo := cancelled_runStages_of_isQuiet r (enabledStages r.settings)
    { entries, effects := fx } hquiet hfx
  rw [enrich_eq_enrichInFull r entries fx (Or.inl hne), enrichInFull]
  dsimp only
  rw [hgo, if_neg Bool.false_ne_true]

/-- What is known after a request was known before, or is what the type of an entry says. -/
theorem known_enrich (entries : List Entry) (fx : Effects) (key : ComponentKey) (v : Bool)
    (h : (enrich r entries fx).effects.components[key]? = some v) :
    fx.components[key]? = some v ∨ Stage.atTag r = true ∧ ∃ e ∈ entries,
      Stage.elementByKind? e = none ∧ Stage.factKey r e = key ∧ Stage.verdict r e = v := by
  unfold enrich enrichInFull at h
  dsimp only at h
  split at h
  · exact Or.inl h
  · split at h
    · exact known_runStages r hquiet { entries, effects := fx } key v h
    · rw [components_finishList] at h
      exact known_runStages r hquiet { entries, effects := fx } key v h

/-- The answer is the same whatever is known, if the stage that looks for elements finds the same
ones. -/
theorem enrich_recalling (known : ComponentCache) (entries : List Entry) (fx fx' : Effects)
    (hcancelled : fx.cancelled = fx'.cancelled)
    (helements : ∀ es ⊆ entries, (Stage.elements r es).value =
      (Stage.elements (r.recalling known) es).value) :
    (enrich r entries fx).entries = (enrich (r.recalling known) entries fx').entries ∧
    (enrich r entries fx).deferred = (enrich (r.recalling known) entries fx').deferred ∧
    (enrich r entries fx).cancelled = (enrich (r.recalling known) entries fx').cancelled := by
  have hsettings : (r.recalling known).settings = r.settings := rfl
  unfold enrich enrichInFull
  rw [hsettings]
  dsimp only
  split
  · exact ⟨rfl, rfl, rfl⟩
  · cases hfx : fx.cancelled with
    | true =>
      have hp := runStages_of_cancelled r (enabledStages r.settings) { entries, effects := fx } hfx
      have hq := runStages_of_cancelled (r.recalling known) (enabledStages r.settings)
        { entries, effects := fx' } (hcancelled.symm.trans hfx)
      rw [hp.2.1, hq.2.1, if_pos rfl, if_pos rfl]
      have hlist := hp.1.trans hq.1.symm
      exact ⟨congrArg Prod.fst hlist, congrArg Prod.snd hlist, rfl⟩
    | false =>
      have hfx' : fx'.cancelled = false := hcancelled.symm.trans hfx
      have hstages := list_runStages_recalling r hquiet known { entries, effects := fx }
        { entries, effects := fx' } rfl hfx hfx' helements
      rw [cancelled_runStages_of_isQuiet r _ _ hquiet hfx,
        cancelled_runStages_of_isQuiet (r.recalling known) _ _ hquiet hfx',
        if_neg Bool.false_ne_true, if_neg Bool.false_ne_true]
      have hlist := list_finishList_recalling r known _ _ hstages
      exact ⟨congrArg Prod.fst hlist, congrArg Prod.snd hlist, rfl⟩

end Quiet

end CodeCompletion
