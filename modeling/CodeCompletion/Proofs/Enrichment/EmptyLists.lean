import CodeCompletion.Proofs.Enrichment.KeptAside
import CodeCompletion.Proofs.Enrichment.Recall

/-!
# Empty lists

An empty list is answered at once where no stage finds entries of its own. That is what comes of
the long way too: each stage leaves an empty list empty, keeps nothing aside and has no fact about
components remembered, whatever it asks the checker and whether or not it gives up; neither the
user's rules nor the final keys bring anything in.
-/

namespace CodeCompletion

/-! ### Acts that remember nothing -/

namespace Effects

theorem components_receive (signals : List Signal) (fx : Effects) :
    (receive signals fx).1.components = fx.components := by
  induction signals generalizing fx with
  | nil => rfl
  | cons signal signals ih =>
    cases signal with
    | cancel => exact ih { fx with cancelled := true }
    | crash message => rfl

theorem components_replay_of_forgets {α : Type} (checker : Checker) (t : Traced α)
    (h : t.Forgets) (fx : Effects) :
    (replay checker t.trace fx).1.components = fx.components := by
  obtain ⟨value, acts⟩ := t
  induction acts generalizing fx with
  | nil => rfl
  | cons act acts ih =>
    have hrest : (⟨value, acts⟩ : Traced α).Forgets := fun key v hmem =>
      h key v (List.mem_cons_of_mem _ hmem)
    cases act with
    | report e => exact ih (fx.report e) hrest
    | remember key v => exact absurd (List.mem_cons_self ..) (h key v)
    | ask q =>
      have hreceive := components_receive (checker.signals q) fx
      dsimp only
      rw [replay]
      cases hreceived : receive (checker.signals q) fx with
      | mk received crash =>
        rw [hreceived] at hreceive
        cases crash with
        | none => exact (ih received hrest).trans hreceive
        | some message => exact hreceive

end Effects

/-! ### One stage -/

namespace Stage

variable (r : Request)

theorem components_advance_of_forgets (stage : Stage) (p : Progress)
    (h : (stage.run r p.entries).Forgets) :
    (stage.advance r p).effects.components = p.effects.components := by
  rw [← Effects.components_replay_of_forgets r.checker _ h p.effects]
  unfold advance
  dsimp only
  split <;> rfl

theorem forgets_run_nil (stage : Stage) (hmem : stage ∈ table) : (stage.run r []).Forgets := by
  have hsplit : table = table.take 3 ++ elementStage :: table.drop 4 := rfl
  rw [hsplit, List.mem_append, List.mem_cons] at hmem
  rcases hmem with hbefore | rfl | hafter
  · exact forgets_run r [] stage (List.mem_append_left _ hbefore)
  · have htrace : (elements r []).trace = [] := by
      unfold elements
      split <;> rfl
    intro key verdict h
    change _ ∈ (elements r []).trace at h
    rw [htrace] at h
    cases h
  · exact forgets_run r [] stage (List.mem_append_right _ hafter)

theorem getElem?_place (stage : Stage) (hmem : stage ∈ table) :
    table[place stage.name]? = some stage := by
  obtain ⟨k, hk⟩ := List.getElem?_of_mem hmem
  rw [place_of_getElem? k stage hk, hk]

theorem run_of_aside_mem (stage : Stage) (hmem : stage ∈ table) (hstart : stage.fromEmpty = false)
    (h : .aside ∈ touchedBy stage.name) :
    stage.run = globalLibrary ∨ stage.run = namespaceImports := by
  have hplace := getElem?_place stage hmem
  rcases name_of_aside_mem stage.name h with hname | hname | hname <;> rw [hname] at hplace <;>
    cases hplace
  · exact Or.inl rfl
  · cases hstart
  · exact Or.inr rfl

theorem enabled_of_fromEmpty (stage : Stage) (hmem : stage ∈ table)
    (hstart : stage.fromEmpty = true) (settings : Settings) :
    stage.enabled settings = settings.destructuringSuggestion := by
  have hnames : ∀ stage ∈ table, stage.fromEmpty = true →
      stage.name = "destructuring_suggestion" := by decide
  have hplace := getElem?_place stage hmem
  rw [hnames stage hmem hstart] at hplace
  cases hplace
  rfl

theorem aside_of_nil (run : StageRun) (hrun : run = globalLibrary ∨ run = namespaceImports)
    (o : Outcome) (h : (run r []).value = .ok o) : o.aside = ∅ := by
  rcases hrun with rfl | rfl
  · rcases globalLibrary_cases r [] o h with ⟨_, rfl⟩ | ⟨_, _, hnone⟩
    · rfl
    · exact hnone
  · exact (namespaceImports_cases r [] o h).2

theorem outcome_of_nil (stage : Stage) (hmem : stage ∈ table) (hstart : stage.fromEmpty = false)
    (o : Outcome) (h : (stage.run r []).value = .ok o) : o.entriesOr [] = [] ∧ o.aside = ∅ := by
  rcases descending_or_suggests r [] stage hmem o h with hfrom | ⟨_, hsuggests, _⟩
  · refine ⟨List.eq_nil_iff_forall_not_mem.mpr fun e' he' => ?_, ?_⟩
    · obtain ⟨e, he, _⟩ := hfrom.keeps e' he'
      cases he
    · by_cases haside : .aside ∈ touchedBy stage.name
      · exact aside_of_nil r stage.run (stage.run_of_aside_mem hmem hstart haside) o h
      · exact hfrom.aside haside
  · rw [hstart] at hsuggests
    cases hsuggests

theorem advance_of_nil (stage : Stage) (hmem : stage ∈ table) (hstart : stage.fromEmpty = false)
    (p : Progress) (hp : p.list = ([], ∅)) :
    (stage.advance r p).list = ([], ∅) ∧
      (stage.advance r p).effects.components = p.effects.components := by
  obtain ⟨hentries, hdeferred⟩ : p.entries = [] ∧ p.deferred = ∅ := Prod.mk.inj hp
  have hforgets : (stage.run r p.entries).Forgets := hentries ▸ forgets_run_nil r stage hmem
  refine ⟨?_, components_advance_of_forgets r stage p hforgets⟩
  rw [stage.list_advance, hentries, hdeferred]
  rcases stage.outcome_cases r p with hsame | hvalue
  · rw [hsame]
    rfl
  · rw [hentries] at hvalue
    obtain ⟨hempty, haside⟩ := outcome_of_nil r stage hmem hstart _ hvalue
    rw [hempty, haside]
    rfl

end Stage

/-! ### All stages and what follows -/

section Run

variable (r : Request)

theorem runStages_of_nil (stages : List Stage)
    (hstages : ∀ stage ∈ stages, stage ∈ Stage.table ∧ stage.fromEmpty = false) (p : Progress)
    (hp : p.list = ([], ∅)) :
    (runStages r stages p).list = ([], ∅) ∧
      (runStages r stages p).effects.components = p.effects.components := by
  induction stages generalizing p with
  | nil => exact ⟨hp, rfl⟩
  | cons stage rest ih =>
    rw [runStages]
    split
    · exact ⟨hp, rfl⟩
    · obtain ⟨hmem, hstart⟩ := hstages stage (List.mem_cons_self ..)
      have hstep := stage.advance_of_nil r hmem hstart p hp
      have hrest := ih (fun s hs => hstages s (List.mem_cons_of_mem _ hs)) _ hstep.1
      exact ⟨hrest.1, hrest.2.trans hstep.2⟩

theorem deferred_applyRules_of_nil (p : Progress) (hp : p.entries = []) :
    (applyRules r p).deferred = p.deferred := by
  unfold applyRules Rule.applyAll
  dsimp only
  rw [hp, List.map_nil, Rule.applyMarked_nil]

theorem finishList_of_nil (p : Progress) (hp : p.list = ([], ∅)) :
    (finishList r p).list = ([], ∅) := by
  obtain ⟨hentries, hdeferred⟩ : p.entries = [] ∧ p.deferred = ∅ := Prod.mk.inj hp
  have hempty : (finishList r p).entries = [] := by
    rw [entries_finishList, ruledEntries_of_empty r p hentries, finalizeKeys_nil, ite_self]
  have haside : (finishList r p).deferred = ∅ := by
    rw [deferred_finishList, deferred_applyRules_of_nil r p hentries, hdeferred]
    rfl
  exact Prod.ext hempty haside

/-! ### The two ways to an answer -/

theorem fromEmpty_of_enabled (settings : Settings)
    (h : settings.destructuringSuggestion = false) (stage : Stage)
    (hmem : stage ∈ enabledStages settings) : stage.fromEmpty = false := by
  obtain ⟨htable, henabled⟩ := List.mem_filter.mp hmem
  by_contra hstart
  rw [Bool.not_eq_false] at hstart
  rw [stage.enabled_of_fromEmpty htable hstart settings, h] at henabled
  cases henabled

theorem enrich_of_nil (fx : Effects)
    (hnone : ∀ stage ∈ enabledStages r.settings, stage.fromEmpty = false) :
    enrich r [] fx = { entries := [], deferred := ∅, cancelled := false, effects := fx } := by
  have hshort : (enabledStages r.settings).any (·.fromEmpty) = false :=
    List.any_eq_false.mpr fun stage hmem => Bool.not_eq_true _ ▸ hnone stage hmem
  rw [enrich, hshort]
  rfl

theorem enrichInFull_of_nil (fx : Effects)
    (hnone : ∀ stage ∈ enabledStages r.settings, stage.fromEmpty = false) :
    (enrichInFull r [] fx).entries = [] ∧ (enrichInFull r [] fx).deferred = ∅ ∧
      (enrichInFull r [] fx).effects.components = fx.components := by
  obtain ⟨hlist, hcomponents⟩ : (stagedProgress r [] fx).list = ([], ∅) ∧
      (stagedProgress r [] fx).effects.components = fx.components :=
    runStages_of_nil r (enabledStages r.settings)
      (fun stage hmem => ⟨mem_table_of_mem_enabledStages r.settings stage hmem, hnone stage hmem⟩)
      { entries := [], effects := fx } rfl
  unfold enrichInFull
  dsimp only
  split
  · exact ⟨congrArg Prod.fst hlist, congrArg Prod.snd hlist, hcomponents⟩
  · have hfinish := finishList_of_nil r _ hlist
    exact ⟨congrArg Prod.fst hfinish, congrArg Prod.snd hfinish,
      (components_finishList r _).trans hcomponents⟩

/-- Without the suggestion that takes an object apart an empty list is answered at once, and the
long way gives the same answer and leaves what is known about components as it was. -/
theorem empty_list_shortcut_agrees (fx : Effects)
    (h : r.settings.destructuringSuggestion = false) :
    enrich r [] fx = { entries := [], deferred := ∅, cancelled := false, effects := fx } ∧
      (enrichInFull r [] fx).entries = [] ∧ (enrichInFull r [] fx).deferred = ∅ ∧
      (enrichInFull r [] fx).effects.components = fx.components ∧
      (r.checker.IsQuiet → fx.cancelled = false → (enrichInFull r [] fx).cancelled = false) := by
  have hnone := fromEmpty_of_enabled r.settings h
  obtain ⟨hentries, hdeferred, hcomponents⟩ := enrichInFull_of_nil r fx hnone
  exact ⟨enrich_of_nil r fx hnone, hentries, hdeferred, hcomponents,
    fun hquiet hfx => cancelled_enrichInFull_of_isQuiet r [] fx hquiet hfx⟩

end Run

/-- A request without anything to list, under settings with which many stages take part. -/
def idleRequest : Request :=
  let settings :=
    { globalLibCompletions := .mark, contextualTypeBoost := true, fixSuggestionsSorting := true,
      improveElementSuggestions := true,
      namespaceImports := [("node:path", { name := "path", addImport := true })],
      replaceSuggestions := [.obj [("delete", .bool true), ("suggestion", .str "bind")]] }
  Session.stageRequest { settings } Session.memberRequest
    { entries := [], isMemberCompletion := true }

def idleEffects : Effects where
  components :=
    (∅ : ComponentCache).insert { file := "/p/src/Foo.tsx", name := "Foo", version := 0 } true

theorem empty_list_shortcut_agrees_under_rules :
    idleRequest.settings.destructuringSuggestion = false ∧
    enrich idleRequest [] idleEffects =
      { entries := [], deferred := ∅, cancelled := false, effects := idleEffects } ∧
    (enrichInFull idleRequest [] idleEffects).entries = [] ∧
    (enrichInFull idleRequest [] idleEffects).deferred = ∅ ∧
    (enrichInFull idleRequest [] idleEffects).effects.components = idleEffects.components ∧
    (enrichInFull idleRequest [] idleEffects).cancelled = false := by
  obtain ⟨hshort, hentries, hdeferred, hcomponents, hdone⟩ :=
    empty_list_shortcut_agrees idleRequest idleEffects rfl
  exact ⟨rfl, hshort, hentries, hdeferred, hcomponents, hdone (Program.isQuiet_checker _) rfl⟩

end CodeCompletion
