import CodeCompletion.Proofs.Enrichment.FinalKeys
import CodeCompletion.Proofs.Enrichment.Names
import CodeCompletion.Proofs.Rule.Carries

namespace CodeCompletion

/-! ### Rules -/

theorem RulePatch.stems_apply (p : RulePatch) (e : Entry) : e.Stems (p.apply e) :=
  ⟨rfl, rfl, rfl, rfl, rfl, id⟩

namespace Rule

theorem Makes.stems {action : RuleEdit} {m : Marked} {made : List Marked}
    (h : Makes action m made) : ∀ n ∈ made, m.entry.Stems n.entry := by
  cases action with
  | delete =>
    cases h
    simp
  | patch p =>
    cases h
    simpa using p.stems_apply m.entry
  | move offset =>
    obtain ⟨key, rfl⟩ := h
    intro n hn
    rw [List.mem_singleton.mp hn]
    exact ⟨rfl, rfl, rfl, rfl, rfl, id⟩
  | duplicate placement p =>
    cases placement <;>
    · cases h
      simp [p.stems_apply m.entry, Entry.Stems.refl]

theorem stems_act (action : RuleEdit) (passed : List Marked) (m : Marked) (coming : List Marked)
    (deferred : DeferredMap) (m' : Marked)
    (hm' : m' ∈ (act action passed m coming deferred).list) :
    ∃ n ∈ passed.reverse ++ m :: coming, n.entry.Stems m'.entry ∧
      deferred.Reaches n.entry.name (act action passed m coming deferred).deferred
        m'.entry.name := by
  obtain ⟨made, hmakes, _, hperm⟩ := act_makes action passed.reverse m coming deferred
  rw [List.reverse_reverse] at hperm
  rw [deferred_act]
  rcases List.mem_append.mp (hperm.mem_iff.mp hm') with hold | hmade
  · refine ⟨m', ?_, .refl _, deferred.reaches_carryAll _ _⟩
    exact List.mem_append.mpr ((List.mem_append.mp hold).imp_right (List.mem_cons_of_mem m))
  · exact ⟨m, List.mem_append_right _ (List.mem_cons_self ..), hmakes.stems m' hmade,
      hmakes.reaches deferred m' hmade⟩

/-- What the rules make of an entry still stands for the same, and what is kept under the name of
the entry is kept under the name that it has then. -/
theorem stems_applyAll (rules : List Rule) (document : Document) (entries : List Entry)
    (deferred : DeferredMap) (e' : Entry)
    (he' : e' ∈ (applyAll rules document entries deferred).1) :
    ∃ e ∈ entries, e.Stems e' ∧
      deferred.Reaches e.name (applyAll rules document entries deferred).2 e'.name := by
  obtain ⟨m, hm, rfl⟩ := List.mem_map.mp he'
  refine applyMarked_preserves (rules.filter (·.appliesTo document))
    (fun marked kept => ∀ m ∈ marked, ∃ e ∈ entries, e.Stems m.entry ∧
      deferred.Reaches e.name kept m.entry.name) ?_ _ deferred ?_ m hm
  · intro rule _ passed m coming kept _ h m' hm'
    obtain ⟨n, hn, hstep, hreaches⟩ := stems_act rule.action passed m coming kept m' hm'
    obtain ⟨e, he, hstems, hbefore⟩ := h n hn
    exact ⟨e, he, hstems.trans hstep, hbefore.trans hreaches⟩
  · intro m hm
    obtain ⟨e, he, rfl⟩ := List.mem_map.mp hm
    exact ⟨e, he, .refl e, .refl deferred e.name⟩

end Rule

/-! ### After the stages -/

theorem stems_finalizeKeys (entries : List Entry) (e' : Entry) (he' : e' ∈ finalizeKeys entries) :
    ∃ e ∈ entries, e.Stems e' ∧ e'.name = e.name := by
  obtain ⟨i, hi, rfl⟩ := List.mem_mapIdx.mp he'
  refine ⟨_, (Entry.perm_sortByKey entries).mem_iff.mp (List.getElem_mem hi), ?_, rfl⟩
  exact ⟨rfl, rfl, rfl, rfl, rfl, id⟩

theorem stems_finishList (r : Request) (p : Progress) (e' : Entry)
    (he' : e' ∈ (finishList r p).entries) :
    ∃ e ∈ p.entries, e.Stems e' ∧
      (r.settings.replaceSuggestions = [] → e'.name = e.name) ∧
      p.deferred.Reaches e.name (applyRules r p).deferred e'.name := by
  have hruled (e₁ : Entry) (he₁ : e₁ ∈ ruledEntries r p) :
      ∃ e ∈ p.entries, e.Stems e₁ ∧
        (r.settings.replaceSuggestions = [] → e₁.name = e.name) ∧
        p.deferred.Reaches e.name (applyRules r p).deferred e₁.name := by
    unfold ruledEntries at he₁
    split at he₁
    · rename_i hrules
      rw [deferred_applyRules_of_no_rules r p (List.isEmpty_iff.mp hrules)]
      exact ⟨e₁, he₁, .refl e₁, fun _ => rfl, .refl p.deferred e₁.name⟩
    · rename_i hrules
      obtain ⟨e, he, hstems, hreaches⟩ := Rule.stems_applyAll _ _ _ _ e₁ he₁
      exact ⟨e, he, hstems, fun hnone => absurd (List.isEmpty_iff.mpr hnone) hrules, hreaches⟩
  rw [entries_finishList] at he'
  split at he'
  · obtain ⟨e₁, he₁, hstems₁, hname₁⟩ := stems_finalizeKeys _ e' he'
    obtain ⟨e, he, hstems, hname, hreaches⟩ := hruled e₁ he₁
    exact ⟨e, he, hstems.trans hstems₁, fun hnone => hname₁.trans (hname hnone),
      hname₁ ▸ hreaches⟩
  · exact hruled e' he'

theorem stems_enrich (r : Request) (raws : List RawEntry) (fx : Effects) (e' : Entry)
    (he' : e' ∈ (enrich r (Entry.ofRawList raws) fx).entries) :
    ∃ e ∈ (progressAt r (startOf raws fx) Stage.table.length).entries, e.Stems e' ∧
      (r.settings.replaceSuggestions = [] → e'.name = e.name) := by
  unfold enrich enrichInFull at he'
  dsimp only at he'
  split at he'
  · rename_i hempty
    rw [Bool.and_eq_true, List.isEmpty_iff] at hempty
    change e' ∈ Entry.ofRawList raws at he'
    rw [hempty.1] at he'
    cases he'
  · split at he'
    · exact ⟨e', he', .refl e', fun _ => rfl⟩
    · obtain ⟨e, he, hstems, hname, _⟩ := stems_finishList r _ e' he'
      exact ⟨e, he, hstems, hname⟩

/-! ### Answers -/

namespace Session

theorem entries_enrichRaw (s : Session) (request : HostRequest) (raw : RawCompletions)
    (now : Nat) : (s.enrichRaw request raw now).value.entries =
      (enrich (s.stageRequest request raw) (Entry.ofRawList raw.entries)
        (s.initialEffects request raw)).entries := rfl

/-- Each entry of an answer, cancelled or not and whatever the rules, is the suggestion that takes
an object apart or a copy of it, or agrees with an entry of the engine in all that tells what it
stands for. Without rules a name has at most a mark in front. -/
theorem entries_stem_from_engine (s : Session) (source : Engine) (request : HostRequest)
    (now : Nat) (raw : RawCompletions) (result : EnrichedList)
    (hsource : source request.document request.offset request.trigger = some raw)
    (hanswer : (s.complete source request now).value = some (.enriched result)) (e : Entry)
    (he : e ∈ result.entries) :
    (∃ suggestion, Stage.Suggests (s.stageRequest request raw) suggestion ∧
      suggestion.Stems e ∧ (s.settings.replaceSuggestions = [] → e.name = suggestion.name) ∧
      e.symbol = none ∧ e.source = none ∧ e.kindModifiers = "" ∧ e.replacementSpan = none) ∨
    ∃ origin ∈ raw.entries, e.symbol = origin.symbol ∧ e.source = origin.source ∧
      e.kindModifiers = origin.kindModifiers ∧ e.replacementSpan = origin.replacementSpan ∧
      (e.hasAction = true → origin.hasAction = true) ∧
      (s.settings.replaceSuggestions = [] →
        ∃ mark ∈ nameMarks, e.name = mark ++ origin.name) := by
  have hresult := eq_enrichRaw_of_complete s source request now raw result hsource hanswer
  subst hresult
  obtain ⟨e₀, he₀, hstems, hname⟩ := stems_enrich (s.stageRequest request raw) raw.entries
    (s.initialEffects request raw) e he
  cases hi : e₀.origin with
  | none =>
    obtain ⟨_, suggestion, hsuggests, hkept, hsame⟩ :=
      suggests_of_no_origin _ raw.entries _ _ (Nat.le_refl _) e₀ he₀ hi
    have hall := hkept.trans hstems
    obtain ⟨_, _, _, _, _, rfl⟩ := id hsuggests
    exact Or.inl ⟨_, hsuggests, hall, fun hnone => (hname hnone).trans hsame, hall.symbol,
      hall.source, hall.kindModifiers, hall.replacementSpan⟩
  | some i =>
    obtain ⟨origin, horigin, hkeeps⟩ := exists_entryAt _ raw.entries _ _ e₀ he₀ i hi
    have hall := hkeeps.toStems.trans hstems
    refine Or.inr ⟨origin, List.mem_of_getElem? horigin, hall.symbol, hall.source,
      hall.kindModifiers, hall.replacementSpan, hall.hasAction, fun hnone => ?_⟩
    have hfrom := name_from_highlight _ raw.entries _ _ (by decide) (Nat.le_refl _) e₀ he₀ i hi
      origin horigin
    obtain ⟨mark, hmark, hmarked⟩ := exists_nameMark (s.stageRequest request raw) _ _
      (Entry.ofRaw origin)
    exact ⟨mark, hmark, (hname hnone).trans (hfrom.trans hmarked)⟩

def functionMembers : RawCompletions where
  entries := [{ name := "bind", kind := "method", sortText := "11" },
    { name := "call", kind := "method", sortText := "11" },
    { name := "caller", kind := "property", sortText := "11" },
    { name := "foo", kind := "method", sortText := "11", symbol := some 0 }]
  isMemberCompletion := true

def memberRequest : HostRequest where
  document := .ofFile "/p/src/index.ts" "" .empty
  offset := 0
  checker := Program.checker { symbols := #[
    { name := "foo", kind := .method,
      declarations := [{ file := "/lib/lib.es5.d.ts", span := ⟨0, 3⟩ }] }] }

/-- A session that marks names of the standard library and leaves keys as they are. -/
def markingSession : Session where
  settings := { globalLibCompletions := .mark, correctSorting := false }

theorem entries_stem_from_engine_of_members :
    (markingSession.complete (fun _ _ _ => some functionMembers) memberRequest 0).value =
      some (.enriched (markingSession.enrichRaw memberRequest functionMembers 0).value) ∧
    ∃ e ∈ (markingSession.enrichRaw memberRequest functionMembers 0).value.entries,
      e.name = "☆🏛 foo" ∧ ∃ origin ∈ functionMembers.entries, e.symbol = origin.symbol ∧
        e.source = origin.source ∧ e.kindModifiers = origin.kindModifiers ∧
        e.replacementSpan = origin.replacementSpan ∧
        (e.hasAction = true → origin.hasAction = true) ∧
        ∃ mark ∈ nameMarks, e.name = mark ++ origin.name := by
  let r := markingSession.stageRequest memberRequest functionMembers
  let start := startOf functionMembers.entries
    (markingSession.initialEffects memberRequest functionMembers)
  have hdone : (enrich r start.entries start.effects).cancelled = false :=
    cancelled_enrich_of_isQuiet _ _ _ (Program.isQuiet_checker _) rfl
  obtain ⟨e, he, hname, hsymbol⟩ :
      ∃ e ∈ (progressAt r start Stage.table.length).entries,
        e.name = "☆🏛 foo" ∧ e.symbol = some 0 := by decide
  have hanswer : e ∈ (markingSession.enrichRaw memberRequest functionMembers 0).value.entries := by
    have hentries := entries_enrich_of_no_rules r start.entries start.effects rfl hdone
    rw [if_neg (by decide)] at hentries
    rw [entries_enrichRaw]
    exact hentries ▸ he
  refine ⟨rfl, e, hanswer, hname, ?_⟩
  rcases entries_stem_from_engine markingSession (fun _ _ _ => some functionMembers) memberRequest 0
    functionMembers _ rfl rfl e hanswer with ⟨_, _, _, _, hnone, _⟩ | ⟨origin, horigin, hfields⟩
  · rw [hsymbol] at hnone
    cases hnone
  · obtain ⟨h₁, h₂, h₃, h₄, h₅, hmark⟩ := hfields
    exact ⟨origin, horigin, h₁, h₂, h₃, h₄, h₅, hmark rfl⟩

end Session

end CodeCompletion
