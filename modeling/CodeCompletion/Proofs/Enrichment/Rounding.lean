import CodeCompletion.Proofs.Enrichment.Probe

/-!
# Offsets off the boundaries

A request at an offset behind the end of the text or inside a character is answered as the one at the
greatest boundary up to it, for all settings, programs and lists, exactly if that boundary is not the
edge of something that a stage looks for. Where it is, the offset as it was given lies behind the
edge and the boundary does not.
-/

namespace CodeCompletion

/-! ### Effects off the edges -/

namespace Stage

theorem effect_excludeCovered_of_alone (r : Request) (clause : Nat)
    (hclause : r.enclosing? .caseClause = some clause) (halone : hasOtherTests r.tree clause = false)
    (entries : List Entry) : StageRun.effect excludeCovered r entries = .unchanged := by
  have hskip : (excludeCovered r entries).value = .ok .unchanged ∨
      ∃ e, (excludeCovered r entries).value = .error e := by
    unfold excludeCovered
    rw [hclause]
    dsimp only
    split
    · exact Or.inl rfl
    · cases hparts : caseParts r.tree clause with
      | error e => exact Or.inr ⟨e, rfl⟩
      | ok parts =>
        rw [hasOtherTests, hparts] at halone
        have hnone : otherTests r.tree parts.1 clause = [] :=
          List.isEmpty_iff.mp (Bool.not_eq_false' _ ▸ halone)
        refine Or.inl ?_
        dsimp only
        rw [Traced.value_bind]
        split
        · rfl
        · split
          · rfl
          · rw [Traced.value_bind, values_coveredValues, hnone]
            rfl
  rcases hskip with hvalue | ⟨e, hvalue⟩ <;> rw [StageRun.effect, hvalue]

section Moved

variable {r : Request} {offset : Nat} (h : r.RoundedFrom offset) (entries : List Entry)

include h

theorem removeUselessFunctionProps_movedTo (hedge : r.receiverEndsHere = false) :
    removeUselessFunctionProps (r.movedTo offset) entries =
      removeUselessFunctionProps r entries := by
  unfold removeUselessFunctionProps listsFunctionMembers
  rw [h.memberReceiver?_eq hedge]
  rfl

theorem sortProperties_movedTo (hedge : r.receiverEndsHere = false) :
    sortProperties (r.movedTo offset) entries = sortProperties r entries := by
  unfold sortProperties
  rw [h.memberReceiver?_eq hedge]
  rfl

theorem arrayCallbacks_movedTo (hedge : r.receiverEndsHere = false) :
    arrayCallbacks (r.movedTo offset) entries = arrayCallbacks r entries := by
  unfold arrayCallbacks
  rw [h.memberReceiver?_eq hedge]
  rfl

theorem calls_movedTo (hedge : r.calleeEndsHere = false) :
    calls (r.movedTo offset) entries = calls r entries := by
  unfold calls
  change (if !r.cursor.snippetPosition || r.atPropertyName then _ else _) = _
  split
  · rfl
  · rename_i hcalls
    have hcompletes : r.completesCalls = true := by
      rw [Bool.not_eq_true, Bool.or_eq_false_iff, Bool.not_eq_false'] at hcalls
      rw [Request.completesCalls, hcalls.1, hcalls.2]
      rfl
    rw [h.afterNew_same hcompletes hedge]
    rfl

theorem boostKeywords_movedTo (hedge : r.bodyStartsHere = false) :
    boostKeywords (r.movedTo offset) entries = boostKeywords r entries := by
  unfold boostKeywords expectedKeywords
  rw [h.inClassHeader_same hedge]
  rfl

theorem destructuring_movedTo (hedge : r.nameEndsHere = false) :
    destructuring (r.movedTo offset) entries = destructuring r entries := by
  unfold destructuring
  rw [h.namedVariable?_same hedge]
  rfl

theorem effect_excludeCovered_movedTo (hedge : r.testEndsHere = false) :
    StageRun.effect excludeCovered (r.movedTo offset) entries =
      StageRun.effect excludeCovered r entries := by
  cases hclause : r.enclosing? .caseClause with
  | none =>
    have hmoved : (r.movedTo offset).enclosing? .caseClause = none := hclause
    apply StageRun.effect_of_eq
    unfold excludeCovered
    rw [hclause, hmoved]
  | some clause =>
    have hmoved : (r.movedTo offset).enclosing? .caseClause = some clause := hclause
    cases hothers : hasOtherTests r.tree clause with
    | false =>
      rw [effect_excludeCovered_of_alone r clause hclause hothers,
        effect_excludeCovered_of_alone (r.movedTo offset) clause hmoved hothers]
    | true =>
      rw [Request.testEndsHere, hclause, Option.any_some, hothers, Bool.true_and] at hedge
      have hsame : inTest (r.movedTo offset) clause = inTest r clause := by
        rw [h.inTest_eq, and_not_of_and_eq_false hedge]
      unfold inTest at hsame
      apply StageRun.effect_of_eq
      unfold excludeCovered
      rw [hclause, hmoved]
      dsimp only
      rw [hsame]
      rfl

theorem effect_movedTo (hedge : r.atEdge = false) (stage : Stage) (hstage : stage ∈ table) :
    stage.run.effect (r.movedTo offset) entries = stage.run.effect r entries := by
  unfold Request.atEdge at hedge
  simp only [Bool.or_eq_false_iff] at hedge
  obtain ⟨⟨⟨⟨hreceiver, hcallee⟩, htest⟩, hbody⟩, hname⟩ := hedge
  simp only [table, List.mem_cons, List.not_mem_nil, or_false] at hstage
  rcases hstage with rfl | rfl | rfl | rfl | rfl | rfl | rfl | rfl | rfl | rfl | rfl | rfl | rfl |
    rfl | rfl | rfl | rfl | rfl | rfl | rfl | rfl | rfl
  iterate 3 rfl
  · exact StageRun.effect_of_eq _ _ _ _
      (elements_congr (r.movedTo offset) r rfl rfl (fun _ _ => rfl) entries)
  · rfl
  · exact effect_excludeCovered_movedTo h entries htest
  · exact StageRun.effect_of_eq _ _ _ _ (removeUselessFunctionProps_movedTo h entries hreceiver)
  iterate 2 rfl
  · exact StageRun.effect_of_eq _ _ _ _ (boostKeywords_movedTo h entries hbody)
  iterate 2 rfl
  · exact StageRun.effect_of_eq _ _ _ _ (sortProperties_movedTo h entries hreceiver)
  · rfl
  · exact StageRun.effect_of_eq _ _ _ _ (arrayCallbacks_movedTo h entries hreceiver)
  · exact StageRun.effect_of_eq _ _ _ _ (calls_movedTo h entries hcallee)
  iterate 2 rfl
  · exact StageRun.effect_of_eq _ _ _ _ (destructuring_movedTo h entries hname)
  iterate 3 rfl

end Moved

end Stage

namespace Request.RoundedFrom

variable {r : Request} {offset : Nat} (h : r.RoundedFrom offset)

include h

theorem actsLike (hquiet : r.checker.IsQuiet) (hedge : r.atEdge = false) :
    (r.movedTo offset).ActsLike r where
  settings := rfl
  document := rfl
  quiet := hquiet
  quiet' := hquiet
  effect := fun stage hstage entries => Stage.effect_movedTo h entries hedge stage hstage

/-! ### Runs at the edges -/

theorem receiver_shows (hedge : r.receiverEndsHere = true) :
    ∃ probe : Probe, probe.IsPlain ∧ probe.answer (r.movedTo offset) ≠ probe.answer r := by
  obtain ⟨receiver, hmoved, hne⟩ := h.memberReceiver?_ne hedge
  refine ⟨.ofReceiver receiver, ⟨rfl, rfl⟩, ?_⟩
  rw [Probe.answer_ofReceiver, Probe.answer_ofReceiver, if_pos hmoved, if_neg hne]
  exact (List.cons_ne_nil _ _).symm

theorem callee_shows (hedge : r.calleeEndsHere = true) :
    ∃ probe : Probe, probe.IsPlain ∧ probe.answer (r.movedTo offset) ≠ probe.answer r := by
  rw [calleeEndsHere, Bool.and_eq_true, Bool.and_eq_true] at hedge
  obtain ⟨⟨hcalls, hnew⟩, hends⟩ := hedge
  have hmoved : (r.movedTo offset).afterNew = false := by
    rw [h.afterNew_eq, hnew, hends]
    rfl
  refine ⟨.ofCalls, ⟨rfl, rfl⟩, ?_⟩
  rw [Probe.answer_ofCalls r hcalls, Probe.answer_ofCalls (r.movedTo offset) hcalls, hmoved, hnew,
    if_neg Bool.false_ne_true, if_pos rfl]
  intro hsame
  exact Bool.noConfusion (congrArg Entry.isSnippet (List.singleton_inj.mp hsame))

theorem test_shows (hedge : r.testEndsHere = true) :
    ∃ probe : Probe, probe.IsPlain ∧ probe.answer (r.movedTo offset) ≠ probe.answer r := by
  rw [testEndsHere, Option.any_eq_true] at hedge
  obtain ⟨clause, hclause, hedge⟩ := hedge
  rw [Bool.and_eq_true, Bool.and_eq_true] at hedge
  obtain ⟨⟨hothers, htest⟩, hends⟩ := hedge
  have hmoved : Stage.inTest (r.movedTo offset) clause = false := by
    rw [h.inTest_eq, htest, hends]
    rfl
  unfold Stage.hasOtherTests at hothers
  cases hparts : Stage.caseParts r.tree clause with
  | error e =>
    rw [hparts] at hothers
    cases hothers
  | ok parts =>
    rw [hparts] at hothers
    have hne : Stage.otherTests r.tree parts.1 clause ≠ [] := by
      intro hnil
      dsimp only at hothers
      rw [hnil] at hothers
      cases hothers
    refine ⟨.ofTests parts.2 (Stage.otherTests r.tree parts.1 clause), ⟨rfl, rfl⟩, ?_⟩
    have hbehind := Probe.answer_ofTests (r.movedTo offset) clause parts.1 parts.2 hclause hparts hne
    rw [hmoved, if_neg Bool.false_ne_true] at hbehind
    rw [Probe.answer_ofTests r clause parts.1 parts.2 hclause hparts hne, htest, if_pos rfl]
    intro hsame
    exact List.cons_ne_nil _ _ (hbehind.symm.trans hsame)

theorem body_shows (hedge : r.bodyStartsHere = true) :
    ∃ probe : Probe, probe.IsPlain ∧ probe.answer (r.movedTo offset) ≠ probe.answer r := by
  rw [bodyStartsHere, Bool.and_eq_true] at hedge
  have hmoved : Stage.inClassHeader (r.movedTo offset) = false := by
    rw [h.inClassHeader_eq, hedge.1, hedge.2]
    rfl
  refine ⟨.ofHeader, ⟨rfl, rfl⟩, ?_⟩
  rw [Probe.answer_ofHeader, Probe.answer_ofHeader, hmoved, hedge.1, if_neg Bool.false_ne_true,
    if_pos rfl]
  intro hsame
  have hkeys : "0" = SortKey.boost "0" := congrArg Entry.sortText (List.singleton_inj.mp hsame)
  exact absurd hkeys (by decide)

theorem name_shows (hedge : r.nameEndsHere = true) :
    ∃ probe : Probe, probe.IsPlain ∧ probe.answer (r.movedTo offset) ≠ probe.answer r := by
  rw [nameEndsHere, Option.any_eq_true] at hedge
  obtain ⟨named, hnamed, hends⟩ := hedge
  have hmoved : Stage.namedVariable? (r.movedTo offset) = none := by
    rw [h.namedVariable?_eq, hnamed, Option.filter_some, hends]
    rfl
  refine ⟨.ofName named.2, ⟨rfl, rfl⟩, fun hsame => ?_⟩
  have hlength := congrArg List.length hsame
  rw [Probe.length_answer_ofName, Probe.length_answer_ofName, hmoved, hnamed, Option.any_some,
    beq_self_eq_true] at hlength
  cases hlength

/-- At an edge some run tells the offset and the boundary apart. -/
theorem edge_shows (hedge : r.atEdge = true) :
    ∃ probe : Probe, probe.IsPlain ∧ probe.answer (r.movedTo offset) ≠ probe.answer r := by
  unfold atEdge at hedge
  simp only [Bool.or_eq_true] at hedge
  rcases hedge with (((hreceiver | hcallee) | htest) | hbody) | hname
  · exact h.receiver_shows hreceiver
  · exact h.callee_shows hcallee
  · exact h.test_shows htest
  · exact h.body_shows hbody
  · exact h.name_shows hname

end Request.RoundedFrom

/-! ### Answers -/

def Document.site (document : Document) (trigger : Trigger) (offset : Nat) : Request :=
  Session.stageRequest {} { document, offset, trigger, checker := Program.checker {} }
    { entries := [] }

/-- The request at the greatest boundary up to its offset. -/
def HostRequest.rounded (request : HostRequest) : HostRequest :=
  { request with offset := Text.floorBoundary request.offset request.document.text.toList }

theorem Cursor.detect_floorBoundary (document : Document) (offset : Nat) :
    detect document (Text.floorBoundary offset document.text.toList) = detect document offset := by
  unfold detect
  dsimp only
  rw [Text.floorBoundary_floorBoundary]

namespace Session

/-- The surroundings of an offset are those of the boundary. -/
theorem stageRequest_eq_movedTo (s : Session) (request : HostRequest) (raw : RawCompletions) :
    s.stageRequest request raw = (s.stageRequest request.rounded raw).movedTo request.offset := by
  unfold stageRequest Request.movedTo HostRequest.rounded
  dsimp only
  rw [Cursor.detect_floorBoundary]

theorem entries_enrichRaw_of_isQuiet (s : Session) (request : HostRequest) (raw : RawCompletions)
    (now : Nat) (hquiet : request.checker.IsQuiet) (hgo : request.cancelled = false)
    (hraw : Entry.ofRawList raw.entries ≠ []) (hrules : s.settings.replaceSuggestions = [])
    (hsorting : s.settings.correctSorting = false) :
    (s.enrichRaw request raw now).value.entries = Stage.effects (s.stageRequest request raw)
      (enabledStages s.settings) (Entry.ofRawList raw.entries) :=
  entries_enrich_of_isQuiet _ hquiet _ _ hraw hgo hrules hsorting

theorem entries_of_probe (probe : Probe) (h : probe.IsPlain) (document : Document)
    (trigger : Trigger) (offset : Nat) :
    (enrichRaw { settings := probe.settings }
      { document, offset, trigger, checker := probe.program.checker }
      { entries := [probe.raw], isMemberCompletion := probe.isMember } 0).value.entries =
      probe.answer (document.site trigger offset) :=
  entries_enrichRaw_of_isQuiet _ _ _ 0 (Program.isQuiet_checker probe.program) rfl
    (List.cons_ne_nil _ _) h.rules h.sorting

/-- Requests that act alike are answered alike. -/
theorem enrichRaw_of_actsLike (s : Session) (request : HostRequest) (raw : RawCompletions)
    (now : Nat) (h : (s.stageRequest request raw).ActsLike (s.stageRequest request.rounded raw)) :
    (s.enrichRaw request raw now).value = (s.enrichRaw request.rounded raw now).value := by
  have hcursor : (s.stageRequest request raw).cursor =
      (s.stageRequest request.rounded raw).cursor :=
    (congrArg Request.cursor (s.stageRequest_eq_movedTo request raw)).trans rfl
  obtain ⟨hentries, hdeferred, hcancelled⟩ := h.enrich_eq (Entry.ofRawList raw.entries)
    (s.initialEffects request raw)
  unfold initialEffects at hentries hdeferred hcancelled
  unfold enrichRaw
  dsimp only
  rw [hentries, hdeferred, hcancelled, hcursor]
  rfl

/-- An offset is served as the greatest boundary up to it, whatever is asked there, exactly if it is
a boundary itself or that boundary is not the edge of something that a stage looks for. -/
theorem served_as_rounded_iff (document : Document) (trigger : Trigger) (offset : Nat)
    (hspans : document.OnBoundaries) :
    (∀ (s : Session) (program : Program) (formatting : Formatting) (cancelled : Bool)
        (raw : RawCompletions) (now : Nat),
      let request : HostRequest :=
        { document, offset, trigger, formatting, checker := program.checker, cancelled }
      (s.enrichRaw request raw now).value = (s.enrichRaw request.rounded raw now).value) ↔
    offset = Text.floorBoundary offset document.text.toList ∨
      (document.site trigger (Text.floorBoundary offset document.text.toList)).atEdge = false := by
  let site := document.site trigger (Text.floorBoundary offset document.text.toList)
  by_cases hoff : offset = Text.floorBoundary offset document.text.toList
  · refine iff_of_true ?_ (Or.inl hoff)
    intro s program formatting cancelled raw now request
    have hsame : request.rounded = request :=
      congrArg (fun o => { request with offset := o }) hoff.symm
    rw [hsame]
  · have hrounds : site.RoundedFrom offset := ⟨hspans, rfl, hoff⟩
    constructor
    · intro hserved
      refine Or.inr (Bool.eq_false_iff.mpr fun hedge => ?_)
      obtain ⟨probe, hplain, hne⟩ := hrounds.edge_shows hedge
      have hentries := congrArg EnrichedList.entries (hserved { settings := probe.settings }
        probe.program {} false { entries := [probe.raw], isMemberCompletion := probe.isMember } 0)
      have hmoved : document.site trigger offset = site.movedTo offset :=
        stageRequest_eq_movedTo {} _ _
      have hbehind := entries_of_probe probe hplain document trigger offset
      rw [hmoved] at hbehind
      have hthere := entries_of_probe probe hplain document trigger
        (Text.floorBoundary offset document.text.toList)
      exact hne (hbehind.symm.trans (hentries.trans hthere))
    · intro hfree s program formatting cancelled raw now request
      have hthere : (s.stageRequest request.rounded raw).RoundedFrom offset :=
        ⟨hspans, rfl, hoff⟩
      refine enrichRaw_of_actsLike s request raw now ?_
      rw [stageRequest_eq_movedTo]
      exact hthere.actsLike (Program.isQuiet_checker program) (hfree.resolve_left hoff)

def constructionTree : SyntaxTree where
  nodes := #[
    { kind := .sourceFile, span := ⟨0, 7⟩, parent := none, children := [1] },
    { kind := .newExpression, span := ⟨0, 7⟩, parent := some 0, children := [2] },
    { kind := .identifier, span := ⟨4, 7⟩, parent := some 1, children := [] }]

theorem served_as_rounded_behind_blank :
    (Document.ofFile "/p/src/index.ts" "new Foo\n" constructionTree).OnBoundaries ∧
    ∀ (s : Session) (program : Program) (formatting : Formatting) (cancelled : Bool)
        (raw : RawCompletions) (now : Nat),
      let request : HostRequest :=
        { document := .ofFile "/p/src/index.ts" "new Foo\n" constructionTree
          offset := 100, formatting, checker := program.checker, cancelled }
      (s.enrichRaw request raw now).value = (s.enrichRaw request.rounded raw now).value := by
  have hspans : (Document.ofFile "/p/src/index.ts" "new Foo\n" constructionTree).OnBoundaries := by
    decide +kernel
  exact ⟨hspans, (served_as_rounded_iff _ {} 100 hspans).mpr (Or.inr (by decide +kernel))⟩

/-- A request behind the end of `new Foo`, where a class can be constructed but not called. -/
def constructionRequest : HostRequest where
  document := .ofFile "/p/src/index.ts" "new Foo" constructionTree
  offset := 100
  checker := Program.checker
    { symbolTypes := [(0, .object { constructSignatures := [⟨[], .named "Foo"⟩] })] }

def constructionOffer : RawCompletions where
  entries := [{ name := "Foo", kind := "class", sortText := "11", symbol := some 0 }]

def keyKeepingSession : Session where
  settings := { correctSorting := false }

/-- Behind the end of the callee the construction is not offered, at the end it is. -/
theorem construction_is_missed_behind_end :
    constructionRequest.document.OnBoundaries ∧
    (keyKeepingSession.enrichRaw constructionRequest constructionOffer 0).value.entries.map
      (·.insertText) = [none] ∧
    (keyKeepingSession.enrichRaw constructionRequest.rounded constructionOffer 0).value.entries.map
      (·.insertText) = [some "Foo()"] := by
  have hentries (request : HostRequest) (hquiet : request.checker.IsQuiet)
      (hgo : request.cancelled = false) :
      (keyKeepingSession.enrichRaw request constructionOffer 0).value.entries =
        Stage.effects (keyKeepingSession.stageRequest request constructionOffer)
          (enabledStages keyKeepingSession.settings) (Entry.ofRawList constructionOffer.entries) :=
    entries_enrichRaw_of_isQuiet _ _ _ 0 hquiet hgo (List.cons_ne_nil _ _) rfl rfl
  refine ⟨by decide +kernel, ?_, ?_⟩
  · rw [hentries _ (Program.isQuiet_checker _) rfl]
    decide +kernel
  · rw [hentries _ (Program.isQuiet_checker _) rfl]
    decide +kernel

end Session

end CodeCompletion
