import CodeCompletion.Proofs.Enrichment.DisplayedOrder
import CodeCompletion.Proofs.Enrichment.Names
import CodeCompletion.Proofs.Stage.Insertions

namespace CodeCompletion

namespace Stage

/-! ### In front of the attribute rules and behind them -/

variable {r : Request} (entries : List Entry)

theorem unmarking_of_keeps (stage : Stage) (hmem : stage ∈ table)
    (hins : .insertion ∉ touchedBy stage.name) (hnew : stage.fromEmpty = false) :
    Unmarking entries (stage.run r entries) := by
  rintro o ho hentries ⟨e', he', hmark⟩
  rcases keeps_or_added r entries stage hmem o ho e' he' with ⟨e, he, hkeeps⟩ | ⟨_, hempty, _⟩
  · exact hentries ⟨e, he, hkeeps.insertion hins ▸ hmark⟩
  · rw [hnew] at hempty
    cases hempty

theorem unmarking_of_mem_take (h : r.Unmarked) (hdeclares : r.DeclaresPlainly) (stage : Stage)
    (hmem : stage ∈ table.take (place "jsx_attributes")) :
    Unmarking entries (stage.run r entries) := by
  have hkeeps := unmarking_of_keeps (r := r) entries stage (List.mem_of_mem_take hmem)
  change stage ∈ table.take 17 at hmem
  simp only [table, List.take_succ_cons, List.take_zero, List.mem_cons, List.not_mem_nil,
    or_false] at hmem
  -- Filters and ranking come first; the three stages after them write what is inserted.
  rcases hmem with rfl | rfl | rfl | rfl | rfl | rfl | rfl | rfl | rfl | rfl | rfl | rfl | rfl |
    rfl | rfl | rfl | rfl
  iterate 14 exact hkeeps (by decide) rfl
  · exact unmarking_arrayCallbacks h
  · exact unmarking_calls h hdeclares
  · exact unmarking_objectLiterals h

theorem keepsMarks_of_mem_drop (h : r.Unmarked) (stage : Stage)
    (hmem : stage ∈ table.drop (place "jsx_attributes" + 1)) :
    KeepsMarks entries (stage.run r entries) := by
  change stage ∈ table.drop 18 at hmem
  simp only [table, List.drop_succ_cons, List.drop_zero, List.mem_cons, List.not_mem_nil,
    or_false] at hmem
  rcases hmem with rfl | rfl | rfl | rfl
  · exact keepsMarks_destructuring h
  · exact keepsMarks_spaceKeywords
  · exact keepsMarks_namespaceImports h
  · exact keepsMarks_normalizeOrder (r := r)

end Stage

/-! ### In a run -/

section Run

variable (r : Request) (p : Progress)

theorem unmarked_progressAt (h : r.Unmarked) (hdeclares : r.DeclaresPlainly)
    (hp : ¬ Entry.ShowsMark p.entries) (k : Nat) (hk : k ≤ Stage.place "jsx_attributes") :
    ¬ Entry.ShowsMark (progressAt r p k).entries := by
  induction k with
  | zero => exact hp
  | succ k ih =>
    rw [entries_progressAt_succ]
    have hbefore := ih (Nat.le_of_lt hk)
    rcases outcomeAt_cases r p k with hsame | ⟨stage, hstage, hvalue⟩
    · rw [hsame]
      exact hbefore
    · have hmem : stage ∈ Stage.table.take (Stage.place "jsx_attributes") :=
        List.mem_of_getElem? ((List.getElem?_take_of_lt hk).trans hstage)
      exact Stage.unmarking_of_mem_take _ h hdeclares stage hmem _ hvalue hbefore

theorem showsMark_progressAt_iff (h : r.Unmarked) (k : Nat)
    (hk : Stage.place "jsx_attributes" + 1 ≤ k) :
    Entry.ShowsMark (progressAt r p k).entries ↔
      Entry.ShowsMark (progressAt r p (Stage.place "jsx_attributes" + 1)).entries := by
  induction hk with
  | refl => exact Iff.rfl
  | @step k hk ih =>
    rw [entries_progressAt_succ]
    rcases outcomeAt_cases r p k with hsame | ⟨stage, hstage, hvalue⟩
    · rw [hsame]
      exact ih
    · have hmem : stage ∈ Stage.table.drop (Stage.place "jsx_attributes" + 1) := by
        refine List.mem_of_getElem? (i := k - (Stage.place "jsx_attributes" + 1)) ?_
        rw [List.getElem?_drop, Nat.add_sub_of_le hk, hstage]
      exact (Stage.keepsMarks_of_mem_drop _ h stage hmem _ hvalue).trans ih

theorem entries_after_attributes
    (hgo : (progressAt r p (Stage.place "jsx_attributes")).effects.cancelled = false) :
    (progressAt r p (Stage.place "jsx_attributes" + 1)).entries =
      (StageRun.effect Stage.attributes r
        (progressAt r p (Stage.place "jsx_attributes")).entries).entriesOr
          (progressAt r p (Stage.place "jsx_attributes")).entries := by
  have hstage : Stage.table[Stage.place "jsx_attributes"]? =
      some ⟨"jsx_attributes", (!·.attributeRules.isEmpty), false, Stage.attributes⟩ := rfl
  rw [entries_progressAt_succ, outcomeAt, hstage]
  generalize progressAt r p (Stage.place "jsx_attributes") = q at hgo ⊢
  dsimp only
  rw [Stage.turn, hgo, Bool.not_false, Bool.and_true]
  dsimp only
  split
  · rw [Stage.outcome, Stage.trace_attributes, StageRun.effect, Effects.replay]
    cases hvalue : (Stage.attributes r q.entries).value <;> dsimp only
  · -- The stage is off only where there are no rules, and then it would do nothing.
    rename_i hnone
    rw [Bool.not_eq_true', ← Bool.not_eq_true, not_not, List.isEmpty_iff] at hnone
    rw [Stage.entriesOr_effect_attributes_of_no_rules r hnone]
    rfl

end Run

/-! ### In an answer -/

theorem Entry.showsMark_nil : ¬ Entry.ShowsMark [] := fun ⟨_, he, _⟩ => List.not_mem_nil he

theorem showsMark_finalizeKeys_iff (entries : List Entry) :
    Entry.ShowsMark (finalizeKeys entries) ↔ Entry.ShowsMark entries := by
  have hshown (es : List Entry) : Entry.ShowsMark es ↔ Entry.ShowsMark (es.map Entry.shown) :=
    (Stage.showsMark_map_iff Entry.shown fun _ => Iff.rfl).symm
  rw [hshown, finalizeKeys, map_shown_mapIdx, ← hshown]
  exact exists_congr fun e => and_congr_left' (Entry.perm_sortByKey entries).mem_iff

section Answer

variable (r : Request) (raws : List RawEntry) (fx : Effects)

theorem unmarked_ofRawList
    (h : ∀ raw ∈ raws, ¬ HasMark raw.name ∧ ∀ text, raw.insertText = some text → ¬ HasMark text) :
    ¬ Entry.ShowsMark (Entry.ofRawList raws) := by
  rintro ⟨e, he, hmark⟩
  obtain ⟨i, raw, hraw, rfl⟩ := mem_ofRawList raws e he
  obtain ⟨hname, htext⟩ := h raw (List.mem_of_getElem? hraw)
  have hinsertion : (raw.entryAt i).insertion = raw.insertText.getD raw.name := rfl
  rw [hinsertion] at hmark
  cases hins : raw.insertText with
  | none => exact hname (by rwa [hins] at hmark)
  | some text => exact htext text hins (by rwa [hins] at hmark)

/-- Nothing in an answer is inserted with a mark if and only if no attribute is edited by the user's
rules under a marked name. All other stages take what is inserted instead of the name. -/
theorem inserted_unmarked_iff (h : r.Unmarked) (hdeclares : r.DeclaresPlainly)
    (hraws : ∀ raw ∈ raws, ¬ HasMark raw.name ∧ ∀ text, raw.insertText = some text → ¬ HasMark text)
    (hrules : r.settings.replaceSuggestions = [])
    (hdone : (enrich r (Entry.ofRawList raws) fx).cancelled = false) :
    (∀ e ∈ (enrich r (Entry.ofRawList raws) fx).entries, ¬ HasMark e.insertion) ↔
      ∀ e ∈ (progressAt r (startOf raws fx) (Stage.place "jsx_attributes")).entries,
        ∀ patch, Stage.attributePatch? r e.name = some patch → ¬ HasMark e.name ∧
          ¬ (e.name.toList.getLast? = some '🏛' ∧ patch.insertText.toList.head? = some ' ') := by
  have hanswer : Entry.ShowsMark (enrich r (Entry.ofRawList raws) fx).entries ↔
      Entry.ShowsMark (progressAt r (startOf raws fx) (Stage.place "jsx_attributes" + 1)).entries := by
    have hbehind := showsMark_progressAt_iff r (startOf raws fx) h Stage.table.length (by decide)
    rw [entries_enrich_of_no_rules r _ fx hrules hdone]
    split
    · exact (showsMark_finalizeKeys_iff _).trans hbehind
    · exact hbehind
  have hbefore := unmarked_progressAt r (startOf raws fx) h hdeclares (unmarked_ofRawList raws hraws)
    (Stage.place "jsx_attributes") (Nat.le_refl _)
  have hattributes : Entry.ShowsMark
      (progressAt r (startOf raws fx) (Stage.place "jsx_attributes" + 1)).entries ↔
        ∃ e ∈ (progressAt r (startOf raws fx) (Stage.place "jsx_attributes")).entries,
          ∃ patch, Stage.attributePatch? r e.name = some patch ∧
            HasMark (Snippet.escape e.name ++ patch.insertText) := by
    rcases progressAt_of_done r _ fx hdone with hempty | hgo
    · rw [startOf, hempty, hempty]
      exact iff_of_false Entry.showsMark_nil fun ⟨_, he, _⟩ => List.not_mem_nil he
    · rw [entries_after_attributes r (startOf raws fx) (hgo _)]
      exact Stage.showsMark_attributes_iff r hbefore
  calc (∀ e ∈ (enrich r (Entry.ofRawList raws) fx).entries, ¬ HasMark e.insertion)
      ↔ ¬ Entry.ShowsMark (enrich r (Entry.ofRawList raws) fx).entries := by
        unfold Entry.ShowsMark
        push Not
        rfl
    _ ↔ ¬ ∃ e ∈ (progressAt r (startOf raws fx) (Stage.place "jsx_attributes")).entries,
          ∃ patch, Stage.attributePatch? r e.name = some patch ∧
            HasMark (Snippet.escape e.name ++ patch.insertText) :=
        not_congr (hanswer.trans hattributes)
    _ ↔ ∀ e ∈ (progressAt r (startOf raws fx) (Stage.place "jsx_attributes")).entries,
          ∀ patch, Stage.attributePatch? r e.name = some patch →
            ¬ HasMark (Snippet.escape e.name ++ patch.insertText) := by
        push Not
        rfl
    _ ↔ _ := by
        refine forall₂_congr fun e _ => forall₂_congr fun patch hpatch => ?_
        exact Stage.unmarked_attribute_iff h e patch hpatch

end Answer

/-! ### Attributes of a tag -/

def attributeTree : SyntaxTree where
  nodes := #[
    { kind := .sourceFile, span := ⟨0, 9⟩, parent := none, children := [1] },
    { kind := .jsxSelfClosingElement, span := ⟨0, 9⟩, parent := some 0, children := [2, 3] },
    { kind := .identifier, span := ⟨1, 4⟩, parent := some 1, children := [] },
    { kind := .jsxAttributes, span := ⟨5, 6⟩, parent := some 1, children := [4] },
    { kind := .jsxAttribute, span := ⟨5, 6⟩, parent := some 3, children := [] }]

/-- Two attributes, one of which the standard library declares. -/
def attributeNames : RawCompletions where
  entries := [{ name := "className", kind := "property", sortText := "11", symbol := some 0 },
    { name := "id", kind := "property", sortText := "11" }]

/-- A request for attributes where names of the standard library are marked and the attributes
that fit the key are followed by a value. -/
def attributeRequest (key : String) : Request :=
  let program : Program := {
    symbols := #[{ name := "className", kind := .property,
                   declarations := [⟨"/lib/lib.dom.d.ts", ⟨0, 9⟩⟩] }] }
  let request : HostRequest := {
    document := .ofFile "/p/src/App.tsx" "<div c />" attributeTree
    offset := 6
    checker := program.checker }
  let settings : Settings := {
    globalLibCompletions := .mark
    attributeRules := [(key, .patched { insertText := "=$1" })]
    correctSorting := false }
  Session.stageRequest { settings } request attributeNames

theorem unmarked_attributeRequest (key : String) : (attributeRequest key).Unmarked where
  document := by
    have htext : ¬ HasMark "<div c />" := by decide
    exact htext
  symbolTypes := nofun
  nodeTypes := nofun
  namespaces := nofun
  attributes rule hrule patch hpatch := by
    cases List.mem_singleton.mp hrule
    cases hpatch
    decide

theorem unmarked_attributeNames : ∀ raw ∈ attributeNames.entries,
    ¬ HasMark raw.name ∧ ∀ text, raw.insertText = some text → ¬ HasMark text := by
  intro raw hraw
  simp only [attributeNames, List.mem_cons, List.not_mem_nil, or_false] at hraw
  rcases hraw with rfl | rfl
  · exact ⟨by decide, nofun⟩
  · exact ⟨by decide, nofun⟩

theorem entries_attributeRequest (key : String) :
    (enrich (attributeRequest key) (Entry.ofRawList attributeNames.entries) {}).entries =
      (progressAt (attributeRequest key) (startOf attributeNames.entries {})
        Stage.table.length).entries :=
  entries_enrich_of_no_rules _ _ {} rfl
    (cancelled_enrich_of_isQuiet _ _ _ (Program.isQuiet_checker _) rfl)

theorem inserted_unmarked_of_plain_attribute :
    "🏛 className" ∈ (enrich (attributeRequest "id")
      (Entry.ofRawList attributeNames.entries) {}).entries.map (·.name) ∧
    ∀ e ∈ (enrich (attributeRequest "id") (Entry.ofRawList attributeNames.entries) {}).entries,
      ¬ HasMark e.insertion := by
  have hdone : (enrich (attributeRequest "id")
      (Entry.ofRawList attributeNames.entries) {}).cancelled = false :=
    cancelled_enrich_of_isQuiet _ _ _ (Program.isQuiet_checker _) rfl
  constructor
  · rw [entries_attributeRequest]
    decide +kernel
  · refine (inserted_unmarked_iff (attributeRequest "id") attributeNames.entries {}
      (unmarked_attributeRequest "id") nofun unmarked_attributeNames rfl hdone).mpr ?_
    decide +kernel

/-- The rule writes the name of the attribute as it is shown, with its mark. -/
theorem marked_attribute_is_inserted_with_mark :
    (attributeRequest "*").Unmarked ∧
    (∀ raw ∈ attributeNames.entries,
      ¬ HasMark raw.name ∧ ∀ text, raw.insertText = some text → ¬ HasMark text) ∧
    (attributeRequest "*").settings.replaceSuggestions = [] ∧
    (enrich (attributeRequest "*") (Entry.ofRawList attributeNames.entries) {}).cancelled = false ∧
    ∃ e ∈ (enrich (attributeRequest "*") (Entry.ofRawList attributeNames.entries) {}).entries,
      e.insertion = "🏛 className=$1" ∧ HasMark e.insertion := by
  refine ⟨unmarked_attributeRequest "*", unmarked_attributeNames, rfl,
    cancelled_enrich_of_isQuiet _ _ _ (Program.isQuiet_checker _) rfl, ?_⟩
  rw [entries_attributeRequest]
  decide +kernel

end CodeCompletion
