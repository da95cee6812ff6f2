import CodeCompletion.Proofs.Enrichment.Run
import CodeCompletion.Proofs.Rule.KeyOrder
import CodeCompletion.Proofs.Session.Conversation

/-!
# Final sort keys

The last step sorts the list and appends to each key its position. No stage and no rule brings
U+0000 into a key, so the keys of an answer increase strictly: they are distinct, and sorting by
them gives the list back.
-/

namespace CodeCompletion

/-! ### Keys without U+0000 -/

namespace SortKey

theorem isPlain_boost (key : String) (h : IsPlain key) : IsPlain (boost key) := by
  unfold IsPlain boost at *
  rw [String.toList_append, List.mem_append, not_or]
  exact ⟨by decide, h⟩

theorem isPlain_refine (key : String) (rank : UInt16) (h : IsPlain key) :
    IsPlain (refine key rank) := by
  unfold IsPlain refine at *
  rw [String.toList_append, String.toList_append, List.mem_append, List.mem_append, not_or, not_or]
  refine ⟨⟨h, by decide⟩, fun hdigit => ?_⟩
  exact absurd (isDigit_of_mem_decimal 4 rank.toNat _ hdigit) (by decide)

theorem Derived.isPlain {base key : String} (hkey : Derived base key) (h : IsPlain base) :
    IsPlain key := by
  induction hkey with
  | refl => exact h
  | boost _ ih => exact isPlain_boost _ ih
  | refine _ rank ih => exact isPlain_refine _ rank ih

end SortKey

/-- All keys of a list leave U+0000 to the final positions. -/
def Entry.PlainKeys (entries : List Entry) : Prop := ∀ e ∈ entries, SortKey.IsPlain e.sortText

theorem Stage.plainKeys_advance (stage : Stage) (hmem : stage ∈ Stage.table) (r : Request)
    (p : Progress) (h : Entry.PlainKeys p.entries) :
    Entry.PlainKeys (stage.advance r p).entries := by
  intro e' he'
  rcases stage.mem_advance r p hmem e' he' with ⟨e, he, hkeeps⟩ | ⟨_, _, _, _, _, _, rfl⟩
  · exact hkeeps.key.isPlain (h e he)
  · show SortKey.IsPlain (SortKey.boost "0")
    unfold SortKey.IsPlain
    decide

theorem plainKeys_runStages (r : Request) (p : Progress) (h : Entry.PlainKeys p.entries) :
    Entry.PlainKeys (runStages r (enabledStages r.settings) p).entries := by
  refine runStages_preserves r (fun entries _ => Entry.PlainKeys entries) _ ?_ p h
  intro stage hstage p hp
  exact stage.plainKeys_advance (mem_table_of_mem_enabledStages r.settings stage hstage) r p hp

/-! ### After the stages -/

def ruledEntries (r : Request) (p : Progress) : List Entry :=
  if r.settings.replaceSuggestions.isEmpty then p.entries else (applyRules r p).entries

theorem entries_finishList (r : Request) (p : Progress) :
    (finishList r p).entries =
      if r.settings.correctSorting then finalizeKeys (ruledEntries r p) else ruledEntries r p := by
  unfold finishList ruledEntries Progress.prune
  cases r.settings.replaceSuggestions.isEmpty <;> cases r.settings.correctSorting <;> rfl

theorem deferred_applyRules_of_no_rules (r : Request) (p : Progress)
    (h : r.settings.replaceSuggestions = []) : (applyRules r p).deferred = p.deferred := by
  simp only [applyRules, h]
  rfl

theorem deferred_finishList (r : Request) (p : Progress) :
    (finishList r p).deferred =
      (applyRules r p).deferred.restrict ((finishList r p).entries.map (·.name)) := by
  unfold finishList Progress.prune
  cases hrules : r.settings.replaceSuggestions with
  | nil =>
    rw [deferred_applyRules_of_no_rules r p hrules]
    cases r.settings.correctSorting <;> rfl
  | cons rule rules => cases r.settings.correctSorting <;> rfl

theorem plainKeys_ruledEntries (r : Request) (p : Progress) (h : Entry.PlainKeys p.entries)
    (hrules : ∀ rule ∈ (Rule.parseAll 0 r.settings.replaceSuggestions).1,
      ∀ key, rule.action.key? = some key → SortKey.IsPlain key) :
    Entry.PlainKeys (ruledEntries r p) := by
  unfold ruledEntries
  split
  · exact h
  · intro e he
    have hkey : e.sortText ∈ (applyRules r p).entries.map (·.sortText) :=
      List.mem_map.mpr ⟨e, he, rfl⟩
    rcases Rule.mem_keys_applyAll _ r.document p.entries p.deferred e.sortText hkey with
      hold | ⟨rule, hrule, _, hset⟩
    · obtain ⟨old, hmem, heq⟩ := List.mem_map.mp hold
      rw [← heq]
      exact h old hmem
    · exact hrules rule hrule e.sortText hset

theorem pairwise_finalizeKeys (entries : List Entry) (h : Entry.PlainKeys entries) :
    (finalizeKeys entries).Pairwise fun a b => a.sortText < b.sortText := by
  have hsorted := Entry.sortedByKey_sortByKey entries
  have hlen : (Entry.sortByKey entries).length = entries.length :=
    (Entry.perm_sortByKey entries).length_eq
  have hplain (e : Entry) (he : e ∈ Entry.sortByKey entries) : SortKey.IsPlain e.sortText :=
    h e ((Entry.perm_sortByKey entries).mem_iff.mp he)
  rw [finalizeKeys, List.pairwise_iff_getElem]
  intro i j hi hj hij
  rw [List.getElem_mapIdx, List.getElem_mapIdx]
  rw [List.length_mapIdx] at hi hj
  exact SortKey.unique_lt_unique _ i j _ _ (hplain _ (List.getElem_mem hi))
    (hplain _ (List.getElem_mem hj)) (List.pairwise_iff_getElem.mp hsorted i j hi hj hij) hij
    (SortKey.length_toDigits_le_indexWidth _ i (hlen ▸ hi))
    (SortKey.length_toDigits_le_indexWidth _ j (hlen ▸ hj))

/-! ### Lists without entries -/

theorem finalizeKeys_nil : finalizeKeys [] = [] := by
  rw [finalizeKeys, Entry.sortByKey, List.mergeSort_nil, List.mapIdx_nil]

theorem runStages_of_empty (r : Request) (stages : List Stage) (p : Progress) (h : p.entries = [])
    (hmem : ∀ stage ∈ stages, stage ∈ Stage.table) (hstages : stages.any (·.fromEmpty) = false) :
    (runStages r stages p).entries = [] := by
  refine runStages_preserves r (fun entries _ => entries = []) _ ?_ p h
  intro stage hstage p hp
  rw [List.eq_nil_iff_forall_not_mem]
  intro e' he'
  rcases stage.mem_advance r p (hmem stage hstage) e' he' with ⟨e, he, _⟩ | ⟨hempty, _⟩
  · rw [hp] at he
    cases he
  · exact absurd hempty (by simpa using List.any_eq_false.mp hstages stage hstage)

theorem ruledEntries_of_empty (r : Request) (p : Progress) (h : p.entries = []) :
    ruledEntries r p = [] := by
  unfold ruledEntries
  split
  · exact h
  · unfold applyRules Rule.applyAll
    dsimp only
    rw [h, List.map_nil, Rule.applyMarked_nil, List.map_nil]

def stagedProgress (r : Request) (entries : List Entry) (effects : Effects) : Progress :=
  runStages r (enabledStages r.settings) { entries, effects }

/-- The answer to a request that is not cancelled holds the list as the stages and the rules leave
it, with its final keys; an empty list that is answered at once is no exception. -/
theorem entries_enrich (r : Request) (entries : List Entry) (effects : Effects)
    (h : (enrich r entries effects).cancelled = false) :
    (enrich r entries effects).entries =
      (finishList r (stagedProgress r entries effects)).entries := by
  unfold enrich enrichInFull at h ⊢
  dsimp only at h ⊢
  split
  · rename_i hempty
    rw [Bool.and_eq_true, List.isEmpty_iff, Bool.not_eq_true'] at hempty
    have hstaged : (stagedProgress r entries effects).entries = [] :=
      runStages_of_empty r _ _ hempty.1 (mem_table_of_mem_enabledStages r.settings) hempty.2
    rw [entries_finishList, ruledEntries_of_empty r _ hstaged, finalizeKeys_nil, ite_self]
    exact hempty.1
  · rename_i hempty
    rw [if_neg hempty] at h
    split
    · rename_i hcancelled
      rw [if_pos hcancelled] at h
      cases h
    · rfl

/-! ### Answers -/

namespace Session

def ruled (s : Session) (request : HostRequest) (raw : RawCompletions) : List Entry :=
  let r := s.stageRequest request raw
  ruledEntries r (stagedProgress r (Entry.ofRawList raw.entries) (s.initialEffects request raw))

theorem eq_enrichRaw_of_complete (s : Session) (source : Engine) (request : HostRequest)
    (now : Nat) (raw : RawCompletions) (result : EnrichedList)
    (hsource : source request.document request.offset request.trigger = some raw)
    (h : (s.complete source request now).value = some (.enriched result)) :
    result = (s.enrichRaw request raw now).value := by
  rcases s.complete_cases source request now with ⟨_, hplain⟩ | ⟨raw', hraw, hcommand⟩
  · exact absurd h (hplain result)
  · rw [hsource] at hraw
    cases hraw
    rw [(s.complete_of_raw source request now raw hsource hcommand).1] at h
    cases h
    rfl

theorem plainKeys_ofRawList (raws : List RawEntry)
    (h : ∀ e ∈ raws, SortKey.IsPlain e.sortText) : Entry.PlainKeys (Entry.ofRawList raws) := by
  intro e he
  obtain ⟨i, hi, rfl⟩ := List.mem_mapIdx.mp he
  exact h _ (List.getElem_mem hi)

/-- The keys of an answer increase strictly, byte by byte. Each is the key that the entry had after
the rules, followed by U+0000 and the entry's position with zeros in front up to a common width. -/
theorem sortText_strictly_increasing (s : Session) (source : Engine) (request : HostRequest)
    (now : Nat) (raw : RawCompletions) (result : EnrichedList)
    (hsource : source request.document request.offset request.trigger = some raw)
    (hanswer : (s.complete source request now).value = some (.enriched result))
    (hdone : result.auxiliary.cancelled = false)
    (hsorting : s.settings.correctSorting = true)
    (hraw : ∀ e ∈ raw.entries, '\x00' ∉ e.sortText.toList)
    (hrules : ∀ rule ∈ (Rule.parseAll 0 s.settings.replaceSuggestions).1,
      ∀ key, rule.action.key? = some key → '\x00' ∉ key.toList) :
    result.entries.Pairwise (fun a b => Text.bytes a.sortText < Text.bytes b.sortText) ∧
    ∃ (ordered : List Entry) (width : Nat), ordered.Perm (s.ruled request raw) ∧ 4 ≤ width ∧
      (∀ i < result.entries.length, (Nat.toDigits 10 i).length ≤ width) ∧
      result.entries = ordered.mapIdx fun i e => e.mapKey fun key => key ++ "\x00" ++
        String.ofList (List.replicate (width - (Nat.toDigits 10 i).length) '0' ++
          Nat.toDigits 10 i) := by
  have hresult := eq_enrichRaw_of_complete s source request now raw result hsource hanswer
  subst hresult
  have hentries : (s.enrichRaw request raw now).value.entries =
      finalizeKeys (s.ruled request raw) := by
    have hfinal := entries_enrich (s.stageRequest request raw) (Entry.ofRawList raw.entries)
      (s.initialEffects request raw) hdone
    have hset : (s.stageRequest request raw).settings.correctSorting = true := hsorting
    rw [entries_finishList, if_pos hset] at hfinal
    exact hfinal
  have hstaged := plainKeys_runStages (s.stageRequest request raw)
    { entries := Entry.ofRawList raw.entries, effects := s.initialEffects request raw }
    (plainKeys_ofRawList raw.entries hraw)
  have hplain : Entry.PlainKeys (s.ruled request raw) := plainKeys_ruledEntries _ _ hstaged hrules
  rw [hentries]
  constructor
  · simp only [Text.bytes_lt_bytes_iff]
    exact pairwise_finalizeKeys _ hplain
  · refine ⟨Entry.sortByKey (s.ruled request raw), SortKey.indexWidth (s.ruled request raw).length,
      Entry.perm_sortByKey _, SortKey.four_le_indexWidth _, ?_, rfl⟩
    intro i hi
    rw [finalizeKeys, List.length_mapIdx, (Entry.perm_sortByKey _).length_eq] at hi
    exact SortKey.length_toDigits_le_indexWidth _ i hi

def tiedKeys : RawCompletions where
  entries := [{ name := "c", kind := "var", sortText := "10" },
    { name := "b", kind := "var", sortText := "11" },
    { name := "a", kind := "var", sortText := "1" }]

/-- A session with a rule that gives `b` the key of `a`. -/
def tyingSession : Session where
  settings := { replaceSuggestions :=
    [.obj [("patch", .obj [("sortText", .str "1")]), ("suggestion", .str "b")]] }

def emptyFileRequest : HostRequest where
  document := .ofFile "/p/src/index.ts" "" .empty
  offset := 0
  checker := Program.checker {}

theorem sortText_strictly_increasing_of_ties :
    (tyingSession.complete (fun _ _ _ => some tiedKeys) emptyFileRequest 0).value =
      some (.enriched (tyingSession.enrichRaw emptyFileRequest tiedKeys 0).value) ∧
    (tyingSession.enrichRaw emptyFileRequest tiedKeys 0).value.auxiliary.cancelled = false ∧
    (tyingSession.enrichRaw emptyFileRequest tiedKeys 0).value.entries.Pairwise
      fun a b => Text.bytes a.sortText < Text.bytes b.sortText := by
  have hdone : (tyingSession.enrichRaw emptyFileRequest tiedKeys 0).value.auxiliary.cancelled =
      false := cancelled_enrich_of_isQuiet _ _ _ (Program.isQuiet_checker {}) rfl
  have hrules : (Rule.parseAll 0 tyingSession.settings.replaceSuggestions).1.map
      (·.action.key?) = [some "1"] := by decide
  refine ⟨rfl, hdone, (sortText_strictly_increasing tyingSession (fun _ _ _ => some tiedKeys)
    emptyFileRequest 0 tiedKeys _ rfl rfl hdone rfl (by decide) ?_).1⟩
  intro rule hrule key hkey
  have hmem := List.mem_map_of_mem (f := (·.action.key?)) hrule
  rw [hrules, List.mem_singleton, hkey] at hmem
  cases hmem
  decide

end Session

end CodeCompletion
