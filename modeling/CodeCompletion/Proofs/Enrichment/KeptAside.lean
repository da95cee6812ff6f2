import CodeCompletion.Proofs.Deferred.Merge
import CodeCompletion.Proofs.Enrichment.Provenance

/-!
# Metadata and final names

What a stage keeps aside stands under the name that the entry has at that time, and is found again
under the name that it has in the end. The two are the same for all stages but the one that marks
names of the standard library: if members of functions are marked afterwards, what it kept aside is
lost.
-/

namespace CodeCompletion

/-! ### Who keeps what aside -/

/-- Whether accepting an entry adds an import that is to become an import of the whole module under
a name, and the document does not have that yet. -/
structure Entry.NeedsImport (r : Request) (e : Entry) (name source : String) : Prop where
  isImport : e.importModule? = some source
  configured : r.settings.namespaceImports.lookup source = some { name, addImport := true }
  missing : Stage.hasNamespaceImport r.document name source = false

namespace Stage

theorem name_of_aside_mem (name : String) (h : .aside ∈ touchedBy name) :
    name = "global_lib" ∨ name = "destructuring_suggestion" ∨ name = "namespace_import" := by
  unfold touchedBy at h
  split at h <;> simp_all

/-- The declaration of an import is kept aside for an entry exactly if the entry needs it. -/
theorem kept_of_qualify_iff (r : Request) (e : Entry) (m : Deferred) :
    ((qualify r e).bind (·.2)) = some m ↔
      ∃ name source, e.NeedsImport r name source ∧ m = importMetadata r.formatting name source := by
  unfold qualify
  constructor
  · intro h
    obtain ⟨q, h, hkept⟩ := Option.bind_eq_some_iff.mp h
    obtain ⟨source, hsource, h⟩ := Option.bind_eq_some_iff.mp h
    obtain ⟨target, htarget, h⟩ := Option.bind_eq_some_iff.mp h
    cases h
    dsimp only at hkept
    split at hkept
    · rename_i hadd
      rw [Bool.and_eq_true, Bool.not_eq_true'] at hadd
      cases hkept
      refine ⟨target.name, source, ⟨hsource, ?_, hadd.2⟩, rfl⟩
      rw [htarget, ← hadd.1]
    · cases hkept
  · rintro ⟨name, source, hneeds, rfl⟩
    simp only [Option.bind_eq_bind, hneeds.isImport, hneeds.configured, Option.bind_some,
      hneeds.missing]
    rfl

/-- What the stage of namespaces keeps aside stands under the names of entries that need it. -/
theorem aside_of_namespaceImports (r : Request) (entries : List Entry) (o : Outcome)
    (h : (namespaceImports r entries).value = .ok o) (name : String) (m : Deferred)
    (hm : o.aside[name]? = some m) :
    ∃ e ∈ entries, e.name = name ∧ ∃ target source, e.NeedsImport r target source ∧
      m = importMetadata r.formatting target source := by
  rw [(namespaceImports_cases r entries o h).2] at hm
  obtain ⟨e, he, hkept⟩ := List.mem_filterMap.mp (DeferredMap.mem_of_getElem?_ofList _ name m hm)
  obtain ⟨_, hkept, heq⟩ := Option.map_eq_some_iff.mp hkept
  cases heq
  exact ⟨e, he, rfl, (kept_of_qualify_iff r e m).mp hkept⟩

theorem exists_aside_of_needsImport (r : Request) (entries : List Entry) (o : Outcome)
    (h : (namespaceImports r entries).value = .ok o) (e : Entry) (he : e ∈ entries)
    (target source : String) (hneeds : e.NeedsImport r target source) :
    ∃ m, o.aside[e.name]? = some m := by
  have hkept := (kept_of_qualify_iff r e _).mpr ⟨target, source, hneeds, rfl⟩
  have hmem : (e.name, importMetadata r.formatting target source) ∈ keptImports r entries := by
    refine List.mem_filterMap.mpr ⟨e, he, ?_⟩
    rw [hkept]
    rfl
  rw [(namespaceImports_cases r entries o h).2]
  exact DeferredMap.exists_getElem?_ofList _ e.name _ hmem

theorem aside_of_globalLibrary (r : Request) (entries : List Entry) (o : Outcome)
    (h : (globalLibrary r entries).value = .ok o) (name : String) (m : Deferred)
    (hm : o.aside[name]? = some m) :
    ∃ detail rest, name = libraryMark ++ rest ∧ m = { detailPrefix := some detail } := by
  rcases globalLibrary_cases r entries o h with ⟨_, rfl⟩ | ⟨_, _, hnone⟩
  · have hmem := DeferredMap.mem_of_getElem?_ofList _ name m hm
    obtain ⟨e, _, heq⟩ := List.mem_map.mp hmem
    cases heq
    exact ⟨_, e.name, rfl, rfl⟩
  · rw [hnone, Std.TreeMap.getElem?_emptyc] at hm
    cases hm

theorem aside_of_destructuring (r : Request) (entries : List Entry) (o : Outcome)
    (h : (destructuring r entries).value = .ok o) (name : String) (m : Deferred)
    (hm : o.aside[name]? = some m) : ∃ span, m = { replacementSpan := span } := by
  rcases destructuring_cases r entries o h with rfl | ⟨e, kept, _, rfl⟩
  · rw [Outcome.aside, Std.TreeMap.getElem?_emptyc] at hm
    cases hm
  · have hmem := DeferredMap.mem_of_getElem?_ofList _ name m hm
    cases List.mem_singleton.mp hmem
    exact ⟨_, rfl⟩

end Stage

/-! ### In a run -/

theorem stage_of_aside (r : Request) (p : Progress) (k : Nat) (name : String) (m : Deferred)
    (hm : (outcomeAt r p k).aside[name]? = some m) :
    k = Stage.place "global_lib" ∧
        (Stage.globalLibrary r (progressAt r p k).entries).value = .ok (outcomeAt r p k) ∨
      k = Stage.place "destructuring_suggestion" ∧
        (Stage.destructuring r (progressAt r p k).entries).value = .ok (outcomeAt r p k) ∨
      k = Stage.place "namespace_import" ∧
        (Stage.namespaceImports r (progressAt r p k).entries).value = .ok (outcomeAt r p k) := by
  rcases outcomeAt_cases r p k with hsame | ⟨stage, hstage, hvalue⟩
  · rw [hsame, Outcome.aside, Std.TreeMap.getElem?_emptyc] at hm
    cases hm
  · have hname : stage.name = "global_lib" ∨ stage.name = "destructuring_suggestion" ∨
        stage.name = "namespace_import" := by
      rcases Stage.descending_or_suggests r _ stage (List.mem_of_getElem? hstage) _ hvalue with
        hfrom | ⟨hname, _⟩
      · apply Stage.name_of_aside_mem
        by_contra hnot
        rw [hfrom.aside hnot, Std.TreeMap.getElem?_emptyc] at hm
        cases hm
      · exact Or.inr (Or.inl hname)
    have hplace := Stage.place_of_getElem? k stage hstage
    rcases hname with hname | hname | hname
    · rw [hname] at hplace
      subst hplace
      cases hstage
      exact Or.inl ⟨rfl, hvalue⟩
    · rw [hname] at hplace
      subst hplace
      cases hstage
      exact Or.inr (Or.inl ⟨rfl, hvalue⟩)
    · rw [hname] at hplace
      subst hplace
      cases hstage
      exact Or.inr (Or.inr ⟨rfl, hvalue⟩)

theorem aside_outcomeAt_cases (r : Request) (p : Progress) (k : Nat) (name : String) (m : Deferred)
    (hm : (outcomeAt r p k).aside[name]? = some m) :
    k = Stage.place "global_lib" ∧ m.detailPrefix.isSome = true ∧
      (∃ rest, name = Stage.libraryMark ++ rest) ∨
    (k = Stage.place "destructuring_suggestion" ∨ k = Stage.place "namespace_import") ∧
      m.detailPrefix = none := by
  rcases stage_of_aside r p k name m hm with ⟨hk, hvalue⟩ | ⟨hk, hvalue⟩ | ⟨hk, hvalue⟩
  · obtain ⟨_, rest, rfl, rfl⟩ := Stage.aside_of_globalLibrary r _ _ hvalue name m hm
    exact Or.inl ⟨hk, rfl, rest, rfl⟩
  · obtain ⟨span, rfl⟩ := Stage.aside_of_destructuring r _ _ hvalue name m hm
    exact Or.inr ⟨Or.inl hk, rfl⟩
  · obtain ⟨_, _, _, _, _, _, rfl⟩ := Stage.aside_of_namespaceImports r _ _ hvalue name m hm
    exact Or.inr ⟨Or.inr hk, rfl⟩

theorem place_of_aside (r : Request) (p : Progress) (k : Nat) (name : String) (m : Deferred)
    (hm : (outcomeAt r p k).aside[name]? = some m) :
    Stage.place "global_lib" ≤ k ∧ k + 1 ≤ Stage.table.length ∧
      (k + 1 ≤ Stage.place "highlight_non_function_methods" → k = Stage.place "global_lib") := by
  rcases aside_outcomeAt_cases r p k name m hm with ⟨rfl, _⟩ | ⟨rfl | rfl, _⟩ <;> decide

/-- What is kept aside at one place is there at all later ones. -/
theorem isKeptIn_progressAt (r : Request) (p : Progress) (j k : Nat) (hjk : j ≤ k) (name : String)
    (m : Deferred) (hm : (progressAt r p j).deferred[name]? = some m) :
    ∃ m', (progressAt r p k).deferred[name]? = some m' ∧ m.IsKeptIn m' := by
  induction hjk with
  | refl => exact ⟨m, hm, .refl m⟩
  | @step k _ ih =>
    obtain ⟨m₁, hm₁, hkept₁⟩ := ih
    rw [deferred_progressAt_succ]
    obtain ⟨m₂, hm₂, hkept₂⟩ := DeferredMap.isKeptIn_mergeAll _ _ name m₁ (Or.inl hm₁)
    exact ⟨m₂, hm₂, hkept₁.trans hkept₂⟩

theorem marked_of_detailPrefix (r : Request) (p : Progress) (hp : p.deferred = ∅) (k : Nat)
    (name : String) (m : Deferred) (hm : (progressAt r p k).deferred[name]? = some m)
    (hdetail : m.detailPrefix.isSome = true) : ∃ rest, name = Stage.libraryMark ++ rest := by
  induction k generalizing m with
  | zero =>
    rw [progressAt_zero, hp, Std.TreeMap.getElem?_emptyc] at hm
    cases hm
  | succ k ih =>
    rw [deferred_progressAt_succ, DeferredMap.getElem?_mergeAll] at hm
    cases hnew : (outcomeAt r p k).aside[name]? with
    | none =>
      rw [hnew] at hm
      exact ih m hm hdetail
    | some later =>
      rcases aside_outcomeAt_cases r p k name later hnew with ⟨_, _, hmarked⟩ | ⟨_, hnone⟩
      · exact hmarked
      · rw [hnew] at hm
        cases hm
        simp only [Deferred.merge, hnone, Option.none_or] at hdetail
        cases hold : (progressAt r p k).deferred[name]? with
        | none =>
          rw [hold] at hdetail
          cases hdetail
        | some earlier =>
          rw [hold] at hdetail
          exact ih earlier hold hdetail

/-! ### In the answer -/

theorem deferred_enrich (r : Request) (entries : List Entry) (fx : Effects)
    (hdone : (enrich r entries fx).cancelled = false) (e : Entry)
    (he : e ∈ (enrich r entries fx).entries) :
    (enrich r entries fx).deferred = (finishList r (stagedProgress r entries fx)).deferred := by
  unfold enrich enrichInFull at hdone he ⊢
  dsimp only at hdone he ⊢
  split
  · rename_i hempty
    rw [if_pos hempty] at he
    rw [Bool.and_eq_true, List.isEmpty_iff] at hempty
    rw [hempty.1] at he
    cases he
  · rename_i hempty
    rw [if_neg hempty] at hdone
    split
    · rename_i hcancelled
      rw [if_pos hcancelled] at hdone
      cases hdone
    · rfl

theorem deferred_enrich_of_no_rules (r : Request) (entries : List Entry) (fx : Effects)
    (hrules : r.settings.replaceSuggestions = [])
    (hdone : (enrich r entries fx).cancelled = false) (e : Entry)
    (he : e ∈ (enrich r entries fx).entries) :
    (enrich r entries fx).deferred[e.name]? =
      (progressAt r { entries, effects := fx } Stage.table.length).deferred[e.name]? := by
  have hmem : e.name ∈ (finishList r (stagedProgress r entries fx)).entries.map (·.name) := by
    rw [← entries_enrich r entries fx hdone]
    exact List.mem_map.mpr ⟨e, he, rfl⟩
  rw [deferred_enrich r entries fx hdone e he, deferred_finishList,
    DeferredMap.getElem?_restrict _ _ _ hmem, deferred_applyRules_of_no_rules r _ hrules]
  rfl

section Following

variable (r : Request) (raws : List RawEntry) (fx : Effects)

/-- Entries of one origin have the same name at a place and in the end, unless members of functions
are marked in between. -/
theorem name_eq_final_name (k : Nat) (hlow : Stage.place "global_lib" < k)
    (hhigh : k ≤ Stage.table.length)
    (hmembers : k ≤ Stage.place "highlight_non_function_methods" →
      marksMembers r (startOf raws fx) = false)
    (e e' : Entry) (he : e ∈ (progressAt r (startOf raws fx) k).entries)
    (he' : e' ∈ (progressAt r (startOf raws fx) Stage.table.length).entries)
    (horigin : e'.origin = e.origin) : e'.name = e.name := by
  cases hi : e.origin with
  | none =>
    obtain ⟨_, s, hs, _, hname⟩ := suggests_of_no_origin r raws fx k hhigh e he hi
    obtain ⟨_, s', hs', _, hname'⟩ := suggests_of_no_origin r raws fx _ (Nat.le_refl _) e' he'
      (horigin.trans hi)
    rw [hname, hname', hs.unique hs']
  | some i =>
    obtain ⟨raw, hraw, _⟩ := exists_entryAt r raws fx k e he i hi
    have hfinal := name_from_highlight r raws fx _ (by decide) (Nat.le_refl _) e' he' i
      (horigin.trans hi) raw hraw
    rcases Nat.lt_or_ge (Stage.place "highlight_non_function_methods") k with hlt | hge
    · rw [hfinal, name_from_highlight r raws fx k hlt hhigh e he i hi raw hraw]
    · rw [hfinal, hmembers hge, name_before_highlight r raws fx k hlow hge e he i hi raw hraw]
      rfl

theorem not_marked_of_marksMembers (hmembers : marksMembers r (startOf raws fx) = true) (e : Entry)
    (he : e ∈ (progressAt r (startOf raws fx) Stage.table.length).entries) (i : Nat)
    (hi : e.origin = some i) (rest : String) : e.name ≠ Stage.libraryMark ++ rest := by
  obtain ⟨raw, hraw, _⟩ := exists_entryAt r raws fx _ e he i hi
  rw [name_from_highlight r raws fx _ (by decide) (Nat.le_refl _) e he i hi raw hraw, hmembers,
    memberName, if_pos rfl]
  intro heq
  have hhead := congrArg (fun name : String => name.toList.head?) heq
  simp only [String.toList_append, Stage.memberMark] at hhead
  split at hhead
  · exact absurd hhead (by simp [Stage.prototypeMark, Stage.libraryMark])
  · exact absurd hhead (by simp [Stage.ownMemberMark, Stage.libraryMark])

/-- What the stage that marks names of the standard library keeps aside is not found under the final
name, if members of functions are marked. -/
theorem aside_is_lost (hmembers : marksMembers r (startOf raws fx) = true) (e e' : Entry)
    (he : e ∈ (progressAt r (startOf raws fx) (Stage.place "global_lib" + 1)).entries)
    (he' : e' ∈ (progressAt r (startOf raws fx) Stage.table.length).entries)
    (horigin : e'.origin = e.origin) (m m' : Deferred) (hdetail : m.detailPrefix.isSome = true)
    (hm' : (progressAt r (startOf raws fx) Stage.table.length).deferred[e'.name]? = some m') :
    ¬ m.IsKeptIn m' := by
  intro hkept
  cases hi : e.origin with
  | none =>
    have hlate := (suggests_of_no_origin r raws fx _ (by decide) e he hi).1
    exact absurd hlate (by decide)
  | some i =>
    obtain ⟨rest, hmarked⟩ := marked_of_detailPrefix r (startOf raws fx) rfl _ e'.name m' hm'
      (hkept.detailPrefix hdetail)
    exact not_marked_of_marksMembers r raws fx hmembers e' he' i (horigin.trans hi) rest hmarked

/-- What a stage keeps aside is found under the final name, unless members of functions are marked
after it. -/
theorem aside_is_found (k : Nat) (e e' : Entry)
    (he : e ∈ (progressAt r (startOf raws fx) (k + 1)).entries)
    (he' : e' ∈ (progressAt r (startOf raws fx) Stage.table.length).entries)
    (horigin : e'.origin = e.origin) (m : Deferred)
    (hm : (outcomeAt r (startOf raws fx) k).aside[e.name]? = some m)
    (hmembers : k = Stage.place "global_lib" → marksMembers r (startOf raws fx) = false) :
    ∃ m', (progressAt r (startOf raws fx) Stage.table.length).deferred[e'.name]? = some m' ∧
      m.IsKeptIn m' := by
  obtain ⟨hlow, hhigh, honly⟩ := place_of_aside r _ k e.name m hm
  obtain ⟨m₁, hm₁, hkept₁⟩ := DeferredMap.isKeptIn_mergeAll
    (progressAt r (startOf raws fx) k).deferred _ e.name m (Or.inr hm)
  rw [← deferred_progressAt_succ] at hm₁
  obtain ⟨m₂, hm₂, hkept₂⟩ := isKeptIn_progressAt r _ _ _ hhigh e.name m₁ hm₁
  have hname : e'.name = e.name := name_eq_final_name r raws fx (k + 1) (Nat.lt_succ_of_le hlow)
    hhigh (fun hle => hmembers (honly hle)) e e' he he' horigin
  rw [hname]
  exact ⟨m₂, hm₂, hkept₁.trans hkept₂⟩

/-- What a stage keeps aside under the name of an entry is found under the final name of that entry,
except for details of standard library entries when members of functions are marked. -/
theorem metadata_follows_iff (hrules : r.settings.replaceSuggestions = [])
    (hdone : (enrich r (Entry.ofRawList raws) fx).cancelled = false)
    (stage : String) (out : List Entry) (delta : DeferredMap)
    (houtcome : outcomeAt r (startOf raws fx) (Stage.place stage) = .changed out delta)
    (e : Entry) (he : e ∈ out) (m : Deferred) (hm : delta[e.name]? = some m)
    (e' : Entry) (he' : e' ∈ (enrich r (Entry.ofRawList raws) fx).entries)
    (horigin : e'.origin = e.origin) :
    (∃ m', (enrich r (Entry.ofRawList raws) fx).deferred[e'.name]? = some m' ∧ m.IsKeptIn m') ↔
      ¬ (stage = "global_lib" ∧ marksMembers r (startOf raws fx) = true) := by
  obtain ⟨e₀, he₀, hstems, hsame⟩ := stems_enrich r raws fx e' he'
  have hname₀ : e'.name = e₀.name := hsame hrules
  have horigin₀ : e₀.origin = e.origin := hstems.origin.symm.trans horigin
  have hout : e ∈ (progressAt r (startOf raws fx) (Stage.place stage + 1)).entries := by
    rw [entries_progressAt_succ, houtcome]
    exact he
  have haside : (outcomeAt r (startOf raws fx) (Stage.place stage)).aside[e.name]? = some m := by
    rw [houtcome]
    exact hm
  rw [deferred_enrich_of_no_rules r _ fx hrules hdone e' he', hname₀]
  constructor
  · rintro ⟨m', hm', hkept⟩ ⟨rfl, hmembers⟩
    rcases aside_outcomeAt_cases r _ _ e.name m haside with ⟨_, hdetail, _⟩ | ⟨hplace, _⟩
    · exact aside_is_lost r raws fx hmembers e e₀ hout he₀ horigin₀ m m' hdetail hm' hkept
    · exact absurd hplace (by decide)
  · intro hnot
    refine aside_is_found r raws fx _ e e₀ hout he₀ horigin₀ m haside fun hplace => ?_
    have hget := congrArg (Stage.table[·]?) hplace
    have hstage := Stage.name_of_getElem?_place stage _ (hget.trans rfl)
    exact Bool.eq_false_iff.mpr fun hmarks => hnot ⟨hstage.symm, hmarks⟩

end Following

/-! ### A member of the standard library -/

/-- Members of a function are listed, and names of the standard library are to be marked. -/
def memberStageRequest (highlight : Bool) : Request :=
  let settings := { globalLibCompletions := .mark, correctSorting := false,
                    highlightNonFunctionMethods := highlight }
  Session.stageRequest { settings } Session.memberRequest Session.functionMembers

def markedMember : Entry where
  name := "🏛 foo"
  insertText := some "foo"
  kind := .method
  sortText := "11"
  symbol := some 0
  origin := some 3

def markedMemberMetadata : Deferred := { detailPrefix := some "(global) " }

theorem metadata_follows_of_plain_members :
    ∃ m', (enrich (memberStageRequest false)
        (Entry.ofRawList Session.functionMembers.entries) {}).deferred["🏛 foo"]? = some m' ∧
      markedMemberMetadata.IsKeptIn m' := by
  let r := memberStageRequest false
  let raws := Session.functionMembers.entries
  have hdone : (enrich r (Entry.ofRawList raws) {}).cancelled = false :=
    cancelled_enrich_of_isQuiet _ _ _ (Program.isQuiet_checker _) rfl
  have hentries := entries_enrich_of_no_rules r (Entry.ofRawList raws) {} rfl hdone
  rw [if_neg (by decide)] at hentries
  have hmem : markedMember ∈ (progressAt r (startOf raws {}) Stage.table.length).entries := by
    decide
  refine (metadata_follows_iff r raws {} rfl hdone "global_lib" _ _ rfl markedMember (by decide)
    markedMemberMetadata (by decide) markedMember (hentries ▸ hmem) rfl).mpr ?_
  decide

/-- The stage keeps details aside for the member under its name, and the answer has nothing under
the name that the member has in the end. -/
theorem metadata_of_marked_member_is_lost :
    ∃ out delta e', outcomeAt (memberStageRequest true) (startOf Session.functionMembers.entries {})
        (Stage.place "global_lib") = .changed out delta ∧
      markedMember ∈ out ∧ delta[markedMember.name]? = some markedMemberMetadata ∧
      e' ∈ (enrich (memberStageRequest true)
        (Entry.ofRawList Session.functionMembers.entries) {}).entries ∧
      e'.origin = markedMember.origin ∧ e'.name = "☆🏛 foo" ∧
      (enrich (memberStageRequest true)
        (Entry.ofRawList Session.functionMembers.entries) {}).deferred[e'.name]? = none := by
  let r := memberStageRequest true
  let raws := Session.functionMembers.entries
  have hdone : (enrich r (Entry.ofRawList raws) {}).cancelled = false :=
    cancelled_enrich_of_isQuiet _ _ _ (Program.isQuiet_checker _) rfl
  have hentries := entries_enrich_of_no_rules r (Entry.ofRawList raws) {} rfl hdone
  rw [if_neg (by decide)] at hentries
  obtain ⟨e', he', horigin, hname⟩ :
      ∃ e' ∈ (progressAt r (startOf raws {}) Stage.table.length).entries,
        e'.origin = markedMember.origin ∧ e'.name = "☆🏛 foo" := by decide
  have hmem : e' ∈ (enrich r (Entry.ofRawList raws) {}).entries := hentries ▸ he'
  refine ⟨_, _, e', rfl, by decide, by decide, hmem, horigin, hname, ?_⟩
  rw [deferred_enrich_of_no_rules r _ {} rfl hdone e' hmem, hname]
  decide

end CodeCompletion
