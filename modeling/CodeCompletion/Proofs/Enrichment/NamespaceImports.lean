import CodeCompletion.Proofs.Deferred.Carry
import CodeCompletion.Proofs.Enrichment.DisplayedOrder
import CodeCompletion.Proofs.Enrichment.KeptAside

/-!
# Imports of namespaces in answers

An entry whose module is to be imported under a namespace has the declaration kept aside under its
name. Of several entries with one name that stem from different modules only the declaration for
the last is kept, so that the others are inserted qualified by a namespace that is never imported.
-/

namespace CodeCompletion

/-! ### Edits kept aside in a run -/

namespace DeferredMap

theorem editsAt_emptyc (name : String) : (∅ : DeferredMap).editsAt name = [] := by
  rw [editsAt, Std.TreeMap.getElem?_emptyc]
  rfl

theorem editsAt_mergeAll (m delta : DeferredMap) (name : String) :
    (m.mergeAll delta).editsAt name = m.editsAt name ++ delta.editsAt name := by
  unfold editsAt
  rw [getElem?_mergeAll]
  cases delta[name]? with
  | none => simp
  | some later => cases m[name]? <;> simp [Deferred.merge]

end DeferredMap

section Run

variable (r : Request) (p : Progress)

theorem editsAt_outcomeAt (k : Nat) (hk : k ≠ Stage.place "namespace_import") (name : String) :
    (outcomeAt r p k).aside.editsAt name = [] := by
  rw [DeferredMap.editsAt]
  cases hm : (outcomeAt r p k).aside[name]? with
  | none => rfl
  | some m =>
    rcases stage_of_aside r p k name m hm with ⟨_, hvalue⟩ | ⟨_, hvalue⟩ | ⟨hplace, _⟩
    · obtain ⟨_, _, _, rfl⟩ := Stage.aside_of_globalLibrary r _ _ hvalue name m hm
      rfl
    · obtain ⟨_, rfl⟩ := Stage.aside_of_destructuring r _ _ hvalue name m hm
      rfl
    · exact absurd hplace hk

theorem editsAt_progressAt (hp : p.deferred = ∅) (k : Nat) (name : String) :
    (progressAt r p k).deferred.editsAt name =
      if Stage.place "namespace_import" < k
      then (outcomeAt r p (Stage.place "namespace_import")).aside.editsAt name else [] := by
  induction k with
  | zero =>
    rw [progressAt_zero, hp, DeferredMap.editsAt_emptyc]
    rfl
  | succ k ih =>
    rw [deferred_progressAt_succ, DeferredMap.editsAt_mergeAll, ih]
    rcases Nat.lt_trichotomy k (Stage.place "namespace_import") with hlt | heq | hgt
    · rw [editsAt_outcomeAt r p k (Nat.ne_of_lt hlt), if_neg (Nat.not_lt_of_lt hlt),
        if_neg (Nat.not_lt_of_le hlt)]
      rfl
    · rw [heq, if_neg (Nat.lt_irrefl _), if_pos (Nat.lt_succ_self _)]
      rfl
    · rw [editsAt_outcomeAt r p k (Nat.ne_of_gt hgt), if_pos hgt, if_pos (Nat.lt_succ_of_lt hgt),
        List.append_nil]

theorem value_outcomeAt_namespaceImports
    (hgo : (progressAt r p (Stage.place "namespace_import")).effects.cancelled = false)
    (hsome : r.settings.namespaceImports ≠ []) :
    (Stage.namespaceImports r (progressAt r p (Stage.place "namespace_import")).entries).value =
      .ok (outcomeAt r p (Stage.place "namespace_import")) := by
  have hstage : Stage.table[Stage.place "namespace_import"]? =
      some ⟨"namespace_import", (!·.namespaceImports.isEmpty), false, Stage.namespaceImports⟩ := rfl
  obtain ⟨htrace, o, ho, _⟩ := Stage.run_namespaceImports r
    (progressAt r p (Stage.place "namespace_import")).entries
  have henabled : (!r.settings.namespaceImports.isEmpty) = true := by
    rw [Bool.not_eq_true', List.isEmpty_eq_false_iff]
    exact hsome
  rw [ho, outcomeAt, hstage]
  exact congrArg Except.ok
    (Stage.turn_of_silent _ r _ o henabled hgo htrace ho).symm

end Run

/-! ### Entries of the engine in an answer -/

/-- What an entry is found by, in the list and among the engine's entries. -/
def Entry.label (e : Entry) : String × Option Nat := (e.name, e.origin)

theorem labels_finalizeKeys (entries : List Entry) :
    ((finalizeKeys entries).map Entry.label).Perm (entries.map Entry.label) := by
  rw [map_finalizeKeys Entry.label fun _ => rfl]
  exact (Entry.perm_sortByKey entries).map _

theorem Stage.labels_namespaceImports (r : Request) (entries : List Entry) (o : Outcome)
    (h : (namespaceImports r entries).value = .ok o) :
    (o.entriesOr entries).map Entry.label = entries.map Entry.label := by
  rw [(namespaceImports_cases r entries o h).1, List.map_map]
  refine List.map_congr_left fun e _ => ?_
  have hkeeps := keeps_qualified r e
  exact Prod.ext (hkeeps.name (by decide)) hkeeps.origin

section Answer

variable (r : Request) (raws : List RawEntry) (fx : Effects)

/-- The answer lists what comes to the stage of namespaces, in another order. -/
theorem labels_enrich (hrules : r.settings.replaceSuggestions = [])
    (hdone : (enrich r (Entry.ofRawList raws) fx).cancelled = false) :
    ((enrich r (Entry.ofRawList raws) fx).entries.map Entry.label).Perm
      ((progressAt r (startOf raws fx) (Stage.place "namespace_import")).entries.map
        Entry.label) := by
  have hstage : (progressAt r (startOf raws fx) (Stage.place "sort_normalize")).entries.map
      Entry.label = (progressAt r (startOf raws fx) (Stage.place "namespace_import")).entries.map
        Entry.label := by
    have hnext : Stage.place "sort_normalize" = Stage.place "namespace_import" + 1 := by decide
    rw [hnext, entries_progressAt_succ]
    rcases outcomeAt_cases r (startOf raws fx) (Stage.place "namespace_import") with
      hsame | ⟨stage, hstage, hvalue⟩
    · rw [hsame]
      rfl
    · cases hstage
      exact Stage.labels_namespaceImports r _ _ hvalue
  have hlast : ((progressAt r (startOf raws fx) Stage.table.length).entries.map Entry.label).Perm
      ((progressAt r (startOf raws fx) (Stage.place "namespace_import")).entries.map
        Entry.label) := by
    have hsorted := entries_progressAt_of_done r (Entry.ofRawList raws) fx hdone
    rw [← hstage]
    exact hsorted ▸ (Entry.perm_sortByKey _).map _
  rw [entries_enrich_of_no_rules r _ fx hrules hdone]
  split
  · exact (labels_finalizeKeys _).trans hlast
  · exact hlast

/-- Whether a list has, under a name, an entry of the engine that needs the import of a source under
a namespace. -/
def NeededUnder (entries : List Entry) (name target source : String) : Prop :=
  ∃ e ∈ entries, e.name = name ∧ ∃ i raw, e.origin = some i ∧ raws[i]? = some raw ∧
    (Entry.ofRaw raw).NeedsImport r target source

theorem Entry.NeedsImport.congr {r : Request} {e e' : Entry} {target source : String}
    (h : e.NeedsImport r target source) (haction : e'.hasAction = e.hasAction)
    (hsource : e'.source = e.source) : e'.NeedsImport r target source where
  isImport := by
    rw [← h.isImport, Entry.importModule?, Entry.importModule?, haction, hsource]
  configured := h.configured
  missing := h.missing

/-- Up to the stage of namespaces an entry needs what the entry of the engine needs from which it
stems. The suggestion that no entry of the engine stands behind needs nothing. -/
theorem neededUnder_place_iff (name target source : String) :
    NeededUnder r raws
        (progressAt r (startOf raws fx) (Stage.place "namespace_import")).entries
        name target source ↔
      ∃ e ∈ (progressAt r (startOf raws fx) (Stage.place "namespace_import")).entries,
        e.name = name ∧ e.NeedsImport r target source := by
  refine exists_congr fun e => and_congr_right fun he => and_congr_right fun _ => ?_
  have hkeeps (i : Nat) (hi : e.origin = some i) (raw : RawEntry) (hraw : raws[i]? = some raw) :
      e.hasAction = (Entry.ofRaw raw).hasAction ∧ e.source = (Entry.ofRaw raw).source := by
    have h := keeps_entryAt r raws fx _ e he i hi raw hraw
    exact ⟨h.action (by decide), h.source⟩
  constructor
  · rintro ⟨i, raw, hi, hraw, hneeds⟩
    obtain ⟨haction, hsource⟩ := hkeeps i hi raw hraw
    exact hneeds.congr haction hsource
  · intro hneeds
    cases hi : e.origin with
    | none =>
      obtain ⟨_, s, ⟨_, _, _, _, _, rfl⟩, hstems, _⟩ :=
        suggests_of_no_origin r raws fx _ (by decide) e he hi
      have himport := hneeds.isImport
      rw [Entry.importModule?] at himport
      split at himport
      · rename_i haction
        cases hstems.hasAction haction
      · cases himport
    | some i =>
      obtain ⟨raw, hraw, _⟩ := exists_entryAt r raws fx _ e he i hi
      obtain ⟨haction, hsource⟩ := hkeeps i hi raw hraw
      exact ⟨i, raw, rfl, hraw, hneeds.congr haction.symm hsource.symm⟩

section Done

variable {r raws fx} (hrules : r.settings.replaceSuggestions = [])
  (hdone : (enrich r (Entry.ofRawList raws) fx).cancelled = false)

include hrules hdone

theorem neededUnder_answer_iff (name target source : String) :
    NeededUnder r raws (enrich r (Entry.ofRawList raws) fx).entries name target source ↔
      NeededUnder r raws
        (progressAt r (startOf raws fx) (Stage.place "namespace_import")).entries
        name target source := by
  have hlabels := labels_enrich r raws fx hrules hdone
  have hmove (es es' : List Entry) (h : es.map Entry.label ⊆ es'.map Entry.label) :
      NeededUnder r raws es name target source → NeededUnder r raws es' name target source := by
    rintro ⟨e, he, hname, i, raw, hi, hraw, hneeds⟩
    obtain ⟨e', he', hlabel⟩ := List.mem_map.mp (h (List.mem_map_of_mem he))
    refine ⟨e', he', ?_, i, raw, ?_, hraw, hneeds⟩
    · exact (congrArg Prod.fst hlabel).trans hname
    · exact (congrArg Prod.snd hlabel).trans hi
  exact ⟨hmove _ _ hlabels.subset, hmove _ _ hlabels.symm.subset⟩

theorem editsAt_enrich (e : Entry) (he : e ∈ (enrich r (Entry.ofRawList raws) fx).entries) :
    (enrich r (Entry.ofRawList raws) fx).deferred.editsAt e.name =
      (outcomeAt r (startOf raws fx) (Stage.place "namespace_import")).aside.editsAt e.name := by
  have hlast := editsAt_progressAt r (startOf raws fx) rfl Stage.table.length e.name
  rw [if_pos (by decide)] at hlast
  rw [← hlast, DeferredMap.editsAt, DeferredMap.editsAt,
    deferred_enrich_of_no_rules r _ fx hrules hdone e he]
  rfl

/-- Under the name of entries that need imports the answer keeps one import, which one of them
needs. -/
theorem one_import_kept (name target source : String)
    (h : NeededUnder r raws (enrich r (Entry.ofRawList raws) fx).entries name target source) :
    ∃ target' source',
      NeededUnder r raws (enrich r (Entry.ofRawList raws) fx).entries name target' source' ∧
      (enrich r (Entry.ofRawList raws) fx).deferred.editsAt name =
        [TextEdit.insertAt 0 (Stage.importStatement r.formatting target' source')] := by
  have hedits : (enrich r (Entry.ofRawList raws) fx).deferred.editsAt name =
      (outcomeAt r (startOf raws fx) (Stage.place "namespace_import")).aside.editsAt name := by
    obtain ⟨e, he, rfl, _⟩ := h
    exact editsAt_enrich hrules hdone e he
  obtain ⟨e, he, rfl, hneeds⟩ := (neededUnder_place_iff r raws fx name target source).mp
    ((neededUnder_answer_iff hrules hdone name target source).mp h)
  have hgo := (progressAt_of_done r _ fx hdone).resolve_left fun hempty =>
    List.not_mem_nil (hempty (Stage.place "namespace_import") ▸ he)
  have hsome : r.settings.namespaceImports ≠ [] := by
    intro hnone
    have hconfigured := hneeds.configured
    rw [hnone] at hconfigured
    cases hconfigured
  have hvalue := value_outcomeAt_namespaceImports r (startOf raws fx) (hgo _) hsome
  obtain ⟨m, hm⟩ := Stage.exists_aside_of_needsImport r _ _ hvalue e he target source hneeds
  obtain ⟨e', he', hname', target', source', hneeds', rfl⟩ :=
    Stage.aside_of_namespaceImports r _ _ hvalue e.name m hm
  refine ⟨target', source', ?_, ?_⟩
  · rw [neededUnder_answer_iff hrules hdone, neededUnder_place_iff]
    exact ⟨e', he', hname', hneeds'⟩
  · rw [hedits, DeferredMap.editsAt, hm]
    rfl

/-- The imports that the entries under a name need are all kept aside under it exactly if they are
one and the same. -/
theorem needed_imports_kept_iff (name : String) :
    (∀ target source,
      NeededUnder r raws (enrich r (Entry.ofRawList raws) fx).entries name target source →
        TextEdit.insertAt 0 (Stage.importStatement r.formatting target source) ∈
          (enrich r (Entry.ofRawList raws) fx).deferred.editsAt name) ↔
      ∀ target source target' source',
        NeededUnder r raws (enrich r (Entry.ofRawList raws) fx).entries name target source →
        NeededUnder r raws (enrich r (Entry.ofRawList raws) fx).entries name target' source' →
          Stage.importStatement r.formatting target source =
            Stage.importStatement r.formatting target' source' := by
  constructor
  · intro hkept target source target' source' h h'
    obtain ⟨last, lastSource, _, hedits⟩ := one_import_kept hrules hdone name target source h
    have hfirst := hkept target source h
    have hsecond := hkept target' source' h'
    rw [hedits, List.mem_singleton] at hfirst hsecond
    exact congrArg TextEdit.newText (hfirst.trans hsecond.symm)
  · intro hsame target source h
    obtain ⟨last, lastSource, hlast, hedits⟩ := one_import_kept hrules hdone name target source h
    rw [hedits, hsame target source last lastSource h hlast]
    exact List.mem_singleton.mpr rfl

end Done

end Answer

/-! ### Functions of one name from two modules -/

def resolvers : List RawEntry :=
  [{ name := "resolve", kind := "function", sortText := "16", source := some "node:path",
     hasAction := true },
   { name := "resolve", kind := "function", sortText := "16", source := some "node:url",
     hasAction := true }]

def namespaceRequest (modules : List (String × NamespaceImport)) : Request :=
  let request : HostRequest := {
    document := .ofFile "/p/src/index.ts" "" .empty
    offset := 0
    checker := Program.checker {} }
  Session.stageRequest { settings := { namespaceImports := modules, correctSorting := false } }
    request { entries := resolvers }

theorem cancelled_namespaceRequest (modules : List (String × NamespaceImport)) :
    (enrich (namespaceRequest modules) (Entry.ofRawList resolvers) {}).cancelled = false :=
  cancelled_enrich_of_isQuiet _ _ _ (Program.isQuiet_checker _) rfl

theorem resolver_needs_import (modules : List (String × NamespaceImport))
    (h : modules.lookup "node:path" = some { name := "path" })
    (hplace : ("resolve", some 0) ∈ (progressAt (namespaceRequest modules) (startOf resolvers {})
      (Stage.place "namespace_import")).entries.map Entry.label) :
    NeededUnder (namespaceRequest modules) resolvers
      (enrich (namespaceRequest modules) (Entry.ofRawList resolvers) {}).entries
      "resolve" "path" "node:path" := by
  rw [neededUnder_answer_iff rfl (cancelled_namespaceRequest modules)]
  obtain ⟨e, he, hlabel⟩ := List.mem_map.mp hplace
  refine ⟨e, he, congrArg Prod.fst hlabel, 0, _, congrArg Prod.snd hlabel, rfl, rfl, h, rfl⟩

def pathModule : String × NamespaceImport := ("node:path", { name := "path" })

def urlModule : String × NamespaceImport := ("node:url", { name := "url" })

theorem needed_import_kept_of_path :
    (namespaceRequest [pathModule]).settings.replaceSuggestions = [] ∧
    (enrich (namespaceRequest [pathModule]) (Entry.ofRawList resolvers) {}).cancelled = false ∧
    TextEdit.insertAt 0 "import * as path from \"node:path\";\n" ∈
      (enrich (namespaceRequest [pathModule]) (Entry.ofRawList resolvers) {}).deferred.editsAt
        "resolve" := by
  have hneeded := resolver_needs_import [pathModule] rfl (by decide +kernel)
  have hdone := cancelled_namespaceRequest [pathModule]
  refine ⟨rfl, hdone, ?_⟩
  refine (needed_imports_kept_iff rfl hdone "resolve").mpr ?_ "path" "node:path" hneeded
  have honly (target source : String) (h : NeededUnder (namespaceRequest [pathModule]) resolvers
      (enrich (namespaceRequest [pathModule]) (Entry.ofRawList resolvers) {}).entries
      "resolve" target source) : target = "path" ∧ source = "node:path" := by
    obtain ⟨_, _, _, _, _, _, _, hneeds⟩ := h
    have hconfigured : [pathModule].lookup source = some { name := target, addImport := true } :=
      hneeds.configured
    rw [pathModule, List.lookup_cons] at hconfigured
    split at hconfigured
    · rename_i hsource
      cases hconfigured
      exact ⟨rfl, eq_of_beq hsource⟩
    · cases hconfigured
  intro target source target' source' h h'
  rw [(honly _ _ h).1, (honly _ _ h).2, (honly _ _ h').1, (honly _ _ h').2]

/-- Both functions are inserted qualified, but only the second module is imported. -/
theorem first_of_two_imports_is_lost :
    (namespaceRequest [pathModule, urlModule]).settings.replaceSuggestions = [] ∧
    (enrich (namespaceRequest [pathModule, urlModule]) (Entry.ofRawList resolvers) {}).cancelled =
      false ∧
    NeededUnder (namespaceRequest [pathModule, urlModule]) resolvers
      (enrich (namespaceRequest [pathModule, urlModule]) (Entry.ofRawList resolvers) {}).entries
      "resolve" "path" "node:path" ∧
    TextEdit.insertAt 0 "import * as path from \"node:path\";\n" ∉
      (enrich (namespaceRequest [pathModule, urlModule])
        (Entry.ofRawList resolvers) {}).deferred.editsAt "resolve" := by
  have hneeded := resolver_needs_import [pathModule, urlModule] rfl (by decide +kernel)
  have hdone := cancelled_namespaceRequest [pathModule, urlModule]
  refine ⟨rfl, hdone, hneeded, ?_⟩
  obtain ⟨e, he, hname, _⟩ := hneeded
  rw [← hname, editsAt_enrich rfl hdone e he, hname]
  decide +kernel

end CodeCompletion
