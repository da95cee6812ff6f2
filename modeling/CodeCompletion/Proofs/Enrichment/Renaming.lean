import CodeCompletion.Proofs.Enrichment.DisplayedOrder
import CodeCompletion.Proofs.Enrichment.Provenance
import CodeCompletion.Proofs.Rule.Origins

namespace CodeCompletion

section Finish

variable (r : Request) (p : Progress)

theorem reaches_finishList (e' : Entry) (he' : e' ∈ (finishList r p).entries) :
    ∃ e ∈ p.entries, e.Stems e' ∧ p.deferred.Reaches e.name (finishList r p).deferred e'.name := by
  obtain ⟨e, he, hstems, _, hreaches⟩ := stems_finishList r p e' he'
  refine ⟨e, he, hstems, fun d hd => ?_⟩
  rw [deferred_finishList, DeferredMap.getElem?_restrict _ _ _ (List.mem_map_of_mem he')]
  exact hreaches d hd

/-! ### Numbered lists -/

/-- The entries with their places in the list for their origins. -/
def Entry.numbered (entries : List Entry) : List Entry :=
  entries.mapIdx fun i e => { e with origin := some i }

theorem mapOrigin_finalizeKeys (f : Option Nat → Option Nat) (entries : List Entry) :
    finalizeKeys (entries.map (·.mapOrigin f)) = (finalizeKeys entries).map (·.mapOrigin f) := by
  have hsorted : Entry.sortByKey (entries.map (·.mapOrigin f)) =
      (Entry.sortByKey entries).map (·.mapOrigin f) := by
    unfold Entry.sortByKey
    rw [List.map_mergeSort]
    exact fun _ _ _ _ => rfl
  rw [finalizeKeys, finalizeKeys, hsorted, List.length_map]
  apply List.ext_getElem?
  intro i
  simp only [List.getElem?_mapIdx, List.getElem?_map, Option.map_map]
  rfl

theorem finishList_mapOrigin (f : Option Nat → Option Nat) :
    (finishList r { p with entries := p.entries.map (·.mapOrigin f) }).list =
      ((finishList r p).entries.map (·.mapOrigin f), (finishList r p).deferred) := by
  have hrules := Rule.applyAll_mapOrigin f (Rule.parseAll 0 r.settings.replaceSuggestions).1
    r.document p.entries p.deferred
  have hruled : (applyRules r { p with entries := p.entries.map (·.mapOrigin f) }).entries =
      (applyRules r p).entries.map (·.mapOrigin f) := congrArg (·.1) hrules
  have hkept : (applyRules r { p with entries := p.entries.map (·.mapOrigin f) }).deferred =
      (applyRules r p).deferred := congrArg (·.2) hrules
  have hentries : (finishList r { p with entries := p.entries.map (·.mapOrigin f) }).entries =
      (finishList r p).entries.map (·.mapOrigin f) := by
    rw [entries_finishList, entries_finishList, ruledEntries_eq, ruledEntries_eq, hruled]
    split
    · exact mapOrigin_finalizeKeys f _
    · rfl
  have hnames : ((finishList r p).entries.map (·.mapOrigin f)).map (·.name) =
      (finishList r p).entries.map (·.name) := by
    rw [List.map_map]
    rfl
  refine Prod.ext hentries ?_
  show (finishList r { p with entries := p.entries.map (·.mapOrigin f) }).deferred = _
  rw [deferred_finishList, deferred_finishList, hentries, hnames, hkept]

/-- For each entry of the final list the place, in the list that the rules get, of the entry that it
was made of. -/
def sourcePlaces : List (Option Nat) :=
  (finishList r { p with entries := Entry.numbered p.entries }).entries.map (·.origin)

/-- Numbering the list changes nothing but the numbers. -/
theorem finishList_numbered :
    (finishList r { p with entries := Entry.numbered p.entries }).entries.map
        (·.mapOrigin fun _ => none) = (finishList r p).entries.map (·.mapOrigin fun _ => none) ∧
      (finishList r { p with entries := Entry.numbered p.entries }).deferred =
        (finishList r p).deferred := by
  have hforget : (Entry.numbered p.entries).map (·.mapOrigin fun _ => none) =
      p.entries.map (·.mapOrigin fun _ => none) := by
    apply List.ext_getElem?
    intro i
    simp only [Entry.numbered, List.getElem?_map, List.getElem?_mapIdx, Option.map_map]
    rfl
  have hnumbered := finishList_mapOrigin r { p with entries := Entry.numbered p.entries }
    fun _ => none
  have hplain := finishList_mapOrigin r p fun _ => none
  dsimp only at hnumbered
  rw [hforget, hplain] at hnumbered
  exact ⟨(congrArg Prod.fst hnumbered).symm, (congrArg Prod.snd hnumbered).symm⟩

/-- Each entry of the final list was made of one entry of the list that the rules got, and all that
was kept under the name of that one is kept, in its order, under the name that the entry has now.
Whatever is kept stands under the name of an entry. -/
theorem metadata_follows_renamed_entries :
    (∀ (k : Nat) (e' : Entry), (finishList r p).entries[k]? = some e' →
      ∃ (i : Nat) (e : Entry), (sourcePlaces r p)[k]? = some (some i) ∧ p.entries[i]? = some e ∧
        (e.mapOrigin fun _ => none).Stems (e'.mapOrigin fun _ => none) ∧
        ∀ d : Deferred, p.deferred[e.name]? = some d →
          ∃ d', (finishList r p).deferred[e'.name]? = some d' ∧ d.IsKeptIn d') ∧
    ∀ (name : String) (d' : Deferred), (finishList r p).deferred[name]? = some d' →
      ∃ e' ∈ (finishList r p).entries, e'.name = name := by
  obtain ⟨hentries, hdeferred⟩ := finishList_numbered r p
  constructor
  · intro k e' he'
    have hk := congrArg (·[k]?) hentries
    simp only [List.getElem?_map, he', Option.map_some] at hk
    obtain ⟨e'', he'', hsame⟩ := Option.map_eq_some_iff.mp hk
    have hname : e''.name = e'.name := congrArg (·.name) hsame
    obtain ⟨e₁, he₁, hstems, hreaches⟩ :=
      reaches_finishList r { p with entries := Entry.numbered p.entries } e''
        (List.mem_of_getElem? he'')
    obtain ⟨i, hi, rfl⟩ := List.mem_mapIdx.mp he₁
    refine ⟨i, p.entries[i], ?_, List.getElem?_eq_getElem hi, ?_, ?_⟩
    · rw [sourcePlaces, List.getElem?_map, he'']
      exact congrArg some hstems.origin
    · rw [← hsame]
      exact ⟨rfl, hstems.symbol, hstems.source, hstems.kindModifiers, hstems.replacementSpan,
        hstems.hasAction⟩
    · rw [← hname, ← hdeferred]
      exact hreaches
  · intro name d' hd'
    rw [deferred_finishList] at hd'
    exact List.mem_map.mp (DeferredMap.mem_of_getElem?_restrict _ _ name d' hd')

end Finish

/-! ### A name within a namespace -/

def renamingRequest : Request :=
  let rule := .obj [("patch", .obj [("name", .str "path.join")]), ("suggestion", .str "join")]
  Session.stageRequest { settings := { replaceSuggestions := [rule], correctSorting := false } }
    Session.emptyFileRequest { entries := [] }

def importedProgress : Progress where
  entries := [{ name := "join", kind := .function, sortText := "16" }]
  deferred := Rule.joinImport
  effects := {}

theorem entries_finishList_renamingRequest (origin : Option Nat) (deferred : DeferredMap) :
    (finishList renamingRequest
      { entries := [{ name := "join", kind := .function, sortText := "16", origin }], deferred,
        effects := {} }).entries =
      [{ name := "path.join", kind := .function, sortText := "16", origin }] := by
  have hrules : (Rule.parseAll 0 renamingRequest.settings.replaceSuggestions).1 =
      [Rule.joinRule false] := rfl
  have hsorting : renamingRequest.settings.correctSorting = false := rfl
  have happly := Rule.apply_of_picked (Rule.joinRule false) []
    ⟨{ name := "join", kind := .function, sortText := "16", origin }, false⟩ [] deferred
    (List.forall_mem_nil _) rfl
  rw [entries_finishList, ruledEntries_eq, hsorting, if_neg Bool.false_ne_true]
  unfold applyRules
  dsimp only
  rw [hrules]
  exact congrArg (fun applied => applied.1.map Marked.entry) happly

theorem import_follows_renamed_entry :
    (finishList renamingRequest importedProgress).entries.map (·.name) = ["path.join"] ∧
    ∃ d', (finishList renamingRequest importedProgress).deferred["path.join"]? = some d' ∧
      { additionalEdits := [Rule.importEdit] : Deferred }.IsKeptIn d' := by
  have hentries : (finishList renamingRequest importedProgress).entries =
      [{ name := "path.join", kind := .function, sortText := "16" }] :=
    entries_finishList_renamingRequest none Rule.joinImport
  have hplaces : sourcePlaces renamingRequest importedProgress = [some 0] :=
    congrArg (List.map Entry.origin)
      (entries_finishList_renamingRequest (some 0) Rule.joinImport)
  obtain ⟨i, e, hplace, he, _, hkept⟩ :=
    (metadata_follows_renamed_entries renamingRequest importedProgress).1 0 _
      (congrArg (·[0]?) hentries)
  rw [hplaces] at hplace
  cases hplace
  cases he
  refine ⟨congrArg (List.map (·.name)) hentries, hkept _ ?_⟩
  exact (Rule.getElem?_joinImport "join").trans (if_pos rfl)

end CodeCompletion
