import CodeCompletion.Proofs.Enrichment.DisplayedOrder
import CodeCompletion.Proofs.Enrichment.Pairs
import CodeCompletion.Proofs.Enrichment.Provenance

/-!
# Marking names of the standard library

Whether names of the standard library are marked or left alone, the stages in front of the marking
do the same, and the stages behind it get entries that differ in their names alone. The two answers
list the same entries in the same order where the stages that select entries by their names find
the same under both names of each entry.
-/

namespace CodeCompletion

/-! ### Requests that treat names of the standard library differently -/

def Request.withLibraryNames (r : Request) (mode : LibraryNames) : Request :=
  { r with settings := { r.settings with globalLibCompletions := mode } }

namespace Stage

variable (r : Request) (mode : LibraryNames)

theorem withLibraryNames_irrelevant (stage : Stage) (hmem : stage ∈ table)
    (hname : stage.name ≠ "global_lib") :
    stage.enabled (r.withLibraryNames mode).settings = stage.enabled r.settings ∧
      ∀ entries, stage.run (r.withLibraryNames mode) entries = stage.run r entries := by
  simp only [table, List.mem_cons, List.not_mem_nil, or_false] at hmem
  rcases hmem with rfl | rfl | rfl | rfl | rfl | rfl | rfl | rfl | rfl | rfl | rfl | rfl | rfl |
    rfl | rfl | rfl | rfl | rfl | rfl | rfl | rfl | rfl
  iterate 3 exact ⟨rfl, fun _ => rfl⟩
  · exact ⟨rfl, elements_congr (r.withLibraryNames mode) r rfl rfl fun _ _ => rfl⟩
  · exact absurd rfl hname
  iterate 17 exact ⟨rfl, fun _ => rfl⟩

end Stage

/-! ### Up to the stages that read names -/

section Marking

variable (r : Request) (raws : List RawEntry) (fx : Effects)

theorem alike_marking_succ {R S : Entry → Entry → Prop} (p : Progress) (k : Nat) (stage : Stage)
    (hstage : Stage.table[k]? = some stage) (hname : stage.name ≠ "global_lib")
    (hR : ∀ e e', S e e' → R e e')
    (h : (progressAt (r.withLibraryNames .mark) p k).Alike S
      (progressAt (r.withLibraryNames .leave) p k))
    (hrun : stage.enabled r.settings = true → StageRun.Alike R
      (progressAt (r.withLibraryNames .mark) p k).entries
      (progressAt (r.withLibraryNames .leave) p k).entries
      (stage.run r (progressAt (r.withLibraryNames .mark) p k).entries)
      (stage.run r (progressAt (r.withLibraryNames .leave) p k).entries)) :
    (progressAt (r.withLibraryNames .mark) p (k + 1)).Alike R
      (progressAt (r.withLibraryNames .leave) p (k + 1)) := by
  obtain ⟨henabled, hmark⟩ := stage.withLibraryNames_irrelevant r .mark
    (List.mem_of_getElem? hstage) hname
  obtain ⟨henabled', hleave⟩ := stage.withLibraryNames_irrelevant r .leave
    (List.mem_of_getElem? hstage) hname
  refine alike_progressAt_succ _ _ p p k stage hstage (henabled.trans henabled'.symm) rfl hR h ?_
  intro hon
  rw [hmark, hleave]
  exact hrun (henabled.symm.trans hon)

theorem alike_before_marking (p : Progress) (k : Nat) (hk : k ≤ Stage.place "global_lib") :
    (progressAt (r.withLibraryNames .mark) p k).Alike Eq
      (progressAt (r.withLibraryNames .leave) p k) := by
  induction k with
  | zero => exact .refl p
  | succ k ih =>
    have hbefore := ih (Nat.le_of_lt hk)
    obtain ⟨stage, hstage⟩ : ∃ stage, Stage.table[k]? = some stage :=
      ⟨_, List.getElem?_eq_getElem (Nat.lt_of_lt_of_le hk (by decide))⟩
    have hname : stage.name ≠ "global_lib" := by
      intro hname
      have hplace := Stage.place_of_getElem? k stage hstage
      rw [hname] at hplace
      exact absurd hk (hplace ▸ Nat.lt_irrefl _)
    refine alike_marking_succ r p k stage hstage hname (fun _ _ => id) hbefore fun _ => ?_
    have hsame := hbefore.entries
    rw [List.forall₂_eq_eq_eq] at hsame
    rw [hsame]
    exact ⟨rfl, List.forall₂_refl _⟩

theorem ask_of_mem_trace_globalLibrary (hmode : r.settings.globalLibCompletions = .mark)
    (entries : List Entry) (q : Query) (hq : .ask q ∈ (Stage.globalLibrary r entries).trace) :
    ∃ e ∈ entries, ∃ id, e.symbol = some id ∧ q = .symbol id := by
  have hlibrary (e : Entry) (h : .ask q ∈ (Stage.isLibraryName r e).trace) :
      ∃ id, e.symbol = some id ∧ q = .symbol id := by
    rw [Stage.isLibraryName, Traced.trace_bind, Traced.trace_pure, List.append_nil,
      Request.entrySymbol] at h
    cases hsymbol : e.symbol with
    | none =>
      rw [hsymbol] at h
      cases h
    | some id =>
      rw [hsymbol] at h
      cases List.mem_singleton.mp h
      exact ⟨id, rfl, rfl⟩
  unfold Stage.globalLibrary at hq
  rw [hmode] at hq
  dsimp only at hq
  rw [Traced.trace_bind, List.mem_append] at hq
  rcases hq with hasked | hlater
  · rw [Traced.each, List.flatMap_map] at hasked
    obtain ⟨e, he, hasked⟩ := List.mem_flatMap.mp hasked
    rw [Traced.trace_bind, Traced.trace_pure, List.append_nil] at hasked
    exact ⟨e, he, hlibrary e hasked⟩
  · split at hlater <;> cases hlater

theorem alike_globalLibrary (p : Progress)
    (hcalm : ∀ e ∈ (progressAt (r.withLibraryNames .mark) p (Stage.place "global_lib")).entries,
      ∀ id, e.symbol = some id → .cancel ∉ r.checker.signals (.symbol id)) :
    (progressAt (r.withLibraryNames .mark) p (Stage.place "global_lib" + 1)).Alike Entry.Twins
      (progressAt (r.withLibraryNames .mark) p (Stage.place "global_lib")) := by
  obtain ⟨_, hcancelled⟩ := progressAt_succ (r.withLibraryNames .mark) p
    (Stage.place "global_lib") _ rfl
  constructor
  · have hsame (entries : List Entry) : List.Forall₂ Entry.Twins entries entries :=
      List.forall₂_same.mpr fun _ _ => rfl
    rw [entries_progressAt_succ]
    rcases outcomeAt_cases (r.withLibraryNames .mark) p (Stage.place "global_lib") with
      hskip | ⟨stage, hstage, hvalue⟩
    · rw [hskip]
      exact hsame _
    · cases hstage
      rcases Stage.globalLibrary_cases (r.withLibraryNames .mark) _ _ hvalue with
        ⟨_, hmarked⟩ | ⟨hskip, _⟩
      · rw [hmarked]
        refine List.forall₂_map_left_iff.mpr (List.forall₂_same.mpr fun e _ => ?_)
        unfold Stage.markLibrary
        split <;> rfl
      · rw [hskip rfl]
        exact hsame _
  · rw [hcancelled, Stage.next]
    split
    · rw [Stage.cancelled_advance]
      refine Effects.cancelled_replay _ _ _ fun q hq => ?_
      obtain ⟨e, he, id, hsymbol, rfl⟩ := ask_of_mem_trace_globalLibrary _ rfl _ q hq
      exact hcalm e he id hsymbol
    · rfl

theorem alike_leaving (p : Progress) :
    (progressAt (r.withLibraryNames .leave) p (Stage.place "global_lib" + 1)).Alike Eq
      (progressAt (r.withLibraryNames .leave) p (Stage.place "global_lib")) := by
  obtain ⟨hentries, hcancelled⟩ := progressAt_succ (r.withLibraryNames .leave) p
    (Stage.place "global_lib") _ rfl
  exact ⟨hentries ▸ List.forall₂_refl _, hcancelled⟩

theorem alike_after_marking (p : Progress)
    (hcalm : ∀ e ∈ (progressAt (r.withLibraryNames .mark) p (Stage.place "global_lib")).entries,
      ∀ id, e.symbol = some id → .cancel ∉ r.checker.signals (.symbol id)) :
    (progressAt (r.withLibraryNames .mark) p (Stage.place "global_lib" + 1)).Alike Entry.Twins
      (progressAt (r.withLibraryNames .leave) p (Stage.place "global_lib" + 1)) := by
  have hmark := alike_globalLibrary r p hcalm
  have hbefore := alike_before_marking r p _ (Nat.le_refl _)
  have hleave := alike_leaving r p
  have hentries := hbefore.entries
  have hentries' := hleave.entries
  rw [List.forall₂_eq_eq_eq] at hentries hentries'
  -- From the marked list over the common list before the stage to the list left alone.
  constructor
  · rw [hentries', ← hentries]
    exact hmark.entries
  · rw [hmark.cancelled, hbefore.cancelled, hleave.cancelled]

/-! ### Names in both runs -/

/-- The name under which an entry of the engine is listed before members of functions are marked. -/
def listedName (raw : RawEntry) : String :=
  libraryName r (marksLibrary r (startOf raws fx)) (Entry.ofRaw raw)

/-- The name of an entry of the engine from then on. -/
def finalName (raw : RawEntry) : String :=
  memberName (marksMembers r (startOf raws fx)) (listedName r raws fx raw)

/-- Whether an entry is taken for a member of functions under both names or under none. -/
structure Request.ListsAlike (name name' : String) : Prop where
  useless : ∀ m ∈ Stage.uselessFunctionMembers, name = m ↔ name' = m
  methods : (Traced.ofOption r.typeOfNode r.memberReceiver?).value.any (·.isCallable) = true ∨
    ∀ m ∈ ["apply", "bind", "call"], name = m ↔ name' = m

/-- Whether an entry is taken for an expected keyword, for an attribute with a rule and for the
suggestion to take an object apart under both names or under none. -/
structure Request.ShowsAlike (raw : RawEntry) (name name' : String) : Prop where
  keywords : r.isMember = false → EntryKind.ofEngineTag raw.kind = .keyword →
    ∀ keyword ∈ Stage.expectedKeywords r, name = keyword ↔ name' = keyword
  attributes : Stage.attributeCopies r name = Stage.attributeCopies r name'
  suggestion : r.settings.destructuringSuggestion = true →
    ∀ s, Stage.Suggests r s → (name = s.name ↔ name' = s.name)

/-- Marking names of the standard library cancels nothing, and stages that select entries by their
names find the same whether names are marked or not. -/
structure Request.MarksAreLabels : Prop where
  calm : ∀ raw ∈ raws, ∀ id, raw.symbol = some id → .cancel ∉ r.checker.signals (.symbol id)
  lists : r.settings.removeUselessFunctionProps = true → r.isMember = true → ∀ raw ∈ raws,
    r.ListsAlike (listedName (r.withLibraryNames .mark) raws fx raw)
      (listedName (r.withLibraryNames .leave) raws fx raw)
  shows : ∀ raw ∈ raws, r.ShowsAlike raw (finalName (r.withLibraryNames .mark) raws fx raw)
    (finalName (r.withLibraryNames .leave) raws fx raw)

def SameRaw (r r' : Request) (k : Nat) (e e' : Entry) : Prop :=
  ∃ i raw, raws[i]? = some raw ∧
    (e ∈ (progressAt r (startOf raws fx) k).entries ∧ e.origin = some i) ∧
    e' ∈ (progressAt r' (startOf raws fx) k).entries ∧ e'.origin = some i

theorem exists_raw (k : Nat) (hk : k ≤ Stage.place "destructuring_suggestion") (e : Entry)
    (he : e ∈ (progressAt r (startOf raws fx) k).entries) :
    ∃ i raw, raws[i]? = some raw ∧ e.origin = some i ∧
      (raw.entryAt i).Keeps (Stage.touchedBetween 0 k) e := by
  cases horigin : e.origin with
  | none =>
    have hlate := (suggests_of_no_origin r raws fx k (Nat.le_trans hk (by decide)) e he horigin).1
    exact absurd hlate (Nat.not_lt.mpr hk)
  | some i =>
    obtain ⟨raw, hraw, hkeeps⟩ := exists_entryAt r raws fx k e he i horigin
    exact ⟨i, raw, hraw, rfl, hkeeps⟩

theorem sameRaw_of_alike {R : Entry → Entry → Prop} (r r' : Request) (k : Nat)
    (hk : k ≤ Stage.place "destructuring_suggestion") (hR : ∀ e e', R e e' → e.origin = e'.origin)
    (h : List.Forall₂ R (progressAt r (startOf raws fx) k).entries
      (progressAt r' (startOf raws fx) k).entries) :
    List.Forall₂ (fun e e' => R e e' ∧ SameRaw raws fx r r' k e e')
      (progressAt r (startOf raws fx) k).entries (progressAt r' (startOf raws fx) k).entries := by
  refine (forall₂_mem h).imp fun e e' ⟨he, he', hrelated⟩ => ⟨hrelated, ?_⟩
  obtain ⟨i, raw, hraw, horigin, _⟩ := exists_raw r raws fx k hk e he
  exact ⟨i, raw, hraw, ⟨he, horigin⟩, he', (hR e e' hrelated).symm.trans horigin⟩

theorem SameRaw.names {r r' : Request} {k : Nat} {e e' : Entry} (h : SameRaw raws fx r r' k e e')
    (hlow : Stage.place "global_lib" < k)
    (hhigh : k ≤ Stage.place "highlight_non_function_methods") :
    ∃ raw ∈ raws, e.name = listedName r raws fx raw ∧ e'.name = listedName r' raws fx raw := by
  obtain ⟨i, raw, hraw, ⟨he, hi⟩, he', hi'⟩ := h
  exact ⟨raw, List.mem_of_getElem? hraw,
    name_before_highlight r raws fx k hlow hhigh e he i hi raw hraw,
    name_before_highlight r' raws fx k hlow hhigh e' he' i hi' raw hraw⟩

theorem SameRaw.finalNames {r r' : Request} {k : Nat} {e e' : Entry}
    (h : SameRaw raws fx r r' k e e') (hlow : Stage.place "highlight_non_function_methods" < k)
    (hhigh : k ≤ Stage.table.length) :
    ∃ raw ∈ raws, (e.kind = .keyword ↔ EntryKind.ofEngineTag raw.kind = .keyword) ∧
      e.name = finalName r raws fx raw ∧ e'.name = finalName r' raws fx raw := by
  obtain ⟨i, raw, hraw, ⟨he, hi⟩, he', hi'⟩ := h
  exact ⟨raw, List.mem_of_getElem? hraw, (keeps_entryAt r raws fx k e he i hi raw hraw).isKeyword,
    name_from_highlight r raws fx k hlow hhigh e he i hi raw hraw,
    name_from_highlight r' raws fx k hlow hhigh e' he' i hi' raw hraw⟩

/-! ### Behind the marking -/

theorem origin_eq_of_twins (e e' : Entry) (h : e.Twins e') : e.origin = e'.origin :=
  h.congr (·.origin) fun _ => rfl

theorem alike_hidden_members (h : r.MarksAreLabels raws fx)
    (hon : r.settings.removeUselessFunctionProps = true) (entries entries' : List Entry)
    (hnames : List.Forall₂ (fun e e' => e.Twins e' ∧ ∃ raw ∈ raws,
      e.name = listedName (r.withLibraryNames .mark) raws fx raw ∧
        e'.name = listedName (r.withLibraryNames .leave) raws fx raw) entries entries') :
    StageRun.Alike Entry.Twins entries entries' (Stage.removeUselessFunctionProps r entries)
      (Stage.removeUselessFunctionProps r entries') := by
  refine Stage.alike_removeUselessFunctionProps (hnames.imp ?_) fun hmember => ?_
  · rintro e e' ⟨htwins, raw, hraw, hname, hname'⟩
    refine ⟨htwins, fun hmember => ?_⟩
    rw [hname, hname']
    exact Stage.contains_congr (h.lists hon hmember raw hraw).useless
  · refine Stage.listsFunctionMembers_congr (or_iff_not_imp_left.mpr fun hcallable m hm => ?_)
    refine Stage.listsName_congr m (hnames.imp ?_)
    rintro e e' ⟨_, raw, hraw, hname, hname'⟩
    rw [hname, hname']
    exact (h.lists hon hmember raw hraw).methods.resolve_left hcallable m hm

theorem alike_boosted_keywords (h : r.MarksAreLabels raws fx) (entries entries' : List Entry)
    (hnames : List.Forall₂ (fun e e' => e.Twins e' ∧ ∃ raw ∈ raws,
      (e.kind = .keyword ↔ EntryKind.ofEngineTag raw.kind = .keyword) ∧
        e.name = finalName (r.withLibraryNames .mark) raws fx raw ∧
          e'.name = finalName (r.withLibraryNames .leave) raws fx raw) entries entries') :
    StageRun.Alike Entry.Twins entries entries' (Stage.boostKeywords r entries)
      (Stage.boostKeywords r entries') := by
  refine Stage.alike_boostKeywords (hnames.imp ?_)
  rintro e e' ⟨htwins, raw, hraw, hkind, hname, hname'⟩
  refine ⟨htwins, fun hmember hkeyword => ?_⟩
  rw [hname, hname']
  exact Stage.contains_congr ((h.shows raw hraw).keywords hmember (hkind.mp hkeyword))

/-- Up to the attribute rules the lists of the two runs differ in names alone. -/
theorem alike_up_to_attributes (h : r.MarksAreLabels raws fx) (k : Nat)
    (hlow : Stage.place "global_lib" + 1 ≤ k) (hhigh : k ≤ Stage.place "jsx_attributes") :
    (progressAt (r.withLibraryNames .mark) (startOf raws fx) k).Alike Entry.Twins
      (progressAt (r.withLibraryNames .leave) (startOf raws fx) k) := by
  induction hlow with
  | refl =>
    refine alike_after_marking r (startOf raws fx) fun e he id hsymbol => ?_
    obtain ⟨i, raw, hraw, _, hkeeps⟩ := exists_raw _ raws fx _ (by decide) e he
    exact h.calm raw (List.mem_of_getElem? hraw) id (hkeeps.symbol.symm.trans hsymbol)
  | @step k hlow ih =>
    have hbefore := ih (Nat.le_of_lt hhigh)
    have hentries := hbefore.entries
    obtain ⟨stage, hstage⟩ : ∃ stage, Stage.table[k]? = some stage :=
      ⟨_, List.getElem?_eq_getElem (Nat.lt_of_lt_of_le hhigh (by decide))⟩
    have hplace := Stage.place_of_getElem? k stage hstage
    have hmem : stage ∈ (Stage.table.take (Stage.place "jsx_attributes")).drop
        (Stage.place "global_lib" + 1) := by
      refine List.mem_of_getElem? (i := k - (Stage.place "global_lib" + 1)) ?_
      rw [List.getElem?_drop, Nat.add_sub_of_le hlow, List.getElem?_take_of_lt hhigh, hstage]
    have hpairs := sameRaw_of_alike raws fx _ _ k
      (Nat.le_trans (Nat.le_of_lt hhigh) (by decide)) origin_eq_of_twins hentries
    change stage ∈ (Stage.table.take 17).drop 5 at hmem
    simp only [Stage.table, List.take_succ_cons, List.take_zero, List.drop_succ_cons,
      List.drop_zero, List.mem_cons, List.not_mem_nil, or_false] at hmem
    -- Only two of these stages select entries by names, which therefore have to be known there.
    rcases hmem with rfl | rfl | rfl | rfl | rfl | rfl | rfl | rfl | rfl | rfl | rfl | rfl <;>
      refine alike_marking_succ r _ k _ hstage (by decide) (fun _ _ => id) hbefore fun hon => ?_
    · exact Stage.alike_excludeCovered hentries
    · refine alike_hidden_members r raws fx h hon _ _ (hpairs.imp fun e e' hpair => ?_)
      exact hpair.imp_right fun hsame =>
        hsame.names raws fx (hplace ▸ by decide) (hplace ▸ by decide)
    · exact Stage.alike_functionKind hentries
    · exact Stage.alike_highlightOwnMembers (r := r) hentries
    · refine alike_boosted_keywords r raws fx h _ _ (hpairs.imp fun e e' hpair => ?_)
      exact hpair.imp_right fun hsame =>
        hsame.finalNames raws fx (hplace ▸ by decide) (hplace ▸ by decide)
    · exact Stage.alike_boostByType hentries
    · exact Stage.alike_boostByLocality hentries
    · exact Stage.alike_sortProperties hentries
    · exact Stage.alike_showImportModule hentries
    · exact Stage.alike_arrayCallbacks hentries
    · exact Stage.alike_calls hentries
    · exact Stage.alike_objectLiterals hentries

/-- From the attribute rules on the lists of the two runs hold entries of the same origins and keys.
-/
theorem alike_behind_attributes (h : r.MarksAreLabels raws fx) (k : Nat)
    (hlow : Stage.place "jsx_attributes" + 1 ≤ k) (hhigh : k ≤ Stage.table.length) :
    (progressAt (r.withLibraryNames .mark) (startOf raws fx) k).Alike Entry.Kin
      (progressAt (r.withLibraryNames .leave) (startOf raws fx) k) := by
  induction hlow with
  | refl =>
    have hbefore := alike_up_to_attributes r raws fx h (Stage.place "jsx_attributes") (by decide)
      (Nat.le_refl _)
    refine alike_marking_succ r _ (Stage.place "jsx_attributes") _ rfl (by decide)
      (fun e e' htwins => htwins.kin) hbefore fun _ => ?_
    have hpairs := sameRaw_of_alike raws fx _ _ _ (by decide) origin_eq_of_twins hbefore.entries
    refine Stage.alike_attributes (hpairs.imp ?_)
    rintro e e' ⟨htwins, hsame⟩
    refine ⟨htwins, ?_⟩
    obtain ⟨raw, hraw, _, hname, hname'⟩ := hsame.finalNames raws fx (by decide) (by decide)
    rw [hname, hname']
    exact (h.shows raw hraw).attributes
  | @step k hlow ih =>
    have hbefore := ih (Nat.le_of_lt hhigh)
    obtain ⟨stage, hstage⟩ : ∃ stage, Stage.table[k]? = some stage :=
      ⟨_, List.getElem?_eq_getElem hhigh⟩
    have hmem : stage ∈ Stage.table.drop (Stage.place "jsx_attributes" + 1) := by
      refine List.mem_of_getElem? (i := k - (Stage.place "jsx_attributes" + 1)) ?_
      rw [List.getElem?_drop, Nat.add_sub_of_le hlow, hstage]
    have hplace := Stage.place_of_getElem? k stage hstage
    change stage ∈ Stage.table.drop 18 at hmem
    simp only [Stage.table, List.drop_succ_cons, List.drop_zero, List.mem_cons, List.not_mem_nil,
      or_false] at hmem
    -- The suggestion is left out where its name is listed already; the others keep all entries.
    rcases hmem with rfl | rfl | rfl | rfl <;>
      refine alike_marking_succ r _ k _ hstage (by decide) (fun _ _ => id) hbefore fun hon => ?_
    · have hpairs := sameRaw_of_alike raws fx _ _ k (hplace ▸ Nat.le_refl _)
        (fun e e' hkin => congrArg Prod.fst hkin) hbefore.entries
      refine Stage.alike_destructuring (hpairs.imp ?_)
      rintro e e' ⟨hkin, hsame⟩
      refine ⟨hkin, ?_⟩
      obtain ⟨raw, hraw, _, hname, hname'⟩ :=
        hsame.finalNames raws fx (hplace ▸ by decide) (Nat.le_of_lt hhigh)
      rw [hname, hname']
      exact (h.shows raw hraw).suggestion hon
    · exact Stage.alike_spaceKeywords hbefore.entries
    · exact Stage.alike_namespaceImports hbefore.entries
    · exact Stage.alike_normalizeOrder (r := r) hbefore.entries

/-! ### In the answers -/

theorem startsFromEmpty_withLibraryNames (mode : LibraryNames) :
    (enabledStages (r.withLibraryNames mode).settings).any (·.fromEmpty) =
      (enabledStages r.settings).any (·.fromEmpty) := by
  have hname : ∀ stage ∈ Stage.table, stage.fromEmpty = true → stage.name ≠ "global_lib" := by
    decide
  exact startsFromEmpty_congr _ _ fun stage hmem hempty =>
    (stage.withLibraryNames_irrelevant r mode hmem (hname stage hmem hempty)).1

theorem origins_of_kin {entries entries' : List Entry}
    (h : List.Forall₂ Entry.Kin entries entries') :
    entries.map (·.origin) = entries'.map (·.origin) := by
  have horigins := congrArg (List.map Prod.fst) ((Entry.forall₂_kin_iff _ _).mp h)
  rw [List.map_map, List.map_map] at horigins
  exact horigins

theorem origins_finalizeKeys {entries entries' : List Entry}
    (h : List.Forall₂ Entry.Kin entries entries') :
    (finalizeKeys entries).map (·.origin) = (finalizeKeys entries').map (·.origin) := by
  rw [map_finalizeKeys (·.origin) fun _ => rfl, map_finalizeKeys (·.origin) fun _ => rfl]
  exact origins_of_kin (Entry.kin_sortByKey h)

/-- Marking names of the standard library changes neither which entries are listed nor their order,
as long as stages that select entries by their names find the same with and without marks. -/
theorem marking_keeps_entries (hrules : r.settings.replaceSuggestions = [])
    (h : r.MarksAreLabels raws fx) :
    (enrich (r.withLibraryNames .mark) (Entry.ofRawList raws) fx).entries.map (·.origin) =
      (enrich (r.withLibraryNames .leave) (Entry.ofRawList raws) fx).entries.map (·.origin) ∧
    (enrich (r.withLibraryNames .mark) (Entry.ofRawList raws) fx).cancelled =
      (enrich (r.withLibraryNames .leave) (Entry.ofRawList raws) fx).cancelled := by
  have hend : (runStages (r.withLibraryNames .mark) (enabledStages (r.withLibraryNames .mark).settings)
      { entries := Entry.ofRawList raws, effects := fx }).Alike Entry.Kin
        (runStages (r.withLibraryNames .leave) (enabledStages (r.withLibraryNames .leave).settings)
          { entries := Entry.ofRawList raws, effects := fx }) :=
    alike_behind_attributes r raws fx h Stage.table.length (by decide) (Nat.le_refl _)
  have hfinish (mode : LibraryNames) (p : Progress) :
      (finishList (r.withLibraryNames mode) p).entries =
        if r.settings.correctSorting then finalizeKeys p.entries else p.entries := by
    have hruled : ruledEntries (r.withLibraryNames mode) p = p.entries :=
      if_pos (List.isEmpty_iff.mpr hrules)
    rw [entries_finishList, hruled]
    rfl
  unfold enrich enrichInFull
  dsimp only
  rw [startsFromEmpty_withLibraryNames, startsFromEmpty_withLibraryNames, ← hend.cancelled]
  split
  · exact ⟨rfl, rfl⟩
  · split
    · exact ⟨origins_of_kin hend.entries, rfl⟩
    · refine ⟨?_, rfl⟩
      dsimp only
      rw [hfinish, hfinish]
      split
      · exact origins_finalizeKeys hend.entries
      · exact origins_of_kin hend.entries

end Marking

/-! ### Members of a function -/

/-- Members of a function, of which the standard library declares the one of the given name. -/
def methodNames (library : String) : RawCompletions where
  entries := ["apply", "bind", "call", "caller", "name"].map fun name =>
    { name, kind := "method", sortText := "11", symbol := if name == library then some 0 else none }
  isMemberCompletion := true

def methodRequest (library : String) : Request :=
  let settings := { removeUselessFunctionProps := true, correctSorting := false }
  Session.stageRequest { settings } Session.memberRequest (methodNames library)

theorem showsAlike_methodRequest (library : String) (raw : RawEntry) (name name' : String) :
    (methodRequest library).ShowsAlike raw name name' where
  keywords hmember := by cases hmember
  attributes := by
    unfold Stage.attributeCopies
    rw [Stage.attributeRule?_of_no_rules _ rfl, Stage.attributeRule?_of_no_rules _ rfl]
  suggestion hon := by cases hon

theorem marking_keeps_methods :
    (enrich ((methodRequest "name").withLibraryNames .mark)
        (Entry.ofRawList (methodNames "name").entries) {}).entries.map (·.origin) =
      (enrich ((methodRequest "name").withLibraryNames .leave)
        (Entry.ofRawList (methodNames "name").entries) {}).entries.map (·.origin) ∧
    (enrich ((methodRequest "name").withLibraryNames .mark)
        (Entry.ofRawList (methodNames "name").entries) {}).cancelled =
      (enrich ((methodRequest "name").withLibraryNames .leave)
        (Entry.ofRawList (methodNames "name").entries) {}).cancelled := by
  refine marking_keeps_entries (methodRequest "name") (methodNames "name").entries {} rfl ?_
  refine ⟨fun _ _ _ _ => nofun, fun _ _ raw hraw => ?_, fun raw _ =>
    showsAlike_methodRequest "name" raw _ _⟩
  have hnames : ∀ raw ∈ (methodNames "name").entries,
      ∀ m ∈ Stage.uselessFunctionMembers ++ ["apply", "bind", "call"],
        listedName ((methodRequest "name").withLibraryNames .mark) (methodNames "name").entries {}
            raw = m ↔
          listedName ((methodRequest "name").withLibraryNames .leave) (methodNames "name").entries {}
            raw = m := by
    decide +kernel
  exact ⟨fun m hm => hnames raw hraw m (List.mem_append_left _ hm),
    Or.inr fun m hm => hnames raw hraw m (List.mem_append_right _ hm)⟩

/-- The member that is hidden by its name is shown when the name is marked. -/
theorem marking_shows_hidden_member :
    (methodRequest "caller").settings.replaceSuggestions = [] ∧
    (enrich ((methodRequest "caller").withLibraryNames .mark)
        (Entry.ofRawList (methodNames "caller").entries) {}).entries.map (·.name) =
      ["apply", "bind", "call", "🏛 caller", "name"] ∧
    (enrich ((methodRequest "caller").withLibraryNames .leave)
        (Entry.ofRawList (methodNames "caller").entries) {}).entries.map (·.name) =
      ["apply", "bind", "call", "name"] := by
  have hentries (mode : LibraryNames) :
      (enrich ((methodRequest "caller").withLibraryNames mode)
        (Entry.ofRawList (methodNames "caller").entries) {}).entries =
      (progressAt ((methodRequest "caller").withLibraryNames mode)
        (startOf (methodNames "caller").entries {}) Stage.table.length).entries :=
    entries_enrich_of_no_rules _ _ {} rfl
      (cancelled_enrich_of_isQuiet _ _ _ (Program.isQuiet_checker _) rfl)
  rw [hentries, hentries]
  decide +kernel

end CodeCompletion
