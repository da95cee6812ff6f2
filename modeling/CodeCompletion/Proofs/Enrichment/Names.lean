import CodeCompletion.Proofs.Enrichment.Course

/-!
# Names in a run

Two stages put marks in front of names. What they do to an entry depends on its symbol and on the
name that it has had from the engine, so its name at any place of the table can be told from the
engine's entry and from which of the two stages took effect.
-/

namespace CodeCompletion

/-! ### Two stages -/

namespace Stage

variable (r : Request) (entries : List Entry)

/-- An entry with the mark of the standard library if that declares it. -/
def markLibrary (e : Entry) : Entry :=
  if (isLibraryName r e).value then e.decorate libraryMark else e

def libraryMetadata : List (String × Deferred) :=
  (entries.filter fun e => (isLibraryName r e).value).map fun e =>
    (libraryMark ++ e.name, { detailPrefix := some libraryDetail })

def memberMark (name : String) : String :=
  if functionPrototypeMembers.contains name then prototypeMark else ownMemberMark

theorem names_marked :
    (((entries.map fun e => if (isLibraryName r e).value then (e.decorate libraryMark, true)
      else (e, false)).filter (·.2)).map (·.1.name)) =
      (entries.filter fun e => (isLibraryName r e).value).map fun e => libraryMark ++ e.name := by
  induction entries with
  | nil => rfl
  | cons e entries ih =>
    rw [List.map_cons, List.filter_cons, List.filter_cons]
    cases (isLibraryName r e).value with
    | false => exact ih
    | true => exact congrArg ((libraryMark ++ e.name) :: ·) ih

theorem globalLibrary_cases (o : Outcome) (h : (globalLibrary r entries).value = .ok o) :
    r.settings.globalLibCompletions = .mark ∧
      o = .changed (entries.map (markLibrary r)) (DeferredMap.ofList (libraryMetadata r entries)) ∨
    (r.settings.globalLibCompletions = .mark → o = .unchanged) ∧
      (o.entriesOr entries).Sublist entries ∧ o.aside = ∅ := by
  have hskip : (Outcome.unchanged.entriesOr entries).Sublist entries := List.Sublist.refl _
  unfold globalLibrary at h
  split at h
  · cases h
    exact Or.inr ⟨fun _ => rfl, hskip, rfl⟩
  · rename_i hmode
    cases h
    refine Or.inr ⟨fun hmark => ?_, ?_⟩
    · rw [hmode] at hmark
      cases hmark
    · rw [Traced.value_filter, Outcome.kept, Outcome.entriesIf]
      split
      · exact ⟨List.filter_sublist, rfl⟩
      · exact ⟨hskip, rfl⟩
  · rename_i hmode
    rw [Traced.value_bind, Traced.value_each] at h
    simp only [Traced.value_bind, Traced.value_pure, apply_ite Traced.value] at h
    rw [names_marked] at h
    split at h
    · cases h
      exact Or.inr ⟨fun _ => rfl, hskip, rfl⟩
    · cases h
      refine Or.inl ⟨hmode, ?_⟩
      rw [List.map_map, List.map_map]
      simp only [Function.comp_def, apply_ite Prod.fst]
      rfl

theorem highlightOwnMembers_cases (o : Outcome)
    (h : (highlightOwnMembers r entries).value = .ok o) :
    o = .unchanged ∨ o = .entries (entries.map fun e => e.decorate (memberMark e.name)) := by
  unfold highlightOwnMembers at h
  split at h
  · cases h
    exact Or.inr rfl
  · cases h
    exact Or.inl rfl

end Stage

/-! ### Engine entries at places of the table -/

/-- The entry that stands for an engine's entry in the list. -/
def RawEntry.entryAt (raw : RawEntry) (i : Nat) : Entry :=
  { Entry.ofRaw raw with origin := some i }

def startOf (raws : List RawEntry) (fx : Effects) : Progress :=
  { entries := Entry.ofRawList raws, effects := fx }

section Run

variable (r : Request) (raws : List RawEntry) (fx : Effects)

theorem mem_ofRawList (e : Entry) (he : e ∈ Entry.ofRawList raws) :
    ∃ (i : Nat) (raw : RawEntry), raws[i]? = some raw ∧ e = raw.entryAt i := by
  obtain ⟨i, hi, rfl⟩ := List.mem_mapIdx.mp he
  exact ⟨i, raws[i], List.getElem?_eq_getElem hi, rfl⟩

theorem keeps_of_origin (p : Progress) (j k : Nat) (hjk : j ≤ k) (e' : Entry)
    (he' : e' ∈ (progressAt r p k).entries) (i : Nat) (hi : e'.origin = some i) :
    ∃ e ∈ (progressAt r p j).entries, e.origin = some i ∧
      e.Keeps (Stage.touchedBetween j k) e' := by
  obtain ⟨e, harrives, hkeeps⟩ := keeps_between r p j k hjk e' he'
  have horigin : e.origin = some i := hkeeps.origin.symm.trans hi
  rcases harrives with he | ⟨_, _, _, _, _, _, _, rfl⟩
  · exact ⟨e, he, horigin, hkeeps⟩
  · cases horigin

theorem exists_entryAt (k : Nat) (e : Entry) (he : e ∈ (progressAt r (startOf raws fx) k).entries)
    (i : Nat) (hi : e.origin = some i) :
    ∃ raw : RawEntry, raws[i]? = some raw ∧
      (raw.entryAt i).Keeps (Stage.touchedBetween 0 k) e := by
  obtain ⟨e₀, he₀, hi₀, hkeeps⟩ := keeps_of_origin r _ 0 k (Nat.zero_le k) e he i hi
  obtain ⟨j, raw, hraw, rfl⟩ := mem_ofRawList raws e₀ he₀
  cases hi₀
  exact ⟨raw, hraw, hkeeps⟩

theorem keeps_entryAt (k : Nat) (e : Entry) (he : e ∈ (progressAt r (startOf raws fx) k).entries)
    (i : Nat) (hi : e.origin = some i) (raw : RawEntry) (hraw : raws[i]? = some raw) :
    (raw.entryAt i).Keeps (Stage.touchedBetween 0 k) e := by
  obtain ⟨raw', hraw', hkeeps⟩ := exists_entryAt r raws fx k e he i hi
  rw [hraw] at hraw'
  cases hraw'
  exact hkeeps

/-! ### Marked names -/

def marksLibrary (p : Progress) : Bool :=
  r.settings.globalLibCompletions == .mark && takesEffect r p "global_lib"

def marksMembers (p : Progress) : Bool := takesEffect r p "highlight_non_function_methods"

/-- The name of an entry after names of the standard library were marked or not. -/
def libraryName (marking : Bool) (e : Entry) : String :=
  if marking then (Stage.markLibrary r e).name else e.name

def memberName (marking : Bool) (name : String) : String :=
  if marking then Stage.memberMark name ++ name else name

theorem libraryName_congr (marking : Bool) (e e' : Entry) (hname : e'.name = e.name)
    (hsymbol : e'.symbol = e.symbol) : libraryName r marking e' = libraryName r marking e := by
  have hlibrary : Stage.isLibraryName r e' = Stage.isLibraryName r e := by
    unfold Stage.isLibraryName Request.entrySymbol
    rw [hsymbol]
  unfold libraryName Stage.markLibrary
  rw [hlibrary]
  split
  · split
    · exact congrArg (Stage.libraryMark ++ ·) hname
    · exact hname
  · exact hname

theorem name_after_global_lib (p : Progress) (e' : Entry)
    (he' : e' ∈ (progressAt r p (Stage.place "global_lib" + 1)).entries) :
    ∃ e ∈ (progressAt r p (Stage.place "global_lib")).entries, e'.origin = e.origin ∧
      e'.symbol = e.symbol ∧ e'.name = libraryName r (marksLibrary r p) e := by
  rw [entries_progressAt_succ] at he'
  rcases outcomeAt_cases r p (Stage.place "global_lib") with hsame | ⟨stage, hstage, hvalue⟩
  · rw [hsame] at he'
    have hmarks : marksLibrary r p = false := by
      rw [marksLibrary, takesEffect, hsame]
      exact Bool.and_false _
    rw [hmarks]
    exact ⟨e', he', rfl, rfl, rfl⟩
  · cases hstage
    rcases Stage.globalLibrary_cases r _ _ hvalue with ⟨hmode, hchanged⟩ | ⟨hmode, hsub, _⟩
    · have hmarks : marksLibrary r p = true := by
        rw [marksLibrary, takesEffect, hmode, hchanged]
        rfl
      rw [hchanged] at he'
      obtain ⟨e, he, rfl⟩ := List.mem_map.mp he'
      rw [hmarks]
      refine ⟨e, he, ?_, ?_, rfl⟩ <;>
      · unfold Stage.markLibrary
        split <;> rfl
    · have hmarks : marksLibrary r p = false := by
        rw [marksLibrary, takesEffect, Bool.and_eq_false_iff]
        by_cases h : r.settings.globalLibCompletions = .mark
        · rw [hmode h]
          exact Or.inr rfl
        · exact Or.inl (beq_eq_false_iff_ne.mpr h)
      rw [hmarks]
      exact ⟨e', hsub.subset he', rfl, rfl, rfl⟩

theorem name_after_highlight (p : Progress) (e' : Entry)
    (he' : e' ∈ (progressAt r p (Stage.place "highlight_non_function_methods" + 1)).entries) :
    ∃ e ∈ (progressAt r p (Stage.place "highlight_non_function_methods")).entries,
      e'.origin = e.origin ∧ e'.name = memberName (marksMembers r p) e.name := by
  rw [entries_progressAt_succ] at he'
  rcases outcomeAt_of_stage r p (Stage.place "highlight_non_function_methods") _ rfl _
    (Stage.highlightOwnMembers_cases r _) with hsame | hchanged
  · rw [hsame] at he'
    rw [marksMembers, takesEffect, hsame]
    exact ⟨e', he', rfl, rfl⟩
  · rw [hchanged] at he'
    obtain ⟨e, he, rfl⟩ := List.mem_map.mp he'
    rw [marksMembers, takesEffect, hchanged]
    exact ⟨e, he, rfl, rfl⟩

/-- The name of an entry of the engine before members of functions are marked. -/
theorem name_before_highlight (k : Nat) (hlow : Stage.place "global_lib" < k)
    (hhigh : k ≤ Stage.place "highlight_non_function_methods") (e : Entry)
    (he : e ∈ (progressAt r (startOf raws fx) k).entries) (i : Nat) (hi : e.origin = some i)
    (raw : RawEntry) (hraw : raws[i]? = some raw) :
    e.name = libraryName r (marksLibrary r (startOf raws fx)) (Entry.ofRaw raw) := by
  obtain ⟨e₁, he₁, hi₁, hkeeps⟩ := keeps_of_origin r _ _ k hlow e he i hi
  have hafter : .name ∉ Stage.touchedBetween (Stage.place "global_lib" + 1) k := fun hmem =>
    absurd (Stage.touchedBetween_mono _ hhigh hmem) (by decide)
  obtain ⟨e₂, he₂, horigin, hsymbol, hname⟩ := name_after_global_lib r _ e₁ he₁
  have hbefore := keeps_entryAt r raws fx _ e₂ he₂ i (horigin.symm.trans hi₁) raw hraw
  calc e.name = e₁.name := hkeeps.name hafter
    _ = libraryName r _ e₂ := hname
    _ = libraryName r _ (Entry.ofRaw raw) :=
      libraryName_congr r _ _ _ (hbefore.name (by decide)) hbefore.symbol

theorem name_from_highlight (k : Nat)
    (hlow : Stage.place "highlight_non_function_methods" < k) (hhigh : k ≤ Stage.table.length)
    (e : Entry) (he : e ∈ (progressAt r (startOf raws fx) k).entries) (i : Nat)
    (hi : e.origin = some i) (raw : RawEntry) (hraw : raws[i]? = some raw) :
    e.name = memberName (marksMembers r (startOf raws fx))
      (libraryName r (marksLibrary r (startOf raws fx)) (Entry.ofRaw raw)) := by
  obtain ⟨e₁, he₁, hi₁, hkeeps⟩ := keeps_of_origin r _ _ k hlow e he i hi
  have hafter : .name ∉
      Stage.touchedBetween (Stage.place "highlight_non_function_methods" + 1) k := fun hmem =>
    absurd (Stage.touchedBetween_mono _ hhigh hmem) (by decide)
  obtain ⟨e₂, he₂, horigin, hname⟩ := name_after_highlight r _ e₁ he₁
  have hbefore := name_before_highlight r raws fx _ (by decide) (Nat.le_refl _) e₂ he₂ i
    (horigin.symm.trans hi₁) raw hraw
  rw [hkeeps.name hafter, hname, hbefore]

theorem suggests_of_no_origin (k : Nat) (hk : k ≤ Stage.table.length) (e : Entry)
    (he : e ∈ (progressAt r (startOf raws fx) k).entries) (hi : e.origin = none) :
    Stage.place "destructuring_suggestion" < k ∧ ∃ s, Stage.Suggests r s ∧ s.Stems e ∧
      e.name = s.name := by
  obtain ⟨e₀, he₀ | ⟨_, hlow, _⟩, hkeeps₀⟩ := keeps_between r _ 0 k (Nat.zero_le k) e he
  · obtain ⟨i, raw, _, rfl⟩ := mem_ofRawList raws e₀ he₀
    rw [hkeeps₀.origin] at hi
    cases hi
  · refine ⟨hlow, ?_⟩
    obtain ⟨s, hs | ⟨_, _, hsuggests⟩, hkeeps⟩ :=
      keeps_between r _ (Stage.place "destructuring_suggestion") k (Nat.le_of_lt hlow) e he
    · -- Before it is made, there is no suggestion in the list.
      obtain ⟨e₁, he₁ | ⟨_, hlt, _⟩, hkeeps₁⟩ := keeps_between r _ 0 _ (Nat.zero_le _) s hs
      · obtain ⟨i, raw, _, rfl⟩ := mem_ofRawList raws e₁ he₁
        rw [hkeeps.origin, hkeeps₁.origin] at hi
        cases hi
      · exact absurd hlt (Nat.lt_irrefl _)
    · refine ⟨s, hsuggests, hkeeps.toStems, hkeeps.name fun hmem => ?_⟩
      exact absurd (Stage.touchedBetween_mono _ hk hmem) (by decide)

end Run

/-! ### Which marks there are -/

theorem contains_libraryMark_append (name : String) (members : List String)
    (h : ∀ m ∈ members, m.toList.head? ≠ some '🏛') :
    members.contains (Stage.libraryMark ++ name) = false := by
  rw [← Bool.not_eq_true, List.contains_iff_mem]
  intro hmem
  refine h _ hmem ?_
  rw [String.toList_append]
  rfl

theorem memberMark_library (name : String) :
    Stage.memberMark (Stage.libraryMark ++ name) = Stage.ownMemberMark := by
  rw [Stage.memberMark, contains_libraryMark_append name _ (by decide)]
  rfl

def nameMarks : List String := ["", "🏛 ", "·", "☆", "☆🏛 "]

theorem exists_nameMark (r : Request) (library member : Bool) (e : Entry) :
    ∃ mark ∈ nameMarks, memberName member (libraryName r library e) = mark ++ e.name := by
  have hlibrary : libraryName r library e = e.name ∨
      libraryName r library e = Stage.libraryMark ++ e.name := by
    unfold libraryName Stage.markLibrary
    split
    · split
      · exact Or.inr rfl
      · exact Or.inl rfl
    · exact Or.inl rfl
  cases member with
  | false =>
    rcases hlibrary with hname | hname
    · exact ⟨"", by decide, hname.trans (String.empty_append).symm⟩
    · exact ⟨"🏛 ", by decide, hname⟩
  | true =>
    rcases hlibrary with hname | hname
    · rw [memberName, if_pos rfl, hname, Stage.memberMark]
      split
      · exact ⟨"·", by decide, rfl⟩
      · exact ⟨"☆", by decide, rfl⟩
    · rw [memberName, if_pos rfl, hname, memberMark_library]
      exact ⟨"☆🏛 ", by decide, (String.append_assoc).symm⟩

end CodeCompletion
