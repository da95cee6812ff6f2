import CodeCompletion.Proofs.SortKey.Order
import CodeCompletion.Stage.Table

/-!
# Where the entries after a stage come from

A stage may drop, copy and change entries, but each entry of its result descends from one that it
was given: it stands for the same symbol of the same module, and its sort key is the old one,
boosted or refined. Name, inserted text, key and import each are left alone by all stages but a
few, and few keep anything aside. Only the suggestion that takes an object apart is new, and only
the stage that can start from an empty list adds it.
-/

namespace CodeCompletion

/-! ### Descent -/

/-- Keys that are made from a given one by boosting and refining. -/
inductive SortKey.Derived (base : String) : String → Prop where
  | refl : Derived base base
  | boost {key : String} (h : Derived base key) : Derived base (SortKey.boost key)
  | refine {key : String} (h : Derived base key) (rank : UInt16) :
    Derived base (SortKey.refine key rank)

theorem SortKey.Derived.trans {a b c : String} (hab : SortKey.Derived a b)
    (hbc : SortKey.Derived b c) : SortKey.Derived a c := by
  induction hbc with
  | refl => exact hab
  | boost _ ih => exact ih.boost
  | refine _ rank ih => exact ih.refine rank

/-- What is left of an entry whatever is done to it: what it stands for and what it replaces. -/
structure Entry.Stems (e e' : Entry) : Prop where
  origin : e'.origin = e.origin
  symbol : e'.symbol = e.symbol
  source : e'.source = e.source
  kindModifiers : e'.kindModifiers = e.kindModifiers
  replacementSpan : e'.replacementSpan = e.replacementSpan
  hasAction : e'.hasAction = true → e.hasAction = true

structure Entry.Descends (e e' : Entry) : Prop extends e.Stems e' where
  key : SortKey.Derived e.sortText e'.sortText

namespace Entry

theorem Stems.refl (e : Entry) : e.Stems e := ⟨rfl, rfl, rfl, rfl, rfl, id⟩

theorem Stems.trans {a b c : Entry} (hab : a.Stems b) (hbc : b.Stems c) : a.Stems c where
  origin := hbc.origin.trans hab.origin
  symbol := hbc.symbol.trans hab.symbol
  source := hbc.source.trans hab.source
  kindModifiers := hbc.kindModifiers.trans hab.kindModifiers
  replacementSpan := hbc.replacementSpan.trans hab.replacementSpan
  hasAction h := hab.hasAction (hbc.hasAction h)

theorem Descends.refl (e : Entry) : e.Descends e := ⟨.refl e, .refl⟩

theorem Descends.trans {a b c : Entry} (hab : a.Descends b) (hbc : b.Descends c) :
    a.Descends c :=
  ⟨hab.toStems.trans hbc.toStems, hab.key.trans hbc.key⟩

end Entry

/-- What some stages change about an entry and all others leave alone, and whether anything is kept
aside for the details of entries. -/
inductive Aspect where
  | name | insertion | key | action | aside
  deriving Repr, DecidableEq

/-- What a stage that touches only the given aspects leaves of an entry. -/
structure Entry.Keeps (touched : List Aspect) (e e' : Entry) : Prop extends e.Descends e' where
  isKeyword : e'.kind = .keyword ↔ e.kind = .keyword
  name : .name ∉ touched → e'.name = e.name
  insertion : .insertion ∉ touched → e'.insertion = e.insertion
  sortText : .key ∉ touched → e'.sortText = e.sortText
  action : .action ∉ touched → e'.hasAction = e.hasAction

namespace Entry

variable {touched : List Aspect}

theorem Keeps.refl (e : Entry) : e.Keeps touched e :=
  ⟨.refl e, Iff.rfl, fun _ => rfl, fun _ => rfl, fun _ => rfl, fun _ => rfl⟩

theorem Keeps.trans {a b c : Entry} (hab : a.Keeps touched b) (hbc : b.Keeps touched c) :
    a.Keeps touched c where
  toDescends := hab.toDescends.trans hbc.toDescends
  isKeyword := hbc.isKeyword.trans hab.isKeyword
  name h := (hbc.name h).trans (hab.name h)
  insertion h := (hbc.insertion h).trans (hab.insertion h)
  sortText h := (hbc.sortText h).trans (hab.sortText h)
  action h := (hbc.action h).trans (hab.action h)

theorem Keeps.mono {touched' : List Aspect} {e e' : Entry} (h : e.Keeps touched e')
    (hsub : touched ⊆ touched') : e.Keeps touched' e' where
  toDescends := h.toDescends
  isKeyword := h.isKeyword
  name hname := h.name fun hmem => hname (hsub hmem)
  insertion hins := h.insertion fun hmem => hins (hsub hmem)
  sortText hkey := h.sortText fun hmem => hkey (hsub hmem)
  action haction := h.action fun hmem => haction (hsub hmem)

theorem keeps_mapKey (e : Entry) (f : String → String)
    (h : SortKey.Derived e.sortText (f e.sortText)) : e.Keeps [.key] (e.mapKey f) :=
  ⟨⟨⟨rfl, rfl, rfl, rfl, rfl, id⟩, h⟩, Iff.rfl, fun _ => rfl, fun _ => rfl,
    fun hkey => absurd (List.mem_singleton.mpr rfl) hkey, fun _ => rfl⟩

theorem keeps_refine (e : Entry) (rank : UInt16) :
    e.Keeps [.key] (e.mapKey (SortKey.refine · rank)) :=
  keeps_mapKey e _ (SortKey.Derived.refl.refine rank)

theorem keeps_decorate (e : Entry) (mark : String) : e.Keeps [.name] (e.decorate mark) :=
  ⟨⟨⟨rfl, rfl, rfl, rfl, rfl, id⟩, .refl⟩, Iff.rfl,
    fun hname => absurd (List.mem_singleton.mpr rfl) hname, fun _ => rfl, fun _ => rfl,
    fun _ => rfl⟩

theorem keeps_withSnippet (e : Entry) (snippet : String) :
    e.Keeps [.insertion] (e.withSnippet snippet) :=
  ⟨⟨⟨rfl, rfl, rfl, rfl, rfl, id⟩, .refl⟩, Iff.rfl, fun _ => rfl,
    fun hins => absurd (List.mem_singleton.mpr rfl) hins, fun _ => rfl, fun _ => rfl⟩

theorem keeps_withDetail (e : Entry) (detail : String) : e.Keeps touched (e.withDetail detail) :=
  ⟨⟨⟨rfl, rfl, rfl, rfl, rfl, id⟩, .refl⟩, Iff.rfl, fun _ => rfl, fun _ => rfl, fun _ => rfl,
    fun _ => rfl⟩

theorem keeps_withDescription (e : Entry) (description : String) :
    e.Keeps touched (e.withDescription description) :=
  ⟨⟨⟨rfl, rfl, rfl, rfl, rfl, id⟩, .refl⟩, Iff.rfl, fun _ => rfl, fun _ => rfl, fun _ => rfl,
    fun _ => rfl⟩

end Entry

namespace Traced

variable {α : Type}

theorem value_filter (test : α → Traced Bool) (items : List α) :
    (filter test items).value = items.filter fun a => (test a).value := by
  simp only [filter, value_bind, value_pure, value_each]
  induction items with
  | nil => rfl
  | cons a items ih =>
    rw [List.map_cons, List.filter_cons, List.filter_cons]
    cases (test a).value with
    | false => exact ih
    | true => exact congrArg (a :: ·) ih

end Traced

/-! ### Results of stages -/

def Outcome.aside : Outcome → DeferredMap
  | .unchanged => ∅
  | .changed _ deferred => deferred

/-- The entries of an outcome all descend from given ones and differ in the touched aspects only. -/
structure Outcome.From (touched : List Aspect) (entries : List Entry) (o : Outcome) : Prop where
  keeps : ∀ e' ∈ o.entriesOr entries, ∃ e ∈ entries, e.Keeps touched e'
  aside : .aside ∉ touched → o.aside = ∅

namespace Outcome.From

variable {touched : List Aspect} {entries : List Entry}

theorem unchanged : Outcome.unchanged.From touched entries :=
  ⟨fun e he => ⟨e, he, .refl e⟩, fun _ => rfl⟩

theorem entriesIf {b : Bool} {new : List Entry}
    (h : ∀ e' ∈ new, ∃ e ∈ entries, e.Keeps touched e') :
    (Outcome.entriesIf b new).From touched entries := by
  cases b with
  | false => exact unchanged
  | true => exact ⟨h, fun _ => rfl⟩

theorem kept {new : List Entry} (h : new.Sublist entries) :
    (Outcome.kept entries new).From touched entries :=
  entriesIf fun e he => ⟨e, h.subset he, .refl e⟩

theorem map {f : Entry → Entry} (h : ∀ e : Entry, e.Keeps touched (f e)) :
    ∀ e' ∈ entries.map f, ∃ e ∈ entries, e.Keeps touched e' := by
  intro e' he'
  obtain ⟨e, he, rfl⟩ := List.mem_map.mp he'
  exact ⟨e, he, h e⟩

end Outcome.From

/-- What a stage makes of a list, unless it gives up, descends from the list. -/
def Descending (touched : List Aspect) (entries : List Entry)
    (t : Traced (Except StageError Outcome)) : Prop :=
  ∀ o, t.value = .ok o → o.From touched entries

namespace Descending

variable {α : Type} {touched : List Aspect} {entries : List Entry}

theorem pure_ok {o : Outcome} (h : o.From touched entries) :
    Descending touched entries (pure (.ok o)) := by
  intro o' ho
  cases ho
  exact h

theorem pure_error (e : StageError) : Descending touched entries (pure (.error e)) := by
  intro o ho
  cases ho

theorem skip : Descending touched entries StageRun.skip := pure_ok .unchanged

theorem bind {x : Traced α} {f : α → Traced (Except StageError Outcome)}
    (h : Descending touched entries (f x.value)) : Descending touched entries (x >>= f) := h

theorem retain (test : Entry → Traced Bool) :
    Descending touched entries (StageRun.retain test entries) := by
  refine bind (pure_ok (.kept ?_))
  rw [Traced.value_filter]
  exact List.filter_sublist

theorem replace {edit : Entry → Traced (Option (List Entry))}
    (h : ∀ e new, (edit e).value = some new → ∀ e' ∈ new, e.Keeps touched e') :
    Descending touched entries (StageRun.replace edit entries) := by
  refine bind (pure_ok (.entriesIf fun e' he' => ?_))
  obtain ⟨⟨e, new⟩, hmem, he'⟩ := List.mem_flatMap.mp he'
  rw [Traced.value_each] at hmem
  obtain ⟨e, he, heq⟩ := List.mem_map.mp hmem
  cases heq
  refine ⟨e, he, ?_⟩
  change e' ∈ (edit e).value.getD [e] at he'
  cases hedit : (edit e).value with
  | none =>
    rw [hedit, Option.getD_none, List.mem_singleton] at he'
    rw [he']
    exact .refl e
  | some new =>
    rw [hedit] at he'
    exact h e new hedit e' he'

theorem update {edit : Entry → Traced (Option Entry)}
    (h : ∀ e e', (edit e).value = some e' → e.Keeps touched e') :
    Descending touched entries (StageRun.update edit entries) := by
  refine replace fun e new hnew e' he' => ?_
  rw [Traced.value_bind, Traced.value_pure, Option.map_eq_some_iff] at hnew
  obtain ⟨e'', hedit, rfl⟩ := hnew
  rw [List.mem_singleton.mp he']
  exact h e e'' hedit

end Descending

theorem Entry.keeps_arrange {touched : List Aspect} (place : UneditedPlace) (e edited : Entry)
    (h : e.Keeps touched edited) : ∀ e' ∈ place.arrange e edited, e.Keeps touched e' := by
  intro e' he'
  cases place with
  | above =>
    rcases List.mem_cons.mp he' with rfl | he'
    · exact .refl e'
    · rw [List.mem_singleton.mp he']
      exact h
  | below =>
    rcases List.mem_cons.mp he' with rfl | he'
    · exact h
    · rw [List.mem_singleton.mp he']
      exact .refl e
  | nowhere =>
    rw [List.mem_singleton.mp he']
    exact h

/-! ### The stages -/

namespace Stage

variable (r : Request) (entries : List Entry)

theorem descending_ignoreAutoImports : Descending [] entries (ignoreAutoImports r entries) :=
  .retain _

theorem descending_caseSensitive : Descending [] entries (caseSensitive r entries) := by
  unfold caseSensitive
  split
  · exact .skip
  · exact .retain _

theorem descending_strictStart : Descending [] entries (strictStart r entries) := by
  unfold strictStart
  split
  · exact .skip
  · exact .retain _

theorem value_elementsAmong_cons (known : ComponentCache) (e : Entry) (es : List Entry) :
    (elementsAmong r known (e :: es)).value =
      if (canBeElement r known e).value.1
      then e :: (elementsAmong r (canBeElement r known e).value.2 es).value
      else (elementsAmong r (canBeElement r known e).value.2 es).value := rfl

theorem elementsAmong_sublist (known : ComponentCache) :
    (elementsAmong r known entries).value.Sublist entries := by
  induction entries generalizing known with
  | nil => exact List.Sublist.refl _
  | cons e es ih =>
    rw [value_elementsAmong_cons]
    split
    · exact (ih _).cons_cons e
    · exact (ih _).cons e

theorem descending_elements : Descending [] entries (elements r entries) := by
  unfold elements
  split
  · exact .bind (.pure_ok (.kept (elementsAmong_sublist r entries r.components)))
  · exact .skip

theorem descending_globalLibrary :
    Descending [.name, .aside] entries (globalLibrary r entries) := by
  unfold globalLibrary
  split
  · exact .skip
  · exact .retain _
  · refine .bind ?_
    dsimp only
    split
    · exact .skip
    · refine .pure_ok ⟨fun e' he' => ?_, fun haside => absurd (by decide) haside⟩
      change e' ∈ List.map _ (Traced.each _ entries).value at he'
      rw [Traced.value_each, List.map_map] at he'
      refine Outcome.From.map (fun e => ?_) e' he'
      simp only [Function.comp_apply, Traced.value_bind, Traced.value_pure]
      split
      · exact (Entry.keeps_decorate e libraryMark).mono (List.subset_append_left _ [Aspect.aside])
      · exact .refl e

theorem descending_excludeCovered : Descending [] entries (excludeCovered r entries) := by
  unfold excludeCovered
  split
  · exact .skip
  · dsimp only
    split
    · exact .skip
    · split
      · exact .pure_error _
      · refine .bind ?_
        split
        · exact .skip
        · split
          · exact .skip
          · refine .bind ?_
            split
            · exact .skip
            · exact .retain _

theorem descending_removeUselessFunctionProps :
    Descending [] entries (removeUselessFunctionProps r entries) := by
  unfold removeUselessFunctionProps
  split
  · exact .skip
  · refine .bind ?_
    split
    · exact .retain _
    · exact .skip

theorem descending_functionKind : Descending [] entries (functionKind r entries) := by
  refine .update fun e e' he' => ?_
  split at he'
  · cases he'
  · rename_i hconvertible
    rw [Traced.value_bind] at he'
    split at he'
    · cases he'
      have hold : e.kind ≠ .keyword := by
        intro hkind
        rw [hkind] at hconvertible
        exact hconvertible rfl
      have hnew : (if e.kind == .property || r.isMember then EntryKind.method else .function) ≠
          .keyword := by
        split <;> decide
      exact ⟨⟨⟨rfl, rfl, rfl, rfl, rfl, id⟩, .refl⟩,
        ⟨fun h => absurd h hnew, fun h => absurd h hold⟩, fun _ => rfl, fun _ => rfl, fun _ => rfl,
        fun _ => rfl⟩
    · cases he'

theorem descending_highlightOwnMembers :
    Descending [.name] entries (highlightOwnMembers r entries) := by
  unfold highlightOwnMembers
  split
  · exact .pure_ok ⟨Outcome.From.map fun e => Entry.keeps_decorate e _, fun _ => rfl⟩
  · exact .skip

theorem descending_boostKeywords : Descending [.key] entries (boostKeywords r entries) := by
  unfold boostKeywords
  dsimp only
  split
  · exact .skip
  · refine .update fun e e' he' => ?_
    rw [Traced.value_pure] at he'
    split at he'
    · cases he'
      exact Entry.keeps_mapKey e _ SortKey.Derived.refl.boost
    · cases he'

theorem descending_boostByType : Descending [.key] entries (boostByType r entries) := by
  unfold boostByType
  refine .bind ?_
  split
  · exact .skip
  · exact .skip
  · exact .skip
  · refine .bind (.pure_ok (.entriesIf ?_))
    rw [Traced.value_each, List.map_map]
    exact Outcome.From.map fun e => Entry.keeps_refine e _

theorem descending_boostByLocality : Descending [.key] entries (boostByLocality r entries) := by
  unfold boostByLocality
  refine .bind ?_
  split
  · exact .skip
  · refine .pure_ok ⟨fun e' he' => ?_, fun _ => rfl⟩
    change e' ∈ List.map _ (Traced.each _ entries).value at he'
    rw [Traced.value_each, List.map_map] at he'
    exact Outcome.From.map (fun e => Entry.keeps_refine e _) e' he'

theorem descending_sortProperties : Descending [.key] entries (sortProperties r entries) := by
  unfold sortProperties
  split
  · exact .skip
  · refine .bind ?_
    split
    · exact .skip
    · split
      · exact .skip
      · exact .pure_ok ⟨Outcome.From.map fun e => Entry.keeps_refine e _, fun _ => rfl⟩

theorem descending_showImportModule : Descending [] entries (showImportModule r entries) := by
  refine .update fun e e' he' => ?_
  rw [Traced.value_pure] at he'
  split at he'
  · cases he'
    exact Entry.keeps_withDescription e _
  · cases he'
    exact ⟨⟨⟨rfl, rfl, rfl, rfl, rfl, id⟩, .refl⟩, Iff.rfl, fun _ => rfl, fun _ => rfl,
      fun _ => rfl, fun _ => rfl⟩
  · cases he'

theorem descending_arrayCallbacks : Descending [.insertion] entries (arrayCallbacks r entries) := by
  unfold arrayCallbacks
  split
  · exact .skip
  · split
    · exact .skip
    · refine .bind ?_
      split
      · refine .update fun e e' he' => ?_
        rw [Traced.value_pure] at he'
        split at he'
        · cases he'
        · cases he'
          exact Entry.keeps_withSnippet e _
      · exact .skip

theorem descending_calls : Descending [.insertion] entries (calls r entries) := by
  unfold calls
  split
  · exact .skip
  · refine .update fun e e' he' => ?_
    split at he'
    · cases he'
    · rw [Traced.value_bind, Traced.value_pure, Option.map_eq_some_iff] at he'
      obtain ⟨s, _, rfl⟩ := he'
      exact Entry.keeps_withSnippet e _

theorem descending_objectLiterals : Descending [.insertion] entries (objectLiterals r entries) := by
  unfold objectLiterals
  split
  · exact .skip
  · refine .replace fun e new hnew e' he' => ?_
    split at hnew
    · rw [Traced.value_bind, Traced.value_pure, Option.map_eq_some_iff] at hnew
      obtain ⟨s, _, rfl⟩ := hnew
      refine Entry.keeps_arrange _ e _ ?_ e' he'
      exact (Entry.keeps_withSnippet e _).trans (Entry.keeps_withDetail _ _)
    · cases hnew

theorem ScopedRule.keeps_of_apply (s : ScopedRule) (e : Entry) (new : List Entry)
    (h : s.apply e = some new) : ∀ e' ∈ new, e.Keeps [.insertion] e' := by
  unfold ScopedRule.apply at h
  split at h
  · cases h
  · cases h
    intro e' he'
    cases he'
  · cases h
    exact Entry.keeps_arrange _ e _ (Entry.keeps_withSnippet e _)

theorem descending_attributes : Descending [.insertion] entries (attributes r entries) := by
  unfold attributes
  split
  · exact .skip
  · split
    · exact .pure_error _
    · split
      · exact .pure_error _
      · refine .replace fun e new hnew => ?_
        rw [Traced.value_pure, Option.bind_eq_some_iff] at hnew
        obtain ⟨s, _, happly⟩ := hnew
        exact s.keeps_of_apply e new happly

theorem descending_spaceKeywords : Descending [.insertion] entries (spaceKeywords r entries) := by
  unfold spaceKeywords
  split
  · exact .skip
  · refine .update fun e e' he' => ?_
    rw [Traced.value_pure] at he'
    split at he'
    · cases he'
      exact ⟨⟨⟨rfl, rfl, rfl, rfl, rfl, id⟩, .refl⟩, Iff.rfl, fun _ => rfl,
        fun hins => absurd (List.mem_singleton.mpr rfl) hins, fun _ => rfl, fun _ => rfl⟩
    · cases he'

theorem keeps_of_qualify (e : Entry) (q : Entry × Option Deferred)
    (h : qualify r e = some q) : e.Keeps [.insertion, .action] q.1 := by
  unfold qualify at h
  obtain ⟨source, _, h⟩ := Option.bind_eq_some_iff.mp h
  obtain ⟨target, _, h⟩ := Option.bind_eq_some_iff.mp h
  cases h
  exact ⟨⟨⟨rfl, rfl, rfl, rfl, rfl, nofun⟩, .refl⟩, Iff.rfl, fun _ => rfl,
    fun hins => absurd (by decide) hins, fun _ => rfl, fun haction => absurd (by decide) haction⟩

def qualified (e : Entry) : Entry := ((qualify r e).map (·.1)).getD e

theorem keeps_qualified (e : Entry) : e.Keeps [.insertion, .action] (qualified r e) := by
  unfold qualified
  cases hq : qualify r e with
  | none => exact .refl e
  | some q => exact keeps_of_qualify r e q hq

def keptImports : List (String × Deferred) :=
  entries.filterMap fun e => ((qualify r e).bind (·.2)).map (e.name, ·)

theorem run_namespaceImports :
    (namespaceImports r entries).trace = [] ∧
      ∃ o, (namespaceImports r entries).value = .ok o ∧
        o.entriesOr entries = entries.map (qualified r) ∧
        o.aside = DeferredMap.ofList (keptImports r entries) := by
  unfold namespaceImports
  dsimp only
  split
  · refine ⟨rfl, _, rfl, ?_, congrArg DeferredMap.ofList ?_⟩
    · show List.map _ (List.map _ entries) = _
      rw [List.map_map]
      rfl
    · rw [List.filterMap_map, keptImports]
      refine congrArg (List.filterMap · entries) (funext fun e => ?_)
      rw [Function.comp_apply]
      cases hq : qualify r e with
      | none => rfl
      | some q =>
        rw [Option.bind_some, Option.bind_some, (keeps_of_qualify r e q hq).name (by decide)]
  · rename_i hany
    have hnone (e : Entry) (he : e ∈ entries) : qualify r e = none := by
      cases hq : qualify r e with
      | none => rfl
      | some q =>
        refine absurd (List.any_eq_true.mpr ⟨_, List.mem_map.mpr ⟨e, he, rfl⟩, ?_⟩) hany
        rw [hq]
        rfl
    refine ⟨rfl, _, rfl, ?_, ?_⟩
    · have hkept (e : Entry) (he : e ∈ entries) : qualified r e = e := by
        rw [qualified, hnone e he, Option.map_none, Option.getD_none]
      rw [List.map_congr_left hkept]
      exact (List.map_id entries).symm
    · have hempty : keptImports r entries = [] :=
        List.filterMap_eq_nil_iff.mpr fun e he => by rw [hnone e he]; rfl
      rw [hempty]
      rfl

theorem namespaceImports_cases (o : Outcome) (h : (namespaceImports r entries).value = .ok o) :
    o.entriesOr entries = entries.map (qualified r) ∧
      o.aside = DeferredMap.ofList (keptImports r entries) := by
  obtain ⟨_, o', ho', hspec⟩ := run_namespaceImports r entries
  rw [h] at ho'
  cases ho'
  exact hspec

theorem descending_namespaceImports :
    Descending [.insertion, .action, .aside] entries (namespaceImports r entries) := by
  intro o ho
  refine ⟨fun e' he' => ?_, fun haside => absurd (by decide) haside⟩
  rw [(namespaceImports_cases r entries o ho).1] at he'
  exact Outcome.From.map (fun e => (keeps_qualified r e).mono
    (List.subset_append_left _ [Aspect.aside])) e' he'

theorem descending_normalizeOrder : Descending [] entries (normalizeOrder r entries) :=
  .pure_ok (.entriesIf fun e he => ⟨e, List.mem_mergeSort.mp he, .refl e⟩)

def Suggests (e : Entry) : Prop :=
  ∃ name initializer t, namedVariable? r = some (name, initializer) ∧
    r.checker.typeOfNode initializer = some t ∧ e = destructuringEntry (t.properties.map (·.name))

theorem Suggests.unique {r : Request} {e e' : Entry} (h : Suggests r e) (h' : Suggests r e') :
    e = e' := by
  obtain ⟨name, initializer, t, hvariable, htype, rfl⟩ := h
  obtain ⟨name', initializer', t', hvariable', htype', rfl⟩ := h'
  rw [hvariable] at hvariable'
  cases hvariable'
  rw [htype] at htype'
  cases htype'
  rfl

/-- The only entries that a stage adds. -/
theorem destructuring_cases (o : Outcome) (h : (destructuring r entries).value = .ok o) :
    o = .unchanged ∨ ∃ e kept, Suggests r e ∧
      o = .changed (e :: entries) (DeferredMap.ofList [(e.name, { replacementSpan := kept })]) := by
  unfold destructuring at h
  split at h
  · cases h
    exact Or.inl rfl
  · rename_i name initializer hvariable
    rw [Traced.value_bind] at h
    split at h
    · cases h
      exact Or.inl rfl
    · rename_i t htype
      split at h
      · cases h
        exact Or.inl rfl
      · dsimp only at h
        split at h
        · cases h
          exact Or.inl rfl
        · cases h
          exact Or.inr ⟨_, _, ⟨name, initializer, t, hvariable, htype, rfl⟩, rfl⟩

def touchedBy : String → List Aspect
  | "global_lib" => [.name, .aside]
  | "highlight_non_function_methods" => [.name]
  | "keyword_boost" | "contextual_type_boost" | "locality_bonus" | "fix_properties_sorting" =>
    [.key]
  | "array_method_snippets" | "method_snippets" | "object_literal_completions" | "jsx_attributes"
  | "keyword_space" => [.insertion]
  | "destructuring_suggestion" => [.aside]
  | "namespace_import" => [.insertion, .action, .aside]
  | _ => []

theorem descending_or_suggests (stage : Stage) (hmem : stage ∈ table) (o : Outcome)
    (h : (stage.run r entries).value = .ok o) :
    o.From (touchedBy stage.name) entries ∨
      stage.name = "destructuring_suggestion" ∧ stage.fromEmpty = true ∧
        ∃ e kept, Suggests r e ∧ o =
          .changed (e :: entries) (DeferredMap.ofList [(e.name, { replacementSpan := kept })]) := by
  simp only [table, List.mem_cons, List.not_mem_nil, or_false] at hmem
  rcases hmem with rfl | rfl | rfl | rfl | rfl | rfl | rfl | rfl | rfl | rfl | rfl | rfl | rfl |
    rfl | rfl | rfl | rfl | rfl | rfl | rfl | rfl | rfl
  · exact Or.inl (descending_ignoreAutoImports r entries o h)
  · exact Or.inl (descending_caseSensitive r entries o h)
  · exact Or.inl (descending_strictStart r entries o h)
  · exact Or.inl (descending_elements r entries o h)
  · exact Or.inl (descending_globalLibrary r entries o h)
  · exact Or.inl (descending_excludeCovered r entries o h)
  · exact Or.inl (descending_removeUselessFunctionProps r entries o h)
  · exact Or.inl (descending_functionKind r entries o h)
  · exact Or.inl (descending_highlightOwnMembers r entries o h)
  · exact Or.inl (descending_boostKeywords r entries o h)
  · exact Or.inl (descending_boostByType r entries o h)
  · exact Or.inl (descending_boostByLocality r entries o h)
  · exact Or.inl (descending_sortProperties r entries o h)
  · exact Or.inl (descending_showImportModule r entries o h)
  · exact Or.inl (descending_arrayCallbacks r entries o h)
  · exact Or.inl (descending_calls r entries o h)
  · exact Or.inl (descending_objectLiterals r entries o h)
  · exact Or.inl (descending_attributes r entries o h)
  · rcases destructuring_cases r entries o h with rfl | hadded
    · exact Or.inl .unchanged
    · exact Or.inr ⟨rfl, rfl, hadded⟩
  · exact Or.inl (descending_spaceKeywords r entries o h)
  · exact Or.inl (descending_namespaceImports r entries o h)
  · exact Or.inl (descending_normalizeOrder r entries o h)

/-- Each entry after a stage descends from one before it or is the suggestion. -/
theorem keeps_or_added (stage : Stage) (hmem : stage ∈ table) (o : Outcome)
    (h : (stage.run r entries).value = .ok o) (e' : Entry) (he' : e' ∈ o.entriesOr entries) :
    (∃ e ∈ entries, e.Keeps (touchedBy stage.name) e') ∨
      stage.name = "destructuring_suggestion" ∧ stage.fromEmpty = true ∧ Suggests r e' := by
  rcases descending_or_suggests r entries stage hmem o h with
    hfrom | ⟨hname, hempty, e, kept, hsuggests, rfl⟩
  · exact Or.inl (hfrom.keeps e' he')
  · rcases List.mem_cons.mp he' with rfl | hold
    · exact Or.inr ⟨hname, hempty, hsuggests⟩
    · exact Or.inl ⟨e', hold, .refl e'⟩

end Stage

end CodeCompletion
