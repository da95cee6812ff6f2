import CodeCompletion.Proofs.Stage.Descent

namespace CodeCompletion

/-! ### Nothing to remember -/

def Traced.Forgets {α : Type} (t : Traced α) : Prop :=
  ∀ key verdict, .remember key verdict ∉ t.trace

namespace Traced

variable {α β : Type}

theorem forgets_pure (a : α) : (pure a : Traced α).Forgets := fun _ _ h => nomatch h

theorem forgets_ask (a : α) (q : Query) : (⟨a, [.ask q]⟩ : Traced α).Forgets := by
  intro key verdict h
  cases List.mem_singleton.mp h

theorem forgets_report (events : List Event) : (report events).Forgets := by
  intro key verdict h
  obtain ⟨e, _, he⟩ := List.mem_map.mp h
  cases he

theorem forgets_bind {x : Traced α} {f : α → Traced β} (hx : x.Forgets)
    (hf : (f x.value).Forgets) : (x >>= f).Forgets := by
  intro key verdict h
  rcases List.mem_append.mp h with h | h
  · exact hx key verdict h
  · exact hf key verdict h

theorem forgets_each {f : α → Traced β} (items : List α) (hf : ∀ a, (f a).Forgets) :
    (each f items).Forgets := by
  intro key verdict h
  obtain ⟨t, ht, h⟩ := List.mem_flatMap.mp h
  obtain ⟨a, _, rfl⟩ := List.mem_map.mp ht
  exact hf a key verdict h

theorem forgets_filter {test : α → Traced Bool} (items : List α) (h : ∀ a, (test a).Forgets) :
    (filter test items).Forgets :=
  forgets_bind (forgets_each items fun a => forgets_bind (h a) (forgets_pure _)) (forgets_pure _)

theorem forgets_ofOption {f : α → Traced (Option β)} (hf : ∀ a, (f a).Forgets) (o : Option α) :
    (ofOption f o).Forgets := by
  cases o with
  | none => exact forgets_pure none
  | some a => exact hf a

theorem forgets_firstSome {f : α → Traced (Option β)} (hf : ∀ a, (f a).Forgets)
    (items : List α) : (firstSome f items).Forgets := by
  induction items with
  | nil => exact forgets_pure none
  | cons a items ih =>
    refine forgets_bind (hf a) ?_
    split
    · exact forgets_pure _
    · exact ih

end Traced

open Traced

def Request.recalling (r : Request) (known : ComponentCache) : Request :=
  { r with components := known }

namespace Request

variable (r : Request) (e : Entry)

theorem forgets_typeOfNode (node : Nat) : (r.typeOfNode node).Forgets := forgets_ask _ _

theorem forgets_entryType : (r.entryType e).Forgets :=
  forgets_ofOption (fun _ => forgets_ask _ _) e.symbol

theorem forgets_entrySymbol : (r.entrySymbol e).Forgets :=
  forgets_ofOption (fun _ => forgets_ask _ _) e.symbol

theorem forgets_declarationFile : (r.declarationFile e).Forgets :=
  forgets_bind (r.forgets_entrySymbol e) (forgets_pure _)

end Request

namespace StageRun

variable (entries : List Entry)

theorem forgets_skip : skip.Forgets := forgets_pure _

theorem forgets_retain {test : Entry → Traced Bool} (h : ∀ e, (test e).Forgets) :
    (retain test entries).Forgets :=
  forgets_bind (forgets_filter entries h) (forgets_pure _)

theorem forgets_replace {edit : Entry → Traced (Option (List Entry))}
    (h : ∀ e, (edit e).Forgets) : (replace edit entries).Forgets :=
  forgets_bind (forgets_each entries fun e => forgets_bind (h e) (forgets_pure _)) (forgets_pure _)

theorem forgets_update {edit : Entry → Traced (Option Entry)} (h : ∀ e, (edit e).Forgets) :
    (update edit entries).Forgets :=
  forgets_replace entries fun e => forgets_bind (h e) (forgets_pure _)

end StageRun

namespace Stage

open StageRun

variable (r : Request) (entries : List Entry)

theorem forgets_ignoreAutoImports : (ignoreAutoImports r entries).Forgets :=
  forgets_bind (forgets_report _) (forgets_retain entries fun _ => forgets_pure _)

theorem forgets_caseSensitive : (caseSensitive r entries).Forgets := by
  unfold caseSensitive
  split
  · exact forgets_skip
  · exact forgets_retain entries fun _ => forgets_pure _

theorem forgets_strictStart : (strictStart r entries).Forgets := by
  unfold strictStart
  split
  · exact forgets_skip
  · exact forgets_retain entries fun _ => forgets_pure _

theorem forgets_isLibraryName (e : Entry) : (isLibraryName r e).Forgets :=
  forgets_bind (r.forgets_entrySymbol e) (forgets_pure _)

theorem forgets_globalLibrary : (globalLibrary r entries).Forgets := by
  unfold globalLibrary
  split
  · exact forgets_skip
  · refine forgets_retain entries fun e => ?_
    exact forgets_bind (forgets_isLibraryName r e) (forgets_pure _)
  · refine forgets_bind (forgets_each entries fun e => ?_) ?_
    · exact forgets_bind (forgets_isLibraryName r e) (forgets_pure _)
    · dsimp only
      split
      · exact forgets_skip
      · exact forgets_pure _

theorem forgets_caseValue (test : Nat) : (caseValue? r test).Forgets := by
  refine forgets_bind (r.forgets_typeOfNode test) ?_
  split
  · exact forgets_pure _
  · exact forgets_pure _
  · split
    · exact forgets_pure _
    · exact forgets_pure _

theorem forgets_excludeCovered : (excludeCovered r entries).Forgets := by
  unfold excludeCovered
  split
  · exact forgets_skip
  · dsimp only
    split
    · exact forgets_skip
    · split
      · exact forgets_pure _
      · refine forgets_bind (r.forgets_typeOfNode _) ?_
        split
        · exact forgets_skip
        · split
          · exact forgets_skip
          · refine forgets_bind ?_ ?_
            · exact forgets_bind (forgets_each _ fun t => forgets_caseValue r t) (forgets_pure _)
            · split
              · exact forgets_skip
              · exact forgets_retain entries fun _ => forgets_pure _

theorem forgets_removeUselessFunctionProps : (removeUselessFunctionProps r entries).Forgets := by
  unfold removeUselessFunctionProps
  split
  · exact forgets_skip
  · refine forgets_bind ?_ ?_
    · exact forgets_bind (forgets_ofOption r.forgets_typeOfNode _) (forgets_pure _)
    · split
      · exact forgets_retain entries fun _ => forgets_pure _
      · exact forgets_skip

theorem forgets_functionKind : (functionKind r entries).Forgets := by
  refine forgets_update entries fun e => ?_
  split
  · exact forgets_pure _
  · refine forgets_bind (r.forgets_entryType e) ?_
    split
    · exact forgets_pure _
    · exact forgets_pure _

theorem forgets_highlightOwnMembers : (highlightOwnMembers r entries).Forgets := by
  unfold highlightOwnMembers
  split
  · exact forgets_pure _
  · exact forgets_skip

theorem forgets_boostKeywords : (boostKeywords r entries).Forgets := by
  unfold boostKeywords
  dsimp only
  split
  · exact forgets_skip
  · exact forgets_update entries fun _ => forgets_pure _

theorem forgets_fits (expected : Ty) (e : Entry) : (fits r expected e).Forgets := by
  unfold fits
  split
  · exact forgets_pure _
  · exact forgets_bind (r.forgets_entryType e) (forgets_pure _)

theorem forgets_boostByType : (boostByType r entries).Forgets := by
  unfold boostByType
  refine forgets_bind (forgets_firstSome (fun _ => forgets_ask _ _) _) ?_
  split
  · exact forgets_skip
  · exact forgets_skip
  · exact forgets_skip
  · refine forgets_bind (forgets_each entries fun e => ?_) (forgets_pure _)
    exact forgets_bind (forgets_fits r _ e) (forgets_pure _)

theorem forgets_locality (e : Entry) : (locality r e).Forgets := by
  refine forgets_bind (r.forgets_declarationFile e) ?_
  split
  · exact forgets_pure _
  · exact forgets_pure _

theorem forgets_boostByLocality : (boostByLocality r entries).Forgets := by
  unfold boostByLocality
  refine forgets_bind (forgets_each entries fun e => ?_) ?_
  · exact forgets_bind (forgets_locality r e) (forgets_pure _)
  · split
    · exact forgets_skip
    · exact forgets_pure _

theorem forgets_sortProperties : (sortProperties r entries).Forgets := by
  unfold sortProperties
  split
  · exact forgets_skip
  · refine forgets_bind (forgets_ofOption r.forgets_typeOfNode _) ?_
    split
    · exact forgets_skip
    · split
      · exact forgets_skip
      · exact forgets_pure _

theorem forgets_showImportModule : (showImportModule r entries).Forgets :=
  forgets_update entries fun _ => forgets_pure _

theorem forgets_arrayCallbacks : (arrayCallbacks r entries).Forgets := by
  unfold arrayCallbacks
  split
  · exact forgets_skip
  · split
    · exact forgets_skip
    · refine forgets_bind (r.forgets_typeOfNode _) ?_
      split
      · exact forgets_update entries fun _ => forgets_pure _
      · exact forgets_skip

theorem forgets_calls : (calls r entries).Forgets := by
  unfold calls
  split
  · exact forgets_skip
  · refine forgets_update entries fun e => ?_
    split
    · exact forgets_pure _
    · exact forgets_bind (r.forgets_entryType e) (forgets_pure _)

theorem forgets_objectLiterals : (objectLiterals r entries).Forgets := by
  unfold objectLiterals
  split
  · exact forgets_skip
  · refine forgets_replace entries fun e => ?_
    split
    · exact forgets_bind (r.forgets_entryType e) (forgets_pure _)
    · exact forgets_pure _

theorem forgets_attributes : (attributes r entries).Forgets := by
  unfold attributes
  split
  · exact forgets_skip
  · split
    · exact forgets_pure _
    · split
      · exact forgets_pure _
      · exact forgets_replace entries fun _ => forgets_pure _

theorem forgets_destructuring : (destructuring r entries).Forgets := by
  unfold destructuring
  split
  · exact forgets_skip
  · refine forgets_bind (r.forgets_typeOfNode _) ?_
    split
    · exact forgets_skip
    · split
      · exact forgets_skip
      · dsimp only
        split
        · exact forgets_skip
        · exact forgets_pure _

theorem forgets_spaceKeywords : (spaceKeywords r entries).Forgets := by
  unfold spaceKeywords
  split
  · exact forgets_skip
  · exact forgets_update entries fun _ => forgets_pure _

theorem forgets_namespaceImports : (namespaceImports r entries).Forgets := by
  unfold namespaceImports
  dsimp only
  split
  · exact forgets_pure _
  · exact forgets_skip

/-! ### The stage that remembers -/

def elementStage : Stage :=
  { name := "jsx_elements", enabled := (·.improveElementSuggestions), run := elements }

theorem forgets_run (stage : Stage) (h : stage ∈ table.take 3 ++ table.drop 4) :
    (stage.run r entries).Forgets := by
  simp only [table, List.take_succ_cons, List.take_zero, List.drop_succ_cons, List.drop_zero,
    List.cons_append, List.nil_append, List.mem_cons, List.not_mem_nil, or_false] at h
  rcases h with rfl | rfl | rfl | rfl | rfl | rfl | rfl | rfl | rfl | rfl | rfl | rfl | rfl |
    rfl | rfl | rfl | rfl | rfl | rfl | rfl | rfl
  · exact forgets_ignoreAutoImports r entries
  · exact forgets_caseSensitive r entries
  · exact forgets_strictStart r entries
  · exact forgets_globalLibrary r entries
  · exact forgets_excludeCovered r entries
  · exact forgets_removeUselessFunctionProps r entries
  · exact forgets_functionKind r entries
  · exact forgets_highlightOwnMembers r entries
  · exact forgets_boostKeywords r entries
  · exact forgets_boostByType r entries
  · exact forgets_boostByLocality r entries
  · exact forgets_sortProperties r entries
  · exact forgets_showImportModule r entries
  · exact forgets_arrayCallbacks r entries
  · exact forgets_calls r entries
  · exact forgets_objectLiterals r entries
  · exact forgets_attributes r entries
  · exact forgets_destructuring r entries
  · exact forgets_spaceKeywords r entries
  · exact forgets_namespaceImports r entries
  · exact forgets_pure _

theorem run_recalling (stage : Stage) (h : stage ∈ table.take 3 ++ table.drop 4)
    (known : ComponentCache) : stage.run (r.recalling known) entries = stage.run r entries := by
  simp only [table, List.take_succ_cons, List.take_zero, List.drop_succ_cons, List.drop_zero,
    List.cons_append, List.nil_append, List.mem_cons, List.not_mem_nil, or_false] at h
  rcases h with rfl | rfl | rfl | rfl | rfl | rfl | rfl | rfl | rfl | rfl | rfl | rfl | rfl |
    rfl | rfl | rfl | rfl | rfl | rfl | rfl | rfl
  all_goals rfl

theorem elements_congr (r r' : Request) (htag : atTag r = atTag r')
    (hknown : r.components = r'.components)
    (hjudged : ∀ known e, canBeElement r known e = canBeElement r' known e) (entries : List Entry) :
    elements r entries = elements r' entries := by
  have hamong (known : ComponentCache) :
      elementsAmong r known entries = elementsAmong r' known entries := by
    induction entries generalizing known with
    | nil => rfl
    | cons e es ih =>
      rw [elementsAmong, elementsAmong, hjudged]
      dsimp only
      rw [ih]
  rw [elements, elements, htag, hknown, hamong]

theorem subset_of_mem_take (stage : Stage) (h : stage ∈ table.take 3) (o : Outcome)
    (ho : (stage.run r entries).value = .ok o) : o.entriesOr entries ⊆ entries := by
  have hskip (ho : StageRun.skip.value = .ok o) : o.entriesOr entries ⊆ entries := by
    cases ho
    exact List.Subset.refl _
  have hretain (test : Entry → Traced Bool)
      (ho : (StageRun.retain test entries).value = .ok o) : o.entriesOr entries ⊆ entries := by
    have hsub : (Traced.filter test entries).value ⊆ entries := by
      rw [value_filter]
      exact List.filter_sublist.subset
    rw [StageRun.retain, value_bind] at ho
    cases ho
    unfold Outcome.kept Outcome.entriesIf
    split
    · exact hsub
    · exact List.Subset.refl _
  simp only [table, List.take_succ_cons, List.take_zero, List.mem_cons, List.not_mem_nil,
    or_false] at h
  rcases h with rfl | rfl | rfl
  · exact hretain _ ho
  · dsimp only at ho
    unfold caseSensitive at ho
    split at ho
    · exact hskip ho
    · exact hretain _ ho
  · dsimp only at ho
    unfold strictStart at ho
    split at ho
    · exact hskip ho
    · exact hretain _ ho

/-! ### Facts about components -/

def factKey (e : Entry) : ComponentKey := componentKey r e (r.declarationFile e).value

def verdict (e : Entry) : Bool := (r.entryType e).value.all isComponentType

/-- Whether an entry can be an element by its kind or else by its type. -/
def isElement (e : Entry) : Bool := (elementByKind? e).getD (verdict r e)

/-- What is known about entries is what their types say. -/
def Agrees (known : ComponentCache) (entries : List Entry) : Prop :=
  ∀ e ∈ entries, elementByKind? e = none → ∀ v, known[factKey r e]? = some v → v = verdict r e

def Coherent (entries : List Entry) : Prop :=
  ∀ a ∈ entries, ∀ b ∈ entries, elementByKind? a = none → elementByKind? b = none →
    factKey r a = factKey r b → verdict r a = verdict r b

theorem value_isComponent_of_none (known : ComponentCache) (e : Entry)
    (h : known[factKey r e]? = none) :
    (isComponent r known e).value = (verdict r e, known.insert (factKey r e) (verdict r e)) ∧
    (isComponent r known e).trace = (r.declarationFile e).trace ++ (r.entryType e).trace ++
      [.remember (factKey r e) (verdict r e)] := by
  unfold isComponent
  dsimp only
  split
  · rename_i v hv
    rw [factKey, hv] at h
    cases h
  · exact ⟨rfl, rfl⟩

theorem isComponent_of_some (known : ComponentCache) (e : Entry) (v : Bool)
    (h : known[factKey r e]? = some v) :
    isComponent r known e = ⟨(v, known), (r.declarationFile e).trace⟩ := by
  unfold isComponent
  dsimp only
  split
  · rename_i v' hv
    rw [factKey, hv] at h
    cases h
    rfl
  · rename_i hv
    rw [factKey, hv] at h
    cases h

theorem value_canBeElement_of_unsure (known : ComponentCache) (e : Entry)
    (h : elementByKind? e = none) :
    (canBeElement r known e).value.1 = known[factKey r e]?.getD (verdict r e) := by
  rw [canBeElement, h]
  cases hknown : known[factKey r e]? with
  | some v =>
    rw [isComponent_of_some r known e v hknown]
    rfl
  | none =>
    rw [(value_isComponent_of_none r known e hknown).1]
    rfl

theorem known_canBeElement (known : ComponentCache) (e : Entry) (key : ComponentKey) (v : Bool)
    (h : (canBeElement r known e).value.2[key]? = some v) :
    known[key]? = some v ∨ elementByKind? e = none ∧ key = factKey r e ∧ v = verdict r e := by
  unfold canBeElement at h
  split at h
  · exact Or.inl h
  · rename_i hkind
    cases hknown : known[factKey r e]? with
    | some v' =>
      rw [isComponent_of_some r known e v' hknown] at h
      exact Or.inl h
    | none =>
      rw [(value_isComponent_of_none r known e hknown).1, Std.HashMap.getElem?_insert] at h
      split at h
      · rename_i hkey
        cases h
        exact Or.inr ⟨hkind, (eq_of_beq hkey).symm, rfl⟩
      · exact Or.inl h

theorem value_canBeElement (known : ComponentCache) (e : Entry)
    (h : elementByKind? e = none → ∀ v, known[factKey r e]? = some v → v = verdict r e) :
    (canBeElement r known e).value.1 = isElement r e := by
  rw [isElement]
  cases hkind : elementByKind? e with
  | some v =>
    rw [canBeElement, hkind]
    rfl
  | none =>
    rw [value_canBeElement_of_unsure r known e hkind, Option.getD_none]
    cases hknown : known[factKey r e]? with
    | some v => exact h hkind v hknown
    | none => rfl

/-- Facts that agree with the types do not show in the list. -/
theorem value_elementsAmong_of_agrees (known : ComponentCache) (hknown : Agrees r known entries)
    (hcoherent : Coherent r entries) :
    (elementsAmong r known entries).value = entries.filter (isElement r) := by
  induction entries generalizing known with
  | nil => rfl
  | cons e es ih =>
    -- What is new is the fact about `e`, and no entry to come contradicts it.
    have hagrees : Agrees r (canBeElement r known e).value.2 es := by
      intro e' he' hkind' v hv
      rcases known_canBeElement r known e _ v hv with hold | ⟨hkind, hkey, hverdict⟩
      · exact hknown e' (List.mem_cons_of_mem _ he') hkind' v hold
      · rw [hverdict]
        exact hcoherent e (List.mem_cons_self ..) e' (List.mem_cons_of_mem _ he') hkind hkind'
          hkey.symm
    have hrest : Coherent r es := fun a ha b hb =>
      hcoherent a (List.mem_cons_of_mem _ ha) b (List.mem_cons_of_mem _ hb)
    rw [value_elementsAmong_cons, ih _ hagrees hrest,
      value_canBeElement r known e (hknown e (List.mem_cons_self ..)), List.filter_cons]

theorem value_elements_of_agrees (hknown : atTag r = true → Agrees r r.components entries)
    (hcoherent : atTag r = true → Coherent r entries) :
    (elements r entries).value =
      .ok (if atTag r then .kept entries (entries.filter (isElement r)) else .unchanged) := by
  unfold elements
  split
  · rename_i htag
    rw [value_bind, value_elementsAmong_of_agrees r entries r.components (hknown htag)
      (hcoherent htag)]
    rfl
  · rfl

theorem remember_mem_elementsAmong (known : ComponentCache) (key : ComponentKey) (v : Bool)
    (h : .remember key v ∈ (elementsAmong r known entries).trace) :
    ∃ e ∈ entries, elementByKind? e = none ∧ factKey r e = key ∧ verdict r e = v := by
  induction entries generalizing known with
  | nil => cases h
  | cons e es ih =>
    rcases List.mem_append.mp h with h | h
    · split at h
      · exact absurd h (forgets_pure _ key v)
      · rename_i hkind
        have hfile := r.forgets_declarationFile e key v
        have htype := r.forgets_entryType e key v
        cases hknown : known[factKey r e]? with
        | some v' =>
          rw [isComponent_of_some r known e v' hknown] at h
          exact absurd h hfile
        | none =>
          rw [(value_isComponent_of_none r known e hknown).2] at h
          simp only [List.mem_append, List.mem_singleton, hfile, htype, false_or] at h
          cases h
          exact ⟨e, List.mem_cons_self .., hkind, rfl, rfl⟩
    · obtain ⟨e', he', hfact⟩ := ih _ h
      exact ⟨e', List.mem_cons_of_mem _ he', hfact⟩

theorem remember_mem_elements (key : ComponentKey) (v : Bool)
    (h : .remember key v ∈ (elements r entries).trace) :
    atTag r = true ∧ .remember key v ∈ (elementsAmong r r.components entries).trace := by
  unfold elements at h
  split at h
  · rename_i htag
    rw [trace_bind, trace_pure, List.append_nil] at h
    exact ⟨htag, h⟩
  · exact absurd h (forgets_skip key v)

end Stage

end CodeCompletion
