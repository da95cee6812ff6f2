import CodeCompletion.Proofs.Deferred.Carry
import CodeCompletion.Proofs.Rule.Turns

/-!
# What rules pass on

A rule that gives a new name to an entry, or to its copy, passes on what is kept under the entry's
name. Which names get what from which is told by the list alone, so the metadata that the rules
leave is the metadata that they found, carried from name to name. Carried twice, an edit stands
twice under a name.
-/

namespace CodeCompletion

def RuleEdit.newName? : RuleEdit → Option String
  | .patch p | .duplicate _ p => p.name
  | .delete | .move _ => none

namespace Rule

/-! ### One rule -/

/-- From which name to which an action on an entry carries metadata. -/
def carriesOf (action : RuleEdit) (m : Marked) : List (String × String) :=
  action.newName?.toList.map (m.entry.name, ·)

theorem deferred_act (action : RuleEdit) (passed : List Marked) (m : Marked) (coming : List Marked)
    (deferred : DeferredMap) :
    (act action passed m coming deferred).deferred = deferred.carryAll (carriesOf action m) := by
  have hpatch (p : RulePatch) : deferred.carry m.entry.name (p.apply m.entry).name =
      deferred.carryAll (p.name.toList.map (m.entry.name, ·)) := by
    unfold RulePatch.apply
    cases p.name with
    | none => exact if_pos rfl
    | some name => rfl
  cases action with
  | delete => rfl
  | patch p => exact hpatch p
  | move offset =>
    simp only [act]
    split <;> rfl
  | duplicate placement p => cases placement <;> exact hpatch p

/-- Whatever an action makes of an entry finds what was kept under the entry's name. -/
theorem Makes.reaches {action : RuleEdit} {m : Marked} {made : List Marked}
    (h : Makes action m made) (deferred : DeferredMap) :
    ∀ n ∈ made, deferred.Reaches m.entry.name (deferred.carryAll (carriesOf action m))
      n.entry.name := by
  have hpatch (p : RulePatch) : deferred.Reaches m.entry.name
      (deferred.carryAll (p.name.toList.map (m.entry.name, ·))) (p.apply m.entry).name := by
    unfold RulePatch.apply
    cases p.name with
    | none => exact .refl deferred _
    | some name => exact deferred.reaches_carry_target m.entry.name name
  have hkept (p : RulePatch) := deferred.reaches_carryAll (p.name.toList.map (m.entry.name, ·))
    m.entry.name
  cases action with
  | delete =>
    cases h
    simp
  | patch p =>
    cases h
    exact List.forall_mem_singleton.mpr (hpatch p)
  | move offset =>
    obtain ⟨key, rfl⟩ := h
    exact List.forall_mem_singleton.mpr (.refl deferred _)
  | duplicate placement p =>
    cases placement with
    | before =>
      cases h
      exact List.forall_mem_cons.mpr ⟨hpatch p, List.forall_mem_singleton.mpr (hkept p)⟩
    | after =>
      cases h
      exact List.forall_mem_cons.mpr ⟨hkept p, List.forall_mem_singleton.mpr (hpatch p)⟩

theorem act_congr (action : RuleEdit) (passed : List Marked) (m : Marked) (coming : List Marked)
    (deferred deferred' : DeferredMap) :
    (act action passed m coming deferred).passed = (act action passed m coming deferred').passed ∧
      (act action passed m coming deferred).coming =
        (act action passed m coming deferred').coming := by
  cases action with
  | delete => exact ⟨rfl, rfl⟩
  | patch p => exact ⟨rfl, rfl⟩
  | move offset =>
    simp only [act]
    split <;> exact ⟨rfl, rfl⟩
  | duplicate placement p => cases placement <;> exact ⟨rfl, rfl⟩

/-- What rules make of the list does not depend on the metadata. -/
theorem scan_congr (rule : Rule) (passed coming : List Marked) (deferred deferred' : DeferredMap) :
    (scan rule passed coming deferred).1 = (scan rule passed coming deferred').1 := by
  fun_induction scan rule passed coming deferred generalizing deferred' with
  | case1 passed deferred => rw [scan]
  | case2 passed deferred m coming hacts step hmany ih =>
    obtain ⟨hpassed, hcoming⟩ := act_congr rule.action passed m coming deferred deferred'
    rw [scan, if_pos hacts]
    dsimp only
    rw [if_pos hmany, ← hpassed, ← hcoming]
    exact ih _
  | case3 passed deferred m coming hacts step hmany =>
    obtain ⟨hpassed, hcoming⟩ := act_congr rule.action passed m coming deferred deferred'
    rw [scan, if_pos hacts]
    dsimp only
    rw [if_neg hmany, ← hpassed, ← hcoming]
  | case4 passed deferred m coming hacts ih =>
    rw [scan, if_neg hacts]
    exact ih deferred'

/-- From which names to which a rule carries metadata. -/
def carries (rule : Rule) (l : List Marked) : List (String × String) :=
  (rule.targets l).flatMap (carriesOf rule.action)

theorem ActsInTurn.deferred_eq {rule : Rule} {l : List Marked} {deferred : DeferredMap}
    {ms l' : List Marked} {deferred' : DeferredMap}
    (h : rule.ActsInTurn l deferred ms l' deferred') :
    deferred' = deferred.carryAll (ms.flatMap (carriesOf rule.action)) := by
  induction h with
  | done l deferred => rfl
  | act front m back deferred ms l' deferred' first picked rest ih =>
    rw [deferred_act] at ih
    rw [List.flatMap_cons, DeferredMap.carryAll, List.foldl_append]
    exact ih

theorem deferred_apply (rule : Rule) (l : List Marked) (deferred : DeferredMap) :
    (rule.apply l deferred).2 = deferred.carryAll (rule.carries l) :=
  (actsInTurn_apply rule l deferred).deferred_eq

/-! ### All rules -/

def allCarries : List Rule → List Marked → List (String × String)
  | [], _ => []
  | rule :: rules, l => rule.carries l ++ allCarries rules (rule.apply l ∅).1

theorem deferred_applyMarked (rules : List Rule) (l : List Marked) (deferred : DeferredMap) :
    (applyMarked rules l deferred).2 = deferred.carryAll (allCarries rules l) := by
  induction rules generalizing l deferred with
  | nil => rfl
  | cons rule rules ih =>
    have hstep : applyMarked (rule :: rules) l deferred =
        applyMarked rules (rule.apply l deferred).1 (rule.apply l deferred).2 := rfl
    have hlist : (rule.apply l deferred).1 = (rule.apply l ∅).1 := scan_congr ..
    rw [hstep, ih, hlist, deferred_apply, allCarries, DeferredMap.carryAll, DeferredMap.carryAll,
      ← List.foldl_append]
    rfl

def carriesIn (rules : List Rule) (document : Document) (entries : List Entry) :
    List (String × String) :=
  allCarries (rules.filter (·.appliesTo document)) (entries.map (⟨·, false⟩))

theorem deferred_applyAll (rules : List Rule) (document : Document) (entries : List Entry)
    (deferred : DeferredMap) :
    (applyAll rules document entries deferred).2 =
      deferred.carryAll (carriesIn rules document entries) :=
  deferred_applyMarked ..

/-- Where no edit stands twice under a name before the rules, none does afterwards exactly if no two
of the names whose metadata has come under one name, its own included, hold the same edit, and none
that holds edits has come there twice. -/
theorem no_edit_applies_twice_iff (rules : List Rule) (document : Document) (entries : List Entry)
    (deferred : DeferredMap) (h : deferred.NoEditTwice) :
    (applyAll rules document entries deferred).2.NoEditTwice ↔
      ∀ name, (DeferredMap.sourcesOf (carriesIn rules document entries) name).Pairwise
        fun a b => (deferred.editsAt a).Disjoint (deferred.editsAt b) := by
  rw [deferred_applyAll]
  exact deferred.noEditTwice_carryAll_iff _ h

/-! ### Entries of one name -/

def namesakes : List Entry :=
  List.replicate 2
    { name := "join", kind := .function, sortText := "16", source := some "node:path" }

def importEdit : TextEdit := .insertAt 0 "import * as path from \"node:path\";\n"

def joinImport : DeferredMap :=
  DeferredMap.ofList [("join", { additionalEdits := [importEdit] })]

/-- A rule that renames one or both of them. -/
def joinRule (processMany : Bool) : Rule where
  pattern := .exact "join"
  action := .patch { name := some "path.join" }
  processMany := processMany

theorem getElem?_joinImport (name : String) :
    joinImport[name]? =
      if "join" = name then some { additionalEdits := [importEdit] } else none := by
  simp [joinImport, DeferredMap.ofList, Std.TreeMap.getElem?_insert]

theorem editsAt_joinImport (name : String) :
    joinImport.editsAt name = if name = "join" then [importEdit] else [] := by
  rw [DeferredMap.editsAt, getElem?_joinImport]
  by_cases hname : name = "join"
  · simp [hname]
  · simp [hname, Ne.symm hname]

theorem noEditTwice_joinImport : joinImport.NoEditTwice := by
  rw [DeferredMap.noEditTwice_iff]
  intro name
  rw [editsAt_joinImport]
  split <;> simp

theorem carriesIn_joinRule (processMany : Bool) (document : Document) :
    carriesIn [joinRule processMany] document namesakes =
      List.replicate (if processMany then 2 else 1) ("join", "path.join") := by
  cases processMany <;> rfl

theorem one_renamed_namesake_imports_once :
    joinImport.NoEditTwice ∧
      (applyAll [joinRule false] (.ofFile "/p/src/index.ts" "" .empty) namesakes
        joinImport).2.NoEditTwice := by
  refine ⟨noEditTwice_joinImport, (no_edit_applies_twice_iff [joinRule false] _ namesakes joinImport
    noEditTwice_joinImport).mpr fun name => ?_⟩
  rw [carriesIn_joinRule]
  by_cases hname : name = "path.join"
  · subst hname
    have hsources : DeferredMap.sourcesOf [("join", "path.join")] "path.join" =
        ["path.join", "join"] := by decide
    simp [hsources, editsAt_joinImport]
  · simp [DeferredMap.sourcesOf, DeferredMap.joinSources, hname]

/-- When both are renamed, the edit is carried to the new name twice. -/
theorem renamed_namesakes_import_twice :
    joinImport.NoEditTwice ∧
      ¬ (applyAll [joinRule true] (.ofFile "/p/src/index.ts" "" .empty) namesakes
        joinImport).2.NoEditTwice := by
  refine ⟨noEditTwice_joinImport, fun h => ?_⟩
  have hnodup := (DeferredMap.noEditTwice_iff _).mp h "path.join"
  have hsources : DeferredMap.sourcesOf [("join", "path.join"), ("join", "path.join")] "path.join" =
      ["path.join", "join", "join"] := by decide
  rw [deferred_applyAll, carriesIn_joinRule, DeferredMap.editsAt_carryAll] at hnodup
  simp [List.replicate, hsources, editsAt_joinImport] at hnodup

end Rule

end CodeCompletion
