import CodeCompletion.Proofs.Enrichment.Alike
import CodeCompletion.Proofs.Stage.Position
import CodeCompletion.Proofs.Stage.Ranks

/-!
# Runs that tell two offsets apart

Where a boundary is the edge of something that a stage looks for, one entry, one setting and a
program with a few types are enough to see whether a request stands at the boundary or behind it.
-/

namespace CodeCompletion

/-- Settings under which stages only boost keywords and sort. -/
def Settings.bare : Settings where
  enableMethodSnippets := false
  objectLiteralCompletions := { enable := false }
  correctSorting := false
  highlightNonFunctionMethods := false
  switchExcludeCoveredCases := false
  keywordsInsertText := .nothing
  displayImportedInfo := .hidden

/-- Settings, a program and an engine's list to look at a place with. -/
structure Probe where
  settings : Settings := .bare
  program : Program := {}
  raw : RawEntry
  isMember : Bool := false

namespace Probe

variable (probe : Probe) (r : Request)

def request : Request :=
  { r with settings := probe.settings, checker := probe.program.checker, isMember := probe.isMember }

def entry : Entry := { Entry.ofRaw probe.raw with origin := some 0 }

def answer : List Entry :=
  Stage.effects (probe.request r) (enabledStages probe.settings) [probe.entry]

/-- Neither rules nor final keys change the answer. -/
structure IsPlain : Prop where
  rules : probe.settings.replaceSuggestions = []
  sorting : probe.settings.correctSorting = false

end Probe

/-! ### Effects on one entry -/

namespace Stage

variable (r : Request) (entries : List Entry)

theorem entriesOr_effect_boostKeywords :
    (StageRun.effect boostKeywords r entries).entriesOr entries =
      entries.map fun e => if boosts r e then e.mapKey SortKey.boost else e := by
  have hok : ∃ o, (boostKeywords r entries).value = .ok o := by
    unfold boostKeywords
    dsimp only
    split
    · exact ⟨_, rfl⟩
    · exact ⟨_, rfl⟩
  obtain ⟨o, hvalue⟩ := hok
  rw [StageRun.effect, hvalue]
  exact entriesOr_boostKeywords r entries o hvalue

theorem entriesOr_effect_normalizeOrder :
    (StageRun.effect normalizeOrder r entries).entriesOr entries = Entry.sortByKey entries := by
  have hvalue : (normalizeOrder r entries).value =
      .ok (.entriesIf (!Entry.isSortedByKey entries) (Entry.sortByKey entries)) := rfl
  rw [StageRun.effect, hvalue]
  cases hsorted : Entry.isSortedByKey entries with
  | true => exact (Entry.sortByKey_of_sortedByKey _ ((Entry.isSortedByKey_iff _).mp hsorted)).symm
  | false => rfl

def keywordStage : Stage :=
  { name := "keyword_boost", enabled := fun _ => true, run := boostKeywords }

theorem boosts_of_not_keyword (e : Entry) (h : e.kind ≠ .keyword) : boosts r e = false := by
  rw [boosts, beq_false_of_ne h, Bool.false_and, Bool.false_and, Bool.and_false]

theorem boostKeywords_of_not_keyword (e : Entry) (h : e.kind ≠ .keyword) :
    (StageRun.effect boostKeywords r [e]).entriesOr [e] = [e] := by
  rw [entriesOr_effect_boostKeywords, List.map_singleton, boosts_of_not_keyword r e h,
    if_neg Bool.false_ne_true]

theorem effects_sortNormalize (entries : List Entry) :
    effects r [sortNormalize] entries = Entry.sortByKey entries :=
  entriesOr_effect_normalizeOrder r entries

theorem effects_nil : effects r [keywordStage, sortNormalize] [] = [] := by
  have hsplit : effects r [keywordStage, sortNormalize] [] =
      effects r [sortNormalize] ((StageRun.effect boostKeywords r []).entriesOr []) := rfl
  rw [hsplit, entriesOr_effect_boostKeywords, effects_sortNormalize]
  exact List.mergeSort_nil

theorem effects_of_not_keyword (e : Entry) (h : e.kind ≠ .keyword) :
    effects r [keywordStage, sortNormalize] [e] = [e] := by
  have hsplit : effects r [keywordStage, sortNormalize] [e] =
      effects r [sortNormalize] ((StageRun.effect boostKeywords r [e]).entriesOr [e]) := rfl
  rw [hsplit, boostKeywords_of_not_keyword r e h, effects_sortNormalize]
  exact List.mergeSort_singleton e

end Stage

namespace Probe

open Stage StageRun

theorem lookup_map_const {β : Type} (keys : List Nat) (value : β) (key : Nat) (h : key ∈ keys) :
    (keys.map fun k => (k, value)).lookup key = some value := by
  induction keys with
  | nil => cases h
  | cons k keys ih =>
    rw [List.map_cons, List.lookup_cons]
    by_cases hk : key = k
    · rw [hk, beq_self_eq_true]
    · rw [beq_false_of_ne hk]
      exact ih ((List.mem_cons.mp h).resolve_left hk)

/-! ### The receiver of a member -/

/-- Asks whether a node is what members are taken of. -/
def ofReceiver (receiver : Nat) : Probe where
  settings := { Settings.bare with removeUselessFunctionProps := true }
  program := { nodeTypes := [(receiver, .function [] .void)] }
  raw := { name := "caller", kind := "property", sortText := "0" }
  isMember := true

theorem answer_ofReceiver (receiver : Nat) (r : Request) :
    (ofReceiver receiver).answer r =
      if r.memberReceiver? = some receiver then [] else [(ofReceiver receiver).entry] := by
  let q := (ofReceiver receiver).request r
  let e := (ofReceiver receiver).entry
  have hreceiver : q.memberReceiver? = r.memberReceiver? := rfl
  have htype (node : Nat) : (q.typeOfNode node).value.any (·.isCallable) = (node == receiver) := by
    have hlookup : (q.typeOfNode node).value = [(receiver, Ty.function [] .void)].lookup node := rfl
    rw [hlookup, List.lookup_cons]
    cases node == receiver <;> rfl
  have hlists : (listsFunctionMembers q [e]).value = (r.memberReceiver? == some receiver) := by
    unfold listsFunctionMembers
    rw [hreceiver]
    cases r.memberReceiver? with
    | none => rfl
    | some node =>
      have hlisted : ["apply", "bind", "call"].all (listsName [e]) = false := rfl
      rw [Traced.ofOption, Traced.value_bind, Traced.value_pure, htype, hlisted, Bool.or_false]
      rfl
  have hrun : (removeUselessFunctionProps q [e]).value =
      if r.memberReceiver? == some receiver then .ok (.changed [] ∅) else .ok .unchanged := by
    have hmember : (!q.isMember) = false := rfl
    unfold removeUselessFunctionProps
    rw [hmember, if_neg Bool.false_ne_true, Traced.value_bind, hlists]
    cases r.memberReceiver? == some receiver <;> rfl
  have hstages : (ofReceiver receiver).answer r = effects q [keywordStage, sortNormalize]
      ((StageRun.effect removeUselessFunctionProps q [e]).entriesOr [e]) := rfl
  rw [hstages, StageRun.effect, hrun]
  by_cases hsame : r.memberReceiver? = some receiver
  · rw [if_pos hsame, hsame, beq_self_eq_true, if_pos rfl]
    exact effects_nil q
  · rw [if_neg hsame, beq_false_of_ne hsame, if_neg Bool.false_ne_true]
    have hkind : EntryKind.ofEngineTag "property" ≠ .keyword := by decide
    exact effects_of_not_keyword q e hkind

/-! ### The callee of a `new` expression -/

def ofCalls : Probe where
  settings := { Settings.bare with enableMethodSnippets := true }
  program := { symbolTypes := [(0, .function [] .void)] }
  raw := { name := "f", kind := "function", sortText := "0", symbol := some 0 }

theorem answer_ofCalls (r : Request) (h : r.completesCalls = true) :
    ofCalls.answer r =
      [if r.afterNew then ofCalls.entry
        else ofCalls.entry.withSnippet (Snippet.call "f" ⟨[], .void⟩ {})] := by
  let q := ofCalls.request r
  let e := ofCalls.entry
  have hcompletes : q.completesCalls = true := h
  rw [Request.completesCalls, Bool.and_eq_true, Bool.not_eq_true'] at hcompletes
  have hnew : q.afterNew = r.afterNew := rfl
  have hrun : (StageRun.effect calls q [e]).entriesOr [e] =
      [if r.afterNew then e else e.withSnippet (Snippet.call "f" ⟨[], .void⟩ {})] := by
    unfold StageRun.effect calls
    rw [hcompletes.1, hcompletes.2, hnew]
    cases r.afterNew <;> rfl
  have hkind : EntryKind.ofEngineTag "function" ≠ .keyword := by decide
  have hstages : ofCalls.answer r = effects q [sortNormalize]
      ((StageRun.effect calls q ((StageRun.effect boostKeywords q [e]).entriesOr [e])).entriesOr
        ((StageRun.effect boostKeywords q [e]).entriesOr [e])) := rfl
  rw [hstages, boostKeywords_of_not_keyword q e hkind, hrun, effects_sortNormalize]
  exact List.mergeSort_singleton _

/-! ### The test of a case clause -/

/-- Asks whether a test is written, of something that is compared with the given tests. -/
def ofTests (discriminant : Nat) (tests : List Nat) : Probe where
  settings := { Settings.bare with switchExcludeCoveredCases := true }
  program := { nodeTypes := (discriminant :: tests).map fun node => (node, .stringLiteral "a") }
  raw := { name := "a", kind := "string", sortText := "0" }

theorem answer_ofTests (r : Request) (clause block discriminant : Nat)
    (hclause : r.enclosing? .caseClause = some clause)
    (hparts : caseParts r.tree clause = .ok (block, discriminant))
    (hothers : otherTests r.tree block clause ≠ []) :
    (ofTests discriminant (otherTests r.tree block clause)).answer r =
      if inTest r clause then []
      else [(ofTests discriminant (otherTests r.tree block clause)).entry] := by
  let tests := otherTests r.tree block clause
  let q := (ofTests discriminant tests).request r
  let e := (ofTests discriminant tests).entry
  have htype (node : Nat) (hnode : node ∈ discriminant :: tests) :
      (q.typeOfNode node).value = some (.stringLiteral "a") :=
    lookup_map_const _ _ _ hnode
  have hvalue (test : Nat) (htest : test ∈ tests) :
      (caseValue? q test).value = some (.text "a") := by
    rw [caseValue?, Traced.value_bind, htype test (List.mem_cons_of_mem _ htest)]
    rfl
  have hcovered : .text "a" ∈ (coveredValues q block clause).value := by
    obtain ⟨test, htest⟩ := List.exists_mem_of_ne_nil _ hothers
    rw [values_coveredValues]
    exact List.mem_filterMap.mpr ⟨test, htest, hvalue test htest⟩
  have hhidden : (retain (fun e => pure (!(coveredValues q block clause).value.any (standsFor e)))
      [e]).value = .ok (.changed [] ∅) := by
    have hsame : (EntryKind.ofEngineTag "string" == .string && unquote "a" == "a") = true := by
      decide
    have hstands : (coveredValues q block clause).value.any (standsFor e) = true :=
      List.any_eq_true.mpr ⟨.text "a", hcovered, hsame⟩
    rw [retain, Traced.value_bind, Traced.value_filter, List.filter_cons, Traced.value_pure,
      hstands]
    rfl
  have hrun : (StageRun.effect excludeCovered q [e]).entriesOr [e] =
      if inTest r clause then [] else [e] := by
    have hq : q.enclosing? .caseClause = some clause := hclause
    have hqparts : caseParts q.tree clause = .ok (block, discriminant) := hparts
    have htest : ((q.tree.firstChild? clause).all fun test =>
        (q.tree.span? test).any (·.touches q.position)) = inTest r clause := rfl
    have hdomain : isLiteralDomain (.stringLiteral "a") = true := rfl
    unfold StageRun.effect excludeCovered
    rw [hq]
    dsimp only
    rw [htest, hqparts]
    cases inTest r clause with
    | false => rfl
    | true =>
      dsimp only
      rw [Bool.not_true, if_neg Bool.false_ne_true, Traced.value_bind,
        htype discriminant (List.mem_cons_self ..)]
      dsimp only
      rw [hdomain, Bool.not_true, if_neg Bool.false_ne_true, Traced.value_bind,
        if_neg fun h => List.ne_nil_of_mem hcovered (List.isEmpty_iff.mp h), hhidden]
      rfl
  have hstages : (ofTests discriminant tests).answer r = effects q [keywordStage, sortNormalize]
      ((StageRun.effect excludeCovered q [e]).entriesOr [e]) := rfl
  have hkind : EntryKind.ofEngineTag "string" ≠ .keyword := by decide
  rw [hstages, hrun]
  split
  · exact effects_nil q
  · exact effects_of_not_keyword q e hkind

/-! ### The header of a class -/

def ofHeader : Probe where
  raw := { name := "extends", kind := "keyword", sortText := "0" }

theorem not_mem_continuations (tree : SyntaxTree) (statement : Nat) :
    "extends" ∉ continuations tree statement := by
  unfold continuations
  dsimp only
  split <;> (try split) <;> (try split) <;> decide

theorem answer_ofHeader (r : Request) :
    ofHeader.answer r =
      [if inClassHeader r then ofHeader.entry.mapKey SortKey.boost else ofHeader.entry] := by
  let q := ofHeader.request r
  let e := ofHeader.entry
  have hheader : inClassHeader q = inClassHeader r := rfl
  have hboosts : boosts q e = inClassHeader r := by
    have hexpects : boosts q e = (expectedKeywords q).contains "extends" := by
      have hkeyword : (e.kind == .keyword) = true := rfl
      have hplain : SortKey.isBoosted e.sortText = false :=
        show SortKey.isBoosted "0" = false by decide
      rw [boosts, hkeyword, hplain, Bool.true_and, Bool.not_false, Bool.and_true]
      rfl
    rw [hexpects, expectedKeywords, hheader]
    cases inClassHeader r with
    | true => rfl
    | false =>
      rw [if_neg Bool.false_ne_true, Bool.eq_false_iff, ne_eq, List.contains_iff_mem]
      cases previousStatement? q with
      | none => exact List.not_mem_nil
      | some statement => exact not_mem_continuations q.tree statement
  have hstages : ofHeader.answer r = effects q [sortNormalize]
      ((StageRun.effect boostKeywords q [e]).entriesOr [e]) := rfl
  rw [hstages, entriesOr_effect_boostKeywords, List.map_singleton, hboosts, effects_sortNormalize]
  exact List.mergeSort_singleton _

/-! ### The name of a variable -/

def ofName (initializer : Nat) : Probe where
  settings := { Settings.bare with destructuringSuggestion := true }
  program := { nodeTypes := [(initializer, .record [{ name := "a", ty := .string }])] }
  raw := { name := "x", kind := "var", sortText := "0" }

theorem length_answer_ofName (initializer : Nat) (r : Request) :
    ((ofName initializer).answer r).length =
      if (namedVariable? r).any (·.2 == initializer) then 2 else 1 := by
  let q := (ofName initializer).request r
  let e := (ofName initializer).entry
  have hnamed : namedVariable? q = namedVariable? r := rfl
  have htype (node : Nat) : (q.typeOfNode node).value =
      if node == initializer then some (.record [{ name := "a", ty := .string }]) else none := by
    have hlookup : (q.typeOfNode node).value =
        [(initializer, Ty.record [{ name := "a", ty := .string }])].lookup node := rfl
    rw [hlookup, List.lookup_cons]
    cases node == initializer <;> rfl
  have hrun : ((StageRun.effect destructuring q [e]).entriesOr [e]).length =
      if (namedVariable? r).any (·.2 == initializer) then 2 else 1 := by
    unfold StageRun.effect destructuring
    rw [hnamed]
    cases namedVariable? r with
    | none => rfl
    | some named =>
      dsimp only
      rw [Traced.value_bind, htype, Option.any_some]
      cases named.2 == initializer <;> rfl
  have hkind : EntryKind.ofEngineTag "var" ≠ .keyword := by decide
  have hstages : (ofName initializer).answer r = effects q [sortNormalize]
      ((StageRun.effect destructuring q
          ((StageRun.effect boostKeywords q [e]).entriesOr [e])).entriesOr
        ((StageRun.effect boostKeywords q [e]).entriesOr [e])) := rfl
  rw [hstages, boostKeywords_of_not_keyword q e hkind, effects_sortNormalize,
    (Entry.perm_sortByKey _).length_eq, hrun]

end Probe

end CodeCompletion
