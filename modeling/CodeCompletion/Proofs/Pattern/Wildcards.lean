import CodeCompletion.Rule.Codec
import CodeCompletion.Stage.Markup
import CodeCompletion.Stage.Visibility
import Mathlib.Data.List.Basic

namespace CodeCompletion

/-! ### Patterns -/

theorem Text.count_eq_of_cutFirst? (c : Char) (s : List Char) :
    s.count c = match cutFirst? (· == c) s with
      | none => 0
      | some (_, rest) => rest.count c + 1 := by
  induction s with
  | nil => rfl
  | cons d s ih =>
    rw [cutFirst?]
    by_cases hd : d = c
    · simp [hd]
    · have hsep : (d == c) = false := beq_false_of_ne hd
      rw [List.count_cons_of_ne hd, ih, hsep]
      cases cutFirst? (· == c) s <;> rfl

def NamePattern.isReadable (text : String) : Bool := text.toList.count '*' ≤ 1

theorem NamePattern.isOk_compile (text : String) : (compile text).isOk = isReadable text := by
  unfold compile isReadable
  rw [Text.count_eq_of_cutFirst?]
  cases Text.cutFirst? (· == '*') text.toList with
  | none => rfl
  | some cut =>
    obtain ⟨head, tail⟩ := cut
    dsimp only
    split
    · rename_i hmore
      have hcount : 0 < tail.count '*' := List.count_pos_iff.mpr (List.contains_iff_mem.mp hmore)
      simp [Except.isOk, Except.toBool]
      omega
    · rename_i hmore
      have hcount : tail.count '*' = 0 :=
        List.count_eq_zero.mpr fun h => hmore (List.contains_iff_mem.mpr h)
      simp [hcount, Except.isOk, Except.toBool]

theorem isOk_mapM {ε α β : Type} (f : α → Except ε β) (xs : List α) :
    (xs.mapM f).isOk = xs.all fun x => (f x).isOk := by
  induction xs with
  | nil => rfl
  | cons x xs ih =>
    rw [List.mapM_cons, List.all_cons, ← ih]
    cases f x with
    | error e => rfl
    | ok y => cases xs.mapM f <;> rfl

theorem toOption_of_not_isOk {ε α : Type} {x : Except ε α} (h : x.isOk = false) :
    x.toOption = none := by
  cases x with
  | error e => rfl
  | ok a => cases h

theorem filterMap_toOption_skip {ε α β : Type} (read : α → Except ε β) (front : List α) (a : α)
    (back : List α) (h : (read a).isOk = false) :
    (front ++ a :: back).filterMap (fun x => (read x).toOption) =
      (front ++ back).filterMap fun x => (read x).toOption := by
  have hskip : (a :: back).filterMap (fun x => (read x).toOption) =
      back.filterMap fun x => (read x).toOption :=
    List.filterMap_cons_none (toOption_of_not_isOk h)
  rw [List.filterMap_append, List.filterMap_append, hskip]

/-! ### Ignored imports -/

namespace Stage

/-- The patterns in an item: that of the module and those of the names. -/
def IgnoredImport.patternTexts (item : String) : List String :=
  let (source, names) := (Text.cutFirst? (· == '#') item.toList).getD (item.toList, [])
  let names := ((Text.pieces (· == ',') names).map Text.trim).filter (!·.isEmpty)
  String.ofList (Text.trim source) :: names.map String.ofList

theorem IgnoredImport.isOk_parse (item : String) :
    (parse item).isOk = (patternTexts item).all NamePattern.isReadable := by
  unfold parse patternTexts
  obtain ⟨source, names⟩ := (Text.cutFirst? (· == '#') item.toList).getD (item.toList, [])
  dsimp only
  generalize ((Text.pieces (· == ',') names).map Text.trim).filter (!·.isEmpty) = names
  have hnames := isOk_mapM (fun n => NamePattern.compile (String.ofList n)) names
  rw [List.all_cons, List.all_map, ← NamePattern.isOk_compile, Bool.and_comm]
  simp only [Function.comp_def, ← NamePattern.isOk_compile]
  rw [← hnames]
  cases names.mapM fun n => NamePattern.compile (String.ofList n) with
  | error e => rfl
  | ok read => cases NamePattern.compile (String.ofList (Text.trim source)) <;> rfl

theorem readIgnoredImports_eq (items : List String) :
    (readIgnoredImports items).1 =
      items.filterMap fun item => (IgnoredImport.parse item).toOption := by
  induction items with
  | nil => rfl
  | cons item items ih =>
    rw [readIgnoredImports, List.filterMap_cons, ← ih]
    dsimp only
    cases IgnoredImport.parse item <;> rfl

/-! ### Attribute keys -/

def ScopedRule.patternTexts (key : String) : List String :=
  let (tag, attr) := (Text.cutFirst? (· == '#') key.toList).getD (['*'], key.toList)
  [String.ofList tag, String.ofList attr]

theorem ScopedRule.isOk_parse (key : String) (rule : AttributeRule) :
    (parse key rule).isOk = (patternTexts key).all NamePattern.isReadable := by
  unfold parse patternTexts
  obtain ⟨tag, attr⟩ := (Text.cutFirst? (· == '#') key.toList).getD (['*'], key.toList)
  simp only [List.all_cons, List.all_nil, Bool.and_true, ← NamePattern.isOk_compile]
  cases NamePattern.compile (String.ofList tag) with
  | error e => rfl
  | ok tag => cases NamePattern.compile (String.ofList attr) <;> rfl

theorem isOk_scopedRules (rules : List (String × AttributeRule)) :
    (scopedRules rules).isOk =
      rules.all fun rule => (ScopedRule.patternTexts rule.1).all NamePattern.isReadable := by
  have hread :=
    isOk_mapM (fun rule : String × AttributeRule => ScopedRule.parse rule.1 rule.2) rules
  simp only [ScopedRule.isOk_parse] at hread
  rw [← hread, scopedRules]
  cases rules.mapM fun rule : String × AttributeRule => ScopedRule.parse rule.1 rule.2 <;> rfl

end Stage

/-! ### Rules -/

namespace Rule

theorem toOption_parse (index index' : Nat) (j : Json) :
    (parse index j).toOption = (parse index' j).toOption := by
  unfold parse
  cases RuleText.decode j with
  | none => rfl
  | some t =>
    unfold RuleText.action
    dsimp only
    generalize t.actions = actions
    rcases actions with _ | ⟨⟨name, action⟩, _ | ⟨second, rest⟩⟩
    · rfl
    · cases NamePattern.compile t.suggestion with
      | error e => rfl
      | ok pattern =>
        generalize t.fileNamePattern.map Glob.parse = glob
        rcases glob with _ | (e | glob) <;> rfl
    · rfl

theorem parseAll_eq (index : Nat) (js : List Json) :
    (parseAll index js).1 = js.filterMap fun j => (parse 0 j).toOption := by
  induction js generalizing index with
  | nil => rfl
  | cons j js ih =>
    rw [parseAll, List.filterMap_cons, ← ih (index + 1), toOption_parse 0 index]
    dsimp only
    cases parse index j <;> rfl

theorem isOk_parse_of_unreadable (index : Nat) (j : Json)
    (h : ∀ t, RuleText.decode j = some t → NamePattern.isReadable t.suggestion = false) :
    (parse index j).isOk = false := by
  unfold parse
  cases hdecode : RuleText.decode j with
  | none => rfl
  | some t =>
    have hpattern := h t hdecode
    rw [← NamePattern.isOk_compile] at hpattern
    dsimp only
    cases t.action index with
    | error e => rfl
    | ok action =>
      cases hcompile : NamePattern.compile t.suggestion with
      | ok pattern => simp [hcompile, Except.isOk, Except.toBool] at hpattern
      | error e => rfl

end Rule

end CodeCompletion
