import CodeCompletion.Proofs.Stage.Labels
import CodeCompletion.Proofs.Stage.Position
import CodeCompletion.Session

namespace CodeCompletion.Stage

open StageRun

/-! ### What entries are compared with -/

/-- The tests of the other clauses of the block in which a clause is edited. -/
def siblingTests (r : Request) : List Nat :=
  match r.enclosing? .caseClause with
  | none => []
  | some clause =>
    match (r.tree.parent? clause).filter (r.tree.isKind .caseBlock) with
    | none => []
    | some block => otherTests r.tree block clause

/-- Whether another clause of the block tests a member of an enum. -/
def TestsMember (r : Request) (enumName member : String) : Prop :=
  ∃ test ∈ siblingTests r, r.checker.typeOfNode test = some (.enumMember enumName member)

instance (r : Request) (enumName member : String) : Decidable (TestsMember r enumName member) :=
  inferInstanceAs (Decidable (∃ test ∈ siblingTests r, _))

/-- The tests that entries are compared with: those of the other clauses, provided that the test of
a clause is being written and is compared with literals. -/
def comparedTests (r : Request) : List Nat :=
  match r.enclosing? .caseClause with
  | none => []
  | some clause =>
    match caseParts r.tree clause with
    | .error _ => []
    | .ok (_, discriminant) =>
      if inTest r clause && (r.checker.typeOfNode discriminant).any isLiteralDomain then
        siblingTests r
      else []

def withoutCovered (r : Request) (entries : List Entry) : List Entry :=
  left (excludeCovered r entries) entries

variable (r : Request) (entries : List Entry)

theorem siblingTests_of_caseParts (clause block discriminant : Nat)
    (hclause : r.enclosing? .caseClause = some clause)
    (hparts : caseParts r.tree clause = .ok (block, discriminant)) :
    siblingTests r = otherTests r.tree block clause := by
  unfold caseParts at hparts
  rw [siblingTests, hclause]
  dsimp only
  cases hblock : (r.tree.parent? clause).filter (r.tree.isKind .caseBlock) with
  | none =>
    rw [hblock] at hparts
    cases hparts
  | some b =>
    rw [hblock] at hparts
    dsimp only at hparts
    split at hparts
    · cases hparts
    · cases hparts
      rfl

theorem value_typeOfNode (node : Nat) : (r.typeOfNode node).value = r.checker.typeOfNode node := rfl

theorem left_bind {α : Type} (t : Traced α) (f : α → Traced (Except StageError Outcome)) :
    left (t >>= f) entries = left (f t.value) entries := rfl

theorem withoutCovered_eq_filter :
    withoutCovered r entries = entries.filter fun e =>
      !((comparedTests r).filterMap fun test => (caseValue? r test).value).any (standsFor e) := by
  have hnothing : entries = entries.filter fun e => !([] : List CaseValue).any (standsFor e) :=
    (List.filter_eq_self.mpr fun _ _ => rfl).symm
  unfold withoutCovered excludeCovered comparedTests
  cases hclause : r.enclosing? .caseClause with
  | none => exact hnothing
  | some clause =>
    have htest : ((r.tree.firstChild? clause).all fun test =>
        (r.tree.span? test).any (·.touches r.position)) = inTest r clause := rfl
    dsimp only
    rw [htest]
    cases hparts : caseParts r.tree clause with
    | error e => cases inTest r clause <;> exact hnothing
    | ok parts =>
      obtain ⟨block, discriminant⟩ := parts
      cases inTest r clause with
      | false => exact hnothing
      | true =>
        dsimp only
        rw [Bool.not_true, if_neg Bool.false_ne_true, left_bind, value_typeOfNode, Bool.true_and,
          siblingTests_of_caseParts r clause block discriminant hclause hparts]
        cases r.checker.typeOfNode discriminant with
        | none => exact hnothing
        | some t =>
          rw [Option.any_some]
          dsimp only
          cases isLiteralDomain t with
          | false => exact hnothing
          | true =>
            rw [Bool.not_true, if_neg Bool.false_ne_true, if_pos rfl, left_bind,
              ← values_coveredValues]
            split
            · rename_i hempty
              rw [List.isEmpty_iff.mp hempty]
              exact hnothing
            · rw [left_retain]
              rfl

/-- Whether an entry is written like the value of a test: like a member with its enum in front or,
if it is a member itself, without; or like the text of a string. -/
def IsWrittenLike (r : Request) (e : Entry) (test : Nat) : Prop :=
  (∃ enumName member, r.checker.typeOfNode test = some (.enumMember enumName member) ∧
    (e.insertion = enumName ++ "." ++ member ∨ e.kind = .enumMember ∧ e.insertion = member)) ∨
  ∃ text, (caseValue? r test).value = some (.text text) ∧ e.kind = .string ∧
    unquote e.insertion = text

theorem caseValue?_eq_enumMember_iff (test : Nat) (enumName member : String) :
    (caseValue? r test).value = some (.enumMember enumName member) ↔
      r.checker.typeOfNode test = some (.enumMember enumName member) := by
  rw [caseValue?, Traced.value_bind, value_typeOfNode]
  split
  · rename_i hliteral
    simp [hliteral]
  · rename_i hmember
    simp [hmember]
  · rename_i hother
    refine iff_of_false ?_ (hother enumName member)
    split <;> simp

theorem isWrittenLike_iff (e : Entry) (test : Nat) :
    IsWrittenLike r e test ↔
      ∃ value, (caseValue? r test).value = some value ∧ standsFor e value = true := by
  constructor
  · rintro (⟨enumName, member, htype, hwritten⟩ | ⟨text, htext, hkind, hwritten⟩)
    · refine ⟨_, (caseValue?_eq_enumMember_iff r test enumName member).mpr htype, ?_⟩
      simp [standsFor, hwritten.symm]
    · exact ⟨.text text, htext, by simp [standsFor, hkind, hwritten]⟩
  · rintro ⟨value, hvalue, hstands⟩
    cases value with
    | text text =>
      refine Or.inr ⟨text, hvalue, ?_⟩
      simpa [standsFor] using hstands
    | enumMember enumName member =>
      refine Or.inl ⟨enumName, member, (caseValue?_eq_enumMember_iff r test _ _).mp hvalue, ?_⟩
      simpa [standsFor, or_comm] using hstands

/-- An entry is hidden exactly if it is written like the value of a test. -/
theorem not_mem_withoutCovered_iff (e : Entry) (he : e ∈ entries) :
    e ∉ withoutCovered r entries ↔ ∃ test ∈ comparedTests r, IsWrittenLike r e test := by
  rw [withoutCovered_eq_filter, List.mem_filter, and_iff_right he, Bool.not_eq_true',
    Bool.not_eq_false, List.any_eq_true]
  simp only [List.mem_filterMap, isWrittenLike_iff]
  constructor
  · rintro ⟨value, ⟨test, htest, hvalue⟩, hstands⟩
    exact ⟨test, htest, value, hvalue, hstands⟩
  · rintro ⟨test, htest, value, hvalue, hstands⟩
    exact ⟨value, ⟨test, htest, hvalue⟩, hstands⟩

/-- Entries are hidden and keep their order otherwise. That the member is tested of every enum
member which is hidden, holds exactly if no untested one is written like the value of a test, such
as the member of the same name of another enum. -/
theorem hides_only_tested_members_iff :
    (withoutCovered r entries).Sublist entries ∧
      ((∀ e ∈ entries, e ∉ withoutCovered r entries → ∀ enumName member,
          (r.entryType e).value = some (.enumMember enumName member) →
            TestsMember r enumName member) ↔
        ∀ e ∈ entries, ∀ enumName member,
          (r.entryType e).value = some (.enumMember enumName member) →
            ¬ TestsMember r enumName member →
              ∀ test ∈ comparedTests r, ¬ IsWrittenLike r e test) := by
  refine ⟨?_, ?_, ?_⟩
  · rw [withoutCovered_eq_filter]
    exact List.filter_sublist
  · intro hsound e he enumName member htype huntested test htest hwritten
    exact huntested (hsound e he
      ((not_mem_withoutCovered_iff r entries e he).mpr ⟨test, htest, hwritten⟩) enumName member htype)
  · intro hapart e he hhidden enumName member htype
    obtain ⟨test, htest, hwritten⟩ := (not_mem_withoutCovered_iff r entries e he).mp hhidden
    refine Decidable.byContradiction fun huntested => ?_
    exact hapart e he enumName member htype huntested test htest hwritten

/-! ### Two enums with a member of one name -/

/-- The second clause of `switch (x)` is being written; the first one tests `Color.Red`. -/
def colorRequest : Request :=
  let tree : SyntaxTree := { nodes := #[
    { kind := .sourceFile, span := ⟨0, 50⟩, parent := none, children := [1] },
    { kind := .switchStatement, span := ⟨0, 50⟩, parent := some 0, children := [2, 3] },
    { kind := .identifier, span := ⟨8, 9⟩, parent := some 1, children := [] },
    { kind := .caseBlock, span := ⟨11, 50⟩, parent := some 1, children := [4, 6] },
    { kind := .caseClause, span := ⟨13, 35⟩, parent := some 3, children := [5] },
    { kind := .propertyAccessExpression, span := ⟨18, 27⟩, parent := some 4, children := [] },
    { kind := .caseClause, span := ⟨36, 48⟩, parent := some 3, children := [7] },
    { kind := .propertyAccessExpression, span := ⟨41, 48⟩, parent := some 6, children := [] }] }
  let program : Program := {
    symbols := #[{ name := "Red", kind := .enumMember }, { name := "Green", kind := .enumMember },
      { name := "Red", kind := .enumMember }]
    symbolTypes := [(0, .enumMember "Color" "Red"), (1, .enumMember "Color" "Green"),
      (2, .enumMember "Signal" "Red")]
    nodeTypes := [(2, .union [.enumMember "Color" "Red", .enumMember "Color" "Green",
      .enumMember "Signal" "Red"]), (5, .enumMember "Color" "Red")] }
  let request : HostRequest := {
    document := .ofFile "/p/src/index.ts" "switch (x) \x7b case Color.Red: break; case Signal. \x7d" tree
    offset := 48
    checker := program.checker }
  Session.stageRequest {} request { entries := [], isMemberCompletion := true }

def memberEntry (name : String) (symbol : Nat) : Entry :=
  { name, kind := .enumMember, sortText := "11", symbol := some symbol }

/-- Of the members of `Color` the tested one is hidden. -/
theorem tested_color_is_hidden :
    withoutCovered colorRequest [memberEntry "Red" 0, memberEntry "Green" 1] =
        [memberEntry "Green" 1] ∧
      TestsMember colorRequest "Color" "Red" := by
  have hleft : withoutCovered colorRequest [memberEntry "Red" 0, memberEntry "Green" 1] =
      [memberEntry "Green" 1] := by decide +kernel
  have hhidden : memberEntry "Red" 0 ∉
      withoutCovered colorRequest [memberEntry "Red" 0, memberEntry "Green" 1] := by decide +kernel
  refine ⟨hleft, (hides_only_tested_members_iff colorRequest _).2.mpr ?_ (memberEntry "Red" 0)
    (List.mem_cons_self ..) hhidden "Color" "Red" rfl⟩
  intro e he enumName member htype huntested test htest hwritten
  have hcompared : comparedTests colorRequest = [5] := by decide +kernel
  have hred : (caseValue? colorRequest 5).value = some (.enumMember "Color" "Red") := by
    decide +kernel
  rw [hcompared, List.mem_singleton] at htest
  rcases List.mem_cons.mp he with rfl | hgreen
  · cases htype
    exact huntested (by decide +kernel)
  · cases List.mem_singleton.mp hgreen
    obtain ⟨value, hvalue, hstands⟩ := (isWrittenLike_iff colorRequest _ test).mp hwritten
    cases hvalue.symm.trans (htest ▸ hred)
    exact absurd hstands (by decide +kernel)

/-- The member `Signal.Red` is hidden, though `Color.Red` is what is tested. -/
theorem namesake_of_tested_member_is_hidden :
    (colorRequest.entryType (memberEntry "Red" 2)).value = some (.enumMember "Signal" "Red") ∧
      withoutCovered colorRequest [memberEntry "Red" 2] = [] ∧
      ¬ TestsMember colorRequest "Signal" "Red" := by
  decide +kernel

end CodeCompletion.Stage
