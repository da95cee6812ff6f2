import CodeCompletion.Proofs.Text.Boundary
import CodeCompletion.Stage.Table

/-!
# Questions about the offset

What lies around the cursor is found from the offset rounded down to a boundary. Five questions
are put to the offset as it was given: before which receivers it lies, and whether it touches the
callee of a `new` expression, the test of a case clause or the name of a variable, or lies before the
body of a class. An offset off the boundaries gets other answers than the rounded one exactly if a
node that one of these questions is about begins or ends at the rounded one.
-/

namespace CodeCompletion

/-- Whether all nodes of a document begin and end at boundaries of its text. -/
def Document.OnBoundaries (document : Document) : Prop :=
  ∀ node ∈ document.tree.nodes.toList, node.span.OnBoundaries document.text

instance (document : Document) : Decidable document.OnBoundaries :=
  inferInstanceAs (Decidable (∀ node ∈ document.tree.nodes.toList, _))

theorem Document.OnBoundaries.span {document : Document} (h : document.OnBoundaries) (id : Nat)
    (span : Span) (hspan : document.tree.span? id = some span) : span.OnBoundaries document.text := by
  obtain ⟨node, hnode, rfl⟩ := Option.map_eq_some_iff.mp hspan
  exact h node (Array.mem_toList_iff.mpr (Array.mem_of_getElem? hnode))

/-! ### What the questions are about -/

namespace Stage

def otherTests (tree : SyntaxTree) (block clause : Nat) : List Nat :=
  ((tree.children block).filter fun c => c != clause && tree.isKind .caseClause c).filterMap
    tree.firstChild?

def hasOtherTests (tree : SyntaxTree) (clause : Nat) : Bool :=
  match caseParts tree clause with
  | .error _ => false
  | .ok (block, _) => !(otherTests tree block clause).isEmpty

theorem values_coveredValues (r : Request) (block clause : Nat) :
    (coveredValues r block clause).value =
      (otherTests r.tree block clause).filterMap fun test => (caseValue? r test).value := by
  unfold coveredValues
  rw [Traced.value_bind, Traced.value_each, Traced.value_pure, List.filterMap_map]
  rfl

def inTest (r : Request) (clause : Nat) : Bool :=
  (r.tree.firstChild? clause).all fun test => (r.tree.span? test).any (·.touches r.position)

end Stage

namespace Request

variable (r : Request)

/-- The request at another offset, with the same surroundings. -/
def movedTo (offset : Nat) : Request := { r with position := offset }

/-- The accesses of properties that the anchor lies in, innermost first. -/
def accesses : List Nat := r.ancestors.filter (r.tree.isKind .propertyAccessExpression)

/-- What a property is taken of, if that ends before the limit. -/
def receiverBefore? (limit access : Nat) : Option Nat :=
  (r.tree.firstChild? access).filter fun receiver =>
    (r.tree.span? receiver).any (·.stop < limit)

def endsHere (node : Nat) : Bool := (r.tree.span? node).any (·.stop == r.position)

def receiverEndsHere : Bool := (r.movedTo (r.position + 1)).memberReceiver?.any r.endsHere

def newCallee? : Option Nat := (r.enclosing? .newExpression).bind r.tree.firstChild?

def completesCalls : Bool := r.cursor.snippetPosition && !r.atPropertyName

/-- Whether calls are completed at the end of the callee of a `new` expression. -/
def calleeEndsHere : Bool := r.completesCalls && r.afterNew && r.newCallee?.any r.endsHere

/-- Whether a test is written that ends at the offset, and other clauses test something too. -/
def testEndsHere : Bool :=
  (r.enclosing? .caseClause).any fun clause =>
    Stage.hasOtherTests r.tree clause && Stage.inTest r clause &&
      (r.tree.firstChild? clause).any r.endsHere

def classBody? : Option Nat :=
  (r.enclosing? .classDeclaration).bind fun cls => r.tree.childOfKind? cls .classBody

def bodyStartsHere : Bool :=
  Stage.inClassHeader r &&
    r.classBody?.any fun body => (r.tree.span? body).any (·.start == r.position)

def nameEndsHere : Bool := (Stage.namedVariable? r).any fun named => r.endsHere named.1

/-- Whether the offset is the edge of something that a stage looks for. -/
def atEdge : Bool :=
  r.receiverEndsHere || r.calleeEndsHere || r.testEndsHere || r.bodyStartsHere || r.nameEndsHere

/-- The request stands at an offset rounded down, the offset being off the boundaries. -/
structure RoundedFrom (offset : Nat) : Prop where
  spans : r.document.OnBoundaries
  rounded : r.position = Text.floorBoundary offset r.document.text.toList
  off : offset ≠ r.position

end Request

/-! ### The answers -/

theorem and_not_of_and_eq_false {a b : Bool} (h : (a && b) = false) : (a && !b) = a := by
  cases a with
  | false => rfl
  | true => exact congrArg (!·) h

theorem findSome?_filter {α β : Type} (f : α → Option β) (keep : β → Bool) (items : List α)
    (h : (items.findSome? f).all keep = true) :
    items.findSome? (fun a => (f a).filter keep) = items.findSome? f := by
  induction items with
  | nil => rfl
  | cons a items ih =>
    rw [List.findSome?_cons] at h
    rw [List.findSome?_cons, List.findSome?_cons]
    cases hfound : f a with
    | none =>
      rw [hfound] at h
      exact ih h
    | some b =>
      rw [hfound] at h
      have hkeep : keep b = true := h
      rw [Option.filter_some, if_pos hkeep]

theorem Request.memberReceiver?_movedTo (r : Request) (offset : Nat) :
    (r.movedTo offset).memberReceiver? = r.accesses.findSome? (r.receiverBefore? offset) := by
  refine congrArg (fun f => r.accesses.findSome? f) (funext fun access => ?_)
  unfold receiverBefore?
  cases hreceiver : r.tree.firstChild? access with
  | none =>
    have hnone : (r.movedTo offset).tree.firstChild? access = none := hreceiver
    rw [hnone]
    rfl
  | some receiver =>
    have hsome : (r.movedTo offset).tree.firstChild? access = some receiver := hreceiver
    rw [hsome, Option.filter_some]
    rfl

theorem Request.memberReceiver?_eq_findSome? (r : Request) : r.memberReceiver? =
    r.accesses.findSome? fun access =>
      (r.receiverBefore? (r.position + 1) access).filter (!r.endsHere ·) := by
  have hsame : r.memberReceiver? = (r.movedTo r.position).memberReceiver? := rfl
  rw [hsame, r.memberReceiver?_movedTo]
  refine congrArg (fun f => r.accesses.findSome? f) (funext fun access => ?_)
  unfold receiverBefore?
  rw [Option.filter_filter]
  refine congrArg (fun keep => (r.tree.firstChild? access).filter keep) (funext fun node => ?_)
  unfold endsHere
  cases r.tree.span? node with
  | none => rfl
  | some span =>
    rw [Option.any_some, Option.any_some, Option.any_some, Bool.eq_iff_iff, Bool.and_eq_true,
      Bool.not_eq_true', beq_eq_false_iff_ne, decide_eq_true_eq, decide_eq_true_eq]
    omega

namespace Request.RoundedFrom

variable {r : Request} {offset : Nat} (h : r.RoundedFrom offset)

include h

theorem off_boundary : offset ≠ Text.floorBoundary offset r.document.text.toList :=
  h.rounded ▸ h.off

theorem any_stop_lt (node : Nat) : (r.tree.span? node).any (·.stop < offset) =
    (r.tree.span? node).any (·.stop < r.position + 1) := by
  cases hspan : r.tree.span? node with
  | none => rfl
  | some span =>
    have hlt := Span.stop_lt_iff (h.spans.span node span hspan) offset h.off_boundary
    rw [← h.rounded] at hlt
    exact decide_eq_decide.mpr hlt

theorem any_touches (node : Nat) : (r.tree.span? node).any (·.touches offset) =
    ((r.tree.span? node).any (·.touches r.position) && !r.endsHere node) := by
  unfold endsHere
  cases hspan : r.tree.span? node with
  | none => rfl
  | some span =>
    have htouches := Span.touches_iff (h.spans.span node span hspan) offset h.off_boundary
    rw [← h.rounded] at htouches
    rw [Option.any_some, Option.any_some, Option.any_some, Bool.eq_iff_iff, htouches,
      Bool.and_eq_true, Bool.not_eq_true', beq_eq_false_iff_ne]

theorem any_le_start (node : Nat) : (r.tree.span? node).any (offset ≤ ·.start) =
    ((r.tree.span? node).any (r.position ≤ ·.start) &&
      !(r.tree.span? node).any (·.start == r.position)) := by
  cases hspan : r.tree.span? node with
  | none => rfl
  | some span =>
    have hle := Span.le_start_iff (h.spans.span node span hspan) offset h.off_boundary
    rw [← h.rounded] at hle
    rw [Option.any_some, Option.any_some, Option.any_some, Bool.eq_iff_iff, decide_eq_true_eq, hle,
      Bool.and_eq_true, Bool.not_eq_true', beq_eq_false_iff_ne, decide_eq_true_eq]

theorem receiverBefore?_eq (access : Nat) :
    r.receiverBefore? offset access = r.receiverBefore? (r.position + 1) access :=
  congrArg (fun keep => (r.tree.firstChild? access).filter keep) (funext h.any_stop_lt)

theorem memberReceiver?_eq (hedge : r.receiverEndsHere = false) :
    (r.movedTo offset).memberReceiver? = r.memberReceiver? := by
  have hfound := r.memberReceiver?_movedTo (r.position + 1)
  rw [r.memberReceiver?_movedTo, funext h.receiverBefore?_eq, r.memberReceiver?_eq_findSome?]
  refine (findSome?_filter _ _ _ ?_).symm
  rw [receiverEndsHere, hfound] at hedge
  cases hreceiver : r.accesses.findSome? (r.receiverBefore? (r.position + 1)) with
  | none => rfl
  | some receiver =>
    rw [hreceiver] at hedge
    exact Bool.not_eq_true' _ ▸ hedge

theorem memberReceiver?_ne (hedge : r.receiverEndsHere = true) :
    ∃ receiver, (r.movedTo offset).memberReceiver? = some receiver ∧
      r.memberReceiver? ≠ some receiver := by
  have hfound := r.memberReceiver?_movedTo (r.position + 1)
  rw [receiverEndsHere, hfound, Option.any_eq_true] at hedge
  obtain ⟨receiver, hreceiver, hends⟩ := hedge
  refine ⟨receiver, ?_, fun hsame => ?_⟩
  · rw [r.memberReceiver?_movedTo, funext h.receiverBefore?_eq, hreceiver]
  · rw [r.memberReceiver?_eq_findSome?] at hsame
    obtain ⟨access, _, hkept⟩ := List.exists_of_findSome?_eq_some hsame
    have hnot := (Option.filter_eq_some_iff.mp hkept).2
    rw [hends] at hnot
    cases hnot

theorem afterNew_eq :
    (r.movedTo offset).afterNew = (r.afterNew && !r.newCallee?.any r.endsHere) := by
  have hnew (r : Request) : r.afterNew =
      r.newCallee?.any fun callee => (r.tree.span? callee).any (·.touches r.position) := rfl
  have hcallee : (r.movedTo offset).newCallee? = r.newCallee? := rfl
  rw [hnew, hnew, hcallee]
  cases r.newCallee? with
  | none => rfl
  | some callee => exact h.any_touches callee

theorem inTest_eq (clause : Nat) : Stage.inTest (r.movedTo offset) clause =
    (Stage.inTest r clause && !(r.tree.firstChild? clause).any r.endsHere) := by
  have htest : (r.movedTo offset).tree.firstChild? clause = r.tree.firstChild? clause := rfl
  rw [Stage.inTest, Stage.inTest, htest]
  cases r.tree.firstChild? clause with
  | none => rfl
  | some test => exact h.any_touches test

theorem namedVariable?_eq : Stage.namedVariable? (r.movedTo offset) =
    (Stage.namedVariable? r).filter fun named => !r.endsHere named.1 := by
  have henclosing : (r.movedTo offset).enclosing? .variableDeclaration =
      r.enclosing? .variableDeclaration := rfl
  have htree : (r.movedTo offset).tree = r.tree := rfl
  have hposition : (r.movedTo offset).position = offset := rfl
  unfold Stage.namedVariable?
  rw [henclosing, htree, hposition]
  cases r.enclosing? .variableDeclaration with
  | none => rfl
  | some declaration =>
    dsimp only [Option.bind_eq_bind, Option.bind_some]
    cases (r.tree.children declaration).head? with
    | none => rfl
    | some name =>
      cases (r.tree.children declaration).getLast? with
      | none => rfl
      | some initializer =>
        dsimp only [Option.bind_some]
        rw [h.any_touches name]
        cases hends : r.endsHere name with
        | false =>
          rw [Bool.not_false, Bool.and_true]
          split
          · rw [Option.filter_some, hends]
            rfl
          · rfl
        | true =>
          simp only [Bool.not_true, Bool.and_false, Bool.false_and]
          rw [if_neg Bool.false_ne_true]
          split
          · rw [Option.filter_some, hends]
            rfl
          · rfl

theorem inClassHeader_eq : Stage.inClassHeader (r.movedTo offset) =
    (Stage.inClassHeader r &&
      !r.classBody?.any fun body => (r.tree.span? body).any (·.start == r.position)) := by
  have henclosing : (r.movedTo offset).enclosing? .classDeclaration =
      r.enclosing? .classDeclaration := rfl
  have htree : (r.movedTo offset).tree = r.tree := rfl
  have hposition : (r.movedTo offset).position = offset := rfl
  have hcursor : (r.movedTo offset).cursor = r.cursor := rfl
  unfold Stage.inClassHeader Request.classBody?
  rw [henclosing, htree, hposition, hcursor]
  cases r.enclosing? .classDeclaration with
  | none => rfl
  | some cls =>
    dsimp only [Option.bind_some]
    rw [Bool.and_assoc]
    refine congrArg (_ && ·) ?_
    cases r.tree.childOfKind? cls .classBody with
    | none => rfl
    | some body => exact h.any_le_start body

/-! ### The same answers off the edges -/

theorem afterNew_same (hcalls : r.completesCalls = true) (hedge : r.calleeEndsHere = false) :
    (r.movedTo offset).afterNew = r.afterNew := by
  rw [calleeEndsHere, hcalls, Bool.true_and] at hedge
  rw [h.afterNew_eq, and_not_of_and_eq_false hedge]

theorem inClassHeader_same (hedge : r.bodyStartsHere = false) :
    Stage.inClassHeader (r.movedTo offset) = Stage.inClassHeader r := by
  rw [h.inClassHeader_eq, and_not_of_and_eq_false hedge]

theorem namedVariable?_same (hedge : r.nameEndsHere = false) :
    Stage.namedVariable? (r.movedTo offset) = Stage.namedVariable? r := by
  rw [nameEndsHere] at hedge
  rw [h.namedVariable?_eq]
  cases hnamed : Stage.namedVariable? r with
  | none => rfl
  | some named =>
    rw [hnamed, Option.any_some] at hedge
    rw [Option.filter_some, hedge]
    rfl

end Request.RoundedFrom

end CodeCompletion
