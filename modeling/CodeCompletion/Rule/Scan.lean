import CodeCompletion.Rule.Basic

/-!
# Applying user rules

Rules run one after another over the list. An entry that a rule has patched, moved or
duplicated is touched, and no later rule looks at it again; a rule does not look twice at an
entry either. Deferred metadata follows entries to their new names.

A rule goes through the list once. Its place is given by the entries it has passed, latest
first, and those still to come.
-/

namespace CodeCompletion

structure Marked where
  entry : Entry
  touched : Bool
  deriving Repr, DecidableEq, Inhabited

namespace Rule

def actsOn (rule : Rule) (m : Marked) : Bool := !m.touched && rule.picks m.entry

/-- The place that an entry moves to from place `index`: `offset` places on, but not beyond the
first place or the place `last`. -/
def landing (index : Nat) (offset : Int) (last : Nat) : Nat :=
  min (index + offset).toNat last

/-- The sort key at a place: of an entry passed, of the one looked at, or of one to come. -/
def keyAt (passed : List Marked) (m : Marked) (coming : List Marked) (place : Nat) : String :=
  ((passed.reverse ++ m :: coming)[place]?.getD m).entry.sortText

/-- The list after one action, with the deferred metadata: entries passed, latest first, entries
to come, and what becomes of the metadata. -/
structure Step where
  passed : List Marked
  coming : List Marked
  deferred : DeferredMap

def act (action : RuleEdit) (passed : List Marked) (m : Marked) (coming : List Marked)
    (deferred : DeferredMap) : Step :=
  match action with
  | .delete => ⟨passed, coming, deferred⟩
  | .patch p =>
    let e := p.apply m.entry
    ⟨⟨e, true⟩ :: passed, coming, deferred.carry m.entry.name e.name⟩
  | .duplicate placement p =>
    let copy := p.apply m.entry
    let kept := deferred.carry m.entry.name copy.name
    match placement with
    | .before => ⟨⟨m.entry, true⟩ :: ⟨copy, true⟩ :: passed, coming, kept⟩
    | .after => ⟨⟨copy, true⟩ :: ⟨m.entry, true⟩ :: passed, coming, kept⟩
  | .move offset =>
    let index := passed.length
    let target := landing index offset (index + coming.length)
    -- A moved entry takes the key of the place where it lands.
    let moved := ⟨{ m.entry with sortText := keyAt passed m coming target }, true⟩
    if target ≤ index then ⟨passed.insertIdx (index - target) moved, coming, deferred⟩
    else ⟨passed, coming.insertIdx (target - index) moved, deferred⟩

def untouched (entries : List Marked) : Nat := entries.countP (!·.touched)

theorem untouched_insertIdx (entries : List Marked) (n : Nat) (e : Entry) :
    untouched (entries.insertIdx n ⟨e, true⟩) = untouched entries := by
  induction entries generalizing n with
  | nil => cases n <;> simp [untouched]
  | cons m rest ih =>
    cases n with
    | zero => simp [untouched]
    | succ n =>
      have h := ih n
      simp only [untouched, List.insertIdx_succ_cons, List.countP_cons] at h ⊢
      omega

/-- An action never adds an untouched entry to those to come. -/
theorem untouched_act_le (action : RuleEdit) (passed : List Marked) (m : Marked)
    (coming : List Marked) (deferred : DeferredMap) :
    untouched (act action passed m coming deferred).coming ≤ untouched coming := by
  cases action with
  | delete => simp [act]
  | patch p => simp [act]
  | duplicate placement p => cases placement <;> simp [act]
  | move offset =>
    simp only [act]
    split
    · simp
    · simp [untouched_insertIdx]

/-- Goes through the entries to come: passes those the rule does not act on, and acts on the
others, or only on the first of them. -/
def scan (rule : Rule) (passed coming : List Marked) (deferred : DeferredMap) :
    List Marked × DeferredMap :=
  match coming with
  | [] => (passed.reverse, deferred)
  | m :: coming =>
    if rule.actsOn m then
      let step := act rule.action passed m coming deferred
      if rule.processMany then scan rule step.passed step.coming step.deferred
      else (step.passed.reverse ++ step.coming, step.deferred)
    else scan rule (m :: passed) coming deferred
termination_by (untouched coming, coming.length)
decreasing_by
  · have h := untouched_act_le rule.action passed m coming deferred
    have hm : m.touched = false := by
      simp_all [actsOn]
    apply Prod.Lex.left
    simp only [untouched, List.countP_cons, hm] at h ⊢
    simp only [Bool.not_false, if_true]
    omega
  · have h : untouched coming ≤ untouched (m :: coming) := by
      simp only [untouched, List.countP_cons]
      omega
    simp only [Prod.lex_def, List.length_cons]
    omega

def apply (rule : Rule) (entries : List Marked) (deferred : DeferredMap) :
    List Marked × DeferredMap :=
  scan rule [] entries deferred

def applyMarked (rules : List Rule) (entries : List Marked) (deferred : DeferredMap) :
    List Marked × DeferredMap :=
  rules.foldl (fun (entries, deferred) rule => rule.apply entries deferred) (entries, deferred)

/-- Applies the rules that are for the document in order; at first no entry is touched. -/
def applyAll (rules : List Rule) (document : Document) (entries : List Entry)
    (deferred : DeferredMap) : List Entry × DeferredMap :=
  let (marked, deferred) := applyMarked (rules.filter (·.appliesTo document))
    (entries.map (⟨·, false⟩)) deferred
  (marked.map (·.entry), deferred)

end Rule

end CodeCompletion
