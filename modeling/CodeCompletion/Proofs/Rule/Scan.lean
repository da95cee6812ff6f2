import CodeCompletion.Rule.Scan

namespace CodeCompletion.Rule

/-! ### Insertion at a place -/

section Insertion

variable {α : Type}

theorem insertIdx_append_left (front back : List α) (place : Nat) (a : α)
    (h : place ≤ front.length) :
    (front ++ back).insertIdx place a = front.insertIdx place a ++ back := by
  induction front generalizing place with
  | nil =>
    have hzero : place = 0 := Nat.le_zero.mp h
    rw [hzero]
    rfl
  | cons b front ih =>
    cases place with
    | zero => rfl
    | succ place =>
      rw [List.cons_append, List.insertIdx_succ_cons, List.insertIdx_succ_cons,
        ih place (Nat.le_of_succ_le_succ h), List.cons_append]

theorem insertIdx_append_right (front back : List α) (place : Nat) (a : α) :
    (front ++ back).insertIdx (front.length + place) a = front ++ back.insertIdx place a := by
  induction front with
  | nil => rw [List.length_nil, Nat.zero_add, List.nil_append, List.nil_append]
  | cons b front ih =>
    rw [List.length_cons, Nat.add_right_comm, List.cons_append, List.insertIdx_succ_cons, ih,
      List.cons_append]

theorem reverse_insertIdx (l : List α) (place : Nat) (a : α) (h : place ≤ l.length) :
    (l.insertIdx (l.length - place) a).reverse = l.reverse.insertIdx place a := by
  induction l with
  | nil =>
    have hzero : place = 0 := Nat.le_zero.mp h
    rw [hzero]
    rfl
  | cons b l ih =>
    rw [List.reverse_cons]
    by_cases hlast : place = l.length + 1
    · have hlen : place = (l.reverse ++ [b]).length := by simp [hlast]
      have hsub : (b :: l).length - place = 0 := by rw [hlast]; exact Nat.sub_self _
      rw [hsub, List.insertIdx_zero, hlen, List.insertIdx_length_self, List.reverse_cons,
        List.reverse_cons]
    · have hle : place ≤ l.length := by
        rw [List.length_cons] at h
        omega
      have hsub : (b :: l).length - place = (l.length - place) + 1 := by
        rw [List.length_cons]
        omega
      rw [hsub, List.insertIdx_succ_cons, List.reverse_cons, ih hle,
        insertIdx_append_left _ _ _ _ (by rw [List.length_reverse]; exact hle)]

end Insertion

/-! ### One action -/

def Step.list (s : Step) : List Marked := s.passed.reverse ++ s.coming

section Actions

variable (passed : List Marked) (m : Marked) (coming : List Marked) (deferred : DeferredMap)

theorem list_act_delete :
    (act .delete passed m coming deferred).list = passed.reverse ++ coming := rfl

theorem list_act_patch (p : RulePatch) :
    (act (.patch p) passed m coming deferred).list =
      passed.reverse ++ ⟨p.apply m.entry, true⟩ :: coming := by
  rw [act, Step.list, List.reverse_cons, List.append_assoc]
  rfl

theorem list_act_duplicate_before (p : RulePatch) :
    (act (.duplicate .before p) passed m coming deferred).list =
      passed.reverse ++ ⟨p.apply m.entry, true⟩ :: ⟨m.entry, true⟩ :: coming := by
  rw [act, Step.list, List.reverse_cons, List.reverse_cons, List.append_assoc, List.append_assoc]
  rfl

theorem list_act_duplicate_after (p : RulePatch) :
    (act (.duplicate .after p) passed m coming deferred).list =
      passed.reverse ++ ⟨m.entry, true⟩ :: ⟨p.apply m.entry, true⟩ :: coming := by
  rw [act, Step.list, List.reverse_cons, List.reverse_cons, List.append_assoc, List.append_assoc]
  rfl

theorem landing_le (index : Nat) (offset : Int) (last : Nat) : landing index offset last ≤ last :=
  Nat.min_le_right ..

/-- The entry that a move puts in its landing place. -/
def movedTo (passed : List Marked) (m : Marked) (coming : List Marked) (target : Nat) : Marked :=
  ⟨{ m.entry with sortText := keyAt passed m coming target }, true⟩

theorem list_act_move (offset : Int) :
    (act (.move offset) passed m coming deferred).list =
      (passed.reverse ++ coming).insertIdx
        (landing passed.length offset (passed.length + coming.length))
        (movedTo passed m coming
          (landing passed.length offset (passed.length + coming.length))) := by
  simp only [act, movedTo, Step.list]
  generalize landing passed.length offset (passed.length + coming.length) = target
  split
  case isTrue h =>
    rw [reverse_insertIdx _ _ _ h, insertIdx_append_left]
    rw [List.length_reverse]
    exact h
  case isFalse h =>
    have hplace : target = passed.reverse.length + (target - passed.length) := by
      rw [List.length_reverse]
      omega
    have hinsert := insertIdx_append_right passed.reverse coming (target - passed.length)
      ⟨{ m.entry with sortText := keyAt passed m coming target }, true⟩
    rw [← hplace] at hinsert
    exact hinsert.symm

end Actions

/-! ### Whole passes -/

/-- What every action of a rule preserves holds after its pass if it held before. -/
theorem scan_preserves (rule : Rule) (P : List Marked → DeferredMap → Prop)
    (hact : ∀ passed m coming deferred, rule.actsOn m = true →
      P (passed.reverse ++ m :: coming) deferred →
      P (act rule.action passed m coming deferred).list
        (act rule.action passed m coming deferred).deferred)
    (passed coming : List Marked) (deferred : DeferredMap)
    (h : P (passed.reverse ++ coming) deferred) :
    P (scan rule passed coming deferred).1 (scan rule passed coming deferred).2 := by
  fun_induction scan rule passed coming deferred with
  | case1 passed deferred => simpa using h
  | case2 passed deferred m coming hacts step hmany ih =>
    exact ih (hact passed m coming deferred hacts h)
  | case3 passed deferred m coming hacts step hmany =>
    exact hact passed m coming deferred hacts h
  | case4 passed deferred m coming hacts ih =>
    apply ih
    rw [List.reverse_cons, List.append_assoc]
    exact h

theorem applyMarked_preserves (rules : List Rule) (P : List Marked → DeferredMap → Prop)
    (hact : ∀ rule ∈ rules, ∀ passed m coming deferred, rule.actsOn m = true →
      P (passed.reverse ++ m :: coming) deferred →
      P (act rule.action passed m coming deferred).list
        (act rule.action passed m coming deferred).deferred)
    (entries : List Marked) (deferred : DeferredMap) (h : P entries deferred) :
    P (applyMarked rules entries deferred).1 (applyMarked rules entries deferred).2 := by
  induction rules generalizing entries deferred with
  | nil => exact h
  | cons rule rules ih =>
    refine ih (fun rule' hrule' => hact rule' (List.mem_cons_of_mem _ hrule')) _ _ ?_
    exact scan_preserves rule P (hact rule (List.mem_cons_self ..)) [] entries deferred h

theorem applyMarked_nil (rules : List Rule) (deferred : DeferredMap) :
    applyMarked rules [] deferred = ([], deferred) := by
  refine applyMarked_preserves rules (fun entries kept => (entries, kept) = ([], deferred)) ?_ []
    deferred rfl
  intro rule _ passed m coming kept _ h
  have hempty : passed.reverse ++ m :: coming = [] := congrArg Prod.fst h
  exact absurd hempty (List.append_ne_nil_of_right_ne_nil _ (List.cons_ne_nil m coming))

/-- A pass goes by the entries that the rule does not act on. -/
theorem scan_append (rule : Rule) (front passed coming : List Marked) (deferred : DeferredMap)
    (h : ∀ m ∈ front, rule.actsOn m = false) :
    scan rule passed (front ++ coming) deferred =
      scan rule (front.reverse ++ passed) coming deferred := by
  induction front generalizing passed with
  | nil => rfl
  | cons m front ih =>
    have hm := h m (List.mem_cons_self ..)
    rw [List.cons_append, scan, if_neg (by rw [hm]; exact Bool.false_ne_true),
      ih (m :: passed) fun n hn => h n (List.mem_cons_of_mem _ hn), List.reverse_cons,
      List.append_assoc]
    rfl

end CodeCompletion.Rule
