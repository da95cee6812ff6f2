import CodeCompletion.Proofs.Rule.Scan
import Mathlib.Data.List.InsertIdx
import Mathlib.Data.List.Perm.Basic

namespace CodeCompletion.Rule

/-! ### One action -/

/-- What an action leaves in place of the entry. The key that a moved entry takes depends on where
it lands. -/
def Makes : RuleEdit → Marked → List Marked → Prop
  | .delete, _, made => made = []
  | .patch p, m, made => made = [⟨p.apply m.entry, true⟩]
  | .move _, m, made => ∃ key, made = [⟨{ m.entry with sortText := key }, true⟩]
  | .duplicate .before p, m, made => made = [⟨p.apply m.entry, true⟩, ⟨m.entry, true⟩]
  | .duplicate .after p, m, made => made = [⟨m.entry, true⟩, ⟨p.apply m.entry, true⟩]

theorem Makes.touched {action : RuleEdit} {m : Marked} {made : List Marked}
    (h : Makes action m made) : ∀ n ∈ made, n.touched = true := by
  cases action with
  | delete =>
    cases h
    simp
  | patch p =>
    cases h
    simp
  | move offset =>
    obtain ⟨key, rfl⟩ := h
    simp
  | duplicate placement p =>
    cases placement <;>
    · cases h
      simp

section Actions

variable (action : RuleEdit) (front : List Marked) (m : Marked) (back : List Marked)
  (deferred : DeferredMap)

theorem act_makes :
    ∃ made, Makes action m made ∧
      (front ++ back).Sublist (act action front.reverse m back deferred).list ∧
      (act action front.reverse m back deferred).list.Perm (front ++ back ++ made) := by
  have hone (n : Marked) : (front ++ back).Sublist (front ++ n :: back) ∧
      (front ++ n :: back).Perm (front ++ back ++ [n]) :=
    ⟨(List.sublist_cons_self n back).append_left front,
      List.perm_middle.trans (List.perm_append_singleton n _).symm⟩
  have htwo (a b : Marked) : (front ++ back).Sublist (front ++ a :: b :: back) ∧
      (front ++ a :: b :: back).Perm (front ++ back ++ [a, b]) := by
    refine ⟨((List.sublist_cons_self b back).trans (List.sublist_cons_self a _)).append_left front,
      ?_⟩
    rw [List.append_assoc]
    exact List.Perm.append_left front (@List.perm_append_comm _ [a, b] back)
  cases action with
  | delete =>
    rw [list_act_delete, List.reverse_reverse]
    exact ⟨[], rfl, List.Sublist.refl _, by rw [List.append_nil]⟩
  | patch p =>
    rw [list_act_patch, List.reverse_reverse]
    exact ⟨_, rfl, hone _⟩
  | move offset =>
    rw [list_act_move, List.reverse_reverse, List.length_reverse]
    have hle : landing front.length offset (front.length + back.length) ≤
        (front ++ back).length := by
      rw [List.length_append]
      exact landing_le ..
    exact ⟨_, ⟨_, rfl⟩, List.sublist_insertIdx .., (List.perm_insertIdx _ _ hle).trans
      (List.perm_append_singleton _ _).symm⟩
  | duplicate placement p =>
    cases placement with
    | before =>
      rw [list_act_duplicate_before, List.reverse_reverse]
      exact ⟨_, rfl, htwo _ _⟩
    | after =>
      rw [list_act_duplicate_after, List.reverse_reverse]
      exact ⟨_, rfl, htwo _ _⟩

theorem mem_passed_act (n : Marked) (h : n ∈ (act action front.reverse m back deferred).passed) :
    n ∈ front ∨ n.touched = true := by
  cases action with
  | delete => simp_all [act]
  | patch p =>
    simp only [act, List.mem_cons, List.mem_reverse] at h
    rcases h with rfl | h
    · exact Or.inr rfl
    · exact Or.inl h
  | move offset =>
    simp only [act] at h
    split at h
    · rcases List.eq_or_mem_of_mem_insertIdx h with rfl | h
      · exact Or.inr rfl
      · exact Or.inl (List.mem_reverse.mp h)
    · exact Or.inl (List.mem_reverse.mp h)
  | duplicate placement p =>
    cases placement <;>
    · simp only [act, List.mem_cons, List.mem_reverse] at h
      rcases h with rfl | rfl | h
      · exact Or.inr rfl
      · exact Or.inr rfl
      · exact Or.inl h

end Actions

/-! ### Actions in turn -/

theorem actsOn_of_touched (rule : Rule) (m : Marked) (h : m.touched = true) :
    rule.actsOn m = false := by
  simp [actsOn, h]

/-- Acting on entries one after the other, each the first that the rule picks when its turn comes:
the list and the metadata at the start, the entries, and both at the end. -/
inductive ActsInTurn (rule : Rule) :
    List Marked → DeferredMap → List Marked → List Marked → DeferredMap → Prop
  | done (l : List Marked) (deferred : DeferredMap) : ActsInTurn rule l deferred [] l deferred
  | act (front : List Marked) (m : Marked) (back : List Marked) (deferred : DeferredMap)
      (ms l' : List Marked) (deferred' : DeferredMap)
      (first : ∀ n ∈ front, rule.actsOn n = false) (picked : rule.actsOn m = true)
      (rest : ActsInTurn rule (Rule.act rule.action front.reverse m back deferred).list
        (Rule.act rule.action front.reverse m back deferred).deferred ms l' deferred') :
      ActsInTurn rule (front ++ m :: back) deferred (m :: ms) l' deferred'

/-- The entries that a rule acts on: those that it picks at the start, or the first of them. -/
def targets (rule : Rule) (l : List Marked) : List Marked :=
  if rule.processMany then l.filter rule.actsOn else (l.filter rule.actsOn).take 1

def others (rule : Rule) (l : List Marked) : List Marked :=
  if rule.processMany then l.filter (!rule.actsOn ·) else l.eraseP rule.actsOn

theorem Makes.not_picked {action : RuleEdit} {m : Marked} {made : List Marked}
    (h : Makes action m made) (rule : Rule) : ∀ n ∈ made, rule.actsOn n = false :=
  fun n hn => actsOn_of_touched rule n (h.touched n hn)

theorem filter_of_not_picked (rule : Rule) (l : List Marked)
    (h : ∀ n ∈ l, rule.actsOn n = false) :
    l.filter rule.actsOn = [] ∧ l.filter (!rule.actsOn ·) = l :=
  ⟨List.filter_eq_nil_iff.mpr fun n hn => by simp [h n hn],
    List.filter_eq_self.mpr fun n hn => by simp [h n hn]⟩

section Turns

variable (rule : Rule) (front : List Marked) (m : Marked) (back : List Marked)
  (deferred : DeferredMap)

theorem filter_actsOn_split (first : ∀ n ∈ front, rule.actsOn n = false)
    (picked : rule.actsOn m = true) :
    (front ++ m :: back).filter rule.actsOn = m :: back.filter rule.actsOn := by
  rw [List.filter_append, (filter_of_not_picked rule front first).1,
    List.filter_cons_of_pos picked, List.nil_append]

theorem filter_not_actsOn_split (picked : rule.actsOn m = true) :
    (front ++ m :: back).filter (!rule.actsOn ·) = (front ++ back).filter (!rule.actsOn ·) := by
  simp [picked]

/-- After an action the rule picks what it has picked before, less the entry acted on. -/
theorem filter_actsOn_act (first : ∀ n ∈ front, rule.actsOn n = false) :
    (act rule.action front.reverse m back deferred).list.filter rule.actsOn =
      back.filter rule.actsOn := by
  obtain ⟨made, hmakes, hsub, hperm⟩ := act_makes rule.action front m back deferred
  have hfront := (filter_of_not_picked rule front first).1
  have hmade := (filter_of_not_picked rule made (hmakes.not_picked rule)).1
  have hfilter := hperm.filter rule.actsOn
  rw [List.filter_append, hmade, List.append_nil] at hfilter
  rw [← (hsub.filter rule.actsOn).eq_of_length hfilter.length_eq.symm, List.filter_append, hfront,
    List.nil_append]

theorem apply_of_picked (first : ∀ n ∈ front, rule.actsOn n = false)
    (picked : rule.actsOn m = true) :
    rule.apply (front ++ m :: back) deferred =
      if rule.processMany
      then rule.apply (act rule.action front.reverse m back deferred).list
        (act rule.action front.reverse m back deferred).deferred
      else ((act rule.action front.reverse m back deferred).list,
        (act rule.action front.reverse m back deferred).deferred) := by
  have hpassed : ∀ n ∈ (act rule.action front.reverse m back deferred).passed.reverse,
      rule.actsOn n = false := by
    intro n hn
    rcases mem_passed_act rule.action front m back deferred n (List.mem_reverse.mp hn) with h | h
    · exact first n h
    · exact actsOn_of_touched rule n h
  rw [apply, scan_append rule front [] _ deferred first, List.append_nil, scan, if_pos picked]
  dsimp only
  split
  · rw [apply, Step.list, scan_append rule _ [] _ _ hpassed, List.reverse_reverse, List.append_nil]
  · rfl

theorem apply_of_not_picked (l : List Marked) (h : ∀ n ∈ l, rule.actsOn n = false) :
    rule.apply l deferred = (l, deferred) := by
  have hscan := scan_append rule l [] [] deferred h
  rw [List.append_nil, List.append_nil] at hscan
  rw [apply, hscan, scan, List.reverse_reverse]

theorem picks_none_or_first (l : List Marked) :
    (∀ n ∈ l, rule.actsOn n = false) ∨
      ∃ front m back, l = front ++ m :: back ∧ (∀ n ∈ front, rule.actsOn n = false) ∧
        rule.actsOn m = true := by
  cases hfind : l.find? rule.actsOn with
  | none => exact Or.inl fun n hn => by simpa using List.find?_eq_none.mp hfind n hn
  | some m =>
    obtain ⟨picked, front, back, hl, first⟩ := List.find?_eq_some_iff_append.mp hfind
    exact Or.inr ⟨front, m, back, hl, fun n hn => by simpa using first n hn, picked⟩

end Turns

/-! ### A whole pass -/

section Pass

variable (rule : Rule) (l : List Marked) (deferred : DeferredMap)

theorem targets_of_not_picked (h : ∀ n ∈ l, rule.actsOn n = false) :
    rule.targets l = [] ∧ rule.others l = l := by
  obtain ⟨hnone, hall⟩ := filter_of_not_picked rule l h
  have herase : l.eraseP rule.actsOn = l :=
    List.eraseP_of_forall_not fun n hn => by simp [h n hn]
  simp [targets, others, hnone, hall, herase]

/-- A pass is actions in turn on the entries that the rule picks at the start, or on the first. -/
theorem actsInTurn_apply :
    rule.ActsInTurn l deferred (rule.targets l) (rule.apply l deferred).1
      (rule.apply l deferred).2 := by
  generalize hcount : (l.filter rule.actsOn).length = count
  induction count generalizing l deferred with
  | zero =>
    have hnone : ∀ n ∈ l, rule.actsOn n = false := fun n hn => by
      simpa using List.filter_eq_nil_iff.mp (List.length_eq_zero_iff.mp hcount) n hn
    rw [apply_of_not_picked rule deferred l hnone, (targets_of_not_picked rule l hnone).1]
    exact .done l deferred
  | succ count ih =>
    rcases picks_none_or_first rule l with hnone | ⟨front, m, back, rfl, first, picked⟩
    · simp [(filter_of_not_picked rule l hnone).1] at hcount
    · have hrest := filter_actsOn_act rule front m back deferred first
      rw [filter_actsOn_split rule front m back first picked, List.length_cons,
        Nat.add_right_cancel_iff] at hcount
      rw [apply_of_picked rule front m back deferred first picked, targets,
        filter_actsOn_split rule front m back first picked]
      split
      · rename_i hmany
        have hturns := ih _ (act rule.action front.reverse m back deferred).deferred
          ((congrArg List.length hrest).trans hcount)
        rw [targets, if_pos hmany, hrest] at hturns
        exact .act front m back deferred _ _ _ first picked hturns
      · exact .act front m back deferred [] _ _ first picked (.done _ _)

/-- What becomes of a list if the rule acts on the entries `acted`, on each once, and leaves the
entries `left`. -/
structure ActsOnceOn (acted left : List Marked) : Prop where
  /-- The pass is one action on each, in their order. -/
  turns : rule.ActsInTurn l deferred acted (rule.apply l deferred).1 (rule.apply l deferred).2
  /-- The others keep their contents, their marks and their order. -/
  kept : left.Sublist (rule.apply l deferred).1
  /-- Besides them there is what the actions make, and nothing else. -/
  made : ∃ made, List.Forall₂ (Makes rule.action) acted made ∧
    (rule.apply l deferred).1.Perm (left ++ made.flatten)

/-- Acting in turn on all entries that the rule picks leaves the others. -/
theorem ActsInTurn.leaves {rule : Rule} {l : List Marked} {deferred : DeferredMap}
    {ms l' : List Marked} {deferred' : DeferredMap}
    (h : rule.ActsInTurn l deferred ms l' deferred') (hms : ms = l.filter rule.actsOn) :
    (l.filter (!rule.actsOn ·)).Sublist l' ∧
      ∃ made, List.Forall₂ (Makes rule.action) ms made ∧
        l'.Perm (l.filter (!rule.actsOn ·) ++ made.flatten) := by
  induction h with
  | done l deferred =>
    have hall : l.filter (!rule.actsOn ·) = l := List.filter_eq_self.mpr fun n hn => by
      simpa using List.filter_eq_nil_iff.mp hms.symm n hn
    rw [hall]
    exact ⟨List.Sublist.refl l, [], .nil, by simp⟩
  | act front m back deferred ms l' deferred' first picked rest ih =>
    rw [filter_actsOn_split rule front m back first picked, List.cons.injEq] at hms
    obtain ⟨hsub, made', hmakes', hperm'⟩ :=
      ih (hms.2.trans (filter_actsOn_act rule front m back deferred first).symm)
    obtain ⟨made, hmakes, hsublist, hperm⟩ := act_makes rule.action front m back deferred
    have hkept := (filter_of_not_picked rule made (hmakes.not_picked rule)).2
    have hfilter := hperm.filter (!rule.actsOn ·)
    rw [List.filter_append, hkept] at hfilter
    rw [filter_not_actsOn_split rule front m back picked]
    refine ⟨(hsublist.filter _).trans hsub, made :: made', .cons hmakes hmakes', ?_⟩
    rw [List.flatten_cons, ← List.append_assoc]
    exact hperm'.trans (hfilter.append_right _)

theorem actsOnceOn_targets :
    rule.ActsOnceOn l deferred (rule.targets l) (rule.others l) := by
  have hturns := actsInTurn_apply rule l deferred
  by_cases hmany : rule.processMany = true
  · have htargets : rule.targets l = l.filter rule.actsOn := if_pos hmany
    have hothers : rule.others l = l.filter (!rule.actsOn ·) := if_pos hmany
    obtain ⟨hsub, hmade⟩ := hturns.leaves htargets
    rw [← hothers] at hsub hmade
    exact ⟨hturns, hsub, hmade⟩
  · rcases picks_none_or_first rule l with hnone | ⟨front, m, back, rfl, first, picked⟩
    · obtain ⟨htargets, hothers⟩ := targets_of_not_picked rule l hnone
      have happly := apply_of_not_picked rule deferred l hnone
      refine ⟨hturns, ?_, ?_⟩
      · rw [hothers, happly]
      · rw [htargets, hothers, happly]
        exact ⟨[], .nil, by simp⟩
    · obtain ⟨made, hmakes, hsub, hperm⟩ := act_makes rule.action front m back deferred
      have htargets : rule.targets (front ++ m :: back) = [m] := by
        rw [targets, if_neg hmany, filter_actsOn_split rule front m back first picked]
        rfl
      have hothers : rule.others (front ++ m :: back) = front ++ back := by
        rw [others, if_neg hmany,
          List.eraseP_append_right _ fun n hn => by simp [first n hn], List.eraseP_cons_of_pos picked]
      have happly := apply_of_picked rule front m back deferred first picked
      rw [if_neg hmany] at happly
      refine ⟨hturns, ?_, ?_⟩
      · rw [hothers, happly]
        exact hsub
      · rw [htargets, hothers, happly]
        refine ⟨[made], .cons hmakes .nil, ?_⟩
        rw [List.flatten_singleton]
        exact hperm

theorem makes_of_mem {action : RuleEdit} {acted : List Marked} {made : List (List Marked)}
    (h : List.Forall₂ (Makes action) acted made) (ms : List Marked) (hms : ms ∈ made) :
    ∃ m, Makes action m ms := by
  induction h with
  | nil => cases hms
  | cons hmakes _ ih =>
    rcases List.mem_cons.mp hms with rfl | hrest
    · exact ⟨_, hmakes⟩
    · exact ih hrest

/-- A rule acts on the entries that it picks when it starts, on each of them once, or on the first
one only; the other entries stay as they are and keep their order. A rule for many entries then
picks none any more, and if it deletes, what is left are the others. -/
theorem acts_once_on_each_match :
    rule.ActsOnceOn l deferred (rule.targets l) (rule.others l) ∧
      (rule.processMany = true →
        (∀ m ∈ (rule.apply l deferred).1, rule.actsOn m = false) ∧
        (rule.action = .delete → (rule.apply l deferred).1 = l.filter (!rule.actsOn ·))) := by
  have hacts := actsOnceOn_targets rule l deferred
  refine ⟨hacts, fun hmany => ?_⟩
  obtain ⟨made, hmakes, hperm⟩ := hacts.made
  have hkept := hacts.kept
  have hothers : rule.others l = l.filter (!rule.actsOn ·) := if_pos hmany
  rw [hothers] at hkept hperm
  constructor
  · intro m hm
    rcases List.mem_append.mp (hperm.mem_iff.mp hm) with hleft | hmade
    · simpa using (List.mem_filter.mp hleft).2
    · obtain ⟨ms, hms, hm⟩ := List.mem_flatten.mp hmade
      obtain ⟨_, hmake⟩ := makes_of_mem hmakes ms hms
      exact hmake.not_picked rule m hm
  · intro hdelete
    have hnothing : made.flatten = [] := by
      rw [List.flatten_eq_nil_iff]
      intro ms hms
      obtain ⟨_, hmake⟩ := makes_of_mem hmakes ms hms
      rw [hdelete] at hmake
      exact hmake
    rw [hnothing, List.append_nil] at hperm
    exact (hkept.eq_of_length hperm.length_eq.symm).symm

end Pass

/-! ### Getters -/

def accessors : List Marked :=
  [("getName", false), ("setName", false), ("getOld", true), ("getSize", false)].map
    fun (name, touched) => ⟨{ name, kind := .method, sortText := "11" }, touched⟩

def getterRule : Rule where
  pattern := .wildcard "get" ""
  action := .delete
  processMany := true

theorem getters_are_deleted :
    (getterRule.targets accessors).map (·.entry.name) = ["getName", "getSize"] ∧
    (getterRule.apply accessors ∅).1.map (·.entry.name) = ["setName", "getOld"] := by
  obtain ⟨_, hmany⟩ := acts_once_on_each_match getterRule accessors ∅
  obtain ⟨_, hdelete⟩ := hmany rfl
  refine ⟨by decide, ?_⟩
  rw [hdelete rfl]
  decide

end CodeCompletion.Rule
