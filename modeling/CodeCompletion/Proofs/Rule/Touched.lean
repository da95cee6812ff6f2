import CodeCompletion.Proofs.Enrichment.Provenance

/-!
# Touched entries

A rule acts on entries that no rule has touched, and what it makes of them is touched. All other
entries stay as they are and keep their order, so the touched entries at any point between two rules
are still there, unchanged and in order, after all further rules, and what has come in between was
made of entries that were not touched then.
-/

namespace CodeCompletion

namespace Marked

def touchedEntries (l : List Marked) : List Entry := (l.filter (·.touched)).map (·.entry)

def untouchedEntries (l : List Marked) : List Entry := (l.filter (!·.touched)).map (·.entry)

end Marked

namespace Rule

open Marked

/-- What rules may make of a list: touched entries stay in order, new touched entries are made of
untouched ones, and no entry becomes untouched. -/
structure Continues (before after : List Marked) : Prop where
  touched : (touchedEntries before).Sublist (touchedEntries after)
  untouched : (untouchedEntries after).Sublist (untouchedEntries before)
  fresh : ∃ fresh, (touchedEntries after).Perm (touchedEntries before ++ fresh) ∧
    ∀ e ∈ fresh, ∃ u ∈ untouchedEntries before, u.Stems e

theorem Continues.refl (l : List Marked) : Continues l l where
  touched := List.Sublist.refl _
  untouched := List.Sublist.refl _
  fresh := ⟨[], .of_eq (List.append_nil _).symm, fun _ h => absurd h List.not_mem_nil⟩

theorem Continues.trans {a b c : List Marked} (hab : Continues a b) (hbc : Continues b c) :
    Continues a c := by
  obtain ⟨fresh, hperm, hfresh⟩ := hab.fresh
  obtain ⟨fresh', hperm', hfresh'⟩ := hbc.fresh
  refine ⟨hab.touched.trans hbc.touched, hbc.untouched.trans hab.untouched, fresh ++ fresh', ?_, ?_⟩
  · calc
      (touchedEntries c).Perm (touchedEntries b ++ fresh') := hperm'
      List.Perm _ ((touchedEntries a ++ fresh) ++ fresh') := hperm.append_right fresh'
      _ = touchedEntries a ++ (fresh ++ fresh') := List.append_assoc ..
  · intro e he
    rcases List.mem_append.mp he with he | he
    · exact hfresh e he
    · obtain ⟨u, hu, hstems⟩ := hfresh' e he
      exact ⟨u, hab.untouched.subset hu, hstems⟩

/-! ### One action -/

section Actions

variable (passed : List Marked) (m : Marked) (coming : List Marked) (deferred : DeferredMap)

theorem act_grows (action : RuleEdit) :
    ∃ made : List Marked,
      (passed.reverse ++ coming).Sublist (act action passed m coming deferred).list ∧
      (act action passed m coming deferred).list.Perm (passed.reverse ++ coming ++ made) ∧
      ∀ n ∈ made, n.touched = true ∧ m.entry.Stems n.entry := by
  obtain ⟨made, hmakes, hsub, hperm⟩ := act_makes action passed.reverse m coming deferred
  rw [List.reverse_reverse] at hsub hperm
  exact ⟨made, hsub, hperm, fun n hn => ⟨hmakes.touched n hn, hmakes.stems n hn⟩⟩

theorem continues_act (action : RuleEdit) (hm : m.touched = false) :
    Continues (passed.reverse ++ m :: coming) (act action passed m coming deferred).list := by
  obtain ⟨made, hsub, hperm, hmade⟩ := act_grows passed m coming deferred action
  have htouched : touchedEntries (passed.reverse ++ m :: coming) =
      touchedEntries (passed.reverse ++ coming) := by
    simp [touchedEntries, hm]
  have hnone : made.filter (!·.touched) = [] :=
    List.filter_eq_nil_iff.mpr fun n hn => by simp [(hmade n hn).1]
  have hall : made.filter (·.touched) = made :=
    List.filter_eq_self.mpr fun n hn => (hmade n hn).1
  refine ⟨?_, ?_, made.map (·.entry), ?_, ?_⟩
  · rw [htouched]
    exact (hsub.filter _).map _
  · -- The rest of the list is all that is untouched afterwards.
    have hfilter := hperm.filter (!·.touched)
    rw [List.filter_append, hnone, List.append_nil] at hfilter
    have hrest := (hsub.filter (!·.touched)).eq_of_length hfilter.length_eq.symm
    rw [untouchedEntries, ← hrest]
    refine List.Sublist.map _ (List.Sublist.filter _ ?_)
    exact (List.Sublist.refl _).append (List.sublist_cons_self m coming)
  · have hmap := (hperm.filter (·.touched)).map (·.entry)
    rw [List.filter_append, hall, List.map_append] at hmap
    rw [htouched]
    exact hmap
  · intro e he
    obtain ⟨n, hn, rfl⟩ := List.mem_map.mp he
    refine ⟨m.entry, List.mem_map.mpr ⟨m, ?_, rfl⟩, (hmade n hn).2⟩
    exact List.mem_filter.mpr ⟨List.mem_append_right _ (List.mem_cons_self ..), by rw [hm]; rfl⟩

end Actions

/-! ### One rule -/

section OneRule

variable (rule : Rule) (l : List Marked) (deferred : DeferredMap)

theorem not_touched_of_actsOn {m : Marked} (h : rule.actsOn m = true) : m.touched = false := by
  rw [actsOn, Bool.and_eq_true, Bool.not_eq_true'] at h
  exact h.1

/-- A rule acts on no touched entry. -/
theorem touchedEntries_others : touchedEntries (rule.others l) = touchedEntries l := by
  unfold touchedEntries others
  congr 1
  split
  · rw [List.filter_filter]
    refine List.filter_congr fun m _ => ?_
    cases hm : m.touched with
    | false => rfl
    | true => rw [actsOn_of_touched rule m hm]; rfl
  · induction l with
    | nil => rfl
    | cons m l ih =>
      cases hacts : rule.actsOn m with
      | false =>
        rw [List.eraseP_cons_of_neg (Bool.eq_false_iff.mp hacts), List.filter_cons,
          List.filter_cons, ih]
      | true =>
        have hm : ¬ m.touched = true := Bool.eq_false_iff.mp (not_touched_of_actsOn rule hacts)
        rw [List.eraseP_cons_of_pos hacts, List.filter_cons_of_neg hm]

/-- The entries that a rule leaves touched are those touched before and what it makes of others. -/
theorem touchedEntries_apply :
    ∃ made, List.Forall₂ (Makes rule.action) (rule.targets l) made ∧
      (touchedEntries (rule.apply l deferred).1).Perm
        (touchedEntries l ++ made.flatten.map (·.entry)) := by
  obtain ⟨made, hmakes, hperm⟩ := (actsOnceOn_targets rule l deferred).made
  refine ⟨made, hmakes, ?_⟩
  have hmade : made.flatten.filter (·.touched) = made.flatten := by
    refine List.filter_eq_self.mpr fun n hn => ?_
    obtain ⟨ms, hms, hn⟩ := List.mem_flatten.mp hn
    obtain ⟨_, hmake⟩ := makes_of_mem hmakes ms hms
    exact hmake.touched n hn
  have hmap := (hperm.filter (·.touched)).map (·.entry)
  rw [List.filter_append, hmade, List.map_append] at hmap
  rw [← touchedEntries_others rule l]
  exact hmap

end OneRule

/-! ### Many rules -/

theorem continues_applyMarked (rules : List Rule) (l : List Marked) (deferred : DeferredMap) :
    Continues l (applyMarked rules l deferred).1 := by
  refine applyMarked_preserves rules (fun l' _ => Continues l l') ?_ l deferred (.refl l)
  intro rule _ passed m coming deferred hacts hold
  exact hold.trans
    (continues_act passed m coming deferred rule.action (not_touched_of_actsOn rule hacts))

section Rules

variable (rules : List Rule) (document : Document) (entries : List Entry) (deferred : DeferredMap)

/-- The list, with its marks, after the first `k` rules. -/
def marksAfter (k : Nat) : List Marked :=
  (applyMarked ((rules.take k).filter (·.appliesTo document)) (entries.map (⟨·, false⟩))
    deferred).1

theorem continues_marksAfter (k n : Nat) :
    Continues (marksAfter rules document entries deferred k)
      (marksAfter rules document entries deferred (k + n)) := by
  rw [marksAfter, marksAfter, List.take_add, List.filter_append, applyMarked, applyMarked,
    List.foldl_append]
  exact continues_applyMarked _ _ _

theorem marksAfter_succ (k : Nat) (rule : Rule) (hrule : rules[k]? = some rule)
    (happlies : rule.appliesTo document = true) :
    ∃ deferred', marksAfter rules document entries deferred (k + 1) =
      (rule.apply (marksAfter rules document entries deferred k) deferred').1 := by
  have hone : [rule].filter (·.appliesTo document) = [rule] := List.filter_cons_of_pos happlies
  refine ⟨(applyMarked ((rules.take k).filter (·.appliesTo document)) (entries.map (⟨·, false⟩))
    deferred).2, ?_⟩
  rw [marksAfter, List.take_add_one, hrule, Option.toList_some, List.filter_append, hone,
    applyMarked, List.foldl_append]
  rfl

theorem map_entry_marksAfter (k : Nat) (hk : rules.length ≤ k) :
    (marksAfter rules document entries deferred k).map (·.entry) =
      (applyAll rules document entries deferred).1 := by
  rw [marksAfter, List.take_of_length_le hk]
  rfl

/-- Entries that are touched at a point between two rules are touched, unchanged and in the same
order after any number of further rules, and are found like that in the end. What a rule makes of
the entries that it acts on, both halves of a duplicate included, is touched as soon as it is done,
and nothing else becomes touched. -/
theorem touched_entries_are_immune (k n : Nat) :
    Continues (marksAfter rules document entries deferred k)
        (marksAfter rules document entries deferred (k + n)) ∧
      (touchedEntries (marksAfter rules document entries deferred k)).Sublist
        (applyAll rules document entries deferred).1 ∧
      ∀ rule, rules[k]? = some rule → rule.appliesTo document = true →
        ∃ made, List.Forall₂ (Makes rule.action)
            (rule.targets (marksAfter rules document entries deferred k)) made ∧
          (touchedEntries (marksAfter rules document entries deferred (k + 1))).Perm
            (touchedEntries (marksAfter rules document entries deferred k) ++
              made.flatten.map (·.entry)) ∧
          (made.flatten.map (·.entry)).Subperm
            (touchedEntries (marksAfter rules document entries deferred (k + 1 + n))) := by
  refine ⟨continues_marksAfter rules document entries deferred k n, ?_, ?_⟩
  · have hend := continues_marksAfter rules document entries deferred k rules.length
    rw [← map_entry_marksAfter rules document entries deferred (k + rules.length)
      (Nat.le_add_left ..)]
    exact hend.touched.trans (List.filter_sublist.map _)
  · intro rule hrule happlies
    obtain ⟨deferred', hnext⟩ :=
      marksAfter_succ rules document entries deferred k rule hrule happlies
    obtain ⟨made, hmakes, hperm⟩ :=
      touchedEntries_apply rule (marksAfter rules document entries deferred k) deferred'
    rw [← hnext] at hperm
    refine ⟨made, hmakes, hperm, ?_⟩
    have hlater := continues_marksAfter rules document entries deferred (k + 1) n
    exact ((List.sublist_append_right _ _).subperm.trans hperm.symm.subperm).trans
      hlater.touched.subperm

end Rules

def consoleMethods : List Entry :=
  ["log", "warn", "logError"].map fun name => { name, kind := .method, sortText := "11" }

def copyLog : Rule where
  pattern := .exact "log"
  action := .duplicate .after { name := some "logCopy" }

def clearLogs : Rule where
  pattern := .wildcard "log" ""
  action := .delete
  processMany := true

def emptyScript : Document :=
  { fileName := "/p/a.ts", text := "", scriptKind := .ts, tree := default }

theorem log_and_copy_outlive_clearing :
    [copyLog, clearLogs][0]? = some copyLog ∧ copyLog.appliesTo emptyScript = true ∧
      ∃ original copy : Entry, original.name = "log" ∧ copy.name = "logCopy" ∧
        clearLogs.picks original = true ∧ clearLogs.picks copy = true ∧
        [original, copy].Subperm
          (touchedEntries (marksAfter [copyLog, clearLogs] emptyScript consoleMethods ∅ 2)) := by
  obtain ⟨-, -, himmune⟩ :=
    touched_entries_are_immune [copyLog, clearLogs] emptyScript consoleMethods ∅ 0 1
  obtain ⟨made, hmakes, -, hkept⟩ := himmune copyLog rfl rfl
  have htargets : copyLog.targets (marksAfter [copyLog, clearLogs] emptyScript consoleMethods ∅ 0) =
      [⟨{ name := "log", kind := .method, sortText := "11" }, false⟩] := by decide
  rw [htargets] at hmakes
  obtain ⟨halves, _, hhalves, hnone, rfl⟩ := List.forall₂_cons_left_iff.mp hmakes
  cases hnone
  cases hhalves
  exact ⟨rfl, rfl, _, _, rfl, rfl, by decide, by decide, hkept⟩

end Rule

end CodeCompletion
