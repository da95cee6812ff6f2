import CodeCompletion.Proofs.Entry.KeyOrder
import CodeCompletion.Proofs.Rule.Scan
import Mathlib.Data.List.InsertIdx

/-!
# Rules and sort keys

A rule gives an entry a key of its patch, the key of the place where it lands, or none. Rules
whose patches set no key therefore leave a list in order in order: a moved entry fits in where it
lands, whichever way it moves.
-/

namespace CodeCompletion

def RuleEdit.key? : RuleEdit → Option String
  | .patch p | .duplicate _ p => p.sortText
  | .delete | .move _ => none

def Marked.keys (entries : List Marked) : List String := entries.map (·.entry.sortText)

namespace Rule

/-! ### Which keys there are -/

theorem keys_append (front back : List Marked) :
    Marked.keys (front ++ back) = Marked.keys front ++ Marked.keys back := List.map_append

theorem keys_cons (m : Marked) (rest : List Marked) :
    Marked.keys (m :: rest) = m.entry.sortText :: Marked.keys rest := rfl

theorem sortText_apply (p : RulePatch) (e : Entry) :
    (p.apply e).sortText = p.sortText.getD e.sortText := rfl

section Move

variable (passed : List Marked) (m : Marked) (coming : List Marked)

theorem eraseIdx_passed : (passed.reverse ++ m :: coming).eraseIdx passed.length =
    passed.reverse ++ coming := by
  rw [List.eraseIdx_append_of_length_le (Nat.le_of_eq List.length_reverse), List.length_reverse,
    Nat.sub_self]
  rfl

theorem getElem?_keys (place : Nat) (h : place ≤ passed.length + coming.length) :
    (Marked.keys (passed.reverse ++ m :: coming))[place]? = some (keyAt passed m coming place) := by
  have hlt : place < (passed.reverse ++ m :: coming).length := by
    rw [List.length_append, List.length_reverse, List.length_cons]
    omega
  rw [Marked.keys, List.getElem?_map, keyAt, List.getElem?_eq_getElem hlt]
  rfl

theorem keys_act_move (offset : Int) (deferred : DeferredMap) :
    Marked.keys (act (.move offset) passed m coming deferred).list =
      ((Marked.keys (passed.reverse ++ m :: coming)).eraseIdx passed.length).insertIdx
        (landing passed.length offset (passed.length + coming.length))
        (keyAt passed m coming
          (landing passed.length offset (passed.length + coming.length))) := by
  rw [list_act_move, ← eraseIdx_passed passed m coming, Marked.keys, Marked.keys,
    List.eraseIdx_map, List.map_insertIdx]
  rfl

theorem mem_keys_keyAt (place : Nat) :
    keyAt passed m coming place ∈ Marked.keys (passed.reverse ++ m :: coming) := by
  rw [keyAt, Marked.keys]
  cases hplace : (passed.reverse ++ m :: coming)[place]? with
  | none =>
    refine List.mem_map.mpr ⟨m, ?_, rfl⟩
    exact List.mem_append_right _ (List.mem_cons_self ..)
  | some n => exact List.mem_map.mpr ⟨n, List.mem_of_getElem? hplace, rfl⟩

end Move

theorem sortText_apply_cases (p : RulePatch) (e : Entry) :
    (p.apply e).sortText = e.sortText ∨ p.sortText = some (p.apply e).sortText := by
  rw [sortText_apply]
  cases p.sortText with
  | none => exact Or.inl rfl
  | some key => exact Or.inr rfl

theorem mem_keys_act (action : RuleEdit) (passed : List Marked) (m : Marked)
    (coming : List Marked) (deferred : DeferredMap) (key : String)
    (h : key ∈ Marked.keys (act action passed m coming deferred).list) :
    key ∈ Marked.keys (passed.reverse ++ m :: coming) ∨ action.key? = some key := by
  cases action with
  | delete =>
    rw [list_act_delete, keys_append] at h
    rw [keys_append, keys_cons]
    simp only [List.mem_append, List.mem_cons] at h ⊢
    grind
  | patch p =>
    have hp := sortText_apply_cases p m.entry
    rw [list_act_patch, keys_append, keys_cons] at h
    rw [keys_append, keys_cons, RuleEdit.key?]
    simp only [List.mem_append, List.mem_cons] at h ⊢
    grind
  | move offset =>
    rw [keys_act_move] at h
    left
    rcases List.eq_or_mem_of_mem_insertIdx h with h | h
    · rw [h]
      exact mem_keys_keyAt passed m coming _
    · exact List.mem_of_mem_eraseIdx h
  | duplicate placement p =>
    have hp := sortText_apply_cases p m.entry
    rw [keys_append, keys_cons, RuleEdit.key?]
    cases placement with
    | before =>
      rw [list_act_duplicate_before, keys_append, keys_cons, keys_cons] at h
      simp only [List.mem_append, List.mem_cons] at h ⊢
      grind
    | after =>
      rw [list_act_duplicate_after, keys_append, keys_cons, keys_cons] at h
      simp only [List.mem_append, List.mem_cons] at h ⊢
      grind

/-! ### Their order -/

/-- The place in a list from which the entry at a place comes after a move from `index` to
`target`; the moved one takes after the one that it displaces. -/
def slot (index target place : Nat) : Nat :=
  if place = target then target
  else if place < target then (if place < index then place else place + 1)
  else (if place - 1 < index then place - 1 else place)

theorem slot_mono (index target a b : Nat) (h : a < b) :
    slot index target a ≤ slot index target b := by
  unfold slot
  grind

theorem getElem?_insertIdx_eraseIdx {α : Type} (l : List α) (index target place : Nat) (a : α)
    (hi : index < l.length) (ha : l[target]? = some a) :
    ((l.eraseIdx index).insertIdx target a)[place]? = l[slot index target place]? := by
  have htarget : target < l.length := (List.getElem?_eq_some_iff.mp ha).1
  have hlen := List.length_eraseIdx_of_lt hi
  unfold slot
  rw [List.getElem?_insertIdx]
  by_cases heq : place = target
  · rw [if_neg (by omega), if_pos heq, if_pos (by omega), if_pos heq, ha]
  · rw [if_neg heq]
    by_cases hlt : place < target
    · rw [if_pos hlt, if_pos hlt, List.getElem?_eraseIdx]
      split <;> rfl
    · rw [if_neg hlt, if_neg heq, if_neg hlt, List.getElem?_eraseIdx]
      split
      · rfl
      · congr 1
        omega

theorem pairwise_insertIdx_eraseIdx {α : Type} (R : α → α → Prop) (hrefl : ∀ a, R a a)
    (l : List α) (index target : Nat) (a : α) (hi : index < l.length) (ha : l[target]? = some a)
    (h : l.Pairwise R) : ((l.eraseIdx index).insertIdx target a).Pairwise R := by
  rw [List.pairwise_iff_getElem] at h ⊢
  intro i j hil hjl hij
  have hsi := getElem?_insertIdx_eraseIdx l index target i a hi ha
  have hsj := getElem?_insertIdx_eraseIdx l index target j a hi ha
  rw [List.getElem?_eq_getElem hil, eq_comm] at hsi
  rw [List.getElem?_eq_getElem hjl, eq_comm] at hsj
  obtain ⟨hi', hsi⟩ := List.getElem?_eq_some_iff.mp hsi
  obtain ⟨hj', hsj⟩ := List.getElem?_eq_some_iff.mp hsj
  rw [← hsi, ← hsj]
  rcases Nat.lt_or_eq_of_le (slot_mono index target i j hij) with hlt | heq
  · exact h _ _ hi' hj' hlt
  · simp only [heq]
    exact hrefl _

/-- An action that sets no key keeps the keys in order. -/
theorem sorted_keys_act (action : RuleEdit) (hkey : action.key? = none) (passed : List Marked)
    (m : Marked) (coming : List Marked) (deferred : DeferredMap)
    (h : (Marked.keys (passed.reverse ++ m :: coming)).Pairwise (· ≤ ·)) :
    (Marked.keys (act action passed m coming deferred).list).Pairwise (· ≤ ·) := by
  have hkept (p : RulePatch) (hp : p.sortText = none) :
      (p.apply m.entry).sortText = m.entry.sortText := by
    rw [sortText_apply, hp, Option.getD_none]
  -- A copy stands beside its original, which has the same key.
  have hdouble : (Marked.keys passed.reverse ++ m.entry.sortText :: m.entry.sortText ::
      Marked.keys coming).Pairwise (· ≤ ·) := by
    rw [keys_append, keys_cons] at h
    simp only [List.pairwise_append, List.pairwise_cons, List.mem_cons] at h ⊢
    obtain ⟨hfront, ⟨hm, hback⟩, hcross⟩ := h
    refine ⟨hfront, ⟨?_, hm, hback⟩, ?_⟩
    · rintro key (rfl | hkey')
      · exact String.le_refl _
      · exact hm key hkey'
    · rintro a ha b (rfl | rfl | hb)
      · exact hcross a ha _ (Or.inl rfl)
      · exact hcross a ha _ (Or.inl rfl)
      · exact hcross a ha b (Or.inr hb)
  cases action with
  | delete =>
    rw [list_act_delete, ← eraseIdx_passed passed m coming, Marked.keys, ← List.eraseIdx_map]
    exact h.eraseIdx _
  | patch p =>
    rw [list_act_patch, keys_append, keys_cons, hkept p hkey, ← keys_cons, ← keys_append]
    exact h
  | move offset =>
    rw [keys_act_move]
    refine pairwise_insertIdx_eraseIdx _ String.le_refl _ _ _ _ ?_
      (getElem?_keys passed m coming _ (landing_le ..)) h
    rw [Marked.keys, List.length_map, List.length_append, List.length_reverse, List.length_cons]
    omega
  | duplicate placement p =>
    cases placement with
    | before =>
      rw [list_act_duplicate_before, keys_append, keys_cons, keys_cons, hkept p hkey]
      exact hdouble
    | after =>
      rw [list_act_duplicate_after, keys_append, keys_cons, keys_cons, hkept p hkey]
      exact hdouble

/-! ### All rules -/

section Rules

variable (rules : List Rule) (document : Document) (entries : List Entry) (deferred : DeferredMap)

theorem keys_untouched : Marked.keys (entries.map (⟨·, false⟩)) = entries.map (·.sortText) := by
  rw [Marked.keys, List.map_map]
  rfl

theorem map_sortText_applyAll :
    (applyAll rules document entries deferred).1.map (·.sortText) =
      Marked.keys (applyMarked (rules.filter (·.appliesTo document))
        (entries.map (⟨·, false⟩)) deferred).1 := by
  rw [applyAll, Marked.keys, List.map_map]
  rfl

theorem mem_keys_applyAll (key : String)
    (h : key ∈ (applyAll rules document entries deferred).1.map (·.sortText)) :
    key ∈ entries.map (·.sortText) ∨
      ∃ rule ∈ rules, rule.appliesTo document = true ∧ rule.action.key? = some key := by
  rw [map_sortText_applyAll] at h
  refine applyMarked_preserves (rules.filter (·.appliesTo document))
    (fun l _ => ∀ key ∈ Marked.keys l, key ∈ entries.map (·.sortText) ∨
      ∃ rule ∈ rules, rule.appliesTo document = true ∧ rule.action.key? = some key)
    ?_ _ deferred ?_ key h
  · intro rule hrule passed m coming deferred _ hold key hkey
    rcases mem_keys_act rule.action passed m coming deferred key hkey with hthere | hset
    · exact hold key hthere
    · obtain ⟨hmem, happlies⟩ := List.mem_filter.mp hrule
      exact Or.inr ⟨rule, hmem, happlies, hset⟩
  · intro key hkey
    rw [keys_untouched] at hkey
    exact Or.inl hkey

theorem sortedByKey_iff_map (entries : List Entry) :
    Entry.SortedByKey entries ↔ (entries.map (·.sortText)).Pairwise (· ≤ ·) := by
  rw [List.pairwise_map]
  rfl

/-- Rules that set no key leave a list in the order of its keys. -/
theorem sortedByKey_applyAll
    (hkeys : ∀ rule ∈ rules, rule.appliesTo document = true → rule.action.key? = none)
    (h : Entry.SortedByKey entries) :
    Entry.SortedByKey (applyAll rules document entries deferred).1 := by
  rw [sortedByKey_iff_map, map_sortText_applyAll]
  refine applyMarked_preserves (rules.filter (·.appliesTo document))
    (fun l _ => (Marked.keys l).Pairwise (· ≤ ·)) ?_ _ deferred ?_
  · intro rule hrule passed m coming deferred _ hsorted
    obtain ⟨hmem, happlies⟩ := List.mem_filter.mp hrule
    exact sorted_keys_act rule.action (hkeys rule hmem happlies) passed m coming deferred hsorted
  · rw [keys_untouched]
    exact (sortedByKey_iff_map entries).mp h

end Rules

end Rule

end CodeCompletion
