namespace CodeCompletion.StableSort

variable {α : Type} {le : α → α → Bool}

theorem front_eq_filter (q : α → Bool) (front back : List α) (hfront : ∀ a ∈ front, q a = true)
    (hback : ∀ a ∈ back, q a = false) : (front ++ back).filter q = front := by
  have hnone : back.filter q = [] := by
    rw [List.filter_eq_nil_iff]
    intro a ha
    rw [hback a ha]
    exact Bool.false_ne_true
  rw [List.filter_append, List.filter_eq_self.mpr hfront, hnone, List.append_nil]

theorem append_inj_of_test (q : α → Bool) (xs ys xs' ys' : List α) (h : xs ++ ys = xs' ++ ys')
    (hxs : ∀ a ∈ xs, q a = true) (hys : ∀ a ∈ ys, q a = false)
    (hxs' : ∀ a ∈ xs', q a = true) (hys' : ∀ a ∈ ys', q a = false) : xs = xs' ∧ ys = ys' := by
  have hfront : xs = xs' := by
    rw [← front_eq_filter q xs ys hxs hys, h, front_eq_filter q xs' ys' hxs' hys']
  rw [hfront] at h
  exact ⟨hfront, List.append_cancel_left h⟩

section Order

variable (trans : ∀ a b c, le a b = true → le b c = true → le a c = true)
  (total : ∀ a b, (le a b || le b a) = true)

include trans total

/-- Sorting puts the first item in front of all those that it does not exceed, and behind all
others. -/
theorem mergeSort_cons_split (a : α) (l : List α) :
    ∃ l₁ l₂, (a :: l).mergeSort le = l₁ ++ a :: l₂ ∧ l.mergeSort le = l₁ ++ l₂ ∧
      (∀ b ∈ l₁, (!le a b) = true) ∧ ∀ b ∈ l₂, (!le a b) = false := by
  obtain ⟨l₁, l₂, hcons, htail, hfront⟩ := List.mergeSort_cons trans total a l
  refine ⟨l₁, l₂, hcons, htail, hfront, fun b hb => ?_⟩
  have hsorted := List.pairwise_mergeSort trans total (a :: l)
  rw [hcons] at hsorted
  have hback := (List.pairwise_append.mp hsorted).2.1
  rw [(List.pairwise_cons.mp hback).1 b hb]
  rfl

theorem filter_mergeSort (p : α → Bool) (l : List α) :
    (l.mergeSort le).filter p = (l.filter p).mergeSort le := by
  induction l with
  | nil => rw [List.filter_nil, List.mergeSort_nil, List.filter_nil]
  | cons a l ih =>
    obtain ⟨l₁, l₂, hcons, htail, hfront, hback⟩ := mergeSort_cons_split trans total a l
    rw [htail, List.filter_append] at ih
    rw [hcons, List.filter_append]
    cases ha : p a with
    | false =>
      have hout : ¬ p a = true := by rw [ha]; exact Bool.false_ne_true
      rw [List.filter_cons_of_neg hout, List.filter_cons_of_neg hout, ih]
    | true =>
      obtain ⟨k₁, k₂, hcons', htail', hfront', hback'⟩ :=
        mergeSort_cons_split trans total a (l.filter p)
      rw [List.filter_cons_of_pos ha, List.filter_cons_of_pos ha, hcons']
      rw [htail'] at ih
      obtain ⟨hk₁, hk₂⟩ := append_inj_of_test (!le a ·) _ _ _ _ ih
        (fun b hb => hfront b (List.mem_filter.mp hb).1)
        (fun b hb => hback b (List.mem_filter.mp hb).1) hfront' hback'
      rw [hk₁, hk₂]

/-- The first item of a sorted list that passes a test exceeds none that pass it, and of those that
tie with it it is the one that stands first in the list as it was. -/
theorem first_mergeSort (p : α → Bool) (l : List α) (a : α)
    (h : (l.mergeSort le).find? p = some a) (R : α → α → Prop) (hordered : l.Pairwise R) (b : α)
    (hb : b ∈ l) (hpb : p b = true) :
    le a b = true ∧ (le b a = true → b = a ∨ R a b) := by
  obtain ⟨hpa, front, back, hsplit, hfront⟩ := List.find?_eq_some_iff_append.mp h
  have hsorted := List.pairwise_mergeSort trans total l
  rw [hsplit] at hsorted
  have hback := List.pairwise_cons.mp (List.pairwise_append.mp hsorted).2.1
  have hrefl (c : α) : le c c = true := by simpa using total c c
  have hleast (c : α) (hc : c ∈ l) (hpc : p c = true) : le a c = true := by
    have hmem : c ∈ front ++ a :: back := hsplit ▸ List.mem_mergeSort.mpr hc
    rcases List.mem_append.mp hmem with hc | hc
    · exact absurd hpc (by simpa using hfront c hc)
    · rcases List.mem_cons.mp hc with rfl | hc
      · exact hrefl c
      · exact hback.1 c hc
  refine ⟨hleast b hb hpb, fun hba => ?_⟩
  -- The items that tie with the first one keep the order of the list.
  have hties : (l.filter fun c => p c && le c a).Pairwise fun c d => le c d = true := by
    rw [List.pairwise_filter]
    refine hordered.imp_of_mem fun {c d} _ hd _ hqc hqd => ?_
    rw [Bool.and_eq_true] at hqc hqd
    exact trans c a d hqc.2 (hleast d hd hqd.1)
  have hskipped : (front.filter fun c => p c && le c a) = [] := by
    rw [List.filter_eq_nil_iff]
    intro c hc hq
    rw [Bool.and_eq_true] at hq
    exact absurd hq.1 (by simpa using hfront c hc)
  have hfirst : (l.filter fun c => p c && le c a) = a :: back.filter fun c => p c && le c a := by
    rw [← List.mergeSort_of_pairwise hties, ← filter_mergeSort trans total, hsplit,
      List.filter_append, hskipped, List.nil_append, List.filter_cons_of_pos]
    rw [hpa, hrefl, Bool.and_self]
  have hmem : b ∈ l.filter fun c => p c && le c a :=
    List.mem_filter.mpr ⟨hb, by rw [hpb, hba, Bool.and_self]⟩
  have hkept := hordered.filter fun c => p c && le c a
  rw [hfirst] at hmem hkept
  rcases List.mem_cons.mp hmem with rfl | hmem
  · exact Or.inl rfl
  · exact Or.inr ((List.pairwise_cons.mp hkept).1 b hmem)

end Order

theorem mergeSort_congr {le' : α → α → Bool} (l : List α)
    (h : ∀ a ∈ l, ∀ b ∈ l, le a b = le' a b) : l.mergeSort le = l.mergeSort le' := by
  have hmap := @List.map_mergeSort α α le le' id l h
  rw [List.map_id, List.map_id] at hmap
  exact hmap

end CodeCompletion.StableSort
