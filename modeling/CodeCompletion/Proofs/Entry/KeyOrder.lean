import CodeCompletion.Stage.Ranking

namespace CodeCompletion.Entry

def SortedByKey (entries : List Entry) : Prop :=
  entries.Pairwise fun a b => a.sortText ≤ b.sortText

theorem keyLe_iff (a b : Entry) : a.keyLe b = true ↔ a.sortText ≤ b.sortText := decide_eq_true_iff

theorem keyLe_trans (a b c : Entry) (hab : a.keyLe b = true) (hbc : b.keyLe c = true) :
    a.keyLe c = true := by
  rw [keyLe_iff] at *
  exact String.le_trans hab hbc

theorem keyLe_total (a b : Entry) : (a.keyLe b || b.keyLe a) = true := by
  rw [Bool.or_eq_true, keyLe_iff, keyLe_iff]
  exact String.le_total a.sortText b.sortText

theorem sortedByKey_iff_keyLe (entries : List Entry) :
    SortedByKey entries ↔ entries.Pairwise fun a b => a.keyLe b = true := by
  simp only [SortedByKey, keyLe_iff]

theorem sortedByKey_sortByKey (entries : List Entry) : SortedByKey (sortByKey entries) := by
  rw [sortedByKey_iff_keyLe]
  exact List.pairwise_mergeSort keyLe_trans keyLe_total entries

theorem sortByKey_of_sortedByKey (entries : List Entry) (h : SortedByKey entries) :
    sortByKey entries = entries :=
  List.mergeSort_of_pairwise ((sortedByKey_iff_keyLe entries).mp h)

theorem perm_sortByKey (entries : List Entry) : (sortByKey entries).Perm entries :=
  List.mergeSort_perm entries _

theorem isSortedByKey_iff (entries : List Entry) :
    isSortedByKey entries = true ↔ SortedByKey entries := by
  fun_induction isSortedByKey entries with
  | case1 a b rest ih =>
    rw [Bool.and_eq_true, keyLe_iff, ih, SortedByKey, SortedByKey, List.pairwise_cons (a := a)]
    constructor
    · rintro ⟨hab, hrest⟩
      refine ⟨fun c hc => ?_, hrest⟩
      rcases List.mem_cons.mp hc with rfl | hc
      · exact hab
      · exact String.le_trans hab ((List.pairwise_cons.mp hrest).1 c hc)
    · rintro ⟨ha, hrest⟩
      exact ⟨ha b (List.mem_cons_self ..), hrest⟩
  | case2 entries hshort =>
    refine ⟨fun _ => ?_, fun _ => rfl⟩
    cases entries with
    | nil => exact List.Pairwise.nil
    | cons a rest =>
      cases rest with
      | nil => exact List.pairwise_singleton _ a
      | cons b rest => exact absurd rfl (hshort a b rest)

end CodeCompletion.Entry
