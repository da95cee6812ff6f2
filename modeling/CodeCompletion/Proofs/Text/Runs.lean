namespace CodeCompletion.Text

variable {α : Type} (inRun : α → Bool) (items : List α)

theorem run_at_front :
    items = items.takeWhile inRun ++ items.dropWhile inRun ∧
      (∀ item ∈ items.takeWhile inRun, inRun item = true) ∧
      ∀ item ∈ (items.dropWhile inRun).head?, inRun item = false := by
  refine ⟨List.takeWhile_append_dropWhile.symm, List.all_eq_true.mp List.all_takeWhile, ?_⟩
  intro item hitem
  have hhead := List.head?_dropWhile_not inRun items
  rw [Option.mem_def.mp hitem] at hhead
  exact hhead

theorem run_at_end :
    items = (items.reverse.dropWhile inRun).reverse ++ (items.reverse.takeWhile inRun).reverse ∧
      (∀ item ∈ (items.reverse.takeWhile inRun).reverse, inRun item = true) ∧
      ∀ item ∈ (items.reverse.dropWhile inRun).reverse.getLast?, inRun item = false := by
  obtain ⟨hsplit, hrun, hhead⟩ := run_at_front inRun items.reverse
  refine ⟨?_, fun item hitem => hrun item (List.mem_reverse.mp hitem), ?_⟩
  · rw [← List.reverse_append, ← hsplit, List.reverse_reverse]
  · rw [List.getLast?_reverse]
    exact hhead

end CodeCompletion.Text
