import CodeCompletion.Deferred

namespace CodeCompletion

/-! ### Metadata of one entry -/

namespace Deferred

/-- All edits are kept, and what was set is still set. -/
structure IsKeptIn (m m' : Deferred) : Prop where
  documentation : m.documentation.isSome = true → m'.documentation.isSome = true
  detailPrefix : m.detailPrefix.isSome = true → m'.detailPrefix.isSome = true
  replacementSpan : m.replacementSpan.isSome = true → m'.replacementSpan.isSome = true
  additionalEdits : m.additionalEdits.Sublist m'.additionalEdits

theorem IsKeptIn.refl (m : Deferred) : m.IsKeptIn m := ⟨id, id, id, List.Sublist.refl _⟩

theorem IsKeptIn.trans {a b c : Deferred} (hab : a.IsKeptIn b) (hbc : b.IsKeptIn c) :
    a.IsKeptIn c where
  documentation h := hbc.documentation (hab.documentation h)
  detailPrefix h := hbc.detailPrefix (hab.detailPrefix h)
  replacementSpan h := hbc.replacementSpan (hab.replacementSpan h)
  additionalEdits := hab.additionalEdits.trans hbc.additionalEdits

theorem isKeptIn_merge_left (earlier later : Deferred) :
    earlier.IsKeptIn (earlier.merge later) where
  documentation h := by rw [merge, Option.isSome_or, h, Bool.or_true]
  detailPrefix h := by rw [merge, Option.isSome_or, h, Bool.or_true]
  replacementSpan h := by rw [merge, Option.isSome_or, h, Bool.or_true]
  additionalEdits := List.sublist_append_left ..

theorem isKeptIn_merge_right (earlier later : Deferred) :
    later.IsKeptIn (earlier.merge later) where
  documentation h := by rw [merge, Option.isSome_or, h, Bool.true_or]
  detailPrefix h := by rw [merge, Option.isSome_or, h, Bool.true_or]
  replacementSpan h := by rw [merge, Option.isSome_or, h, Bool.true_or]
  additionalEdits := List.sublist_append_right ..

end Deferred

/-! ### Maps -/

namespace DeferredMap

theorem getElem?_mergeAt (m : DeferredMap) (name name' : String) (later : Deferred) :
    (m.mergeAt name later)[name']? =
      if name = name' then some ((m[name]?.getD {}).merge later) else m[name']? := by
  rw [mergeAt, Std.TreeMap.getElem?_alter]
  simp only [Std.LawfulEqCmp.compare_eq_iff_eq]

theorem getElem?_foldl_mergeAt (items : List (String × Deferred))
    (hkeys : items.Pairwise fun a b => a.1 ≠ b.1) (m : DeferredMap) (name : String) :
    (items.foldl (fun m item => mergeAt m item.1 item.2) m)[name]? =
      ((items.find? (·.1 == name)).map fun item => (m[name]?.getD {}).merge item.2).or
        m[name]? := by
  induction items generalizing m with
  | nil => rfl
  | cons item items ih =>
    obtain ⟨hfirst, hrest⟩ := List.pairwise_cons.mp hkeys
    rw [List.foldl_cons, ih hrest, getElem?_mergeAt, List.find?_cons]
    by_cases hname : item.1 = name
    · have hnone : items.find? (·.1 == name) = none := by
        rw [List.find?_eq_none]
        intro other hother heq
        exact hfirst other hother (hname.trans (eq_of_beq heq).symm)
      rw [hnone, hname, if_pos rfl, beq_self_eq_true]
      rfl
    · rw [if_neg hname, beq_false_of_ne hname]

theorem getElem?_mergeAll (m delta : DeferredMap) (name : String) :
    (m.mergeAll delta)[name]? =
      (delta[name]?.map fun later => (m[name]?.getD {}).merge later).or m[name]? := by
  have hkeys : delta.toList.Pairwise fun a b => a.1 ≠ b.1 := by
    refine Std.TreeMap.distinct_keys_toList.imp fun hne heq => hne ?_
    exact Std.LawfulEqCmp.compare_eq_iff_eq.mpr heq
  rw [mergeAll, Std.TreeMap.foldl_eq_foldl_toList, getElem?_foldl_mergeAt _ hkeys]
  cases hfind : delta.toList.find? (·.1 == name) with
  | none =>
    have hnone : delta[name]? = none := by
      rw [Option.eq_none_iff_forall_not_mem]
      intro later hlater
      have hmem := Std.TreeMap.mem_toList_iff_getElem?_eq_some.mpr hlater
      exact List.find?_eq_none.mp hfind _ hmem (beq_self_eq_true name)
    rw [hnone]
    rfl
  | some item =>
    have hbeq := List.find?_some hfind
    have hname : item.1 = name := eq_of_beq hbeq
    have hsome : delta[name]? = some item.2 := by
      rw [← hname]
      exact Std.TreeMap.mem_toList_iff_getElem?_eq_some.mp (List.mem_of_find?_eq_some hfind)
    rw [hsome]
    rfl

theorem isKeptIn_mergeAll (m delta : DeferredMap) (name : String) (d : Deferred)
    (h : m[name]? = some d ∨ delta[name]? = some d) :
    ∃ d', (m.mergeAll delta)[name]? = some d' ∧ d.IsKeptIn d' := by
  rw [getElem?_mergeAll]
  rcases h with hold | hnew
  · cases hdelta : delta[name]? with
    | none =>
      refine ⟨d, ?_, .refl d⟩
      rw [hold]
      rfl
    | some later => exact ⟨_, rfl, by rw [hold]; exact d.isKeptIn_merge_left later⟩
  · rw [hnew]
    exact ⟨_, rfl, Deferred.isKeptIn_merge_right _ d⟩

theorem getElem?_restrict (m : DeferredMap) (names : List String) (name : String)
    (h : name ∈ names) : (m.restrict names)[name]? = m[name]? := by
  rw [restrict, Std.TreeMap.getElem?_filter']
  cases m[name]? with
  | none => rfl
  | some d => exact Option.filter_some_pos (List.contains_iff_mem.mpr h)

theorem mem_of_getElem?_restrict (m : DeferredMap) (names : List String) (name : String)
    (d : Deferred) (h : (m.restrict names)[name]? = some d) : name ∈ names := by
  rw [restrict, Std.TreeMap.getElem?_filter', Option.filter_eq_some_iff] at h
  exact List.contains_iff_mem.mp h.2

theorem getElem?_foldl_insert (items : List (String × Deferred)) (m : DeferredMap) (name : String)
    (d : Deferred) (h : (items.foldl
      (fun m (item : String × Deferred) => m.insert item.1 item.2) m)[name]? = some d) :
    m[name]? = some d ∨ (name, d) ∈ items := by
  induction items generalizing m with
  | nil => exact Or.inl h
  | cons item items ih =>
    rcases ih _ h with hold | hmem
    · rw [Std.TreeMap.getElem?_insert] at hold
      split at hold
      · rename_i hname
        rw [Std.LawfulEqCmp.compare_eq_iff_eq] at hname
        cases hold
        rw [← hname]
        exact Or.inr (List.mem_cons_self ..)
      · exact Or.inl hold
    · exact Or.inr (List.mem_cons_of_mem _ hmem)

theorem mem_of_getElem?_ofList (items : List (String × Deferred)) (name : String) (d : Deferred)
    (h : (ofList items)[name]? = some d) : (name, d) ∈ items := by
  refine (getElem?_foldl_insert items ∅ name d h).resolve_left ?_
  rw [Std.TreeMap.getElem?_emptyc]
  exact nofun

theorem isSome_foldl_insert (items : List (String × Deferred)) (m : DeferredMap) (name : String)
    (h : m[name]?.isSome = true ∨ ∃ d, (name, d) ∈ items) :
    (items.foldl (fun m (item : String × Deferred) => m.insert item.1 item.2) m)[name]?.isSome =
      true := by
  induction items generalizing m with
  | nil => exact h.resolve_right fun ⟨_, hnil⟩ => List.not_mem_nil hnil
  | cons item items ih =>
    refine ih _ ?_
    rw [Std.TreeMap.getElem?_insert]
    by_cases hname : item.1 = name
    · rw [if_pos (Std.LawfulEqCmp.compare_eq_iff_eq.mpr hname)]
      exact Or.inl rfl
    · rw [if_neg fun heq => hname (Std.LawfulEqCmp.compare_eq_iff_eq.mp heq)]
      refine h.imp_right fun ⟨d, hd⟩ => ⟨d, ?_⟩
      rcases List.mem_cons.mp hd with rfl | hd
      · exact absurd rfl hname
      · exact hd

theorem exists_getElem?_ofList (items : List (String × Deferred)) (name : String) (d : Deferred)
    (h : (name, d) ∈ items) : ∃ d', (ofList items)[name]? = some d' :=
  Option.isSome_iff_exists.mp (isSome_foldl_insert items ∅ name (Or.inr ⟨d, h⟩))

end DeferredMap

end CodeCompletion
