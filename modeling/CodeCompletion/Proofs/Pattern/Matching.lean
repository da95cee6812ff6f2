import CodeCompletion.Proofs.Pattern.Wildcards
import CodeCompletion.Proofs.Text.Pieces

namespace CodeCompletion

theorem Text.exists_middle_iff (head tail s : List Char) :
    (∃ middle, s = head ++ middle ++ tail) ↔
      head.length + tail.length ≤ s.length ∧ head <+: s ∧ tail <:+ s := by
  constructor
  · rintro ⟨middle, rfl⟩
    refine ⟨?_, ⟨middle ++ tail, (List.append_assoc ..).symm⟩, ⟨head ++ middle, rfl⟩⟩
    simp only [List.length_append]
    omega
  · rintro ⟨hlength, hhead, ⟨front, rfl⟩⟩
    rw [List.length_append] at hlength
    have hfront : head <+: front :=
      List.prefix_of_prefix_length_le hhead (List.prefix_append front tail) (by omega)
    obtain ⟨middle, rfl⟩ := hfront
    exact ⟨middle, rfl⟩

namespace NamePattern

/-- Whether a text stands for a name when it is taken as a pattern. -/
inductive StandsFor (text name : String) : Prop where
  /-- There is nothing to fill in. -/
  | itself (hstar : '*' ∉ text.toList) (hname : name = text)
  /-- The first `*` is filled in. -/
  | filled (head middle tail : String) (hhead : '*' ∉ head.toList)
      (htext : text = head ++ "*" ++ tail) (hname : name = head ++ middle ++ tail)

def ofText (text : String) : NamePattern :=
  match Text.cutFirst? (· == '*') text.toList with
  | none => .exact text
  | some (head, tail) => .wildcard (String.ofList head) (String.ofList tail)

variable (text name : String)

/-- Only texts that have more than one `*` are no patterns. -/
theorem compile_eq :
    compile text =
      if isReadable text then .ok (ofText text) else .error (.tooManyWildcards text) := by
  unfold compile ofText isReadable
  rw [Text.count_eq_of_cutFirst?]
  cases Text.cutFirst? (· == '*') text.toList with
  | none => rfl
  | some cut =>
    obtain ⟨head, tail⟩ := cut
    dsimp only
    by_cases hstar : '*' ∈ tail
    · have hcount : ¬ tail.count '*' + 1 ≤ 1 := by
        have hpos := List.count_pos_iff.mpr hstar
        omega
      simp only [List.contains_iff_mem.mpr hstar, hcount, if_true, decide_false, Bool.false_eq_true,
        if_false]
    · have hcontains : tail.contains '*' = false :=
        Bool.eq_false_iff.mpr (mt List.contains_iff_mem.mp hstar)
      simp only [hcontains, List.count_eq_zero.mpr hstar, Bool.false_eq_true, if_false, Nat.zero_add,
        Nat.le_refl, decide_true, if_true]

theorem isWildcard_ofText : (ofText text).isWildcard = true ↔ '*' ∈ text.toList := by
  unfold ofText
  cases hcut : Text.cutFirst? (· == '*') text.toList with
  | none =>
    exact iff_of_false Bool.false_ne_true ((Text.cutFirst?_eq_none_iff '*' _).mp hcut)
  | some cut =>
    refine iff_of_true rfl ?_
    rw [((Text.cutFirst?_eq_some_iff '*' _ cut.1 cut.2).mp hcut).1]
    exact List.mem_append_right _ (List.mem_cons_self ..)

theorem accepts_wildcard_iff (head tail : List Char) :
    (wildcard (String.ofList head) (String.ofList tail)).accepts name = true ↔
      ∃ middle, name.toList = head ++ middle ++ tail := by
  rw [Text.exists_middle_iff, accepts, Bool.and_eq_true, Bool.and_eq_true, decide_eq_true_iff,
    Text.startsWith, Text.endsWith, List.isPrefixOf_iff_prefix, List.isSuffixOf_iff_suffix, and_assoc]
  simp only [String.toList_ofList, String.length_ofList, String.length_toList]

/-- A pattern accepts exactly the names that its text stands for. -/
theorem accepts_ofText_iff : (ofText text).accepts name = true ↔ StandsFor text name := by
  unfold ofText
  cases hcut : Text.cutFirst? (· == '*') text.toList with
  | none =>
    have hstar := (Text.cutFirst?_eq_none_iff '*' _).mp hcut
    show (text == name) = true ↔ _
    rw [beq_iff_eq]
    constructor
    · exact fun h => .itself hstar h.symm
    · rintro (⟨-, rfl⟩ | ⟨head, middle, tail, -, rfl, -⟩)
      · rfl
      · exact absurd (by simp) hstar
  | some cut =>
    obtain ⟨head, tail⟩ := cut
    have hsplit := (Text.cutFirst?_eq_some_iff '*' _ head tail).mp hcut
    refine (accepts_wildcard_iff name head tail).trans ⟨?_, ?_⟩
    · rintro ⟨middle, hname⟩
      refine .filled (String.ofList head) (String.ofList middle) (String.ofList tail) ?_ ?_ ?_
      · rw [String.toList_ofList]
        exact hsplit.2
      · rw [← String.toList_inj, hsplit.1]
        simp
      · rw [← String.toList_inj, hname]
        simp
    · rintro (⟨hstar, -⟩ | ⟨head', middle, tail', hhead, rfl, rfl⟩)
      · exact absurd (by rw [hsplit.1]; simp) hstar
      · have hcut' := (Text.cutFirst?_eq_some_iff '*' _ head'.toList tail'.toList).mpr
          ⟨rfl, hhead⟩
        have htext : (head' ++ "*" ++ tail').toList = head'.toList ++ '*' :: tail'.toList := by simp
        rw [htext, hcut'] at hcut
        cases hcut
        exact ⟨middle.toList, by simp⟩

end NamePattern

end CodeCompletion
