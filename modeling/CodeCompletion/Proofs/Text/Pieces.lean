import CodeCompletion.Text.Split

namespace CodeCompletion.Text

variable (isSep : Char → Bool)

theorem pieces_append_sep (front : List Char) {sep : Char} (hsep : isSep sep = true)
    (back : List Char) :
    pieces isSep (front ++ sep :: back) = pieces isSep front ++ pieces isSep back := by
  induction front with
  | nil => simp only [List.nil_append, pieces, hsep, if_true, List.singleton_append]
  | cons c front ih =>
    rw [List.cons_append, pieces, ih, pieces]
    split
    · rfl
    · -- both cuts put the character in front of the first piece
      obtain ⟨p, ps, hps⟩ := List.exists_cons_of_ne_nil (pieces_ne_nil isSep front)
      rw [hps]
      rfl

theorem not_isSep_of_mem_pieces (s : List Char) :
    ∀ piece ∈ pieces isSep s, ∀ c ∈ piece, isSep c = false := by
  induction s with
  | nil => simp [pieces]
  | cons c s ih =>
    obtain ⟨p, ps, hps⟩ := List.exists_cons_of_ne_nil (pieces_ne_nil isSep s)
    rw [hps, List.forall_mem_cons] at ih
    rw [pieces, hps]
    split
    · exact List.forall_mem_cons.mpr ⟨by simp, List.forall_mem_cons.mpr ih⟩
    · rename_i hc
      exact List.forall_mem_cons.mpr
        ⟨List.forall_mem_cons.mpr ⟨Bool.eq_false_iff.mpr hc, ih.1⟩, ih.2⟩

theorem pieces_of_no_sep (s : List Char) (h : ∀ c ∈ s, isSep c = false) : pieces isSep s = [s] := by
  induction s with
  | nil => rfl
  | cons c s ih =>
    obtain ⟨hc, hs⟩ := List.forall_mem_cons.mp h
    rw [pieces, hc, ih hs]
    rfl

variable (sep : Char)

theorem intercalate_pieces (s : List Char) : [sep].intercalate (pieces (· == sep) s) = s := by
  induction s with
  | nil => rfl
  | cons c s ih =>
    obtain ⟨p, ps, hps⟩ := List.exists_cons_of_ne_nil (pieces_ne_nil (· == sep) s)
    rw [hps] at ih
    rw [pieces, hps]
    split
    · rename_i hc
      rw [List.intercalate_cons_cons, ih, eq_of_beq hc]
      rfl
    · rw [List.intercalate_cons_cons_left, ih]

theorem pieces_intercalate (parts : List (List Char)) (hne : parts ≠ [])
    (h : ∀ part ∈ parts, ∀ c ∈ part, (c == sep) = false) :
    pieces (· == sep) ([sep].intercalate parts) = parts := by
  induction parts with
  | nil => exact absurd rfl hne
  | cons part parts ih =>
    obtain ⟨hpart, hparts⟩ := List.forall_mem_cons.mp h
    cases parts with
    | nil => rw [List.intercalate_singleton, pieces_of_no_sep _ part hpart]
    | cons next parts =>
      rw [List.intercalate_cons_cons, List.append_assoc, List.singleton_append,
        pieces_append_sep (· == sep) part (beq_self_eq_true sep), pieces_of_no_sep _ part hpart,
        ih (List.cons_ne_nil _ _) hparts, List.singleton_append]

theorem dropWhile_intercalate (parts : List (List Char))
    (h : ∀ part ∈ parts, ∀ c ∈ part, (c == sep) = false) :
    ([sep].intercalate parts).dropWhile (· == sep) =
      [sep].intercalate (parts.dropWhile (·.isEmpty)) := by
  induction parts with
  | nil => rfl
  | cons part parts ih =>
    obtain ⟨hpart, hparts⟩ := List.forall_mem_cons.mp h
    cases part with
    | nil =>
      rw [List.dropWhile_cons_of_pos rfl, ← ih hparts]
      cases parts with
      | nil => rfl
      | cons next parts =>
        rw [List.intercalate_cons_cons]
        exact List.dropWhile_cons_of_pos (beq_self_eq_true sep)
    | cons c part =>
      have hc : ¬ (c == sep) = true := Bool.eq_false_iff.mp (hpart c (List.mem_cons_self ..))
      rw [List.dropWhile_cons_of_neg Bool.false_ne_true, List.intercalate_cons_cons_left]
      exact List.dropWhile_cons_of_neg hc

/-! ### The first separator -/

theorem cutFirst?_append (front back : List Char) {sep : Char}
    (hfront : ∀ c ∈ front, isSep c = false) (hsep : isSep sep = true) :
    cutFirst? isSep (front ++ sep :: back) = some (front, back) := by
  induction front with
  | nil => rw [List.nil_append, cutFirst?, if_pos hsep]
  | cons c front ih =>
    obtain ⟨hc, hfront⟩ := List.forall_mem_cons.mp hfront
    rw [List.cons_append, cutFirst?, if_neg (Bool.eq_false_iff.mp hc), ih hfront]
    rfl

theorem cutFirst?_eq_some_iff (s front back : List Char) :
    cutFirst? (· == sep) s = some (front, back) ↔ s = front ++ sep :: back ∧ sep ∉ front := by
  constructor
  · intro h
    induction s generalizing front with
    | nil => cases h
    | cons c s ih =>
      rw [cutFirst?] at h
      split at h
      · rename_i hc
        cases h
        exact ⟨congrArg (· :: back) (eq_of_beq hc), List.not_mem_nil⟩
      · rename_i hc
        obtain ⟨⟨front, back⟩, hcut, heq⟩ := Option.map_eq_some_iff.mp h
        cases heq
        obtain ⟨rfl, hfront⟩ := ih front hcut
        refine ⟨rfl, fun hmem => ?_⟩
        rcases List.mem_cons.mp hmem with rfl | hmem
        · exact hc (beq_self_eq_true sep)
        · exact hfront hmem
  · rintro ⟨rfl, hfront⟩
    refine cutFirst?_append (· == sep) front back (fun c hc => ?_) (beq_self_eq_true sep)
    exact beq_false_of_ne fun heq => hfront (heq ▸ hc)

theorem cutFirst?_eq_none_iff (s : List Char) : cutFirst? (· == sep) s = none ↔ sep ∉ s := by
  constructor
  · intro hnone hmem
    obtain ⟨front, back, hsplit, hfront⟩ := List.eq_append_cons_of_mem hmem
    rw [(cutFirst?_eq_some_iff sep s front back).mpr ⟨hsplit, hfront⟩] at hnone
    cases hnone
  · intro hmem
    cases hcut : cutFirst? (· == sep) s with
    | none => rfl
    | some cut =>
      refine absurd ?_ hmem
      rw [((cutFirst?_eq_some_iff sep s cut.1 cut.2).mp hcut).1]
      exact List.mem_append_right _ (List.mem_cons_self ..)

end CodeCompletion.Text
