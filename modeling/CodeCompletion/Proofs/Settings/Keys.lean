import CodeCompletion.Proofs.Text.ByteOrder
import CodeCompletion.Proofs.Text.Pieces
import CodeCompletion.Settings.Flat
import Mathlib.Data.List.TakeWhile

namespace CodeCompletion.Settings

/-- Whether a key comes before another one: its bytes are the smaller ones. -/
def Precedes (a b : String) : Prop := Text.bytes a < Text.bytes b

instance (a b : String) : Decidable (Precedes a b) := inferInstanceAs (Decidable (_ < _))

/-- Whether a key goes on behind `p` and a full stop. -/
def DottedPrefix (p key : String) : Prop := ∃ rest, key = p ++ "." ++ rest

def withoutLeadingStops (key : String) : String := String.ofList (key.toList.dropWhile (· == '.'))

variable (a b key p : String)

theorem precedes_iff : Precedes a b ↔ a < b := Text.bytes_lt_bytes_iff a b

/-! ### Segments -/

theorem map_toList_segments :
    (segments key).map String.toList = Text.pieces (· == '.') key.toList := by
  rw [segments, Text.splitOn, List.map_map]
  exact List.map_id'' (fun _ => String.toList_ofList) _

theorem segments_ne_nil : segments key ≠ [] := fun h =>
  Text.pieces_ne_nil (· == '.') key.toList (by rw [← map_toList_segments, h, List.map_nil])

theorem no_stop_of_mem_segments :
    ∀ part ∈ (segments key).map String.toList, ∀ c ∈ part, (c == '.') = false := by
  rw [map_toList_segments]
  exact Text.not_isSep_of_mem_pieces _ key.toList

theorem intercalate_segments : ".".intercalate (segments key) = key := by
  rw [← String.toList_inj, String.toList_intercalate, map_toList_segments]
  exact Text.intercalate_pieces '.' key.toList

theorem segments_injective (h : segments a = segments b) : a = b := by
  rw [← intercalate_segments a, h, intercalate_segments b]

theorem segments_append (rest : String) :
    segments (p ++ "." ++ rest) = segments p ++ segments rest := by
  have hsplit : (p ++ "." ++ rest).toList = p.toList ++ '.' :: rest.toList := by
    rw [String.toList_append, String.toList_append, List.append_assoc]
    rfl
  rw [segments, Text.splitOn, hsplit, Text.pieces_append_sep _ _ rfl, List.map_append]
  rfl

theorem segments_intercalate_of_prefix (path : List String) (hne : path ≠ [])
    (h : path <+: segments key) : segments (".".intercalate path) = path := by
  have hfree : ∀ part ∈ path.map String.toList, ∀ c ∈ part, (c == '.') = false := fun part hpart =>
    no_stop_of_mem_segments key part ((h.map String.toList).subset hpart)
  have hpieces : Text.pieces (· == '.') (".".intercalate path).toList = path.map String.toList := by
    rw [String.toList_intercalate]
    exact Text.pieces_intercalate '.' _ (fun hnil => hne (List.map_eq_nil_iff.mp hnil)) hfree
  rw [segments, Text.splitOn, hpieces, List.map_map]
  exact List.map_id'' (fun _ => String.ofList_toList) path

theorem dottedPrefix_iff :
    DottedPrefix p key ↔ segments p <+: segments key ∧ segments p ≠ segments key := by
  constructor
  · rintro ⟨rest, rfl⟩
    rw [segments_append]
    refine ⟨List.prefix_append .., fun heq => ?_⟩
    exact segments_ne_nil rest (List.self_eq_append_right.mp heq)
  · rintro ⟨⟨rest, hrest⟩, hne⟩
    have hrestne : rest ≠ [] := by
      rintro rfl
      exact hne (by rw [← hrest, List.append_nil])
    refine ⟨".".intercalate rest, ?_⟩
    rw [← intercalate_segments key, ← hrest,
      String.intercalate_append_of_ne_nil (segments_ne_nil p) hrestne, intercalate_segments]

/-! ### Order -/

variable {a b key p}

theorem DottedPrefix.precedes (h : DottedPrefix p key) : Precedes p key := by
  obtain ⟨rest, rfl⟩ := h
  rw [precedes_iff, String.lt_iff, String.append_assoc, String.toList_append]
  have hlt : [] < ("." ++ rest).toList := by
    rw [String.toList_append]
    exact List.nil_lt_cons ..
  simpa using List.append_left_lt hlt

theorem Precedes.asymm (h : Precedes a b) : ¬ Precedes b a := List.lt_asymm h

theorem Precedes.ne (h : Precedes a b) : a ≠ b := by
  rintro rfl
  exact List.lt_irrefl _ h

theorem Precedes.not_prefix (h : Precedes a b) : ¬ segments b <+: segments a := by
  intro hbegins
  by_cases heq : segments b = segments a
  · exact h.ne (segments_injective b a heq).symm
  · exact h.asymm ((dottedPrefix_iff a b).mpr ⟨hbegins, heq⟩).precedes

/-! ### Paths as messages show them -/

variable (key p)

theorem showPath_segments : showPath (segments p) = withoutLeadingStops p := by
  have hempty : (String.isEmpty : String → Bool) = fun s => s.toList.isEmpty := by
    funext s
    rw [Bool.eq_iff_iff, String.isEmpty_iff, List.isEmpty_iff, String.toList_eq_nil_iff]
  have hmap : ((segments p).dropWhile fun s => s.toList.isEmpty).map String.toList =
      ((segments p).map String.toList).dropWhile (·.isEmpty) := by
    rw [List.dropWhile_map]
    rfl
  have hstop : ".".toList = ['.'] := rfl
  rw [← String.toList_inj, showPath, withoutLeadingStops, String.toList_intercalate, hstop, hempty,
    hmap, ← Text.dropWhile_intercalate '.' _ (no_stop_of_mem_segments p), map_toList_segments,
    Text.intercalate_pieces, String.toList_ofList]

theorem withoutLeadingStops_eq_iff : withoutLeadingStops p = p ↔ p.toList.head? ≠ some '.' := by
  rw [← String.toList_inj, withoutLeadingStops, String.toList_ofList]
  cases p.toList with
  | nil => simp
  | cons c s => simp [List.dropWhile_eq_self_iff]

end CodeCompletion.Settings
