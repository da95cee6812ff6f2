import CodeCompletion.Json.Decode

namespace CodeCompletion

namespace Decode

/-! ### Plain values -/

/-- Numbers that fit in 32 bits without sign. -/
def IsNat32 (n : Nat) : Prop := n ≤ 4294967295

instance (n : Nat) : Decidable (IsNat32 n) := inferInstanceAs (Decidable (n ≤ 4294967295))

theorem nat32_nat (n : Nat) (h : IsNat32 n) : nat32 (.nat n) = some n := by
  have hrange : (0 : Int) ≤ n ∧ (n : Int) ≤ 4294967295 := ⟨Int.natCast_nonneg n, Int.ofNat_le.mpr h⟩
  rw [nat32, Json.nat, intWithin, if_pos hrange]
  rfl

theorem nullable_ofOption {α : Type} (encode : α → Json) (decode : Decoder α) (o : Option α)
    (hnull : ∀ a, encode a ≠ .null) (h : ∀ a ∈ o, decode (encode a) = some a) :
    nullable decode (Json.ofOption encode o) = some o := by
  cases o with
  | none => rfl
  | some a =>
    have hread := h a rfl
    have hpresent := hnull a
    rw [Json.ofOption]
    unfold nullable
    split
    · exact absurd ‹_› hpresent
    · rw [hread]
      rfl

theorem nullable_string (o : Option String) : nullable string (Json.ofOption .str o) = some o :=
  nullable_ofOption .str string o (fun _ h => nomatch h) fun _ _ => rfl

theorem nullable_nat32 (o : Option Nat) (h : ∀ n ∈ o, IsNat32 n) :
    nullable nat32 (Json.ofOption .nat o) = some o :=
  nullable_ofOption .nat nat32 o (fun _ h => nomatch h) fun n hn => nat32_nat n (h n hn)

theorem list_map {α : Type} (encode : α → Json) (decode : Decoder α) (items : List α)
    (h : ∀ a ∈ items, decode (encode a) = some a) :
    list decode (.arr (items.map encode)) = some items := by
  rw [list]
  induction items with
  | nil => rfl
  | cons a items ih =>
    rw [List.map_cons, List.mapM_cons, h a (List.mem_cons_self ..),
      ih fun b hb => h b (List.mem_cons_of_mem _ hb)]
    rfl

/-! ### Fields of an object -/

section Fields

variable {α : Type} {fields : Json.Fields} {key : String} {decode : Decoder α} {j : Json} {a : α}

theorem bind_of_eq {β : Type} {reader : Reader α} {next : α → Reader β} {src : Source}
    (h : reader src = some (a, src)) : (reader >>= next) src = next a src := by
  simp only [bind, StateT.bind, h, Option.bind_some]

theorem next_keyed {o : Option Json} (h : fields.lookup key = o) :
    next key (.keyed fields) = some (o, .keyed fields) := by
  rw [next, h]

theorem required_keyed (hj : fields.lookup key = some j) (ha : decode j = some a) :
    required key decode (.keyed fields) = some (a, .keyed fields) := by
  rw [required, bind_of_eq (next_keyed hj)]
  dsimp only
  rw [ha]
  rfl

theorem withDefault_keyed {default : α} (hj : fields.lookup key = some j)
    (ha : decode j = some a) :
    withDefault key decode default (.keyed fields) = some (a, .keyed fields) := by
  rw [withDefault, bind_of_eq (next_keyed hj)]
  dsimp only
  rw [ha]
  rfl

theorem optional_keyed {o : Option α} (encode : α → Json)
    (hj : fields.lookup key = o.map encode) (hnull : ∀ a, encode a ≠ .null)
    (ha : ∀ a ∈ o, decode (encode a) = some a) :
    optional key decode (.keyed fields) = some (o, .keyed fields) := by
  rw [optional, bind_of_eq (next_keyed hj)]
  cases o with
  | none => rfl
  | some a =>
    have hread : nullable decode (encode a) = some (some a) :=
      nullable_ofOption encode decode (some a) hnull ha
    dsimp only [Option.map_some]
    rw [hread]
    rfl

theorem record_keyed {reader : Reader α} (h : reader (.keyed fields) = some (a, .keyed fields)) :
    record reader (.obj fields) = some a := by
  rw [record, h]
  rfl

end Fields

end Decode

end CodeCompletion
