import CodeCompletion.Proofs.Types.Leaves

/-!
# Laws of assignability

A type accepts another one exactly if it accepts each of its leaves, so all laws are first shown for
leaves. Main statement: a type accepts itself, a union accepts what one of its members does, and
widening both sides, or the expected one alone, keeps what is accepted.
-/

namespace CodeCompletion.Ty

variable (e t a : Ty)

/-! ### The two sides -/

theorem accepts_iff_leaves : accepts e a = true ↔ ∀ l ∈ a.leaves, accepts e l = true := by
  obtain ⟨test, htest⟩ := exists_leafTest e
  rw [htest, List.all_eq_true]
  refine forall₂_congr fun l hl => ?_
  rw [htest, all_leaves_of_not_union l (isUnion_of_mem_leaves a l hl)]

theorem accepts_union_right (ms : List Ty) :
    accepts e (.union ms) = true ↔ ∀ m ∈ ms, accepts e m = true := by
  rw [accepts_iff_leaves]
  simp only [mem_leaves_union]
  refine ⟨fun h m hm => (accepts_iff_leaves e m).mpr fun l hl => h l ⟨m, hm, hl⟩, ?_⟩
  rintro h l ⟨m, hm, hl⟩
  exact (accepts_iff_leaves e m).mp (h m hm) l hl

theorem accepts_any : accepts e .any = true := by
  cases e with
  | primitive p => cases p <;> rfl
  | _ => rfl

theorem accepts_never : accepts e .never = true := by
  cases e with
  | primitive p => cases p <;> rfl
  | _ => rfl

theorem accepts_union_left (branches : List Ty) (ha : a.isUnion = false) :
    accepts (.union branches) a = true ↔
      a = .any ∨ a = .never ∨ ∃ b ∈ branches, accepts b a = true := by
  rw [accepts, all_leaves_of_not_union a ha]
  split
  · simp
  · simp
  · rename_i hany hnever
    rw [acceptedByBranch_iff, or_iff_right hany, or_iff_right hnever]

theorem accepts_array (a : Ty) : accepts (.array e) (.array a) = accepts e a := by
  rw [accepts, all_leaves_of_not_union _ rfl]

theorem accepts_promise (a : Ty) : accepts (.promise e) (.promise a) = accepts e a := by
  rw [accepts, all_leaves_of_not_union _ rfl]

theorem accepts_object (o a : ObjectTy) :
    accepts (.object o) (.object a) = acceptsProperties o.properties a.properties := by
  rw [accepts, all_leaves_of_not_union _ rfl]

/-! ### Reflexivity -/

variable {e t a}

theorem accepts_of_mem (branches : List Ty) (ht : t ∈ branches) (h : accepts t a = true) :
    accepts (.union branches) a = true := by
  rw [accepts_iff_leaves] at h ⊢
  intro l hl
  have hleaf : l.isUnion = false := isUnion_of_mem_leaves a l hl
  exact (accepts_union_left l branches hleaf).mpr (Or.inr (Or.inr ⟨t, ht, h l hl⟩))

theorem accepts_self (t : Ty) : accepts t t = true := by
  induction t using inductionOnParts with
  | primitive p => cases p <;> simp [accepts, leaves, acceptsLeaf]
  | literal l => cases l <;> simp [accepts, leaves, acceptsLeaf, acceptsLiteral]
  | array t ih => rw [accepts_array, ih]
  | promise t ih => rw [accepts_promise, ih]
  | object o ih =>
    rw [accepts_object, acceptsProperties_iff]
    exact fun p hp => Or.inr ⟨p, hp, rfl, ih p hp⟩
  | union ms ih =>
    rw [accepts_union_right]
    exact fun m hm => accepts_of_mem ms hm (ih m hm)
  | named name => simp [accepts, leaves, acceptsLeaf]

/-! ### Widening -/

theorem accepts_unionOf (ts : List Ty) (ht : t ∈ ts) (h : accepts t a = true) :
    accepts (unionOf ts) a = true := by
  have hdistinct : t ∈ distinct ts := (mem_distinct ts t).mpr ht
  unfold unionOf
  split
  · rename_i u hsingle
    rw [hsingle, List.mem_singleton] at hdistinct
    exact hdistinct ▸ h
  · exact accepts_of_mem _ hdistinct h

theorem accepts_base (l : Literal) : accepts l.base (.literal l) = true := by
  cases l <;> simp [Literal.base, accepts, leaves, acceptsLeaf, acceptsLiteral]

theorem widen_accepts_self (t : Ty) : accepts t.widen t = true := by
  induction t using inductionOnParts with
  | literal l => exact accepts_base l
  | union ms ih =>
    rw [widen, widenAll_eq_map, accepts_union_right]
    exact fun m hm => accepts_unionOf _ (List.mem_map_of_mem hm) (ih m hm)
  | _ => exact accepts_self _

theorem widen_base (l : Literal) : l.base.widen = l.base := by
  cases l <;> rfl

/-- A single value is accepted by nothing but the type it belongs to, the two that accept
everything, and itself. -/
theorem accepts_literal_iff (e : Ty) (l : Literal) (he : e.isUnion = false) :
    accepts e (.literal l) = true ↔ e = .any ∨ e = .unknown ∨ e = l.base ∨ e = .literal l := by
  cases e with
  | primitive p =>
    cases p <;> cases l <;> simp [accepts, leaves, acceptsLeaf, acceptsLiteral, Literal.base]
  | literal k => cases l <;> simp [accepts, leaves, acceptsLeaf, acceptsLiteral, Literal.base]
  | named name => cases l <;> simp [accepts, leaves, acceptsLeaf, acceptsLiteral, Literal.base]
  | union branches => cases he
  | _ => cases l <;> simp [accepts, leaves, Literal.base]

/-- A single value is accepted by a type exactly if one of its leaves accepts it. -/
theorem accepts_literal_iff_leaf (e : Ty) (l : Literal) :
    accepts e (.literal l) = true ↔
      ∃ b ∈ e.leaves, b = .any ∨ b = .unknown ∨ b = l.base ∨ b = .literal l := by
  induction e using inductionOnParts with
  | union branches ih =>
    rw [accepts_union_left (.literal l) branches rfl, or_iff_right nofun, or_iff_right nofun]
    simp only [mem_leaves_union]
    constructor
    · rintro ⟨e, he, haccepts⟩
      obtain ⟨b, hb, hform⟩ := (ih e he).mp haccepts
      exact ⟨b, ⟨e, he, hb⟩, hform⟩
    · rintro ⟨b, ⟨e, he, hb⟩, hform⟩
      exact ⟨e, he, (ih e he).mpr ⟨b, hb, hform⟩⟩
  | _ =>
    rw [accepts_literal_iff _ l rfl, leaves_of_not_union _ rfl]
    simp only [List.mem_singleton, exists_eq_left]

theorem any_accepts (a : Ty) : accepts .any a = true := by
  simp [accepts, acceptsLeaf]

theorem unknown_accepts (a : Ty) : accepts .unknown a = true := by
  simp [accepts, acceptsLeaf]

theorem widen_accepts_base (e : Ty) (l : Literal) (he : e.isUnion = false)
    (h : accepts e (.literal l) = true) : accepts e.widen l.base = true := by
  rcases (accepts_literal_iff e l he).mp h with rfl | rfl | rfl | rfl
  · exact any_accepts _
  · exact unknown_accepts _
  · rw [widen_base]
    exact accepts_self _
  · exact accepts_self _

theorem literal_accepts_leaf (k : Literal) (l : Ty) (hl : l.isUnion = false)
    (h : accepts (.literal k) l = true) : l = .any ∨ l = .never ∨ l = .literal k := by
  cases l with
  | union ms => cases hl
  | primitive p => cases p <;> simp_all [accepts, leaves, acceptsLeaf]
  | literal m => simp_all [accepts, leaves, acceptsLeaf, acceptsLiteral]
  | _ => simp [accepts, leaves, acceptsLeaf] at h

theorem widen_accepts_leaf (e l : Ty) (hl : l.isUnion = false) (h : accepts e l = true) :
    accepts e.widen l.widen = true := by
  induction e using inductionOnParts with
  | union branches ih =>
    rw [widen, widenAll_eq_map]
    rcases (accepts_union_left l branches hl).mp h with rfl | rfl | ⟨b, hb, hbranch⟩
    · exact accepts_any _
    · exact accepts_never _
    · exact accepts_unionOf _ (List.mem_map_of_mem hb) (ih b hb hbranch)
  | literal k =>
    rcases literal_accepts_leaf k l hl h with rfl | rfl | rfl
    · exact accepts_any _
    · exact accepts_never _
    · exact accepts_self _
  | _ =>
    -- only a literal is changed on the right, and nothing on the left
    cases l with
    | literal m => exact widen_accepts_base _ m rfl h
    | union ms => cases hl
    | _ => exact h

theorem widen_accepts_widen (e a : Ty) (h : accepts e a = true) :
    accepts e.widen a.widen = true := by
  rw [accepts_iff_leaves] at h ⊢
  intro x hx
  obtain ⟨l, hl, rfl⟩ := (mem_leaves_widen a x).mp hx
  exact widen_accepts_leaf e l (isUnion_of_mem_leaves a l hl) (h l hl)

/-- A type accepts itself, a union accepts what one of its members does, a widened type accepts the
type it was made of, and widening both sides keeps what is accepted. Not everything is: a single
value is accepted exactly through a leaf that is itself, its type, or one of the two that accept
everything. -/
theorem acceptance_survives_widening :
    (∀ t, accepts t t = true) ∧
      (∀ branches t a, t ∈ branches → accepts t a = true → accepts (.union branches) a = true) ∧
      (∀ t, accepts t.widen t = true) ∧
      (∀ e a, accepts e a = true → accepts e.widen a.widen = true) ∧
      ∀ e l, accepts e (.literal l) = true ↔
        ∃ b ∈ e.leaves, b = .any ∨ b = .unknown ∨ b = l.base ∨ b = .literal l :=
  ⟨accepts_self, fun branches _ _ => accepts_of_mem branches, widen_accepts_self,
    widen_accepts_widen, accepts_literal_iff_leaf⟩

/-- A mode that is off or not set is one of the modes, also after the literals have fallen together.
-/
theorem acceptance_of_modes_survives_widening :
    let unset := union [.stringLiteral "off", .undefined]
    let modes := [.stringLiteral "on", unset]
    unset ∈ modes ∧ accepts unset (.stringLiteral "off") = true ∧
      accepts (.union modes) (.stringLiteral "off") = true ∧
      (union modes).widen = .union [.string, .union [.string, .undefined]] ∧
      accepts (.union [.string, .union [.string, .undefined]]) .string = true := by
  intro unset modes
  obtain ⟨-, hunion, -, hwiden, -⟩ := acceptance_survives_widening
  have hmem : unset ∈ modes := by decide +kernel
  have hoff : accepts unset (.stringLiteral "off") = true := by decide +kernel
  have hwidened : (union modes).widen = .union [.string, .union [.string, .undefined]] := by
    decide +kernel
  have hmodes := hunion modes unset (.stringLiteral "off") hmem hoff
  exact ⟨hmem, hoff, hmodes, hwidened, hwidened ▸ hwiden (.union modes) _ hmodes⟩

end CodeCompletion.Ty
