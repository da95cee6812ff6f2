import CodeCompletion.Types.Accepts
import CodeCompletion.Types.Widen

namespace CodeCompletion.Ty

/-! ### Induction -/

theorem sizeOf_ty_lt (o : ObjectTy) (p : Property) (h : p ∈ o.properties) :
    sizeOf p.ty < sizeOf o := by
  obtain ⟨name, props, calls, constructs⟩ := o
  have hp : sizeOf p < sizeOf props := List.sizeOf_lt_of_mem h
  obtain ⟨name', ty, optional, symbol⟩ := p
  simp only [ObjectOf.mk.sizeOf_spec, PropertyOf.mk.sizeOf_spec] at hp ⊢
  omega

/-- What holds of a type if it holds of its element, of its members and of its properties' types. -/
@[elab_as_elim]
theorem inductionOnParts {motive : Ty → Prop}
    (primitive : ∀ p, motive (.primitive p))
    (literal : ∀ l, motive (.literal l))
    (array : ∀ t, motive t → motive (.array t))
    (promise : ∀ t, motive t → motive (.promise t))
    (object : ∀ o : ObjectTy, (∀ p ∈ o.properties, motive p.ty) → motive (.object o))
    (union : ∀ ms, (∀ t ∈ ms, motive t) → motive (.union ms))
    (named : ∀ name, motive (.named name)) : (t : Ty) → motive t
  | .primitive p => primitive p
  | .literal l => literal l
  | .array t => array t (inductionOnParts primitive literal array promise object union named t)
  | .promise t => promise t (inductionOnParts primitive literal array promise object union named t)
  | .object o => object o fun p hp =>
      have _ := sizeOf_ty_lt o p hp
      inductionOnParts primitive literal array promise object union named p.ty
  | .union ms => union ms fun t _ =>
      inductionOnParts primitive literal array promise object union named t
  | .named name => named name
termination_by t => sizeOf t

/-! ### Leaves -/

theorem leavesAll_eq_flatMap (ts : List Ty) : leavesAll ts = ts.flatMap leaves := by
  induction ts with
  | nil => rfl
  | cons t ts ih => rw [leavesAll, ih, List.flatMap_cons]

theorem mem_leaves_union (ms : List Ty) (l : Ty) :
    l ∈ (union ms).leaves ↔ ∃ t ∈ ms, l ∈ t.leaves := by
  rw [leaves, leavesAll_eq_flatMap, List.mem_flatMap]

theorem leaves_of_not_union (t : Ty) (h : t.isUnion = false) : t.leaves = [t] := by
  cases t with
  | union ms => cases h
  | _ => rfl

theorem all_leaves_of_not_union (t : Ty) (h : t.isUnion = false) (test : Ty → Bool) :
    t.leaves.all test = test t := by
  rw [leaves_of_not_union t h, List.all_cons, List.all_nil, Bool.and_true]

theorem isUnion_of_mem_leaves (t l : Ty) (h : l ∈ t.leaves) : l.isUnion = false := by
  induction t using inductionOnParts with
  | union ms ih =>
    obtain ⟨t, ht, hl⟩ := (mem_leaves_union ms l).mp h
    exact ih t ht hl
  | _ =>
    cases List.mem_singleton.mp h
    rfl

/-! ### Distinct members -/

theorem mem_addNew (ts : List Ty) (t u : Ty) : u ∈ addNew ts t ↔ u ∈ ts ∨ u = t := by
  unfold addNew
  split
  · rename_i hthere
    rw [List.contains_iff_mem] at hthere
    exact ⟨Or.inl, fun h => h.elim id fun heq => heq ▸ hthere⟩
  · rw [List.mem_append, List.mem_singleton]

theorem mem_foldl_addNew (ts start : List Ty) (u : Ty) :
    u ∈ ts.foldl addNew start ↔ u ∈ start ∨ u ∈ ts := by
  induction ts generalizing start with
  | nil => simp
  | cons t ts ih => rw [List.foldl_cons, ih, mem_addNew, List.mem_cons, or_assoc]

theorem mem_distinct (ts : List Ty) (u : Ty) : u ∈ distinct ts ↔ u ∈ ts := by
  rw [distinct, mem_foldl_addNew, or_iff_right List.not_mem_nil]

/-- Leaving out repeated members loses no leaf, nor does a single member that stands for itself. -/
theorem mem_leaves_unionOf (ts : List Ty) (l : Ty) :
    l ∈ (unionOf ts).leaves ↔ ∃ t ∈ ts, l ∈ t.leaves := by
  have hdistinct : l ∈ (union (distinct ts)).leaves ↔ ∃ t ∈ ts, l ∈ t.leaves := by
    simp only [mem_leaves_union, mem_distinct]
  rw [← hdistinct, unionOf]
  split
  · rename_i t hsingle
    rw [hsingle, mem_leaves_union]
    simp
  · rfl

/-! ### Widening -/

theorem widenAll_eq_map (ts : List Ty) : widenAll ts = ts.map widen := by
  induction ts with
  | nil => rfl
  | cons t ts ih => rw [widenAll, ih, List.map_cons]

theorem isUnion_widen (t : Ty) (h : t.isUnion = false) : t.widen.isUnion = false := by
  cases t with
  | union ms => cases h
  | literal l => cases l <;> rfl
  | _ => rfl

theorem mem_leaves_widen (t x : Ty) : x ∈ t.widen.leaves ↔ ∃ l ∈ t.leaves, x = l.widen := by
  induction t using inductionOnParts with
  | union ms ih =>
    simp only [widen, widenAll_eq_map, mem_leaves_unionOf, List.mem_map, mem_leaves_union]
    constructor
    · rintro ⟨_, ⟨t, ht, rfl⟩, hx⟩
      obtain ⟨l, hl, rfl⟩ := (ih t ht).mp hx
      exact ⟨l, ⟨t, ht, hl⟩, rfl⟩
    · rintro ⟨l, ⟨t, ht, hl⟩, rfl⟩
      exact ⟨t.widen, ⟨t, ht, rfl⟩, (ih t ht).mpr ⟨l, hl, rfl⟩⟩
  | literal l =>
    rw [leaves_of_not_union _ (isUnion_widen (.literal l) rfl)]
    simp [leaves]
  | _ => simp [leaves, widen]

end CodeCompletion.Ty
