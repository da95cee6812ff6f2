import CodeCompletion.Types.Ty

namespace CodeCompletion.Ty

/-- The properties that a type declares itself; only an object type has any. -/
def declared (t : Ty) : List Property := (t.object?.map (·.properties)).getD []

def Declares (t : Ty) (name : String) : Prop := ∃ p ∈ t.declared, p.name = name

instance (t : Ty) (name : String) : Decidable (t.Declares name) :=
  inferInstanceAs (Decidable (∃ p ∈ t.declared, _))

/-- The properties of the first member whose names all members declare. -/
def commonProperties (t : Ty) : List Property :=
  ((t.members.head?.map declared).getD []).filter fun p => ∀ m ∈ t.members, m.Declares p.name

theorem declares_object (o : ObjectTy) (name : String) :
    (object o).Declares name ↔ ∃ p ∈ o.properties, p.name = name := Iff.rfl

theorem not_declares_of_no_object (t : Ty) (h : t.object? = none) (name : String) :
    ¬ t.Declares name := by
  simp [Declares, declared, h]

theorem commonProperties_of_no_object (t m : Ty) (hm : m ∈ t.members) (h : m.object? = none) :
    t.commonProperties = [] := by
  refine List.filter_eq_nil_iff.mpr fun p _ hcommon => ?_
  exact not_declares_of_no_object m h p.name (of_decide_eq_true hcommon m hm)

/-! ### Object members -/

def objectMembers (t : Ty) : List Ty := t.members.filter (·.object?.isSome)

theorem eq_object_of_object? (t : Ty) (o : ObjectTy) (h : t.object? = some o) : t = .object o := by
  cases t <;> cases h
  rfl

theorem filter_isObject (ms : List Ty) :
    ms.filter (·.object?.isSome) = (ms.filterMap object?).map .object := by
  induction ms with
  | nil => rfl
  | cons m ms ih =>
    cases hm : m.object? with
    | none => rw [List.filter_cons_of_neg (by simp [hm]), List.filterMap_cons_none hm, ih]
    | some o =>
      rw [List.filter_cons_of_pos (by simp [hm]), List.filterMap_cons_some hm, List.map_cons, ih,
        eq_object_of_object? m o hm]

/-- Members that are no object types are passed over. -/
theorem properties_eq_commonProperties_objectMembers (t : Ty) :
    t.properties = (union t.objectMembers).commonProperties := by
  cases t with
  | object o =>
    refine (List.filter_eq_self.mpr fun p hp => ?_).symm
    simp only [objectMembers, members, List.filter_cons, object?, Option.isSome_some, if_true,
      List.filter_nil, List.forall_mem_singleton, decide_eq_true_eq]
    exact ⟨p, hp, rfl⟩
  | union ms =>
    rw [objectMembers, members, filter_isObject, properties]
    cases ms.filterMap object? with
    | nil => rfl
    | cons first rest =>
      refine List.filter_congr fun p hp => ?_
      have hfirst : (object first).Declares p.name := ⟨p, hp, rfl⟩
      rw [Bool.eq_iff_iff, decide_eq_true_eq, List.all_eq_true]
      simp only [members, List.map_cons, List.forall_mem_cons, List.forall_mem_map, hfirst, true_and,
        declares_object, List.any_eq_true, beq_iff_eq]
  | _ => rfl

theorem objectMembers_of_all (t : Ty) (h : ∀ m ∈ t.members, m.object?.isSome = true) :
    t.objectMembers = t.members := List.filter_eq_self.mpr h

theorem commonProperties_ne_nil_iff (ms : List Ty) :
    (union ms).commonProperties ≠ [] ↔ ms ≠ [] ∧ ∃ name, ∀ m ∈ ms, m.Declares name := by
  cases ms with
  | nil => simp [commonProperties, members]
  | cons first rest =>
    rw [and_iff_right (List.cons_ne_nil first rest)]
    constructor
    · intro h
      obtain ⟨p, hp⟩ := List.exists_mem_of_ne_nil _ h
      exact ⟨p.name, of_decide_eq_true (List.mem_filter.mp hp).2⟩
    · rintro ⟨name, hall⟩
      obtain ⟨p, hp, rfl⟩ := hall first (List.mem_cons_self ..)
      exact List.ne_nil_of_mem (List.mem_filter.mpr ⟨hp, decide_eq_true hall⟩)

/-- The properties are those common to the members that are object types. They are common to all
members unless another member is there, and the object types have a name in common. -/
theorem properties_eq_commonProperties_iff (t : Ty) :
    t.properties = (union t.objectMembers).commonProperties ∧
      (t.properties = t.commonProperties ↔
        ¬ ((∃ m ∈ t.members, m.object? = none) ∧ t.objectMembers ≠ [] ∧
          ∃ name, ∀ m ∈ t.objectMembers, m.Declares name)) := by
  have hproperties := properties_eq_commonProperties_objectMembers t
  refine ⟨hproperties, ?_⟩
  rw [← commonProperties_ne_nil_iff, ← hproperties]
  by_cases hother : ∃ m ∈ t.members, m.object? = none
  · obtain ⟨m, hm, hnone⟩ := hother
    rw [commonProperties_of_no_object t m hm hnone, and_iff_right ⟨m, hm, hnone⟩, ne_eq,
      Decidable.not_not]
  · refine iff_of_true ?_ fun h => hother h.1
    have hall : ∀ m ∈ t.members, m.object?.isSome = true := fun m hm => by
      rw [Option.isSome_iff_ne_none]
      exact fun hnone => hother ⟨m, hm, hnone⟩
    rw [hproperties, objectMembers_of_all t hall]
    rfl

/-- The type `null` has no property, and those of the other member are still returned. -/
theorem properties_of_nullable_are_not_common :
    let nullable := union [.record [{ name := "a", ty := .string }], .null]
    nullable.properties = [{ name := "a", ty := .string }] ∧
      ¬ null.Declares "a" ∧ nullable.commonProperties = [] ∧
      nullable.properties ≠ nullable.commonProperties := by
  decide +kernel

end CodeCompletion.Ty
