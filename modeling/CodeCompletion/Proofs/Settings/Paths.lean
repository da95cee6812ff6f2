import CodeCompletion.Settings.Flat

namespace CodeCompletion.Json

def isObject : Json → Bool
  | .obj _ => true
  | _ => false

/-- The value that a path of keys leads to. -/
def at? : Json → List String → Option Json
  | j, [] => some j
  | j, key :: path => (j.get? key).bind fun inner => at? inner path

theorem at?_append (j : Json) (path rest : List String) :
    j.at? (path ++ rest) = (j.at? path).bind fun inner => inner.at? rest := by
  induction path generalizing j with
  | nil => rfl
  | cons key path ih =>
    rw [List.cons_append, at?, at?]
    cases j.get? key with
    | none => rfl
    | some inner => exact ih inner

theorem at?_of_not_object (j : Json) (hj : j.isObject = false) (path : List String) (x : Json)
    (h : j.at? path = some x) : path = [] ∧ x = j := by
  cases path with
  | nil =>
    cases h
    exact ⟨rfl, rfl⟩
  | cons key path =>
    cases j with
    | obj fields => cases hj
    | _ => cases h

/-! ### Fields -/

namespace Fields

theorem get?_cons (k : String) (v : Json) (fields : Fields) (key : String) :
    get? ((k, v) :: fields) key = if key = k then some v else get? fields key := by
  unfold get?
  rw [List.lookup_cons]
  by_cases h : key = k
  · rw [if_pos h, beq_iff_eq.mpr h]
  · rw [if_neg h, beq_false_of_ne h]

theorem get?_insert (fields : Fields) (key : String) (value : Json) (other : String) :
    get? (fields.insert key value) other = if other = key then some value else get? fields other := by
  induction fields with
  | nil => exact get?_cons key value [] other
  | cons f fields ih =>
    obtain ⟨k, v⟩ := f
    rw [insert]
    split
    · exact get?_cons key value _ other
    · split
      · rename_i heq
        rw [get?_cons, get?_cons, heq]
        by_cases h : other = k
        · rw [if_pos h, if_pos h]
        · rw [if_neg h, if_neg h, if_neg h]
      · rename_i hne
        rw [get?_cons, get?_cons, ih]
        by_cases h : other = k
        · rw [if_pos h, if_pos h, if_neg (h ▸ Ne.symm hne)]
        · rw [if_neg h, if_neg h]

theorem get?_insertAll_of_not_mem (fields added : Fields) (key : String)
    (h : key ∉ added.map Prod.fst) : get? (insertAll fields added) key = get? fields key := by
  induction added generalizing fields with
  | nil => rfl
  | cons f added ih =>
    rw [List.map_cons, List.mem_cons, not_or] at h
    have hstep := ih (fields.insert f.1 f.2) h.2
    rw [get?_insert, if_neg h.1] at hstep
    exact hstep

theorem get?_insertAll_of_mem (fields added : Fields) (hdistinct : (added.map Prod.fst).Nodup)
    (key : String) (value : Json) (h : (key, value) ∈ added) :
    get? (insertAll fields added) key = some value := by
  induction added generalizing fields with
  | nil => cases h
  | cons f added ih =>
    rw [List.map_cons, List.nodup_cons] at hdistinct
    rcases List.mem_cons.mp h with rfl | hmem
    · have hstep := get?_insertAll_of_not_mem (fields.insert key value) added key hdistinct.1
      rw [get?_insert, if_pos rfl] at hstep
      exact hstep
    · exact ih (fields.insert f.1 f.2) hdistinct.2 hmem

theorem get?_of_mem (fields : Fields) (hdistinct : (fields.map Prod.fst).Nodup) (key : String)
    (value : Json) (h : (key, value) ∈ fields) : get? fields key = some value := by
  induction fields with
  | nil => cases h
  | cons f fields ih =>
    obtain ⟨k, v⟩ := f
    rw [List.map_cons, List.nodup_cons] at hdistinct
    rw [get?_cons]
    rcases List.mem_cons.mp h with heq | hmem
    · cases heq
      rw [if_pos rfl]
    · have hne : key ≠ k := fun heq => hdistinct.1 (heq ▸ List.mem_map.mpr ⟨_, hmem, rfl⟩)
      rw [if_neg hne, ih hdistinct.2 hmem]

/-! ### One path -/

/-- What stands where a value is put in: an object takes in the fields of another one, and anything
else gives way. -/
def mergedInto (value : Json) (old : Option Json) : Json :=
  match old, value with
  | some (.obj old), .obj new => .obj (insertAll old new)
  | _, _ => value

theorem mergedInto_of_not_object (value : Json) (h : value.isObject = false) (old : Option Json) :
    mergedInto value old = value := by
  unfold mergedInto
  split
  · cases h
  · rfl

theorem get?_mergedInto (new : Fields) (hdistinct : (new.map Prod.fst).Nodup) (key : String)
    (value : Json) (h : (key, value) ∈ new) (old : Option Json) :
    (mergedInto (.obj new) old).get? key = some value := by
  unfold mergedInto
  split
  · rename_i hnew
    cases hnew
    exact get?_insertAll_of_mem _ new hdistinct key value h
  · exact get?_of_mem new hdistinct key value h

theorem insertAt_singleton (value : Json) (key : String) (fields : Fields) :
    insertAt value [key] fields = .ok (fields.insert key (mergedInto value (get? fields key))) := by
  unfold insertAt mergedInto
  cases get? fields key with
  | none => rfl
  | some old =>
    cases old with
    | obj old => cases value <;> rfl
    | _ => rfl

theorem insertAt_cons (value : Json) (key : String) (rest : List String) (hrest : rest ≠ [])
    (fields : Fields) :
    insertAt value (key :: rest) fields =
      match inner? (get? fields key) with
      | none => .error [key]
      | some inner =>
        match insertAt value rest inner with
        | .ok inner => .ok (fields.insert key (.obj inner))
        | .error walked => .error (key :: walked) := by
  obtain ⟨next, rest, rfl⟩ := List.exists_cons_of_ne_nil hrest
  rfl

theorem inner?_eq_none_iff (old : Option Json) :
    inner? old = none ↔ ∃ x, old = some x ∧ x.isObject = false := by
  cases old with
  | none => simp [inner?]
  | some x => cases x <;> simp [inner?, isObject]

theorem at?_inner (old : Option Json) (inner : Fields) (h : inner? old = some inner)
    (path : List String) (hpath : path ≠ []) :
    (Json.obj inner).at? path = old.bind fun x => x.at? path := by
  obtain ⟨key, rest, rfl⟩ := List.exists_cons_of_ne_nil hpath
  cases old with
  | none =>
    cases h
    rfl
  | some x =>
    cases x with
    | obj fields =>
      cases h
      rfl
    | _ => cases h

section Step

variable (value : Json) (key : String) (rest : List String) (hrest : rest ≠ []) (fields : Fields)

include hrest

theorem insertAt_cons_eq_ok_iff (fields' : Fields) :
    insertAt value (key :: rest) fields = .ok fields' ↔
      ∃ inner inner', inner? (get? fields key) = some inner ∧
        insertAt value rest inner = .ok inner' ∧ fields' = fields.insert key (.obj inner') := by
  rw [insertAt_cons value key rest hrest]
  cases inner? (get? fields key) with
  | none => simp
  | some inner =>
    dsimp only
    cases hput : insertAt value rest inner <;> simp [hput, eq_comm]

theorem insertAt_cons_eq_error_iff (walked : List String) :
    insertAt value (key :: rest) fields = .error walked ↔
      inner? (get? fields key) = none ∧ walked = [key] ∨
        ∃ inner walked', inner? (get? fields key) = some inner ∧
          insertAt value rest inner = .error walked' ∧ walked = key :: walked' := by
  rw [insertAt_cons value key rest hrest]
  cases inner? (get? fields key) with
  | none => simp [eq_comm]
  | some inner =>
    dsimp only
    cases hput : insertAt value rest inner <;> simp [hput, eq_comm]

end Step

theorem at?_obj_cons (fields : Fields) (key : String) (path : List String) :
    (Json.obj fields).at? (key :: path) = (get? fields key).bind fun inner => inner.at? path := rfl

/-- The value is found at the end of its path, merged into what was there. -/
theorem at?_insertAt (value : Json) (path : List String) (hpath : path ≠ [])
    (fields fields' : Fields) (h : insertAt value path fields = .ok fields') :
    (Json.obj fields').at? path = some (mergedInto value ((Json.obj fields).at? path)) := by
  induction path generalizing fields fields' with
  | nil => exact absurd rfl hpath
  | cons key rest ih =>
    by_cases hrest : rest = []
    · subst hrest
      rw [insertAt_singleton] at h
      cases h
      rw [at?_obj_cons, get?_insert, if_pos rfl, at?_obj_cons]
      cases get? fields key <;> rfl
    · obtain ⟨inner, inner', hinner, hput, rfl⟩ :=
        (insertAt_cons_eq_ok_iff value key rest hrest fields fields').mp h
      rw [at?_obj_cons, get?_insert, if_pos rfl, Option.bind_some, ih hrest inner inner' hput,
        at?_obj_cons, at?_inner _ inner hinner rest hrest]

theorem exists_insert_of_insertAt (value : Json) (key : String) (rest : List String)
    (fields fields' : Fields) (h : insertAt value (key :: rest) fields = .ok fields') :
    ∃ x, fields' = fields.insert key x := by
  by_cases hrest : rest = []
  · subst hrest
    rw [insertAt_singleton] at h
    cases h
    exact ⟨_, rfl⟩
  · obtain ⟨_, inner', _, _, rfl⟩ :=
      (insertAt_cons_eq_ok_iff value key rest hrest fields fields').mp h
    exact ⟨_, rfl⟩

/-- Paths that part from the path of the value lead to what they led to before. -/
theorem at?_insertAt_of_apart (value : Json) (path : List String) (fields fields' : Fields)
    (h : insertAt value path fields = .ok fields') (other : List String)
    (hother : ¬ other <+: path) (hpath : ¬ path <+: other) :
    (Json.obj fields').at? other = (Json.obj fields).at? other := by
  induction path generalizing fields fields' other with
  | nil => exact absurd List.nil_prefix hpath
  | cons key rest ih =>
    cases other with
    | nil => exact absurd List.nil_prefix hother
    | cons k other =>
      by_cases hk : k = key
      · subst hk
        have hother' : ¬ other <+: rest := fun hbegins => hother ((List.prefix_cons_inj k).mpr hbegins)
        have hpath' : ¬ rest <+: other := fun hbegins => hpath ((List.prefix_cons_inj k).mpr hbegins)
        have hrest : rest ≠ [] := fun hnil => hpath' (hnil ▸ List.nil_prefix)
        have hne : other ≠ [] := fun hnil => hother' (hnil ▸ List.nil_prefix)
        obtain ⟨inner, inner', hinner, hput, rfl⟩ :=
          (insertAt_cons_eq_ok_iff value k rest hrest fields fields').mp h
        rw [at?_obj_cons, get?_insert, if_pos rfl, Option.bind_some,
          ih inner inner' hput other hother' hpath', at?_obj_cons, at?_inner _ inner hinner other hne]
      · obtain ⟨x, rfl⟩ := exists_insert_of_insertAt value key rest fields fields' h
        rw [at?_obj_cons, at?_obj_cons, get?_insert, if_neg hk]

/-! ### Paths that are blocked -/

/-- Whether a value that is no object stands at `walked`, and a path goes on behind it. -/
def Blocks (fields : Fields) (walked path : List String) : Prop :=
  walked ≠ [] ∧ walked <+: path ∧ walked ≠ path ∧
    ∃ x, (Json.obj fields).at? walked = some x ∧ x.isObject = false

theorem not_blocks_nil (fields : Fields) (walked : List String) : ¬ Blocks fields walked [] := by
  rintro ⟨hne, hbegins, -⟩
  exact hne (List.prefix_nil.mp hbegins)

theorem blocks_cons_iff (fields : Fields) (walked : List String) (key : String)
    (rest : List String) :
    Blocks fields walked (key :: rest) ↔
      rest ≠ [] ∧ inner? (get? fields key) = none ∧ walked = [key] ∨
        ∃ inner tail, inner? (get? fields key) = some inner ∧ Blocks inner tail rest ∧
          walked = key :: tail := by
  constructor
  · rintro ⟨hne, hbegins, hproper, x, hx, hobject⟩
    obtain ⟨tail, rfl, htail⟩ := (List.prefix_cons_iff.mp hbegins).resolve_left hne
    have hproper' : tail ≠ rest := fun heq => hproper (heq ▸ rfl)
    rw [at?_obj_cons] at hx
    cases hinner : inner? (get? fields key) with
    | none =>
      obtain ⟨y, hy, hyobject⟩ := (inner?_eq_none_iff _).mp hinner
      rw [hy, Option.bind_some] at hx
      obtain ⟨rfl, -⟩ := at?_of_not_object y hyobject tail x hx
      exact Or.inl ⟨hproper'.symm, rfl, rfl⟩
    | some inner =>
      have htailne : tail ≠ [] := by
        rintro rfl
        obtain ⟨y, hy, hyx⟩ := Option.bind_eq_some_iff.mp hx
        cases hyx
        rw [(inner?_eq_none_iff _).mpr ⟨x, hy, hobject⟩] at hinner
        cases hinner
      rw [← at?_inner _ inner hinner tail htailne] at hx
      exact Or.inr ⟨inner, tail, rfl, ⟨htailne, htail, hproper', x, hx, hobject⟩, rfl⟩
  · rintro (⟨hrest, hnone, rfl⟩ | ⟨inner, tail, hinner, hblocks, rfl⟩)
    · obtain ⟨x, hx, hobject⟩ := (inner?_eq_none_iff _).mp hnone
      refine ⟨List.cons_ne_nil _ _, ⟨rest, rfl⟩, ?_, x, ?_, hobject⟩
      · exact fun heq => hrest (List.cons.inj heq).2.symm
      · rw [at?_obj_cons, hx]
        rfl
    · obtain ⟨hne, hbegins, hproper, x, hx, hobject⟩ := hblocks
      refine ⟨List.cons_ne_nil _ _, (List.prefix_cons_inj key).mpr hbegins, ?_, x, ?_, hobject⟩
      · exact fun heq => hproper (List.cons.inj heq).2
      · rw [at?_obj_cons, ← at?_inner _ inner hinner tail hne, hx]

/-- A value cannot be put in exactly if its path is blocked. -/
theorem insertAt_eq_error_iff (value : Json) (path : List String) (fields : Fields)
    (walked : List String) :
    insertAt value path fields = .error walked ↔ Blocks fields walked path := by
  induction path generalizing fields walked with
  | nil => exact iff_of_false (fun h => by cases h) (not_blocks_nil fields walked)
  | cons key rest ih =>
    rw [blocks_cons_iff]
    by_cases hrest : rest = []
    · subst hrest
      rw [insertAt_singleton]
      refine iff_of_false (fun h => by cases h) ?_
      rintro (⟨hne, -⟩ | ⟨inner, tail, -, hblocks, -⟩)
      · exact hne rfl
      · exact not_blocks_nil inner tail hblocks
    · rw [insertAt_cons_eq_error_iff value key rest hrest, and_iff_right hrest]
      simp only [ih]

end Fields

end CodeCompletion.Json
