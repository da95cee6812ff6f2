import CodeCompletion.Proofs.Settings.Keys
import CodeCompletion.Proofs.Settings.Paths
import Mathlib.Data.List.Induction

/-!
# Expanding dotted keys

The keys of a flat configuration are put in one after the other in ascending order, so a key comes
after those it goes on behind. Main statement: what a key is given is found at the end of its path,
unless a key that goes on behind it says otherwise about a field.
-/

namespace CodeCompletion.Settings

def Ascending (flat : Json.Fields) : Prop :=
  flat.Pairwise fun item later => Precedes item.1 later.1

instance (flat : Json.Fields) : Decidable (Ascending flat) :=
  inferInstanceAs (Decidable (List.Pairwise _ flat))

theorem ascending_concat_iff (flat : Json.Fields) (item : String × Json) :
    Ascending (flat ++ [item]) ↔ Ascending flat ∧ ∀ earlier ∈ flat, Precedes earlier.1 item.1 := by
  simp [Ascending, List.pairwise_append]

/-! ### One key -/

section Step

variable {before nested : Json.Fields} {item : String × Json}

theorem insertFlat_eq_ok_iff :
    insertFlat before item = .ok nested ↔
      Json.Fields.insertAt item.2 (segments item.1) before = .ok nested := by
  unfold insertFlat
  cases Json.Fields.insertAt item.2 (segments item.1) before <;> simp

theorem insertFlat_eq_error_iff (e : ConfigError) :
    insertFlat before item = .error e ↔
      ∃ walked, before.Blocks walked (segments item.1) ∧
        e = .conflictingKey item.1 (showPath walked) := by
  simp only [← Json.Fields.insertAt_eq_error_iff item.2]
  unfold insertFlat
  cases Json.Fields.insertAt item.2 (segments item.1) before <;> simp [eq_comm]

variable (h : insertFlat before item = .ok nested)

include h

theorem not_blocks_of_insertFlat (walked : List String) :
    ¬ before.Blocks walked (segments item.1) := by
  intro hblocks
  rw [(insertFlat_eq_error_iff _).mpr ⟨walked, hblocks, rfl⟩] at h
  cases h

theorem at?_insertFlat :
    (Json.obj nested).at? (segments item.1) =
      some (Json.Fields.mergedInto item.2 ((Json.obj before).at? (segments item.1))) :=
  Json.Fields.at?_insertAt item.2 _ (segments_ne_nil item.1) before nested
    (insertFlat_eq_ok_iff.mp h)

theorem at?_insertFlat_of_apart (path : List String) (hpath : ¬ path <+: segments item.1)
    (hitem : ¬ segments item.1 <+: path) :
    (Json.obj nested).at? path = (Json.obj before).at? path :=
  Json.Fields.at?_insertAt_of_apart item.2 _ before nested (insertFlat_eq_ok_iff.mp h) path hpath
    hitem

end Step

/-! ### What is found -/

theorem expand_concat_eq_ok_iff (flat : Json.Fields) (item : String × Json) (nested : Json.Fields) :
    expand (flat ++ [item]) = .ok nested ↔
      ∃ before, expand flat = .ok before ∧ insertFlat before item = .ok nested := by
  have hsteps : expand (flat ++ [item]) = (expand flat).bind fun before => insertFlat before item := by
    rw [expand, List.foldlM_append]
    refine congrArg (Except.bind _) (funext fun before => ?_)
    exact bind_pure (insertFlat before item)
  rw [hsteps]
  cases expand flat <;> simp [Except.bind]

section Found

variable {flat nested : Json.Fields} (hordered : Ascending flat) (h : expand flat = .ok nested)

include hordered h

/-- A value that is no object stays: a key behind it would be blocked by it. -/
theorem at?_expand (key : String) (value : Json) (hmem : (key, value) ∈ flat)
    (hvalue : value.isObject = false) : (Json.obj nested).at? (segments key) = some value := by
  induction flat using List.reverseRecOn generalizing nested with
  | nil => cases hmem
  | append_singleton flat item ih =>
    obtain ⟨before, hbefore, hput⟩ := (expand_concat_eq_ok_iff flat item nested).mp h
    obtain ⟨hflat, hlast⟩ := (ascending_concat_iff flat item).mp hordered
    rcases List.mem_append.mp hmem with hold | hnew
    · have hfound := ih hflat hbefore hold
      have hlater : Precedes key item.1 := hlast _ hold
      have hapart : ¬ segments key <+: segments item.1 := fun hbegins =>
        not_blocks_of_insertFlat hput (segments key) ⟨segments_ne_nil key, hbegins,
          fun heq => hlater.ne (segments_injective _ _ heq), value, hfound, hvalue⟩
      rw [at?_insertFlat_of_apart hput _ hapart hlater.not_prefix, hfound]
    · cases List.mem_singleton.mp hnew
      rw [at?_insertFlat hput, Json.Fields.mergedInto_of_not_object value hvalue]

/-- A field of an object stays unless a later key leads to it or through it. -/
theorem at?_expand_field (key : String) (fields : Json.Fields) (hmem : (key, .obj fields) ∈ flat)
    (hdistinct : (fields.map Prod.fst).Nodup) (name : String) (value : Json)
    (hfield : (name, value) ∈ fields) :
    (Json.obj nested).at? (segments key ++ [name]) = some value ∨
      ∃ item ∈ flat, DottedPrefix key item.1 ∧ segments key ++ [name] <+: segments item.1 := by
  induction flat using List.reverseRecOn generalizing nested with
  | nil => cases hmem
  | append_singleton flat item ih =>
    obtain ⟨before, hbefore, hput⟩ := (expand_concat_eq_ok_iff flat item nested).mp h
    obtain ⟨hflat, hlast⟩ := (ascending_concat_iff flat item).mp hordered
    rcases List.mem_append.mp hmem with hold | hnew
    · have hlater : Precedes key item.1 := hlast _ hold
      rcases ih hflat hbefore hold with hfound | ⟨other, hother, hextends, haddressed⟩
      · by_cases haddressed : segments key ++ [name] <+: segments item.1
        · have hbegins : segments key <+: segments item.1 :=
            (List.prefix_append _ _).trans haddressed
          have hne : segments key ≠ segments item.1 := fun heq =>
            hlater.ne (segments_injective _ _ heq)
          exact Or.inr ⟨item, List.mem_append_right _ (List.mem_singleton.mpr rfl),
            (dottedPrefix_iff _ _).mpr ⟨hbegins, hne⟩, haddressed⟩
        · have hapart : ¬ segments item.1 <+: segments key ++ [name] := by
            rw [List.prefix_concat_iff]
            rintro (heq | hbegins)
            · exact haddressed (heq ▸ List.prefix_rfl)
            · exact hlater.not_prefix hbegins
          rw [at?_insertFlat_of_apart hput _ haddressed hapart]
          exact Or.inl hfound
      · exact Or.inr ⟨other, List.mem_append_left _ hother, hextends, haddressed⟩
    · cases List.mem_singleton.mp hnew
      refine Or.inl ?_
      rw [Json.at?_append, at?_insertFlat hput, Option.bind_some, Json.at?,
        Json.Fields.get?_mergedInto fields hdistinct name value hfield]
      rfl

/-- What a flat configuration gives is found in the nested one: a value that is no object at the end
of the path of its key, and a field of an object behind that path, unless another key goes on behind
the object's and leads to the field or through it. -/
theorem given_values_are_found :
    (∀ key value, (key, value) ∈ flat → value.isObject = false →
      (Json.obj nested).at? (segments key) = some value) ∧
    ∀ key fields, (key, .obj fields) ∈ flat → (fields.map Prod.fst).Nodup →
      ∀ name value, (name, value) ∈ fields →
        (Json.obj nested).at? (segments key ++ [name]) = some value ∨
          ∃ item ∈ flat, DottedPrefix key item.1 ∧ segments key ++ [name] <+: segments item.1 :=
  ⟨at?_expand hordered h, at?_expand_field hordered h⟩

end Found

/-- A section that is given as an object, and one of its fields that is given by a dotted key. -/
def sectionAndField : Json.Fields :=
  [("section", .obj [("enable", .bool true), ("place", .str "above")]),
   ("section.enable", .bool false)]

theorem given_values_of_section_and_field :
    Ascending sectionAndField ∧
      expand sectionAndField =
        .ok [("section", .obj [("enable", .bool false), ("place", .str "above")])] ∧
      ∀ nested, expand sectionAndField = .ok nested →
        (Json.obj nested).at? ["section", "enable"] = some (.bool false) ∧
        (Json.obj nested).at? ["section", "place"] = some (.str "above") := by
  have hordered : Ascending sectionAndField := by decide +kernel
  refine ⟨hordered, by decide +kernel, fun nested h => ?_⟩
  obtain ⟨hvalues, hfields⟩ := given_values_are_found hordered h
  have hsegments : segments "section.enable" = ["section", "enable"] := by decide +kernel
  have hsection : segments "section" = ["section"] := by decide +kernel
  refine ⟨?_, ?_⟩
  · rw [← hsegments]
    exact hvalues "section.enable" (.bool false) (by decide +kernel) rfl
  · rcases hfields "section" _ (List.mem_cons_self ..) (by decide +kernel) "place" (.str "above")
        (by decide +kernel) with hfound | ⟨item, hitem, -, haddressed⟩
    · rw [hsection] at hfound
      exact hfound
    · have hnone : ∀ item ∈ sectionAndField,
          ¬ ["section"] ++ ["place"] <+: segments item.1 := by decide +kernel
      rw [hsection] at haddressed
      exact absurd haddressed (hnone item hitem)

end CodeCompletion.Settings
