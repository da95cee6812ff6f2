import CodeCompletion.Proofs.Settings.Expansion

/-!
# Keys that conflict

The expansion fails at the first key that goes on behind a value that is no object. Main statement:
a configuration is refused exactly if there is such a key, and that key is told. The place of the
value is told by its path, without the full stops that this starts with.
-/

namespace CodeCompletion.Settings

theorem foldlM_eq_error_iff {σ α ε : Type} (f : σ → α → Except ε σ) (items : List α) (s : σ) (e : ε) :
    items.foldlM f s = .error e ↔
      ∃ before item after s', items = before ++ item :: after ∧ before.foldlM f s = .ok s' ∧
        f s' item = .error e := by
  constructor
  · intro h
    induction items generalizing s with
    | nil => cases h
    | cons item items ih =>
      rw [List.foldlM_cons] at h
      cases hitem : f s item with
      | error e' =>
        rw [hitem] at h
        cases h
        exact ⟨[], item, items, s, rfl, rfl, hitem⟩
      | ok s₁ =>
        rw [hitem] at h
        obtain ⟨before, item', after, s', rfl, hbefore, hfail⟩ := ih s₁ h
        refine ⟨item :: before, item', after, s', rfl, ?_, hfail⟩
        rw [List.foldlM_cons, hitem]
        exact hbefore
  · rintro ⟨before, item, after, s', rfl, hbefore, hfail⟩
    have hrest : (item :: after).foldlM f s' = .error e := by
      rw [List.foldlM_cons, hfail]
      rfl
    rw [List.foldlM_append, hbefore]
    exact hrest

/-- The items of a configuration whose keys come before a key. -/
def below (flat : Json.Fields) (key : String) : Json.Fields :=
  flat.filter fun item => Precedes item.1 key

/-- Whether `p` and a full stop begin a key of the configuration, and the expansion of what comes
before that key has at `p` a value that is no object. -/
def ConflictsAt (flat : Json.Fields) (key p : String) : Prop :=
  key ∈ flat.map Prod.fst ∧ DottedPrefix p key ∧
    ∃ nested, expand (below flat key) = .ok nested ∧
      ∃ x, (Json.obj nested).at? (segments p) = some x ∧ x.isObject = false

section Conflict

variable {flat : Json.Fields} (hordered : Ascending flat)

include hordered

theorem below_of_split (before after : Json.Fields) (key : String) (value : Json)
    (hsplit : flat = before ++ (key, value) :: after) : below flat key = before := by
  subst hsplit
  obtain ⟨-, hafter, hbetween⟩ := List.pairwise_append.mp hordered
  have hfirst : ∀ item ∈ before, Precedes item.1 key := fun item hitem =>
    hbetween item hitem _ (List.mem_cons_self ..)
  have hlast : ∀ item ∈ after, ¬ Precedes item.1 key := fun item hitem =>
    ((List.pairwise_cons.mp hafter).1 item hitem).asymm
  have hself : ¬ Precedes key key := fun h => h.ne rfl
  rw [below, List.filter_append, List.filter_cons_of_neg (by simpa using hself),
    List.filter_eq_self.mpr (by simpa using hfirst), List.filter_eq_nil_iff.mpr (by simpa using hlast),
    List.append_nil]

theorem conflictsAt_iff (key p : String) :
    ConflictsAt flat key p ↔
      ∃ before value after nested, flat = before ++ (key, value) :: after ∧
        expand before = .ok nested ∧ nested.Blocks (segments p) (segments key) := by
  constructor
  · rintro ⟨hkey, hbegins, nested, hnested, hvalue⟩
    obtain ⟨⟨_, value⟩, hmem, rfl⟩ := List.mem_map.mp hkey
    obtain ⟨before, after, hsplit⟩ := List.append_of_mem hmem
    rw [below_of_split hordered before after _ value hsplit] at hnested
    obtain ⟨hsegments, hne⟩ := (dottedPrefix_iff _ p).mp hbegins
    exact ⟨before, value, after, nested, hsplit, hnested, segments_ne_nil p, hsegments, hne, hvalue⟩
  · rintro ⟨before, value, after, nested, hsplit, hnested, -, hsegments, hne, hvalue⟩
    refine ⟨?_, (dottedPrefix_iff key p).mpr ⟨hsegments, hne⟩, nested, ?_, hvalue⟩
    · rw [hsplit, List.map_append, List.map_cons]
      exact List.mem_append_right _ (List.mem_cons_self ..)
    · rwa [below_of_split hordered before after key value hsplit]

/-- The expansion fails exactly where a key conflicts. -/
theorem expand_eq_error_iff (e : ConfigError) :
    expand flat = .error e ↔
      ∃ key p, ConflictsAt flat key p ∧ e = .conflictingKey key (withoutLeadingStops p) := by
  rw [expand, foldlM_eq_error_iff]
  simp only [insertFlat_eq_error_iff, conflictsAt_iff hordered]
  constructor
  · rintro ⟨before, ⟨key, value⟩, after, nested, hsplit, hnested, walked, hblocks, rfl⟩
    have hwalked : segments (".".intercalate walked) = walked :=
      segments_intercalate_of_prefix key walked hblocks.1 hblocks.2.1
    refine ⟨key, ".".intercalate walked, ⟨before, value, after, nested, hsplit, hnested, ?_⟩, ?_⟩
    · rwa [hwalked]
    · rw [← showPath_segments, hwalked]
  · rintro ⟨key, p, ⟨before, value, after, nested, hsplit, hnested, hblocks⟩, rfl⟩
    exact ⟨before, (key, value), after, nested, hsplit, hnested, segments p, hblocks,
      by rw [showPath_segments]⟩

theorem conflict_unique (key key' p p' : String) (h : ConflictsAt flat key p)
    (h' : ConflictsAt flat key' p') : key = key' ∧ p = p' := by
  have herror := (expand_eq_error_iff hordered _).mpr ⟨key, p, h, rfl⟩
  rw [(expand_eq_error_iff hordered _).mpr ⟨key', p', h', rfl⟩] at herror
  obtain rfl : key' = key := (ConfigError.conflictingKey.inj (Except.error.inj herror)).1
  refine ⟨rfl, segments_injective p p' ?_⟩
  obtain ⟨-, hbegins, nested, hnested, hvalue⟩ := h
  obtain ⟨-, hbegins', nested', hnested', hvalue'⟩ := h'
  cases hnested.symm.trans hnested'
  obtain ⟨hsegments, hne⟩ := (dottedPrefix_iff _ p).mp hbegins
  obtain ⟨hsegments', hne'⟩ := (dottedPrefix_iff _ p').mp hbegins'
  -- a path is blocked at one place only
  have hblocks := (Json.Fields.insertAt_eq_error_iff .null _ nested _).mpr
    ⟨segments_ne_nil p, hsegments, hne, hvalue⟩
  have hblocks' := (Json.Fields.insertAt_eq_error_iff .null _ nested _).mpr
    ⟨segments_ne_nil p', hsegments', hne', hvalue'⟩
  exact Except.error.inj (hblocks.symm.trans hblocks')

omit hordered in
theorem ofFlat_eq_conflictingKey_iff (key walked : String) :
    ofFlat flat = .error (.conflictingKey key walked) ↔
      expand flat = .error (.conflictingKey key walked) := by
  unfold ofFlat
  cases expand flat with
  | error e =>
    constructor
    · intro h
      cases h
      rfl
    · intro h
      cases h
      rfl
  | ok nested =>
    refine iff_of_false (fun h => ?_) (fun h => by cases h)
    simp only [bind, Except.bind] at h
    cases hdecoded : decode (.obj nested) with
    | none =>
      rw [hdecoded] at h
      cases h
    | some settings =>
      rw [hdecoded] at h
      cases h

/-- A configuration is refused because of a conflict exactly if a key conflicts. The first such key
is told, and by the shortest path where it does, except for the full stops that this path starts
with: they are left out. -/
theorem conflict_is_told_iff :
    (∀ key walked, ofFlat flat = .error (.conflictingKey key walked) ↔
      expand flat = .error (.conflictingKey key walked)) ∧
    ((∃ key walked, expand flat = .error (.conflictingKey key walked)) ↔
      ∃ key p, ConflictsAt flat key p) ∧
    ∀ key walked, expand flat = .error (.conflictingKey key walked) →
      (∀ key' p', ConflictsAt flat key' p' → ¬ Precedes key' key) ∧
      ∃ p, ConflictsAt flat key p ∧ (∀ p', ConflictsAt flat key p' → p.length ≤ p'.length) ∧
        walked = withoutLeadingStops p ∧ (walked = p ↔ p.toList.head? ≠ some '.') := by
  refine ⟨ofFlat_eq_conflictingKey_iff, ⟨?_, ?_⟩, fun key walked h => ?_⟩
  · rintro ⟨key, walked, h⟩
    obtain ⟨key, p, hconflict, -⟩ := (expand_eq_error_iff hordered _).mp h
    exact ⟨key, p, hconflict⟩
  · rintro ⟨key, p, hconflict⟩
    exact ⟨key, _, (expand_eq_error_iff hordered _).mpr ⟨key, p, hconflict, rfl⟩⟩
  · obtain ⟨_, p, hconflict, heq⟩ := (expand_eq_error_iff hordered _).mp h
    obtain ⟨rfl, rfl⟩ := ConfigError.conflictingKey.inj heq
    refine ⟨fun key' p' hother hearlier => ?_, p, hconflict, fun p' hother => ?_, rfl,
      withoutLeadingStops_eq_iff p⟩
    · exact hearlier.ne (conflict_unique hordered _ _ _ _ hother hconflict).1
    · exact Nat.le_of_eq (congrArg String.length
        (conflict_unique hordered _ _ _ _ hconflict hother).2)

end Conflict

def scalarSection : Json.Fields :=
  [("section", .bool true), ("section.enable", .bool false)]

theorem conflict_in_section_is_told :
    Ascending scalarSection ∧
      expand scalarSection = .error (.conflictingKey "section.enable" "section") ∧
      ∃ p, ConflictsAt scalarSection "section.enable" p ∧ "section" = withoutLeadingStops p := by
  have hordered : Ascending scalarSection := by decide +kernel
  have hfails : expand scalarSection = .error (.conflictingKey "section.enable" "section") := by
    decide +kernel
  obtain ⟨-, -, htold⟩ := conflict_is_told_iff hordered
  obtain ⟨-, p, hconflict, -, hshown, -⟩ := htold _ _ hfails
  exact ⟨hordered, hfails, p, hconflict, hshown⟩

def stopInFront : Json.Fields :=
  [(".a", .int 1), (".a.b", .int 2)]

/-- The conflict is at `.a`, and `a` is told, which does not begin the key. -/
theorem conflict_behind_stop_is_told_elsewhere :
    ofFlat stopInFront = .error (.conflictingKey ".a.b" "a") ∧
      ConflictsAt stopInFront ".a.b" ".a" ∧ ¬ DottedPrefix "a" ".a.b" := by
  refine ⟨(ofFlat_eq_conflictingKey_iff _ _).mpr (by decide +kernel), ⟨by decide +kernel, ?_, ?_⟩, ?_⟩
  · rw [dottedPrefix_iff]
    decide +kernel
  · exact ⟨[("", .obj [("a", .int 1)])], by decide +kernel, .int 1, by decide +kernel, rfl⟩
  · rw [dottedPrefix_iff]
    decide +kernel

end CodeCompletion.Settings
