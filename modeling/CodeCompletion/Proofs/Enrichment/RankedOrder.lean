import CodeCompletion.Proofs.Enrichment.DisplayedOrder
import CodeCompletion.Proofs.Enrichment.Names
import CodeCompletion.Proofs.Entry.StableSort
import CodeCompletion.Proofs.Stage.Ranks

/-!
# The order that ranking gives

Up to four stages write into the key of an entry what it is to be ordered by. The list is sorted by
comparing these texts, and comes out as if it were sorted by tuples: the engine's key, boosted or
not, the fit with the expected type, the distance and the place among properties.
-/

namespace CodeCompletion

/-! ### Ranks -/

/-- What an entry is ordered by. -/
structure Rank where
  key : String := ""
  fit : Nat := 0
  distance : Nat := 0
  place : Nat := 0
  deriving Repr, DecidableEq

/-- The order of ranks: each component decides where all those before it are equal. -/
def Rank.Le (a b : Rank) : Prop :=
  a.key < b.key ∨ a.key = b.key ∧ (a.fit < b.fit ∨ a.fit = b.fit ∧
    (a.distance < b.distance ∨ a.distance = b.distance ∧ a.place ≤ b.place))

instance (a b : Rank) : Decidable (a.Le b) :=
  inferInstanceAs (Decidable (_ ∨ _ ∧ (_ ∨ _ ∧ (_ ∨ _ ∧ _))))

theorem Rank.le_iff_not_lt (a b : Rank) :
    a.Le b ↔ ¬ (b.key < a.key ∨ b.key = a.key ∧ (b.fit < a.fit ∨ b.fit = a.fit ∧
      (b.distance < a.distance ∨ b.distance = a.distance ∧ b.place < a.place))) := by
  unfold Rank.Le
  by_cases hlt : a.key < b.key
  · have hne : b.key ≠ a.key := fun h => String.lt_irrefl _ (h ▸ hlt)
    simp [hlt, String.lt_asymm hlt, hne]
  · by_cases heq : a.key = b.key
    · simp only [heq, String.lt_irrefl, false_or, true_and]
      omega
    · have hgt : b.key < a.key := String.not_le.mp fun hle =>
        heq (String.le_antisymm hle (String.not_lt.mp hlt))
      simp [hlt, heq, hgt]

section Run

variable (r : Request) (raws : List RawEntry) (fx : Effects)

def isBoostedAt (i : Nat) (raw : RawEntry) : Bool :=
  (progressAt r (startOf raws fx) (Stage.place "keyword_boost" + 1)).entries.any fun e =>
    e.origin == some i && e.sortText != raw.sortText

/-- The rank of the engine's entry at a place; a stage that takes no effect does not count. -/
def rankAt (i : Nat) (raw : RawEntry) : Rank where
  key := if isBoostedAt r raws fx i raw then SortKey.boost raw.sortText else raw.sortText
  fit := if takesEffect r (startOf raws fx) "contextual_type_boost"
    then (if (Stage.expectedType r).value.any fun t => (Stage.fits r t (.ofRaw raw)).value
      then 0 else 1)
    else 0
  distance := if takesEffect r (startOf raws fx) "locality_bonus"
    then match (Stage.locality r (.ofRaw raw)).value with
      | .currentFile => 0
      | .project => 1
      | .dependency => 2
    else 0
  place := if takesEffect r (startOf raws fx) "fix_properties_sorting"
    then (Stage.receiverProperties r).findIdx (·.name == (Entry.ofRaw raw).insertion)
    else 0

def rankOf (e : Entry) : Rank :=
  ((e.origin.bind fun i => raws[i]?.map (rankAt r raws fx i))).getD {}

/-! ### Boosted keys -/

theorem entries_after_boost (p : Progress) :
    (progressAt r p (Stage.place "keyword_boost" + 1)).entries =
      (progressAt r p (Stage.place "keyword_boost")).entries.map fun e =>
        if takesEffect r p "keyword_boost" && Stage.boosts r e then e.mapKey SortKey.boost
        else e := by
  rw [entries_progressAt_succ, takesEffect]
  cases ho : outcomeAt r p (Stage.place "keyword_boost") with
  | unchanged => exact (List.map_id _).symm
  | changed new delta =>
    rcases outcomeAt_cases r p (Stage.place "keyword_boost") with hsame | ⟨stage, hstage, hvalue⟩
    · rw [hsame] at ho
      cases ho
    · cases hstage
      rw [← ho, Stage.entriesOr_boostKeywords r _ _ hvalue, ho]
      rfl

theorem boost_ne (key : String) : SortKey.boost key ≠ key := by
  intro h
  have hlen := congrArg String.length h
  have hmark : "!".length = 1 := rfl
  rw [SortKey.boost, String.length_append, hmark] at hlen
  omega

theorem sortText_before_boost (e : Entry)
    (he : e ∈ (progressAt r (startOf raws fx) (Stage.place "keyword_boost")).entries) (i : Nat)
    (hi : e.origin = some i) (raw : RawEntry) (hraw : raws[i]? = some raw) :
    e.sortText = raw.sortText :=
  (keeps_entryAt r raws fx _ e he i hi raw hraw).sortText (by decide)

theorem origin_boostedIf (e : Entry) (boosted : Bool) :
    (if boosted then e.mapKey SortKey.boost else e).origin = e.origin := by
  cases boosted <;> rfl

theorem boosts_congr (e e' : Entry)
    (he : e ∈ (progressAt r (startOf raws fx) (Stage.place "keyword_boost")).entries)
    (he' : e' ∈ (progressAt r (startOf raws fx) (Stage.place "keyword_boost")).entries)
    (i : Nat) (hi : e.origin = some i) (hi' : e'.origin = some i) :
    Stage.boosts r e' = Stage.boosts r e := by
  obtain ⟨raw, hraw, hkeeps⟩ := exists_entryAt r raws fx _ e he i hi
  have hkeeps' := keeps_entryAt r raws fx _ e' he' i hi' raw hraw
  have hname : e'.name = e.name := by
    rw [name_from_highlight r raws fx _ (by decide) (by decide) e he i hi raw hraw,
      name_from_highlight r raws fx _ (by decide) (by decide) e' he' i hi' raw hraw]
  have hkind : (e'.kind == .keyword) = (e.kind == .keyword) := by
    rw [Bool.eq_iff_iff, beq_iff_eq, beq_iff_eq, hkeeps.isKeyword, hkeeps'.isKeyword]
  have hkey : e'.sortText = e.sortText :=
    (sortText_before_boost r raws fx e' he' i hi' raw hraw).trans
      (sortText_before_boost r raws fx e he i hi raw hraw).symm
  unfold Stage.boosts
  rw [hname, hkind, hkey]

theorem isBoostedAt_eq (e : Entry)
    (he : e ∈ (progressAt r (startOf raws fx) (Stage.place "keyword_boost")).entries) (i : Nat)
    (hi : e.origin = some i) (raw : RawEntry) (hraw : raws[i]? = some raw) :
    isBoostedAt r raws fx i raw =
      (takesEffect r (startOf raws fx) "keyword_boost" && Stage.boosts r e) := by
  rw [isBoostedAt, entries_after_boost]
  cases hcond : takesEffect r (startOf raws fx) "keyword_boost" && Stage.boosts r e with
  | true =>
    refine List.any_eq_true.mpr ⟨_, List.mem_map.mpr ⟨e, he, rfl⟩, ?_⟩
    rw [hcond, if_pos rfl, Bool.and_eq_true, beq_iff_eq, bne_iff_ne,
      ← sortText_before_boost r raws fx e he i hi raw hraw]
    exact ⟨hi, boost_ne _⟩
  | false =>
    refine List.any_eq_false.mpr fun e' he' hother => ?_
    obtain ⟨e₁, he₁, rfl⟩ := List.mem_map.mp he'
    rw [Bool.and_eq_true, origin_boostedIf, beq_iff_eq, bne_iff_ne] at hother
    rw [boosts_congr r raws fx e e₁ he he₁ i hi hother.1, hcond] at hother
    exact hother.2 (sortText_before_boost r raws fx e₁ he₁ i hother.1 raw hraw)

theorem sortText_after_boost (e : Entry)
    (he : e ∈ (progressAt r (startOf raws fx) (Stage.place "keyword_boost" + 1)).entries) (i : Nat)
    (hi : e.origin = some i) (raw : RawEntry) (hraw : raws[i]? = some raw) :
    e.sortText = (rankAt r raws fx i raw).key := by
  rw [entries_after_boost] at he
  obtain ⟨e₀, he₀, rfl⟩ := List.mem_map.mp he
  rw [origin_boostedIf] at hi
  have hkey := sortText_before_boost r raws fx e₀ he₀ i hi raw hraw
  rw [rankAt, isBoostedAt_eq r raws fx e₀ he₀ i hi raw hraw, ← hkey]
  cases takesEffect r (startOf raws fx) "keyword_boost" && Stage.boosts r e₀ <;> rfl

/-! ### Refined keys -/

theorem sortText_after_refining (p : Progress) (name : String) (rank : Entry → UInt16)
    (h : outcomeAt r p (Stage.place name) = .unchanged ∨ outcomeAt r p (Stage.place name) =
      Stage.refined (progressAt r p (Stage.place name)).entries rank)
    (e' : Entry) (he' : e' ∈ (progressAt r p (Stage.place name + 1)).entries) :
    ∃ e ∈ (progressAt r p (Stage.place name)).entries, e.origin = e'.origin ∧
      e'.sortText = SortKey.refineIf (takesEffect r p name) e.sortText (rank e) := by
  rw [entries_progressAt_succ] at he'
  rcases h with hsame | hchanged
  · rw [hsame] at he'
    rw [takesEffect, hsame]
    exact ⟨e', he', rfl, rfl⟩
  · rw [hchanged] at he'
    obtain ⟨e, he, rfl⟩ := List.mem_map.mp he'
    rw [takesEffect, hchanged]
    exact ⟨e, he, rfl, rfl⟩

theorem outcome_contextual_type_boost (p : Progress) :
    outcomeAt r p (Stage.place "contextual_type_boost") = .unchanged ∨
      outcomeAt r p (Stage.place "contextual_type_boost") = Stage.refined
        (progressAt r p (Stage.place "contextual_type_boost")).entries (Stage.typeRank r) :=
  outcomeAt_of_stage r p _ _ rfl (· = _) (Stage.boostByType_cases r _)

theorem outcome_locality_bonus (p : Progress) :
    outcomeAt r p (Stage.place "locality_bonus") = .unchanged ∨
      outcomeAt r p (Stage.place "locality_bonus") = Stage.refined
        (progressAt r p (Stage.place "locality_bonus")).entries (Stage.localityRank r) :=
  outcomeAt_of_stage r p _ _ rfl (· = _) (Stage.boostByLocality_cases r _)

theorem outcome_fix_properties_sorting (p : Progress) :
    outcomeAt r p (Stage.place "fix_properties_sorting") = .unchanged ∨ r.isMember = true ∧
      outcomeAt r p (Stage.place "fix_properties_sorting") = Stage.refined
        (progressAt r p (Stage.place "fix_properties_sorting")).entries (Stage.memberRank r) :=
  outcomeAt_of_stage r p _ _ rfl (fun o => r.isMember = true ∧ o = _)
    (Stage.sortProperties_cases r _)

/-- The key in which the rank of the engine's entry at a place is written. -/
def rankedKey (i : Nat) (raw : RawEntry) : String :=
  SortKey.refineThrice (takesEffect r (startOf raws fx) "contextual_type_boost")
    (takesEffect r (startOf raws fx) "locality_bonus")
    (takesEffect r (startOf raws fx) "fix_properties_sorting")
    (rankAt r raws fx i raw).key (Stage.typeRank r (.ofRaw raw)) (Stage.localityRank r (.ofRaw raw))
    (Stage.memberRank r (.ofRaw raw))

theorem sortText_eq_rankedKey (k : Nat) (hlow : Stage.place "fix_properties_sorting" < k)
    (hhigh : k ≤ Stage.table.length) (e : Entry)
    (he : e ∈ (progressAt r (startOf raws fx) k).entries) (i : Nat) (hi : e.origin = some i)
    (raw : RawEntry) (hraw : raws[i]? = some raw) : e.sortText = rankedKey r raws fx i raw := by
  obtain ⟨e₄, he₄, hi₄, hkeeps⟩ := keeps_of_origin r _ _ k hlow e he i hi
  have hafter : .key ∉ Stage.touchedBetween (Stage.place "fix_properties_sorting" + 1) k :=
    fun hmem => absurd (Stage.touchedBetween_mono _ hhigh hmem) (by decide)
  -- Back through the stages that refine, each time to the list before.
  obtain ⟨e₃, he₃, hi₃, hkey₄⟩ := sortText_after_refining r _ "fix_properties_sorting" _
    ((outcome_fix_properties_sorting r _).imp_right And.right) e₄ he₄
  obtain ⟨e₂, he₂, hi₂, hkey₃⟩ := sortText_after_refining r _ "locality_bonus" _
    (outcome_locality_bonus r _) e₃ he₃
  obtain ⟨e₁, he₁, hi₁, hkey₂⟩ := sortText_after_refining r _ "contextual_type_boost" _
    (outcome_contextual_type_boost r _) e₂ he₂
  rw [hi₄] at hi₃
  rw [hi₃] at hi₂
  rw [hi₂] at hi₁
  have hkeeps₃ := keeps_entryAt r raws fx _ e₃ he₃ i hi₃ raw hraw
  have hkeeps₂ := keeps_entryAt r raws fx _ e₂ he₂ i hi₂ raw hraw
  have hkeeps₁ := keeps_entryAt r raws fx _ e₁ he₁ i hi₁ raw hraw
  have hmember : Stage.memberRank r e₃ = Stage.memberRank r (.ofRaw raw) :=
    congrArg (Stage.propertyRank _) (hkeeps₃.insertion (by decide))
  have hlocality : Stage.localityRank r e₂ = Stage.localityRank r (.ofRaw raw) :=
    Stage.localityRank_congr r _ _ hkeeps₂.symbol
  have htype : Stage.typeRank r e₁ = Stage.typeRank r (.ofRaw raw) :=
    Stage.typeRank_congr r _ _ hkeeps₁.symbol hkeeps₁.isKeyword
  rw [hkeeps.sortText hafter, hkey₄, hkey₃, hkey₂,
    sortText_after_boost r raws fx e₁ he₁ i hi₁ raw hraw, hmember, hlocality, htype]
  rfl

/-! ### Keys compare like ranks -/

/-- Keys of the engine leave room below them, and ranks fit in four digits. -/
structure Rankable : Prop where
  above : ∀ raw ∈ raws, SortKey.IsAbove raw.sortText
  few_properties : r.isMember = true → (Stage.receiverProperties r).length < 10000

theorem isAbove_boost (key : String) (h : SortKey.IsAbove key) :
    SortKey.IsAbove (SortKey.boost key) := by
  intro c hc
  rw [SortKey.boost, String.toList_append] at hc
  rcases List.mem_append.mp hc with hc | hc
  · rw [List.mem_singleton.mp hc]
    decide
  · exact h c hc

theorem isAbove_rankAt (i : Nat) (raw : RawEntry) (h : SortKey.IsAbove raw.sortText) :
    SortKey.IsAbove (rankAt r raws fx i raw).key := by
  unfold rankAt
  dsimp only
  split
  · exact isAbove_boost _ h
  · exact h

theorem memberRank_lt (h : Rankable r raws)
    (heffect : takesEffect r (startOf raws fx) "fix_properties_sorting" = true) (raw : RawEntry) :
    (Stage.memberRank r (.ofRaw raw)).toNat =
        (Stage.receiverProperties r).findIdx (·.name == (Entry.ofRaw raw).insertion) ∧
      (Stage.memberRank r (.ofRaw raw)).toNat < 10000 := by
  have hmember : r.isMember = true := by
    rcases outcome_fix_properties_sorting r (startOf raws fx) with hsame | ⟨hmember, _⟩
    · rw [takesEffect, hsame] at heffect
      cases heffect
    · exact hmember
  have hfew := h.few_properties hmember
  have hrank := Stage.toNat_memberRank r (.ofRaw raw) hfew
  refine ⟨hrank, ?_⟩
  rw [hrank]
  exact Nat.lt_of_le_of_lt List.findIdx_le_length hfew

theorem levels_eq_rankAt (h : Rankable r raws) (i : Nat) (raw : RawEntry) :
    SortKey.level (takesEffect r (startOf raws fx) "contextual_type_boost")
        (Stage.typeRank r (.ofRaw raw)) = (rankAt r raws fx i raw).fit ∧
      SortKey.level (takesEffect r (startOf raws fx) "locality_bonus")
        (Stage.localityRank r (.ofRaw raw)) = (rankAt r raws fx i raw).distance ∧
      SortKey.level (takesEffect r (startOf raws fx) "fix_properties_sorting")
        (Stage.memberRank r (.ofRaw raw)) = (rankAt r raws fx i raw).place := by
  unfold SortKey.level rankAt
  refine ⟨?_, ?_, ?_⟩
  · refine ite_congr rfl (fun _ => ?_) fun _ => rfl
    unfold Stage.typeRank
    split <;> rfl
  · refine ite_congr rfl (fun _ => ?_) fun _ => rfl
    unfold Stage.localityRank
    cases (Stage.locality r (.ofRaw raw)).value <;> rfl
  · exact ite_congr rfl (fun heffect => (memberRank_lt r raws fx h heffect raw).1) fun _ => rfl

theorem rankedKey_le_iff (h : Rankable r raws) (i j : Nat) (a b : RawEntry) (ha : a ∈ raws)
    (hb : b ∈ raws) :
    rankedKey r raws fx i a ≤ rankedKey r raws fx j b ↔
      (rankAt r raws fx i a).Le (rankAt r raws fx j b) := by
  obtain ⟨hfit, hdistance, hplace⟩ := levels_eq_rankAt r raws fx h i a
  obtain ⟨hfit', hdistance', hplace'⟩ := levels_eq_rankAt r raws fx h j b
  have hlt := SortKey.refineThrice_lt_iff (takesEffect r (startOf raws fx) "contextual_type_boost")
    (takesEffect r (startOf raws fx) "locality_bonus")
    (takesEffect r (startOf raws fx) "fix_properties_sorting") _ _
    (Stage.typeRank r (.ofRaw b)) (Stage.localityRank r (.ofRaw b)) (Stage.memberRank r (.ofRaw b))
    (Stage.typeRank r (.ofRaw a)) (Stage.localityRank r (.ofRaw a)) (Stage.memberRank r (.ofRaw a))
    (isAbove_rankAt r raws fx j b (h.above b hb)) (isAbove_rankAt r raws fx i a (h.above a ha))
    (fun _ => Stage.typeRank_lt r _) (fun _ => Stage.typeRank_lt r _)
    (fun _ => Stage.localityRank_lt r _) (fun _ => Stage.localityRank_lt r _)
    (fun heffect => (memberRank_lt r raws fx h heffect b).2)
    (fun heffect => (memberRank_lt r raws fx h heffect a).2)
  rw [hfit, hfit', hdistance, hdistance', hplace, hplace'] at hlt
  rw [Rank.le_iff_not_lt, ← hlt]
  exact String.not_lt.symm

/-! ### The order that is shown -/

theorem filter_origin_shown (entries : List Entry) :
    (entries.filter (·.origin.isSome)).map Entry.shown =
      (entries.map Entry.shown).filter (·.origin.isSome) := by
  rw [List.filter_map]
  rfl

theorem map_shown_enrich (hrules : r.settings.replaceSuggestions = [])
    (hdone : (enrich r (Entry.ofRawList raws) fx).cancelled = false) :
    (enrich r (Entry.ofRawList raws) fx).entries.map Entry.shown =
      (Entry.sortByKey (progressAt r (startOf raws fx)
        (Stage.place "sort_normalize")).entries).map Entry.shown := by
  have hsorted := entries_progressAt_of_done r (Entry.ofRawList raws) fx hdone
  rw [entries_enrich_of_no_rules r _ fx hrules hdone, hsorted]
  split
  · exact map_shown_finalizeKeys _ (Entry.sortedByKey_sortByKey _)
  · rfl

/-- Before the last stage, the key of an entry of the engine tells its rank. -/
theorem exists_rankedKey (e : Entry)
    (he : e ∈ (progressAt r (startOf raws fx) (Stage.place "sort_normalize")).entries) (i : Nat)
    (hi : e.origin = some i) :
    ∃ raw : RawEntry, raws[i]? = some raw ∧ e.sortText = rankedKey r raws fx i raw ∧
      rankOf r raws fx e = rankAt r raws fx i raw := by
  obtain ⟨raw, hraw, _⟩ := exists_entryAt r raws fx _ e he i hi
  refine ⟨raw, hraw, ?_, ?_⟩
  · exact sortText_eq_rankedKey r raws fx _ (by decide) (by decide) e he i hi raw hraw
  · rw [rankOf, hi, Option.bind_some, hraw]
    rfl

theorem keyLe_eq_rank_le (h : Rankable r raws) (a b : Entry)
    (ha : a ∈ (progressAt r (startOf raws fx) (Stage.place "sort_normalize")).entries)
    (hb : b ∈ (progressAt r (startOf raws fx) (Stage.place "sort_normalize")).entries)
    (ha' : a.origin.isSome = true) (hb' : b.origin.isSome = true) :
    a.keyLe b = decide ((rankOf r raws fx a).Le (rankOf r raws fx b)) := by
  obtain ⟨i, hi⟩ := Option.isSome_iff_exists.mp ha'
  obtain ⟨j, hj⟩ := Option.isSome_iff_exists.mp hb'
  obtain ⟨x, hx, hkey, hrank⟩ := exists_rankedKey r raws fx a ha i hi
  obtain ⟨y, hy, hkey', hrank'⟩ := exists_rankedKey r raws fx b hb j hj
  rw [Entry.keyLe, hkey, hkey', hrank, hrank', decide_eq_decide]
  exact rankedKey_le_iff r raws fx h i j x y (List.mem_of_getElem? hx) (List.mem_of_getElem? hy)

/-- Two entries stand in the order of the engine's keys, unless one of these was boosted. -/
def InBucketOrder (a b : Entry) : Prop :=
  ∀ i j x y, a.origin = some i → raws[i]? = some x → isBoostedAt r raws fx i x = false →
    b.origin = some j → raws[j]? = some y → isBoostedAt r raws fx j y = false →
    x.sortText ≤ y.sortText

theorem rankAt_le_of_not_boosted (i j : Nat) (x y : RawEntry)
    (hi : isBoostedAt r raws fx i x = false) (hj : isBoostedAt r raws fx j y = false)
    (hle : (rankAt r raws fx i x).Le (rankAt r raws fx j y)) : x.sortText ≤ y.sortText := by
  have hkey : (rankAt r raws fx i x).key = x.sortText := by
    rw [rankAt, hi, if_neg Bool.false_ne_true]
  have hkey' : (rankAt r raws fx j y).key = y.sortText := by
    rw [rankAt, hj, if_neg Bool.false_ne_true]
  rw [Rank.Le, hkey, hkey'] at hle
  rcases hle with hlt | ⟨heq, _⟩
  · exact String.not_lt.mp (String.lt_asymm hlt)
  · exact heq ▸ String.le_refl x.sortText

theorem inBucketOrder_sortByKey (h : Rankable r raws) :
    (Entry.sortByKey (progressAt r (startOf raws fx)
      (Stage.place "sort_normalize")).entries).Pairwise (InBucketOrder r raws fx) := by
  refine (Entry.sortedByKey_sortByKey _).imp_of_mem fun {a b} ha hb hle => ?_
  rw [(Entry.perm_sortByKey _).mem_iff] at ha hb
  intro i j x y hi hx hplain hj hy hplain'
  obtain ⟨x', hx', hkey, _⟩ := exists_rankedKey r raws fx a ha i hi
  obtain ⟨y', hy', hkey', _⟩ := exists_rankedKey r raws fx b hb j hj
  rw [hx] at hx'
  rw [hy] at hy'
  cases hx'
  cases hy'
  rw [hkey, hkey', rankedKey_le_iff r raws fx h i j x y (List.mem_of_getElem? hx)
    (List.mem_of_getElem? hy)] at hle
  exact rankAt_le_of_not_boosted r raws fx i j x y hplain hplain' hle

/-- Without rules, entries of the engine are shown in the order of their ranks, and as before where
these are equal. Entries with keys that were not boosted keep to the order of the engine's keys. -/
theorem shown_order_by_rank (hrules : r.settings.replaceSuggestions = [])
    (hdone : (enrich r (Entry.ofRawList raws) fx).cancelled = false) (h : Rankable r raws) :
    ((enrich r (Entry.ofRawList raws) fx).entries.filter (·.origin.isSome)).map Entry.shown =
      (((progressAt r (startOf raws fx) (Stage.place "sort_normalize")).entries.filter
        (·.origin.isSome)).mergeSort fun a b =>
          decide ((rankOf r raws fx a).Le (rankOf r raws fx b))).map Entry.shown ∧
    (enrich r (Entry.ofRawList raws) fx).entries.Pairwise (InBucketOrder r raws fx) := by
  have hshown := map_shown_enrich r raws fx hrules hdone
  constructor
  · rw [filter_origin_shown, hshown, ← filter_origin_shown, Entry.sortByKey,
      StableSort.filter_mergeSort Entry.keyLe_trans Entry.keyLe_total]
    congr 1
    refine StableSort.mergeSort_congr _ fun a ha b hb => ?_
    obtain ⟨ha, ha'⟩ := List.mem_filter.mp ha
    obtain ⟨hb, hb'⟩ := List.mem_filter.mp hb
    exact keyLe_eq_rank_le r raws fx h a b ha hb ha' hb'
  · have hsorted : ((Entry.sortByKey (progressAt r (startOf raws fx)
        (Stage.place "sort_normalize")).entries).map Entry.shown).Pairwise
          (InBucketOrder r raws fx) :=
      List.pairwise_map.mpr (inBucketOrder_sortByKey r raws fx h)
    rw [← hshown] at hsorted
    have hfinal := List.pairwise_map.mp hsorted
    exact hfinal

end Run

/-! ### Members of an object -/

def memberTree : SyntaxTree where
  nodes := #[
    { kind := .sourceFile, span := ⟨0, 3⟩, parent := none, children := [1] },
    { kind := .propertyAccessExpression, span := ⟨0, 3⟩, parent := some 0, children := [2, 3] },
    { kind := .identifier, span := ⟨0, 1⟩, parent := some 1, children := [] },
    { kind := .identifier, span := ⟨2, 3⟩, parent := some 1, children := [] }]

/-- Members of an object; one group of the engine's, and one in front of it. -/
def objectMembers : RawCompletions where
  entries := [{ name := "b", kind := "property", sortText := "11", symbol := some 0 },
    { name := "a", kind := "property", sortText := "11" },
    { name := "c", kind := "property", sortText := "11" },
    { name := "d", kind := "property", sortText := "1" }]
  isMemberCompletion := true

def rankingRequest : Request :=
  let property (name : String) : Property := { name, ty := .primitive .string }
  let program : Program := {
    symbols := #[{ name := "b", kind := .property,
                   declarations := [⟨"/p/node_modules/m/index.d.ts", ⟨0, 1⟩⟩] }]
    nodeTypes := [(2, .object { properties := [property "c", property "b", property "a"] })] }
  let request : HostRequest := {
    document := .ofFile "/p/src/index.ts" "o.x" memberTree
    offset := 3
    checker := program.checker }
  Session.stageRequest { settings := { localityBonus := true, fixSuggestionsSorting := true } }
    request objectMembers

theorem shown_order_by_rank_of_object :
    takesEffect rankingRequest (startOf objectMembers.entries {}) "locality_bonus" = true ∧
    takesEffect rankingRequest (startOf objectMembers.entries {}) "fix_properties_sorting" = true ∧
    (Entry.ofRawList objectMembers.entries).map (rankOf rankingRequest objectMembers.entries {}) =
      [⟨"11", 0, 2, 1⟩, ⟨"11", 0, 1, 2⟩, ⟨"11", 0, 1, 0⟩, ⟨"1", 0, 1, 3⟩] ∧
    ((enrich rankingRequest (Entry.ofRawList objectMembers.entries) {}).entries.filter
        (·.origin.isSome)).map Entry.shown =
      (((progressAt rankingRequest (startOf objectMembers.entries {})
        (Stage.place "sort_normalize")).entries.filter (·.origin.isSome)).mergeSort fun a b =>
          decide ((rankOf rankingRequest objectMembers.entries {} a).Le
            (rankOf rankingRequest objectMembers.entries {} b))).map Entry.shown := by
  have hdone : (enrich rankingRequest (Entry.ofRawList objectMembers.entries) {}).cancelled =
      false := cancelled_enrich_of_isQuiet _ _ _ (Program.isQuiet_checker _) rfl
  have hrankable : Rankable rankingRequest objectMembers.entries :=
    ⟨by decide, fun _ => by decide +kernel⟩
  refine ⟨by decide +kernel, by decide +kernel, by decide +kernel, ?_⟩
  exact (shown_order_by_rank rankingRequest objectMembers.entries {} rfl hdone hrankable).1

end CodeCompletion
