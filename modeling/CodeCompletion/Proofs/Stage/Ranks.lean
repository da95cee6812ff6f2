import CodeCompletion.Proofs.SortKey.Refinement
import CodeCompletion.Proofs.Stage.Descent
import Mathlib.Data.List.Basic

namespace CodeCompletion

theorem StageRun.value_replace (edit : Entry → Traced (Option (List Entry)))
    (entries : List Entry) :
    (replace edit entries).value = .ok (.replaced (entries.map fun e => (e, (edit e).value))) :=
  congrArg (Except.ok ∘ Outcome.replaced) (Traced.value_each _ entries)

theorem StageRun.entriesOr_replace (edit : Entry → Traced (Option (List Entry)))
    (entries : List Entry) (o : Outcome) (h : (replace edit entries).value = .ok o) :
    o.entriesOr entries = entries.flatMap fun e => (edit e).value.getD [e] := by
  rw [value_replace] at h
  cases h
  unfold Outcome.replaced Outcome.entriesIf
  split
  · exact List.flatMap_map ..
  · rename_i hnone
    have hkept (e : Entry) (he : e ∈ entries) : (edit e).value.getD [e] = [e] := by
      cases hedit : (edit e).value with
      | none => rfl
      | some new =>
        refine absurd (List.any_eq_true.mpr ⟨_, List.mem_map.mpr ⟨e, he, rfl⟩, ?_⟩) hnone
        rw [hedit]
        rfl
    rw [List.flatMap_congr hkept]
    exact (List.flatMap_singleton' entries).symm

/-- The entries after a stage; those before it if it gives up. -/
def StageRun.left (t : Traced (Except StageError Outcome)) (entries : List Entry) : List Entry :=
  match t.value with
  | .error _ => entries
  | .ok o => o.entriesOr entries

theorem StageRun.left_replace (edit : Entry → Traced (Option (List Entry))) (entries : List Entry) :
    left (replace edit entries) entries = entries.flatMap fun e => (edit e).value.getD [e] := by
  rw [left, value_replace]
  exact entriesOr_replace edit entries _ (value_replace edit entries)

theorem StageRun.entriesOr_update (edit : Entry → Traced (Option Entry)) (entries : List Entry)
    (o : Outcome) (h : (update edit entries).value = .ok o) :
    o.entriesOr entries = entries.map fun e => (edit e).value.getD e := by
  rw [entriesOr_replace _ entries o h, List.map_eq_flatMap]
  refine List.flatMap_congr fun e _ => ?_
  rw [Traced.value_bind, Traced.value_pure]
  cases (edit e).value <;> rfl

namespace Stage

variable (r : Request) (entries : List Entry)

/-! ### Expected keywords -/

def boosts (e : Entry) : Bool :=
  !r.isMember && (e.kind == .keyword && (expectedKeywords r).contains e.name &&
    !SortKey.isBoosted e.sortText)

theorem entriesOr_boostKeywords (o : Outcome) (h : (boostKeywords r entries).value = .ok o) :
    o.entriesOr entries =
      entries.map fun e => if boosts r e then e.mapKey SortKey.boost else e := by
  unfold boostKeywords at h
  dsimp only at h
  split at h
  · rename_i hskip
    cases h
    have hkept (e : Entry) : (if boosts r e then e.mapKey SortKey.boost else e) = e := by
      refine if_neg fun hboosts => ?_
      rw [boosts, Bool.and_eq_true, Bool.and_eq_true, Bool.and_eq_true,
        Bool.not_eq_true'] at hboosts
      rw [Bool.or_eq_true, hboosts.1, List.isEmpty_iff] at hskip
      rw [hskip.resolve_left Bool.false_ne_true] at hboosts
      cases hboosts.2.1.2
    simp only [hkept]
    exact (List.map_id _).symm
  · rename_i hskip
    rw [StageRun.entriesOr_update _ entries o h]
    have hmember : r.isMember = false := by
      rw [Bool.or_eq_true, not_or, Bool.not_eq_true] at hskip
      exact hskip.1
    refine List.map_congr_left fun e _ => ?_
    rw [Traced.value_pure, boosts, hmember, Bool.not_false, Bool.true_and]
    split <;> rfl

/-! ### Ranks -/

def typeRank (e : Entry) : UInt16 :=
  if (expectedType r).value.any fun t => (fits r t e).value then 0 else 1

def localityRank (e : Entry) : UInt16 := (locality r e).value.rank

def receiverProperties : List Property :=
  ((Traced.ofOption r.typeOfNode r.memberReceiver?).value.map (·.properties)).getD []

/-- The rank of an entry by its place among these properties. -/
def memberRank (e : Entry) : UInt16 := propertyRank (receiverProperties r) e.insertion

def refined (rank : Entry → UInt16) : Outcome :=
  .entries (entries.map fun e => e.mapKey (SortKey.refine · (rank e)))

theorem boostByType_cases (o : Outcome) (h : (boostByType r entries).value = .ok o) :
    o = .unchanged ∨ o = refined entries (typeRank r) := by
  unfold boostByType at h
  rw [Traced.value_bind] at h
  split at h
  · cases h
    exact Or.inl rfl
  · cases h
    exact Or.inl rfl
  · cases h
    exact Or.inl rfl
  · rename_i t _ _ htype
    cases h
    have hany (e : Entry) : typeRank r e = if (fits r t e).value then 0 else 1 := by
      unfold typeRank
      rw [htype]
      rfl
    rw [Traced.value_each, List.map_map, Outcome.entriesIf]
    split
    · refine Or.inr (congrArg Outcome.entries (List.map_congr_left fun e _ => ?_))
      rw [hany]
      rfl
    · exact Or.inl rfl

theorem boostByLocality_cases (o : Outcome) (h : (boostByLocality r entries).value = .ok o) :
    o = .unchanged ∨ o = refined entries (localityRank r) := by
  unfold boostByLocality at h
  rw [Traced.value_bind] at h
  split at h
  · cases h
    exact Or.inl rfl
  · cases h
    rw [Traced.value_each, List.map_map]
    exact Or.inr rfl

theorem sortProperties_cases (o : Outcome) (h : (sortProperties r entries).value = .ok o) :
    o = .unchanged ∨ r.isMember = true ∧ o = refined entries (memberRank r) := by
  unfold sortProperties at h
  split at h
  · cases h
    exact Or.inl rfl
  · rename_i hmember
    rw [Traced.value_bind] at h
    split at h
    · cases h
      exact Or.inl rfl
    · rename_i t htype
      split at h
      · cases h
        exact Or.inl rfl
      · cases h
        refine Or.inr ⟨by simpa using hmember, ?_⟩
        unfold refined memberRank receiverProperties
        rw [htype]
        rfl

/-! ### What ranks depend on -/

variable (e e' : Entry)

theorem typeRank_congr (hsymbol : e'.symbol = e.symbol)
    (hkeyword : e'.kind = .keyword ↔ e.kind = .keyword) : typeRank r e' = typeRank r e := by
  have hfits (t : Ty) : fits r t e' = fits r t e := by
    unfold fits Request.entryType
    rw [hsymbol]
    simp only [beq_iff_eq, hkeyword]
  simp only [typeRank, hfits]

theorem localityRank_congr (hsymbol : e'.symbol = e.symbol) :
    localityRank r e' = localityRank r e := by
  unfold localityRank locality Request.declarationFile Request.entrySymbol
  rw [hsymbol]

theorem typeRank_lt : (typeRank r e).toNat < 10000 := by
  unfold typeRank
  split <;> decide

theorem localityRank_lt : (localityRank r e).toNat < 10000 := by
  unfold localityRank
  cases (locality r e).value <;> decide

theorem rank?_eq_some (n : Nat) (h : n < 10000) : ∃ rank, rank? n = some rank ∧ rank.toNat = n := by
  refine ⟨n.toUInt16, if_pos (by omega), ?_⟩
  exact Nat.mod_eq_of_lt (by omega)

theorem toNat_memberRank (h : (receiverProperties r).length < 10000) :
    (memberRank r e).toNat = (receiverProperties r).findIdx (·.name == e.insertion) := by
  obtain ⟨unlisted, hunlisted, hlength⟩ := rank?_eq_some _ h
  unfold memberRank propertyRank
  rw [hunlisted]
  cases hfind : (receiverProperties r).findIdx? (·.name == e.insertion) with
  | none =>
    rw [List.findIdx_eq_length_of_false]
    · exact hlength
    · intro p hp
      exact List.findIdx?_eq_none_iff.mp hfind p hp
  | some i =>
    obtain ⟨hi, hfirst⟩ := List.findIdx?_eq_some_iff_findIdx_eq.mp hfind
    obtain ⟨rank, hrank, htoNat⟩ := rank?_eq_some i (by omega)
    rw [hfirst]
    dsimp only [Option.bind_some]
    rw [hrank]
    exact htoNat

end Stage

end CodeCompletion
