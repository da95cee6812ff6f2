import CodeCompletion.Proofs.Types.Leaves
import Mathlib.Data.List.Basic

namespace CodeCompletion.Ty

/-! ### What nothing is left to widen of -/

/-- Whether the second type is the first one, or is reached from it by going from unions to their
members. -/
inductive HasPart : Ty → Ty → Prop where
  | self (t : Ty) : HasPart t t
  | member {ms : List Ty} {t u : Ty} (ht : t ∈ ms) (hu : HasPart t u) : HasPart (.union ms) u

/-- Whether no part is a literal type, and every union among the parts has distinct members and not
a single one. -/
structure IsWidened (t : Ty) : Prop where
  no_literal : ∀ u, t.HasPart u → u.isLiteral = false
  distinct : ∀ ms, t.HasPart (.union ms) → ms.Nodup
  not_single : ∀ ms, t.HasPart (.union ms) → ms.length ≠ 1

theorem HasPart.eq_of_not_union {t u : Ty} (h : t.HasPart u) (ht : t.isUnion = false) : u = t := by
  cases h with
  | self => rfl
  | member => cases ht

theorem IsWidened.of_not_union {t : Ty} (hunion : t.isUnion = false) (hliteral : t.isLiteral = false) :
    t.IsWidened where
  no_literal u hu := by rw [hu.eq_of_not_union hunion, hliteral]
  distinct ms hu := by
    rw [← hu.eq_of_not_union hunion] at hunion
    cases hunion
  not_single ms hu := by
    rw [← hu.eq_of_not_union hunion] at hunion
    cases hunion

theorem isWidened_union_iff (ms : List Ty) :
    (union ms).IsWidened ↔ ms.Nodup ∧ ms.length ≠ 1 ∧ ∀ t ∈ ms, t.IsWidened := by
  constructor
  · intro h
    refine ⟨h.distinct ms (.self _), h.not_single ms (.self _), fun t ht => ?_⟩
    exact ⟨fun u hu => h.no_literal u (.member ht hu), fun us hu => h.distinct us (.member ht hu),
      fun us hu => h.not_single us (.member ht hu)⟩
  · rintro ⟨hdistinct, hsingle, hmembers⟩
    constructor
    · intro u hu
      cases hu with
      | self => rfl
      | member ht hu => exact (hmembers _ ht).no_literal u hu
    · intro us hu
      cases hu with
      | self => exact hdistinct
      | member ht hu => exact (hmembers _ ht).distinct us hu
    · intro us hu
      cases hu with
      | self => exact hsingle
      | member ht hu => exact (hmembers _ ht).not_single us hu

/-! ### Distinct members in order -/

/-- Whether `us` has each item of `ts` once, in the order in which they first occur. -/
structure FirstOccurrences (us ts : List Ty) : Prop where
  mem_iff : ∀ u, u ∈ us ↔ u ∈ ts
  ordered : us.Pairwise fun u v => ts.idxOf u < ts.idxOf v

theorem FirstOccurrences.nodup {us ts : List Ty} (h : FirstOccurrences us ts) : us.Nodup :=
  h.ordered.imp fun hlt heq => Nat.ne_of_lt hlt (congrArg ts.idxOf heq)

theorem FirstOccurrences.addNew {us ts : List Ty} (h : FirstOccurrences us ts) (t : Ty) :
    FirstOccurrences (addNew us t) (ts ++ [t]) where
  mem_iff u := by rw [mem_addNew, h.mem_iff, List.mem_append, List.mem_singleton]
  ordered := by
    have hidx (u : Ty) (hu : u ∈ us) : (ts ++ [t]).idxOf u = ts.idxOf u :=
      List.idxOf_append_of_mem ((h.mem_iff u).mp hu)
    have hold : us.Pairwise fun u v => (ts ++ [t]).idxOf u < (ts ++ [t]).idxOf v :=
      h.ordered.imp_of_mem fun hu hv hlt => by rwa [hidx _ hu, hidx _ hv]
    unfold Ty.addNew
    split
    · exact hold
    · rename_i hnew
      rw [List.contains_iff_mem, h.mem_iff] at hnew
      refine List.pairwise_append.mpr ⟨hold, List.pairwise_singleton .., fun u hu v hv => ?_⟩
      have hlt : ts.idxOf u < ts.length := List.idxOf_lt_length_iff.mpr ((h.mem_iff u).mp hu)
      rw [List.mem_singleton.mp hv, hidx u hu, List.idxOf_append_of_notMem hnew]
      exact Nat.lt_of_lt_of_le hlt (Nat.le_add_right ..)

theorem FirstOccurrences.foldl_addNew {us ts : List Ty} (h : FirstOccurrences us ts)
    (rest : List Ty) : FirstOccurrences (rest.foldl Ty.addNew us) (ts ++ rest) := by
  induction rest generalizing us ts with
  | nil => rwa [List.append_nil]
  | cons t rest ih =>
    have hrest := ih (h.addNew t)
    rwa [List.append_assoc] at hrest

theorem firstOccurrences_distinct (ts : List Ty) : FirstOccurrences (distinct ts) ts :=
  FirstOccurrences.foldl_addNew ⟨fun _ => Iff.rfl, List.Pairwise.nil⟩ ts

/-- What has been added stays, so distinct members are only added once more. -/
theorem foldl_addNew_of_nodup (us ts : List Ty) (h : (us ++ ts).Nodup) :
    ts.foldl addNew us = us ++ ts := by
  induction ts generalizing us with
  | nil => exact (List.append_nil us).symm
  | cons t ts ih =>
    have hnew : t ∉ us := fun hthere =>
      (List.nodup_append.mp h).2.2 t hthere t (List.mem_cons_self ..) rfl
    have hstep : addNew us t = us ++ [t] := by
      rw [addNew, if_neg (by rwa [List.contains_iff_mem])]
    have hsplit : us ++ t :: ts = us ++ [t] ++ ts := by
      rw [List.append_assoc, List.singleton_append]
    rw [List.foldl_cons, hstep, hsplit, ih _ (hsplit ▸ h)]

theorem distinct_of_nodup (ts : List Ty) (h : ts.Nodup) : distinct ts = ts :=
  foldl_addNew_of_nodup [] ts h

theorem unionOf_cases (ts : List Ty) :
    unionOf ts = .union (distinct ts) ∧ (distinct ts).length ≠ 1 ∨ distinct ts = [unionOf ts] := by
  unfold unionOf
  split
  · rename_i t hsingle
    exact Or.inr hsingle
  · rename_i hseveral
    refine Or.inl ⟨rfl, fun hlength => ?_⟩
    obtain ⟨t, hsingle⟩ := List.length_eq_one_iff.mp hlength
    exact hseveral t hsingle

/-! ### Widening -/

theorem isWidened_unionOf (ts : List Ty) (h : ∀ t ∈ ts, t.IsWidened) : (unionOf ts).IsWidened := by
  have hdistinct : ∀ t ∈ distinct ts, t.IsWidened := fun t ht => h t ((mem_distinct ts t).mp ht)
  rcases unionOf_cases ts with ⟨hunion, hlength⟩ | hsingle
  · rw [hunion, isWidened_union_iff]
    exact ⟨(firstOccurrences_distinct ts).nodup, hlength, hdistinct⟩
  · exact hdistinct _ (hsingle ▸ List.mem_singleton.mpr rfl)

theorem isWidened_widen (t : Ty) : t.widen.IsWidened := by
  induction t using inductionOnParts with
  | literal l => cases l <;> exact .of_not_union rfl rfl
  | union ms ih =>
    rw [widen, widenAll_eq_map]
    exact isWidened_unionOf _ (List.forall_mem_map.mpr ih)
  | _ => exact .of_not_union rfl rfl

theorem widen_of_isWidened (t : Ty) (h : t.IsWidened) : t.widen = t := by
  induction t using inductionOnParts with
  | literal l => cases h.no_literal _ (.self _)
  | union ms ih =>
    obtain ⟨hdistinct, hlength, hmembers⟩ := (isWidened_union_iff ms).mp h
    have hmap : ms.map widen = ms := by
      rw [List.map_congr_left fun t ht => ih t ht (hmembers t ht), List.map_id']
    rw [widen, widenAll_eq_map, hmap]
    rcases unionOf_cases ms with ⟨hunion, -⟩ | hsingle
    · rw [hunion, distinct_of_nodup ms hdistinct]
    · rw [distinct_of_nodup ms hdistinct] at hsingle
      exact absurd (congrArg List.length hsingle) hlength
  | _ => rfl

/-- A widened type has no literal type left and no repeated or single member in any of its unions,
and widening it again changes nothing. Of a union all widened members are kept, each once and in the
order in which they first occur; a single one stands for itself. -/
theorem widening_normalizes :
    (∀ t, widen (widen t) = widen t ∧ IsWidened (widen t)) ∧
      ∀ ms, ∃ us, FirstOccurrences us (ms.map widen) ∧
        (widen (.union ms) = .union us ∧ us.length ≠ 1 ∨ us = [widen (.union ms)]) := by
  refine ⟨fun t => ⟨widen_of_isWidened _ (isWidened_widen t), isWidened_widen t⟩, fun ms => ?_⟩
  refine ⟨distinct (ms.map widen), firstOccurrences_distinct _, ?_⟩
  rw [widen, widenAll_eq_map]
  exact unionOf_cases _

/- A union of two literals collapses inside another union, where it then is met a second time. -/
example : widen (.union [.union [.stringLiteral "on", .stringLiteral "off"], .undefined,
    .stringLiteral "auto"]) = .union [.string, .undefined] := by decide +kernel

end CodeCompletion.Ty
