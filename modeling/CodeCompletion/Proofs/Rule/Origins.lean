import CodeCompletion.Proofs.Rule.Scan
import Mathlib.Data.List.InsertIdx

namespace CodeCompletion

def Entry.mapOrigin (f : Option Nat → Option Nat) (e : Entry) : Entry :=
  { e with origin := f e.origin }

def Marked.mapOrigin (f : Option Nat → Option Nat) (m : Marked) : Marked :=
  ⟨m.entry.mapOrigin f, m.touched⟩

namespace Rule

section Origins

variable (f : Option Nat → Option Nat)

theorem keyAt_mapOrigin (passed : List Marked) (m : Marked) (coming : List Marked) (place : Nat) :
    keyAt (passed.map (·.mapOrigin f)) (m.mapOrigin f) (coming.map (·.mapOrigin f)) place =
      keyAt passed m coming place := by
  unfold keyAt
  rw [← List.map_reverse, ← List.map_cons, ← List.map_append, List.getElem?_map, Option.getD_map]
  rfl

theorem act_mapOrigin (action : RuleEdit) (passed : List Marked) (m : Marked)
    (coming : List Marked) (deferred : DeferredMap) :
    act action (passed.map (·.mapOrigin f)) (m.mapOrigin f) (coming.map (·.mapOrigin f)) deferred =
      ⟨(act action passed m coming deferred).passed.map (·.mapOrigin f),
        (act action passed m coming deferred).coming.map (·.mapOrigin f),
        (act action passed m coming deferred).deferred⟩ := by
  cases action with
  | delete => rfl
  | patch p => rfl
  | move offset =>
    simp only [act, List.length_map, keyAt_mapOrigin]
    split
    · rw [List.map_insertIdx]
      rfl
    · rw [List.map_insertIdx]
      rfl
  | duplicate placement p => cases placement <;> rfl

theorem scan_mapOrigin (rule : Rule) (passed coming : List Marked) (deferred : DeferredMap) :
    scan rule (passed.map (·.mapOrigin f)) (coming.map (·.mapOrigin f)) deferred =
      ((scan rule passed coming deferred).1.map (·.mapOrigin f),
        (scan rule passed coming deferred).2) := by
  have hacts (m : Marked) : rule.actsOn (m.mapOrigin f) = rule.actsOn m := rfl
  fun_induction scan rule passed coming deferred with
  | case1 passed deferred =>
    rw [List.map_nil, scan, List.map_reverse]
  | case2 passed deferred m coming hm step hmany ih =>
    rw [List.map_cons, scan, if_pos ((hacts m).trans hm)]
    dsimp only
    rw [if_pos hmany, act_mapOrigin]
    exact ih
  | case3 passed deferred m coming hm step hmany =>
    rw [List.map_cons, scan, if_pos ((hacts m).trans hm)]
    dsimp only
    rw [if_neg hmany, act_mapOrigin, List.map_append, List.map_reverse]
  | case4 passed deferred m coming hm ih =>
    rw [List.map_cons, scan, if_neg (by rw [hacts]; exact hm)]
    exact ih

theorem applyMarked_mapOrigin (rules : List Rule) (l : List Marked) (deferred : DeferredMap) :
    applyMarked rules (l.map (·.mapOrigin f)) deferred =
      ((applyMarked rules l deferred).1.map (·.mapOrigin f), (applyMarked rules l deferred).2) := by
  induction rules generalizing l deferred with
  | nil => rfl
  | cons rule rules ih =>
    have hscan := scan_mapOrigin f rule [] l deferred
    rw [applyMarked, List.foldl_cons]
    dsimp only
    rw [apply]
    rw [List.map_nil] at hscan
    rw [hscan]
    exact ih _ _

theorem applyAll_mapOrigin (rules : List Rule) (document : Document) (entries : List Entry)
    (deferred : DeferredMap) :
    applyAll rules document (entries.map (·.mapOrigin f)) deferred =
      ((applyAll rules document entries deferred).1.map (·.mapOrigin f),
        (applyAll rules document entries deferred).2) := by
  have hmarked := applyMarked_mapOrigin f (rules.filter (·.appliesTo document))
    (entries.map (⟨·, false⟩)) deferred
  have hstart : (entries.map (·.mapOrigin f)).map (Marked.mk · false) =
      (entries.map (Marked.mk · false)).map (·.mapOrigin f) := by
    rw [List.map_map, List.map_map]
    rfl
  unfold applyAll
  rw [hstart, hmarked]
  dsimp only
  rw [List.map_map, List.map_map]
  rfl

end Origins

end Rule

end CodeCompletion
