import CodeCompletion.Proofs.Deferred.Merge
import Mathlib.Data.List.Nodup

/-!
# Metadata that is passed on

When an entry gets a new name, what is kept under the old name is passed on to the new one. Nothing
is lost on the way. Which edits a name has in the end is told by the names that have passed theirs
on to it, directly or over other names.
-/

namespace CodeCompletion.DeferredMap

/-! ### Nothing is lost -/

theorem getElem?_carry (m : DeferredMap) (source target name : String) :
    (m.carry source target)[name]? =
      if source ≠ target ∧ name = target
      then (m[source]?.map fun d => (m[target]?.getD {}).merge d).or m[target]?
      else m[name]? := by
  unfold carry
  by_cases hsame : source = target
  · simp [hsame]
  · rw [if_neg hsame]
    cases hsource : m[source]? with
    | none =>
      by_cases hname : name = target
      · simp [hname]
      · simp [hname]
    | some d =>
      by_cases hname : name = target
      · simp [hname, hsame, getElem?_mergeAt]
      · simp [hname, getElem?_mergeAt, Ne.symm hname]

/-- What `m` holds under `name` is kept in what `m'` holds under `name'`. -/
def Reaches (m : DeferredMap) (name : String) (m' : DeferredMap) (name' : String) : Prop :=
  ∀ d, m[name]? = some d → ∃ d', m'[name']? = some d' ∧ d.IsKeptIn d'

theorem Reaches.refl (m : DeferredMap) (name : String) : m.Reaches name m name :=
  fun d hd => ⟨d, hd, .refl d⟩

theorem Reaches.trans {a b c : DeferredMap} {x y z : String} (hab : a.Reaches x b y)
    (hbc : b.Reaches y c z) : a.Reaches x c z := by
  intro d hd
  obtain ⟨d', hd', hkept⟩ := hab d hd
  obtain ⟨d'', hd'', hkept'⟩ := hbc d' hd'
  exact ⟨d'', hd'', hkept.trans hkept'⟩

section Carry

variable (m : DeferredMap) (source target : String)

theorem reaches_carry (name : String) : m.Reaches name (m.carry source target) name := by
  intro d hd
  rw [getElem?_carry]
  split
  · rename_i hcarried
    rw [hcarried.2] at hd
    rw [hd]
    cases m[source]? with
    | none => exact ⟨d, rfl, .refl d⟩
    | some later => exact ⟨_, rfl, d.isKeptIn_merge_left later⟩
  · exact ⟨d, hd, .refl d⟩

theorem reaches_carry_target : m.Reaches source (m.carry source target) target := by
  intro d hd
  rw [getElem?_carry]
  by_cases hsame : source = target
  · subst hsame
    simpa using ⟨d, hd, Deferred.IsKeptIn.refl d⟩
  · rw [if_pos ⟨hsame, rfl⟩, hd]
    exact ⟨_, rfl, Deferred.isKeptIn_merge_right _ d⟩

end Carry

def carryAll (m : DeferredMap) (carries : List (String × String)) : DeferredMap :=
  carries.foldl (fun m c => m.carry c.1 c.2) m

theorem reaches_carryAll (m : DeferredMap) (carries : List (String × String)) (name : String) :
    m.Reaches name (m.carryAll carries) name := by
  induction carries generalizing m with
  | nil => exact .refl m name
  | cons c carries ih => exact (m.reaches_carry c.1 c.2 name).trans (ih (m.carry c.1 c.2))

/-! ### Where edits come from -/

def editsAt (m : DeferredMap) (name : String) : List TextEdit :=
  (m[name]?.map (·.additionalEdits)).getD []

theorem editsAt_carry (m : DeferredMap) (source target name : String) :
    (m.carry source target).editsAt name =
      if source ≠ target ∧ name = target then m.editsAt target ++ m.editsAt source
      else m.editsAt name := by
  unfold editsAt
  rw [getElem?_carry]
  split
  · cases m[source]? with
    | none => simp
    | some d => cases m[target]? <;> simp [Deferred.merge]
  · rfl

/-- Whose metadata stands under each name after one more carry. -/
def joinSources (sources : String → List String) (c : String × String) : String → List String :=
  fun name => if c.1 ≠ c.2 ∧ name = c.2 then sources c.2 ++ sources c.1 else sources name

/-- The names whose metadata stands under a name after the carries, in the order in which it came
there, its own first. -/
def sourcesOf (carries : List (String × String)) : String → List String :=
  carries.foldl joinSources fun name => [name]

theorem editsAt_foldl_carry (m m' : DeferredMap) (carries : List (String × String))
    (sources : String → List String)
    (h : ∀ name, m'.editsAt name = (sources name).flatMap m.editsAt) (name : String) :
    (m'.carryAll carries).editsAt name =
      (carries.foldl joinSources sources name).flatMap m.editsAt := by
  induction carries generalizing m' sources with
  | nil => exact h name
  | cons c carries ih =>
    refine ih (m'.carry c.1 c.2) (joinSources sources c) fun name' => ?_
    rw [editsAt_carry, joinSources]
    split
    · rw [h, h, List.flatMap_append]
    · exact h name'

theorem editsAt_carryAll (m : DeferredMap) (carries : List (String × String)) (name : String) :
    (m.carryAll carries).editsAt name = (sourcesOf carries name).flatMap m.editsAt :=
  editsAt_foldl_carry m m carries _ (fun name => by simp) name

def NoEditTwice (m : DeferredMap) : Prop :=
  ∀ (name : String) (d : Deferred), m[name]? = some d → d.additionalEdits.Nodup

theorem noEditTwice_iff (m : DeferredMap) : m.NoEditTwice ↔ ∀ name, (m.editsAt name).Nodup := by
  refine forall_congr' fun name => ?_
  unfold editsAt
  cases m[name]? <;> simp

/-- Carries put no edit twice under a name exactly if the sources of each name share none; a name
that is a source twice shares all its edits with itself. -/
theorem noEditTwice_carryAll_iff (m : DeferredMap) (carries : List (String × String))
    (h : m.NoEditTwice) :
    (m.carryAll carries).NoEditTwice ↔
      ∀ name, (sourcesOf carries name).Pairwise fun a b => (m.editsAt a).Disjoint (m.editsAt b) := by
  rw [noEditTwice_iff] at h ⊢
  refine forall_congr' fun name => ?_
  rw [editsAt_carryAll, List.nodup_flatMap]
  exact and_iff_right fun source _ => h source

end CodeCompletion.DeferredMap
