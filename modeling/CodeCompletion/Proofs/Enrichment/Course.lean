import CodeCompletion.Proofs.Enrichment.FinalKeys

/-!
# The course of a run

The list before and after each stage of the table, and what the stage makes of it in between. A
stage that is switched off, gives up, breaks down or comes too late in a cancelled request makes
nothing of it. Between two places of the table entries change only in what the stages between
these places touch.
-/

namespace CodeCompletion

/-! ### A stage in its turn -/

def Outcome.isChanged : Outcome → Bool
  | .unchanged => false
  | .changed .. => true

namespace Stage

/-- What a stage makes of the list in its turn; nothing if it is off or comes too late. -/
def turn (stage : Stage) (r : Request) (p : Progress) : Outcome :=
  if stage.enabled r.settings && !p.effects.cancelled then stage.outcome r p else .unchanged

theorem list_turn (stage : Stage) (r : Request) (p : Progress) :
    (runStages r ([stage].filter (·.enabled r.settings)) p).list =
      ((stage.turn r p).entriesOr p.entries, p.deferred.mergeAll (stage.turn r p).aside) := by
  unfold turn
  cases henabled : stage.enabled r.settings with
  | false =>
    have hnone : [stage].filter (·.enabled r.settings) = [] :=
      List.filter_cons_of_neg (by rw [henabled]; exact Bool.false_ne_true)
    rw [hnone]
    rfl
  | true =>
    have hone : [stage].filter (·.enabled r.settings) = [stage] :=
      List.filter_cons_of_pos henabled
    rw [hone, runStages]
    cases p.effects.cancelled with
    | true => rfl
    | false => exact stage.list_advance r p

theorem turn_cases (stage : Stage) (r : Request) (p : Progress) :
    stage.turn r p = .unchanged ∨ (stage.run r p.entries).value = .ok (stage.turn r p) := by
  unfold turn
  split
  · exact stage.outcome_cases r p
  · exact Or.inl rfl

theorem turn_of_silent (stage : Stage) (r : Request) (p : Progress) (o : Outcome)
    (henabled : stage.enabled r.settings = true) (hgo : p.effects.cancelled = false)
    (htrace : (stage.run r p.entries).trace = []) (hvalue : (stage.run r p.entries).value = .ok o) :
    stage.turn r p = o := by
  rw [turn, henabled, hgo, Bool.not_false, Bool.and_true, if_pos rfl, outcome, htrace, hvalue,
    Effects.replay]

def place (name : String) : Nat := table.findIdx (·.name == name)

end Stage

/-! ### From place to place -/

theorem list_runStages_append (r : Request) (front back : List Stage) (p : Progress) :
    (runStages r (front ++ back) p).list = (runStages r back (runStages r front p)).list := by
  induction front generalizing p with
  | nil => rfl
  | cons stage front ih =>
    rw [List.cons_append, runStages, runStages]
    split
    · rename_i hcancelled
      exact (runStages_of_cancelled r back
        { p with effects := p.effects.report (.cancelledBefore stage.name) } hcancelled).1.symm
    · exact ih _

/-- The list before the stage at a place of the table. -/
def progressAt (r : Request) (p : Progress) (k : Nat) : Progress :=
  runStages r ((Stage.table.take k).filter (·.enabled r.settings)) p

def outcomeAt (r : Request) (p : Progress) (k : Nat) : Outcome :=
  match Stage.table[k]? with
  | none => .unchanged
  | some stage => stage.turn r (progressAt r p k)

def takesEffect (r : Request) (p : Progress) (name : String) : Bool :=
  (outcomeAt r p (Stage.place name)).isChanged

section Course

variable (r : Request) (p : Progress) (k : Nat)

theorem progressAt_zero : progressAt r p 0 = p := rfl

theorem progressAt_length :
    progressAt r p Stage.table.length = runStages r (enabledStages r.settings) p := rfl

theorem list_progressAt_succ :
    (progressAt r p (k + 1)).list = ((outcomeAt r p k).entriesOr (progressAt r p k).entries,
      (progressAt r p k).deferred.mergeAll (outcomeAt r p k).aside) := by
  rw [progressAt, List.take_add_one, List.filter_append, list_runStages_append, ← progressAt]
  unfold outcomeAt
  cases Stage.table[k]? with
  | none => rfl
  | some stage => exact stage.list_turn r (progressAt r p k)

theorem entries_progressAt_succ :
    (progressAt r p (k + 1)).entries =
      (outcomeAt r p k).entriesOr (progressAt r p k).entries :=
  congrArg Prod.fst (list_progressAt_succ r p k)

theorem deferred_progressAt_succ :
    (progressAt r p (k + 1)).deferred =
      (progressAt r p k).deferred.mergeAll (outcomeAt r p k).aside :=
  congrArg Prod.snd (list_progressAt_succ r p k)

theorem outcomeAt_cases :
    outcomeAt r p k = .unchanged ∨
      ∃ stage, Stage.table[k]? = some stage ∧
        (stage.run r (progressAt r p k).entries).value = .ok (outcomeAt r p k) := by
  unfold outcomeAt
  split
  · exact Or.inl rfl
  · rename_i stage hstage
    exact (stage.turn_cases r _).imp_right fun hvalue => ⟨stage, hstage, hvalue⟩

theorem outcomeAt_of_stage (stage : Stage) (hstage : Stage.table[k]? = some stage)
    (P : Outcome → Prop)
    (h : ∀ o, (stage.run r (progressAt r p k).entries).value = .ok o → o = .unchanged ∨ P o) :
    outcomeAt r p k = .unchanged ∨ P (outcomeAt r p k) := by
  rcases outcomeAt_cases r p k with hsame | ⟨stage', hstage', hvalue⟩
  · exact Or.inl hsame
  · rw [hstage] at hstage'
    cases hstage'
    exact h _ hvalue

theorem cancelled_progressAt_of_run
    (h : (runStages r (enabledStages r.settings) p).effects.cancelled = false) (k : Nat) :
    (progressAt r p k).effects.cancelled = false := by
  have htable : enabledStages r.settings = (Stage.table.take k).filter (·.enabled r.settings) ++
      (Stage.table.drop k).filter (·.enabled r.settings) := by
    rw [← List.filter_append, List.take_append_drop, enabledStages]
  rw [htable] at h
  have hrest := runStages_append r _ _ p h
  rw [hrest] at h
  by_contra hcancelled
  have hcancelled : (progressAt r p k).effects.cancelled = true := Bool.not_eq_false _ ▸ hcancelled
  have hlater := (runStages_of_cancelled r
    ((Stage.table.drop k).filter (·.enabled r.settings)) _ hcancelled).2.1
  rw [progressAt] at hlater
  rw [hlater] at h
  cases h

theorem entries_progressAt_length
    (h : (runStages r (enabledStages r.settings) p).effects.cancelled = false) :
    (progressAt r p Stage.table.length).entries =
      Entry.sortByKey (progressAt r p (Stage.place "sort_normalize")).entries := by
  rw [progressAt_length]
  rw [enabledStages_eq_append] at h ⊢
  have happend := runStages_append r _ _ p h
  rw [happend] at h ⊢
  rw [runStages_singleton r _ _ h, entries_advance_sortNormalize]
  rfl

end Course

/-! ### What is left between two places -/

namespace Stage

theorem pairwise_names : table.Pairwise fun a b => a.name ≠ b.name := by
  have hnames : (table.map (·.name)).Pairwise (· ≠ ·) := by decide
  exact List.pairwise_map.mp hnames

theorem place_of_getElem? (k : Nat) (stage : Stage) (h : table[k]? = some stage) :
    place stage.name = k := by
  obtain ⟨hk, rfl⟩ := List.getElem?_eq_some_iff.mp h
  rw [place, List.findIdx_eq hk]
  refine ⟨beq_self_eq_true _, fun j hj => beq_eq_false_iff_ne.mpr ?_⟩
  exact List.pairwise_iff_getElem.mp pairwise_names j k (Nat.lt_trans hj hk) hk hj

theorem name_of_getElem?_place (name : String) (stage : Stage)
    (h : table[place name]? = some stage) : stage.name = name := by
  obtain ⟨hlt, rfl⟩ := List.getElem?_eq_some_iff.mp h
  have hname := @List.findIdx_getElem _ (fun stage : Stage => stage.name == name) table hlt
  exact eq_of_beq hname

def touchedBetween (j k : Nat) : List Aspect :=
  ((table.take k).drop j).flatMap fun stage => touchedBy stage.name

theorem touchedBetween_succ (j k : Nat) (hjk : j ≤ k) (stage : Stage)
    (h : table[k]? = some stage) :
    touchedBetween j (k + 1) = touchedBetween j k ++ touchedBy stage.name := by
  have hk : k < table.length := (List.getElem?_eq_some_iff.mp h).1
  have hdrop : (table.take (k + 1)).drop j = (table.take k).drop j ++ [stage] := by
    rw [List.take_add_one, h, List.drop_append_of_le_length]
    · rfl
    · rw [List.length_take]
      omega
  rw [touchedBetween, hdrop, List.flatMap_append, List.flatMap_singleton]
  rfl

theorem touchedBetween_mono (j : Nat) {k k' : Nat} (h : k ≤ k') :
    touchedBetween j k ⊆ touchedBetween j k' := by
  intro aspect haspect
  obtain ⟨stage, hstage, haspect⟩ := List.mem_flatMap.mp haspect
  refine List.mem_flatMap.mpr ⟨stage, ?_, haspect⟩
  exact ((List.take_sublist_take_left h).drop j).subset hstage

end Stage

/-- Where the entries at a place may come from, seen from an earlier place: they were there, or they
are the suggestion that was added in between. -/
def Arrives (r : Request) (p : Progress) (j k : Nat) (e : Entry) : Prop :=
  e ∈ (progressAt r p j).entries ∨
    j ≤ Stage.place "destructuring_suggestion" ∧ Stage.place "destructuring_suggestion" < k ∧
      Stage.Suggests r e

/-- What a stage keeps of entries is kept by all stages between two places. -/
theorem keeps_between (r : Request) (p : Progress) (j k : Nat) (hjk : j ≤ k) (e' : Entry)
    (he' : e' ∈ (progressAt r p k).entries) :
    ∃ e, Arrives r p j k e ∧ e.Keeps (Stage.touchedBetween j k) e' := by
  induction hjk generalizing e' with
  | refl => exact ⟨e', Or.inl he', .refl e'⟩
  | @step k hjk ih =>
    rw [entries_progressAt_succ] at he'
    have harrives (e : Entry) (h : Arrives r p j k e) : Arrives r p j (k + 1) e :=
      h.imp_right fun ⟨hj, hk, hsuggests⟩ => ⟨hj, Nat.lt_succ_of_lt hk, hsuggests⟩
    rcases outcomeAt_cases r p k with hsame | ⟨stage, hstage, hvalue⟩
    · rw [hsame] at he'
      obtain ⟨e, he, hkeeps⟩ := ih e' he'
      exact ⟨e, harrives e he, hkeeps.mono (Stage.touchedBetween_mono j (Nat.le_succ k))⟩
    · rw [Stage.touchedBetween_succ j k hjk stage hstage]
      rcases Stage.keeps_or_added r _ stage (List.mem_of_getElem? hstage) _ hvalue e' he' with
        ⟨mid, hmid, hstep⟩ | ⟨hname, _, hsuggests⟩
      · obtain ⟨e, he, hkeeps⟩ := ih mid hmid
        refine ⟨e, harrives e he, ?_⟩
        exact (hkeeps.mono (List.subset_append_left ..)).trans
          (hstep.mono (List.subset_append_right ..))
      · have hplace := Stage.place_of_getElem? k stage hstage
        rw [hname] at hplace
        refine ⟨e', Or.inr ⟨?_, ?_, hsuggests⟩, .refl e'⟩
        · rw [hplace]
          exact hjk
        · rw [hplace]
          exact Nat.lt_succ_self k

/-! ### Answers without rules -/

theorem progressAt_of_empty (r : Request) (p : Progress) (k : Nat) (h : p.entries = [])
    (hstages : (enabledStages r.settings).any (·.fromEmpty) = false) :
    (progressAt r p k).entries = [] := by
  refine runStages_of_empty r _ p h ?_ ?_
  · intro stage hstage
    exact List.mem_of_mem_take (List.mem_filter.mp hstage).1
  · rw [List.any_eq_false] at hstages ⊢
    intro stage hstage
    exact hstages stage (((List.take_sublist k _).filter _).subset hstage)

/-- A request that is answered as not cancelled was not cancelled in any stage, or there was nothing
to do. -/
theorem run_of_done (r : Request) (entries : List Entry) (fx : Effects)
    (hdone : (enrich r entries fx).cancelled = false) :
    (∀ k, (progressAt r { entries, effects := fx } k).entries = []) ∨
      (runStages r (enabledStages r.settings) { entries, effects := fx }).effects.cancelled =
        false := by
  unfold enrich enrichInFull at hdone
  dsimp only at hdone
  split at hdone
  · rename_i hempty
    rw [Bool.and_eq_true, List.isEmpty_iff, Bool.not_eq_true'] at hempty
    exact Or.inl fun k => progressAt_of_empty r _ k hempty.1 hempty.2
  · refine Or.inr ?_
    split at hdone
    · cases hdone
    · rename_i hcancelled
      exact Bool.not_eq_true _ ▸ hcancelled

theorem progressAt_of_done (r : Request) (entries : List Entry) (fx : Effects)
    (hdone : (enrich r entries fx).cancelled = false) :
    (∀ k, (progressAt r { entries, effects := fx } k).entries = []) ∨
      ∀ k, (progressAt r { entries, effects := fx } k).effects.cancelled = false :=
  (run_of_done r entries fx hdone).imp_right (cancelled_progressAt_of_run r _)

theorem entries_progressAt_of_done (r : Request) (entries : List Entry) (fx : Effects)
    (hdone : (enrich r entries fx).cancelled = false) :
    (progressAt r { entries, effects := fx } Stage.table.length).entries =
      Entry.sortByKey
        (progressAt r { entries, effects := fx } (Stage.place "sort_normalize")).entries := by
  rcases run_of_done r entries fx hdone with hempty | hrun
  · rw [hempty, hempty]
    exact (List.mergeSort_nil).symm
  · exact entries_progressAt_length r _ hrun

/-- Without rules the answer holds the list before the last stage, sorted, with final keys if they
are wanted. -/
theorem entries_enrich_of_no_rules (r : Request) (entries : List Entry) (fx : Effects)
    (hrules : r.settings.replaceSuggestions = [])
    (hdone : (enrich r entries fx).cancelled = false) :
    (enrich r entries fx).entries =
      if r.settings.correctSorting
      then finalizeKeys (progressAt r { entries, effects := fx } Stage.table.length).entries
      else (progressAt r { entries, effects := fx } Stage.table.length).entries := by
  have hruled : ruledEntries r (stagedProgress r entries fx) =
      (progressAt r { entries, effects := fx } Stage.table.length).entries := by
    rw [ruledEntries, hrules, if_pos List.isEmpty_nil, progressAt_length]
    rfl
  rw [entries_enrich r entries fx hdone, entries_finishList, hruled]

end CodeCompletion
