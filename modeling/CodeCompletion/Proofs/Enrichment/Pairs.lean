import CodeCompletion.Proofs.Enrichment.Course
import CodeCompletion.Proofs.Stage.Labels

namespace CodeCompletion

/-! ### What a stage makes of related lists -/

namespace Effects

theorem receive_congr (signals : List Signal) (fx fx' : Effects)
    (h : fx.cancelled = fx'.cancelled) :
    (receive signals fx).2 = (receive signals fx').2 ∧
      (receive signals fx).1.cancelled = (receive signals fx').1.cancelled := by
  induction signals generalizing fx fx' with
  | nil => exact ⟨rfl, h⟩
  | cons signal signals ih =>
    cases signal with
    | cancel => exact ih _ _ rfl
    | crash message => exact ⟨rfl, h⟩

theorem replay_congr (checker : Checker) (acts : List Act) (fx fx' : Effects)
    (h : fx.cancelled = fx'.cancelled) :
    (replay checker acts fx).2 = (replay checker acts fx').2 ∧
      (replay checker acts fx).1.cancelled = (replay checker acts fx').1.cancelled := by
  induction acts generalizing fx fx' with
  | nil => exact ⟨rfl, h⟩
  | cons act acts ih =>
    cases act with
    | report event => exact ih _ _ h
    | remember key verdict => exact ih _ _ h
    | ask q =>
      obtain ⟨hcrash, hcancelled⟩ := receive_congr (checker.signals q) fx fx' h
      rw [replay, replay]
      cases hreceived : receive (checker.signals q) fx with
      | mk received crash =>
        cases hreceived' : receive (checker.signals q) fx' with
        | mk received' crash' =>
          rw [hreceived, hreceived'] at hcrash hcancelled
          dsimp only at hcrash hcancelled
          subst hcrash
          cases crash with
          | none => exact ih _ _ hcancelled
          | some message => exact ⟨rfl, hcancelled⟩

theorem cancelled_receive (signals : List Signal) (fx : Effects) (h : .cancel ∉ signals) :
    (receive signals fx).1.cancelled = fx.cancelled := by
  cases signals with
  | nil => rfl
  | cons signal signals =>
    cases signal with
    | cancel => exact absurd (List.mem_cons_self ..) h
    | crash message => rfl

theorem cancelled_replay (checker : Checker) (acts : List Act) (fx : Effects)
    (h : ∀ q, .ask q ∈ acts → .cancel ∉ checker.signals q) :
    (replay checker acts fx).1.cancelled = fx.cancelled := by
  induction acts generalizing fx with
  | nil => rfl
  | cons act acts ih =>
    have hrest := fun fx => ih fx fun q hq => h q (List.mem_cons_of_mem _ hq)
    cases act with
    | report event => exact hrest _
    | remember key verdict => exact hrest _
    | ask q =>
      have hasked := cancelled_receive (checker.signals q) fx (h q (List.mem_cons_self ..))
      rw [replay]
      cases hreceived : receive (checker.signals q) fx with
      | mk received crash =>
        rw [hreceived] at hasked
        cases crash with
        | none => exact (hrest _).trans hasked
        | some message => exact hasked

end Effects

theorem Stage.cancelled_advance (stage : Stage) (r : Request) (p : Progress) :
    (stage.advance r p).effects.cancelled =
      (p.effects.replay r.checker (stage.run r p.entries).trace).1.cancelled := by
  unfold advance
  dsimp only
  split <;> rfl

theorem forall₂_mem {R : Entry → Entry → Prop} {entries entries' : List Entry}
    (h : List.Forall₂ R entries entries') :
    List.Forall₂ (fun e e' => e ∈ entries ∧ e' ∈ entries' ∧ R e e') entries entries' := by
  induction h with
  | nil => exact .nil
  | cons hR _ ih =>
    refine .cons ⟨List.mem_cons_self .., List.mem_cons_self .., hR⟩ (ih.imp ?_)
    exact fun e e' ⟨he, he', hR⟩ => ⟨List.mem_cons_of_mem _ he, List.mem_cons_of_mem _ he', hR⟩

/-- Two runs are at lists that are related one by one, and both or none of them is cancelled. -/
structure Progress.Alike (R : Entry → Entry → Prop) (p p' : Progress) : Prop where
  entries : List.Forall₂ R p.entries p'.entries
  cancelled : p.effects.cancelled = p'.effects.cancelled

theorem Progress.Alike.refl (p : Progress) : p.Alike Eq p :=
  ⟨List.forall₂_refl _, rfl⟩

theorem Progress.Alike.advance {R S : Entry → Entry → Prop} {p p' : Progress} (h : p.Alike S p')
    (hR : ∀ e e', S e e' → R e e') (stage : Stage) (r r' : Request)
    (hchecker : r.checker = r'.checker)
    (hrun : StageRun.Alike R p.entries p'.entries (stage.run r p.entries)
      (stage.run r' p'.entries)) :
    (stage.advance r p).Alike R (stage.advance r' p') := by
  obtain ⟨hcrash, hcancelled⟩ := Effects.replay_congr r'.checker (stage.run r' p'.entries).trace
    p.effects p'.effects h.cancelled
  have hleft (r : Request) (p : Progress) : (stage.advance r p).entries =
      match (p.effects.replay r.checker (stage.run r p.entries).trace).2 with
      | none => StageRun.left (stage.run r p.entries) p.entries
      | some _ => p.entries := by
    rw [stage.entries_advance, Stage.outcome, StageRun.left]
    cases (p.effects.replay r.checker (stage.run r p.entries).trace).2 with
    | some message => rfl
    | none => cases (stage.run r p.entries).value <;> rfl
  constructor
  · rw [hleft, hleft, hrun.trace, hchecker, hcrash]
    split
    · exact hrun.left
    · exact h.entries.imp hR
  · rw [stage.cancelled_advance, stage.cancelled_advance, hrun.trace, hchecker, hcancelled]

/-! ### Two runs from place to place -/

theorem cancelled_runStages_append (r : Request) (front back : List Stage) (p : Progress) :
    (runStages r (front ++ back) p).effects.cancelled =
      (runStages r back (runStages r front p)).effects.cancelled := by
  induction front generalizing p with
  | nil => rfl
  | cons stage front ih =>
    rw [List.cons_append, runStages, runStages]
    split
    · rename_i hcancelled
      rw [(runStages_of_cancelled r back
        { p with effects := p.effects.report (.cancelledBefore stage.name) } hcancelled).2.1]
      exact hcancelled
    · exact ih _

/-- What is at hand after a stage in its turn; a stage that is off or comes too late changes
neither the list nor the request. -/
def Stage.next (stage : Stage) (r : Request) (p : Progress) : Progress :=
  if stage.enabled r.settings && !p.effects.cancelled then stage.advance r p else p

theorem runStages_filter_singleton (stage : Stage) (r : Request) (p : Progress) :
    (runStages r ([stage].filter (·.enabled r.settings)) p).entries = (stage.next r p).entries ∧
      (runStages r ([stage].filter (·.enabled r.settings)) p).effects.cancelled =
        (stage.next r p).effects.cancelled := by
  unfold Stage.next
  cases henabled : stage.enabled r.settings with
  | false =>
    have hnone : [stage].filter (·.enabled r.settings) = [] :=
      List.filter_cons_of_neg (by rw [henabled]; exact Bool.false_ne_true)
    rw [hnone]
    exact ⟨rfl, rfl⟩
  | true =>
    have hone : [stage].filter (·.enabled r.settings) = [stage] :=
      List.filter_cons_of_pos henabled
    rw [hone, runStages]
    cases p.effects.cancelled <;> exact ⟨rfl, rfl⟩

section Places

variable {R S : Entry → Entry → Prop}

theorem progressAt_succ (r : Request) (p : Progress) (k : Nat) (stage : Stage)
    (hstage : Stage.table[k]? = some stage) :
    (progressAt r p (k + 1)).entries = (stage.next r (progressAt r p k)).entries ∧
      (progressAt r p (k + 1)).effects.cancelled =
        (stage.next r (progressAt r p k)).effects.cancelled := by
  have hnext : Stage.table.take (k + 1) = Stage.table.take k ++ [stage] := by
    rw [List.take_add_one, hstage]
    rfl
  have hlist := list_runStages_append r ((Stage.table.take k).filter (·.enabled r.settings))
    ([stage].filter (·.enabled r.settings)) p
  have hcancelled := cancelled_runStages_append r
    ((Stage.table.take k).filter (·.enabled r.settings))
    ([stage].filter (·.enabled r.settings)) p
  rw [← List.filter_append, ← hnext] at hlist hcancelled
  have hsingle := runStages_filter_singleton stage r (progressAt r p k)
  exact ⟨(congrArg Prod.fst hlist).trans hsingle.1, hcancelled.trans hsingle.2⟩

theorem alike_progressAt_succ (r r' : Request) (p p' : Progress) (k : Nat) (stage : Stage)
    (hstage : Stage.table[k]? = some stage)
    (henabled : stage.enabled r.settings = stage.enabled r'.settings)
    (hchecker : r.checker = r'.checker) (hR : ∀ e e', S e e' → R e e')
    (h : (progressAt r p k).Alike S (progressAt r' p' k))
    (hrun : stage.enabled r.settings = true →
      StageRun.Alike R (progressAt r p k).entries (progressAt r' p' k).entries
        (stage.run r (progressAt r p k).entries) (stage.run r' (progressAt r' p' k).entries)) :
    (progressAt r p (k + 1)).Alike R (progressAt r' p' (k + 1)) := by
  have hnext : (stage.next r (progressAt r p k)).Alike R (stage.next r' (progressAt r' p' k)) := by
    unfold Stage.next
    rw [← henabled, ← h.cancelled]
    split
    · rename_i hturn
      rw [Bool.and_eq_true] at hturn
      exact h.advance hR stage r r' hchecker (hrun hturn.1)
    · exact ⟨h.entries.imp hR, h.cancelled⟩
  obtain ⟨hentries, hcancelled⟩ := progressAt_succ r p k stage hstage
  obtain ⟨hentries', hcancelled'⟩ := progressAt_succ r' p' k stage hstage
  constructor
  · rw [hentries, hentries']
    exact hnext.entries
  · rw [hcancelled, hcancelled']
    exact hnext.cancelled

end Places

end CodeCompletion
