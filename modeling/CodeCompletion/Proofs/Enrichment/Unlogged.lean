import CodeCompletion.Proofs.Enrichment.DisplayedOrder
import CodeCompletion.Proofs.Enrichment.Pairs

/-!
# Runs apart from their reports

What is reported is never read again. Where every stage of two requests makes the same of each list
and does the same besides reporting, the requests are answered alike and leave the same behind,
whatever the log says.
-/

namespace CodeCompletion

/-! ### Acts -/

def Act.isReport : Act → Bool
  | .report _ => true
  | .ask _ | .remember .. => false

namespace Effects

theorem receive_unlogged (signals : List Signal) (fx : Effects) :
    receive signals fx.unlogged = ((receive signals fx).1.unlogged, (receive signals fx).2) := by
  induction signals generalizing fx with
  | nil => rfl
  | cons signal signals ih =>
    cases signal with
    | cancel => exact ih { fx with cancelled := true }
    | crash message => rfl

theorem replay_unlogged (checker : Checker) (acts : List Act) (fx : Effects) :
    replay checker (acts.filter (!·.isReport)) fx.unlogged =
      ((replay checker acts fx).1.unlogged, (replay checker acts fx).2) := by
  induction acts generalizing fx with
  | nil => rfl
  | cons act acts ih =>
    cases act with
    | report e => exact ih (fx.report e)
    | remember key verdict =>
      exact ih { fx with components := fx.components.insert key verdict }
    | ask q =>
      have hkept : (Act.ask q :: acts).filter (!·.isReport) =
          .ask q :: acts.filter (!·.isReport) := rfl
      have hreceive := receive_unlogged (checker.signals q) fx
      rw [hkept, replay, replay, hreceive]
      cases hreceived : receive (checker.signals q) fx with
      | mk received crash =>
        cases crash with
        | none => exact ih received
        | some message => rfl

end Effects

/-! ### Stages -/

def Progress.unlogged (p : Progress) : Progress := { p with effects := p.effects.unlogged }

/-- What a stage does in its turn besides reporting: what it makes of the list if nothing goes
wrong, and its acts. -/
def Stage.work (stage : Stage) (r : Request) (entries : List Entry) : Outcome × List Act :=
  if stage.enabled r.settings
  then (stage.run.effect r entries, (stage.run r entries).trace.filter (!·.isReport))
  else (.unchanged, [])

/-- What is at hand after such work. A crash of the checker leaves the list as it was. -/
def Progress.after (p : Progress) (checker : Checker) (work : Outcome × List Act) : Progress :=
  if p.effects.cancelled then p
  else
    let (fx, crash) := p.effects.replay checker work.2
    let outcome := if crash.isSome then .unchanged else work.1
    { entries := outcome.entriesOr p.entries
      deferred := p.deferred.mergeAll outcome.aside
      effects := fx }

theorem Stage.unlogged_advance (stage : Stage) (r : Request) (p : Progress)
    (hgo : p.effects.cancelled = false) :
    (stage.advance r p).unlogged = p.unlogged.after r.checker
      (stage.run.effect r p.entries, (stage.run r p.entries).trace.filter (!·.isReport)) := by
  have hreplay := Effects.replay_unlogged r.checker (stage.run r p.entries).trace p.effects
  have heffects : (stage.advance r p).effects.unlogged =
      (p.effects.replay r.checker (stage.run r p.entries).trace).1.unlogged := by
    unfold advance
    dsimp only
    split <;> rfl
  have houtcome : stage.outcome r p =
      if (p.effects.replay r.checker (stage.run r p.entries).trace).2.isSome then .unchanged
      else stage.run.effect r p.entries := by
    unfold outcome StageRun.effect
    cases (p.effects.replay r.checker (stage.run r p.entries).trace).2 with
    | some message => rfl
    | none => cases (stage.run r p.entries).value <;> rfl
  have hgo' : p.unlogged.effects.cancelled = false := hgo
  rw [Progress.after, hgo', if_neg Bool.false_ne_true]
  dsimp only [Progress.unlogged]
  rw [hreplay]
  dsimp only
  rw [← houtcome, ← heffects, stage.entries_advance]
  exact congrArg (Progress.mk _ · _) (congrArg Prod.snd (stage.list_advance r p))

theorem Stage.unlogged_next (stage : Stage) (r : Request) (p : Progress) :
    (stage.next r p).unlogged = p.unlogged.after r.checker (stage.work r p.entries) := by
  unfold Stage.next Stage.work
  cases hcancelled : p.effects.cancelled with
  | true =>
    rw [Bool.not_true, Bool.and_false, if_neg Bool.false_ne_true, Progress.after]
    exact (if_pos hcancelled).symm
  | false =>
    cases stage.enabled r.settings with
    | true => exact stage.unlogged_advance r p hcancelled
    | false =>
      rw [Bool.false_and, if_neg Bool.false_ne_true, if_neg Bool.false_ne_true, Progress.after]
      exact (ite_self _).symm

theorem unlogged_runStages_of_cancelled (r : Request) (stages : List Stage) (p : Progress)
    (h : p.effects.cancelled = true) : (runStages r stages p).unlogged = p.unlogged := by
  cases stages with
  | nil => rfl
  | cons stage rest =>
    rw [runStages, if_pos h]
    rfl

theorem unlogged_runStages_cons (r : Request) (stage : Stage) (rest : List Stage) (p : Progress) :
    (runStages r ((stage :: rest).filter (·.enabled r.settings)) p).unlogged =
      (runStages r (rest.filter (·.enabled r.settings)) (stage.next r p)).unlogged := by
  unfold Stage.next
  cases hcancelled : p.effects.cancelled with
  | true =>
    rw [Bool.not_true, Bool.and_false, if_neg Bool.false_ne_true,
      unlogged_runStages_of_cancelled r _ p hcancelled,
      unlogged_runStages_of_cancelled r _ p hcancelled]
  | false =>
    cases henabled : stage.enabled r.settings with
    | false =>
      have hrest : (stage :: rest).filter (·.enabled r.settings) =
          rest.filter (·.enabled r.settings) :=
        List.filter_cons_of_neg (by rw [henabled]; exact Bool.false_ne_true)
      rw [hrest]
      rfl
    | true =>
      have hfirst : (stage :: rest).filter (·.enabled r.settings) =
          stage :: rest.filter (·.enabled r.settings) := List.filter_cons_of_pos henabled
      rw [hfirst, runStages, hcancelled]
      rfl

/-! ### Requests with the same work -/

/-- Two requests in which each stage does the same, reports apart, and so do the rules. -/
structure Request.WorksLike (r r' : Request) : Prop where
  document : r.document = r'.document
  checker : r.checker = r'.checker
  work : ∀ stage ∈ Stage.table, ∀ entries, stage.work r entries = stage.work r' entries
  starts : ∀ stage ∈ Stage.table, stage.fromEmpty = true →
    stage.enabled r.settings = stage.enabled r'.settings
  rules : (Rule.parseAll 0 r.settings.replaceSuggestions).1 =
    (Rule.parseAll 0 r'.settings.replaceSuggestions).1
  sorting : r.settings.correctSorting = r'.settings.correctSorting

namespace Request.WorksLike

variable {r r' : Request} (h : r.WorksLike r')

include h

theorem unlogged_runStages (stages : List Stage) (hstages : ∀ stage ∈ stages, stage ∈ Stage.table)
    (p p' : Progress) (hp : p.unlogged = p'.unlogged) :
    (runStages r (stages.filter (·.enabled r.settings)) p).unlogged =
      (runStages r' (stages.filter (·.enabled r'.settings)) p').unlogged := by
  induction stages generalizing p p' with
  | nil => exact hp
  | cons stage rest ih =>
    have hentries : p.entries = p'.entries := congrArg (·.entries) hp
    have hnext : (stage.next r p).unlogged = (stage.next r' p').unlogged := by
      rw [stage.unlogged_next, stage.unlogged_next, hp, hentries, h.checker,
        h.work stage (hstages stage (List.mem_cons_self ..))]
    rw [unlogged_runStages_cons, unlogged_runStages_cons]
    exact ih (fun later hlater => hstages later (List.mem_cons_of_mem _ hlater)) _ _ hnext

theorem unlogged_finishList (p p' : Progress) (hp : p.unlogged = p'.unlogged) :
    (finishList r p).unlogged = (finishList r' p').unlogged := by
  have hstart : p.entries = p'.entries := congrArg (·.entries) hp
  have hkept : p.deferred = p'.deferred := congrArg (·.deferred) hp
  have hrules : Rule.applyAll (Rule.parseAll 0 r.settings.replaceSuggestions).1 r.document p.entries
        p.deferred =
      Rule.applyAll (Rule.parseAll 0 r'.settings.replaceSuggestions).1 r'.document p'.entries
        p'.deferred := by
    rw [h.rules, h.document, hstart, hkept]
  have hruled : (applyRules r p).entries = (applyRules r' p').entries := congrArg (·.1) hrules
  have haside : (applyRules r p).deferred = (applyRules r' p').deferred := congrArg (·.2) hrules
  have hentries : (finishList r p).entries = (finishList r' p').entries := by
    rw [entries_finishList, entries_finishList, ruledEntries_eq, ruledEntries_eq, hruled, h.sorting]
  have hdeferred : (finishList r p).deferred = (finishList r' p').deferred := by
    rw [deferred_finishList, deferred_finishList, haside, hentries]
  have heffects : (finishList r p).effects.unlogged = (finishList r' p').effects.unlogged := by
    rw [unlogged_effects_finishList, unlogged_effects_finishList]
    exact congrArg (·.effects) hp
  rw [Progress.unlogged, Progress.unlogged, hentries, hdeferred, heffects]

theorem enrich_eq (entries : List Entry) (fx : Effects) :
    (enrich r entries fx).entries = (enrich r' entries fx).entries ∧
      (enrich r entries fx).deferred = (enrich r' entries fx).deferred ∧
      (enrich r entries fx).cancelled = (enrich r' entries fx).cancelled ∧
      (enrich r entries fx).effects.unlogged = (enrich r' entries fx).effects.unlogged := by
  have hruns := h.unlogged_runStages Stage.table (fun _ => id) { entries, effects := fx }
    { entries, effects := fx } rfl
  have hcancelled : (runStages r (enabledStages r.settings)
      { entries, effects := fx }).effects.cancelled =
        (runStages r' (enabledStages r'.settings) { entries, effects := fx }).effects.cancelled :=
    congrArg (·.effects.cancelled) hruns
  unfold enrich enrichInFull
  dsimp only
  rw [← startsFromEmpty_congr _ _ h.starts, ← hcancelled]
  split
  · exact ⟨rfl, rfl, rfl, rfl⟩
  · split
    · exact ⟨congrArg (·.entries) hruns, congrArg (·.deferred) hruns, rfl,
        congrArg (·.effects) hruns⟩
    · have hfinish := h.unlogged_finishList _ _ hruns
      exact ⟨congrArg (·.entries) hfinish, congrArg (·.deferred) hfinish, rfl,
        congrArg (·.effects) hfinish⟩

end Request.WorksLike

/-! ### Sessions under two settings -/

namespace Session

/-- A call is answered alike under both settings, and apart from the settings the session is the
same afterwards. -/
structure ServedAlike (s : Session) (a b : Settings) (source : Engine) (request : HostRequest)
    (now : Nat) : Prop where
  answer : (complete { s with settings := a } source request now).value =
    (complete { s with settings := b } source request now).value
  session :
    { (complete { s with settings := a } source request now).session with settings := s.settings } =
      { (complete { s with settings := b } source request now).session with settings := s.settings }

variable {s : Session} {a b c : Settings} {source : Engine} {request : HostRequest} {now : Nat}

theorem ServedAlike.symm (h : s.ServedAlike a b source request now) :
    s.ServedAlike b a source request now := ⟨h.answer.symm, h.session.symm⟩

theorem ServedAlike.trans (hab : s.ServedAlike a b source request now)
    (hbc : s.ServedAlike b c source request now) : s.ServedAlike a c source request now :=
  ⟨hab.answer.trans hbc.answer, hab.session.trans hbc.session⟩

theorem enrichRaw_of_worksLike (s : Session) (request : HostRequest) (now : Nat)
    (h : ∀ r : Request, Request.WorksLike { r with settings := a } { r with settings := b })
    (raw : RawCompletions) :
    (enrichRaw { s with settings := a } request raw now).value =
        (enrichRaw { s with settings := b } request raw now).value ∧
      { (enrichRaw { s with settings := a } request raw now).session with settings := s.settings } =
        { (enrichRaw { s with settings := b } request raw now).session with
          settings := s.settings } := by
  obtain ⟨hentries, hdeferred, hcancelled, heffects⟩ := (h (s.stageRequest request raw)).enrich_eq
    (Entry.ofRawList raw.entries) (s.initialEffects request raw)
  have hcomponents : (enrich { s.stageRequest request raw with settings := a }
      (Entry.ofRawList raw.entries) (s.initialEffects request raw)).effects.components =
    (enrich { s.stageRequest request raw with settings := b }
      (Entry.ofRawList raw.entries) (s.initialEffects request raw)).effects.components :=
    congrArg (·.components) heffects
  unfold stageRequest initialEffects at hentries hdeferred hcancelled hcomponents
  unfold enrichRaw stageRequest
  dsimp only at hentries hdeferred hcancelled hcomponents ⊢
  rw [hentries, hdeferred, hcancelled, hcomponents]
  exact ⟨rfl, rfl⟩

theorem servedAlike_of_worksLike
    (h : ∀ r : Request, Request.WorksLike { r with settings := a } { r with settings := b }) :
    s.ServedAlike a b source request now := by
  have hreply : (complete { s with settings := a } source request now).value =
        (complete { s with settings := b } source request now).value ∧
      { (complete { s with settings := a } source request now).session with
          settings := s.settings } =
        { (complete { s with settings := b } source request now).session with
          settings := s.settings } := by
    unfold complete
    cases source request.document request.offset request.trigger with
    | none => exact ⟨rfl, rfl⟩
    | some raw =>
      cases request.trigger.command with
      | some command => exact ⟨rfl, rfl⟩
      | none =>
        obtain ⟨hvalue, hsession⟩ := enrichRaw_of_worksLike s request now h raw
        exact ⟨congrArg (some ∘ Response.enriched) hvalue, hsession⟩
  exact ⟨hreply.1, hreply.2⟩

end Session

end CodeCompletion
