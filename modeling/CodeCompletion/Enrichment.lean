import CodeCompletion.Rule.Codec
import CodeCompletion.Rule.Scan
import CodeCompletion.Stage.Table

/-!
# Enrichment of one list

The enabled stages run in order, then the user's rules, and at last every entry gets a unique
sort key. A stage that gives up or breaks down changes nothing. Between stages the request may
turn out to be cancelled; what has been done so far is then the answer.
-/

namespace CodeCompletion

/-! ### Replaying traces -/

/-- What happens beside the work on the list. -/
structure Effects where
  cancelled : Bool := false
  components : ComponentCache := ∅
  log : Array Event := #[]

namespace Effects

def report (fx : Effects) (e : Event) : Effects := { fx with log := fx.log.push e }

def reportAll (fx : Effects) (events : List Event) : Effects := events.foldl report fx

/-- What a checker does while it works on a question. It stops at the first crash, whose
message is then given back. -/
def receive : List Signal → Effects → Effects × Option (Option String)
  | [], fx => (fx, none)
  | .cancel :: rest, fx => receive rest { fx with cancelled := true }
  | .crash message :: _, fx => (fx, some message)

/-- Performs acts in order, up to the first crash of the checker. -/
def replay (checker : Checker) : List Act → Effects → Effects × Option (Option String)
  | [], fx => (fx, none)
  | .report e :: rest, fx => replay checker rest (fx.report e)
  | .remember key verdict :: rest, fx =>
    replay checker rest { fx with components := fx.components.insert key verdict }
  | .ask q :: rest, fx =>
    match receive (checker.signals q) fx with
    | (fx, none) => replay checker rest fx
    | (fx, some message) => (fx, some message)

end Effects

/-! ### Stages -/

/-- The list on its way through the stages. -/
structure Progress where
  entries : List Entry
  deferred : DeferredMap := ∅
  effects : Effects

/-- What a crash is called in the log when the checker gives no message. -/
def unnamedCrash : String := "non-string panic payload"

def Stage.advance (stage : Stage) (r : Request) (p : Progress) : Progress :=
  let result := stage.run r p.entries
  let (fx, crash) := p.effects.replay r.checker result.trace
  match crash, result.value with
  | some message, _ =>
    { p with effects := fx.report (.stageCrashed stage.name (message.getD unnamedCrash)) }
  | none, .error e => { p with effects := fx.report (.stageFailed stage.name e.message) }
  | none, .ok .unchanged => { p with effects := fx }
  | none, .ok (.changed entries delta) =>
    { entries
      deferred := p.deferred.mergeAll delta
      effects := fx.report (.stageChanged stage.name p.entries.length entries.length) }

/-- Runs stages in order until one finds the request cancelled. -/
def runStages (r : Request) : List Stage → Progress → Progress
  | [], p => p
  | stage :: rest, p =>
    if p.effects.cancelled then
      { p with effects := p.effects.report (.cancelledBefore stage.name) }
    else runStages r rest (stage.advance r p)

/-! ### After the stages -/

/-- Applies the user's rules; those that cannot be read are reported first. -/
def applyRules (r : Request) (p : Progress) : Progress :=
  let (rules, errors) := Rule.parseAll 0 r.settings.replaceSuggestions
  let (entries, deferred) := Rule.applyAll rules r.document p.entries p.deferred
  { entries, deferred, effects := p.effects.reportAll (errors.map (.ruleSkipped ·.message)) }

/-- Sorts entries by key and makes every key unique by its place. -/
def finalizeKeys (entries : List Entry) : List Entry :=
  let width := SortKey.indexWidth entries.length
  (Entry.sortByKey entries).mapIdx fun i e => e.mapKey (SortKey.unique width i)

def Progress.prune (p : Progress) : Progress :=
  { p with deferred := p.deferred.restrict (p.entries.map (·.name)) }

def finishList (r : Request) (p : Progress) : Progress :=
  let p := if r.settings.replaceSuggestions.isEmpty then p else applyRules r p
  let p := if r.settings.correctSorting then { p with entries := finalizeKeys p.entries } else p
  p.prune

/-! ### All together -/

structure Enriched where
  entries : List Entry
  deferred : DeferredMap
  cancelled : Bool
  effects : Effects

def enabledStages (settings : Settings) : List Stage :=
  Stage.table.filter (·.enabled settings)

/-- Runs everything on a list, even if there is nothing in it. -/
def enrichInFull (r : Request) (entries : List Entry) (effects : Effects) : Enriched :=
  let p := runStages r (enabledStages r.settings) { entries, effects }
  if p.effects.cancelled then
    { entries := p.entries, deferred := p.deferred, cancelled := true, effects := p.effects }
  else
    let p := finishList r p
    { entries := p.entries, deferred := p.deferred, cancelled := false, effects := p.effects }

/-- The answer to a request. An empty list stays empty unless a stage finds entries of its own. -/
def enrich (r : Request) (entries : List Entry) (effects : Effects) : Enriched :=
  if entries.isEmpty && !(enabledStages r.settings).any (·.fromEmpty) then
    { entries, deferred := ∅, cancelled := false, effects }
  else enrichInFull r entries effects

end CodeCompletion
